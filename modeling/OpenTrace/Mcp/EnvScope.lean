import OpenTrace.Library.Bytes

/-!
# Environment scopes

The environments that an authenticated caller may read or write, and the environment that a tool call
targets. The log line of the legacy fallback is left out; the default environment is given.
-/

namespace OpenTrace.Mcp

open Library

/-- The legacy scope value that allows any environment. -/
def wildcardEnv : Bytes := ascii "*"

structure EnvScope where
  allowed : List Bytes
  deriving DecidableEq, Repr

namespace EnvScope

section

variable (s : EnvScope)

def allowsAll : Bool := s.allowed.contains wildcardEnv

def allows (env : Bytes) : Bool := s.allowsAll || s.allowed.contains env

/-- The single environment that the scope is pinned to. -/
def soleEnv : Option Bytes :=
  match s.allowed with
  | [env] => if env = wildcardEnv then none else some env
  | _ => none

def isLegacyWildcard : Bool := s.allowed = [wildcardEnv]

def isEmpty : Bool := s.allowed.isEmpty

end

end EnvScope

/-- The errors of `ResolveEnv`, with the values that their texts show. -/
inductive EnvError
  | notAuthorized (requested : Bytes) (allowed : List Bytes)
  | noScope
  | environmentRequired (allowed : List Bytes)
  deriving DecidableEq, Repr

/-- `ResolveEnv`; an empty `requested` means that the argument was not passed, and no scope that the
call did not come through the middleware. -/
def resolveEnv (defaultEnv : Bytes) (scope : Option EnvScope) (requested : Bytes) :
    Except EnvError Bytes :=
  match scope with
  | none => .ok requested
  | some scope =>
    if requested ≠ [] then
      if !scope.allows requested then .error (.notAuthorized requested scope.allowed)
      else .ok requested
    else
      match scope.soleEnv with
      | some env => .ok env
      | none =>
        if scope.isLegacyWildcard then .ok defaultEnv
        else if scope.isEmpty then .error .noScope
        else .error (.environmentRequired scope.allowed)

end OpenTrace.Mcp
