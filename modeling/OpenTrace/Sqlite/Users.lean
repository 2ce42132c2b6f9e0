import Mathlib.Data.Int.Notation
import OpenTrace.Library.Machine
import OpenTrace.Library.Table

/-!
# User store

The users table and the operations that can take away an administrator: `Update`, `Delete`, and the
admin tools that call them. Each operation is one transaction that checks, where it demotes,
deactivates or deletes a user, that this user is not the last active administrator. Transactions are
serialisable, so the store is a machine over operations; an operation whose transaction fails leaves
the table as it was. `active_admin_remains` is the invariant of the table over any operations.
-/

namespace OpenTrace.Sqlite

open Library

/-! ### The table -/

inductive UserRole
  | admin
  | member
  deriving DecidableEq, Repr

/-- A row without its key. The columns `is_active` and `mcp_enabled` are integers. -/
structure User where
  displayName : String
  role : UserRole
  mcpEnabled : ℤ
  isActive : ℤ
  allowedEnvironments : List String
  updatedAt : String
  deriving DecidableEq, Repr

/-- The table, by user id. -/
abbrev Users := Table String User

/-- The fields that are set are changed. -/
structure UpdateUserParams where
  displayName : Option String
  role : Option UserRole
  mcpEnabled : Option Bool
  isActive : Option Bool
  allowedEnvironments : Option (List String)
  deriving DecidableEq, Repr

inductive UserError
  | notFound
  | lastAdmin
  | failed
  deriving DecidableEq, Repr

def User.isActiveAdmin (user : User) : Bool := user.role = .admin ∧ user.isActive = 1

/-! ### Operations -/

def boolToInt64 (flag : Bool) : ℤ := if flag then 1 else 0

/-- The number of active administrators other than the user. -/
def otherAdmins (users : Users) (id : String) : ℕ :=
  users.rows.countP fun row ↦ row.2.isActiveAdmin ∧ row.1 ≠ id

/-- Refuses for the only active administrator. -/
def checkLastAdminTx (users : Users) (id : String) : Except UserError Unit :=
  match users.get id with
  | none => .error .notFound
  | some user =>
    if user.role ≠ .admin ∨ user.isActive ≠ 1 then .ok ()
    else if otherAdmins users id = 0 then .error .lastAdmin
    else .ok ()

/-- The update takes the administrator's role away or deactivates the user. -/
def UpdateUserParams.demotesAdmin (params : UpdateUserParams) : Bool :=
  params.role = some .member ∨ params.isActive = some false

def UpdateUserParams.apply (params : UpdateUserParams) (now : String) (user : User) : User where
  displayName := params.displayName.getD user.displayName
  role := params.role.getD user.role
  mcpEnabled := (params.mcpEnabled.map boolToInt64).getD user.mcpEnabled
  isActive := (params.isActive.map boolToInt64).getD user.isActive
  allowedEnvironments := params.allowedEnvironments.getD user.allowedEnvironments
  updatedAt := now

/-- `UPDATE users SET … WHERE id = ?`; no affected row is an error. -/
def updateRow (users : Users) (id now : String) (params : UpdateUserParams) :
    Except UserError Users :=
  match users.get id with
  | none => .error .notFound
  | some user => .ok (users.set id (params.apply now user))

/-- The body of the transaction of `Update`. -/
def updateTx (users : Users) (id now : String) (params : UpdateUserParams) :
    Except UserError Users :=
  (if params.demotesAdmin then checkLastAdminTx users id else .ok ()).bind fun _ ↦
    updateRow users id now params

/-- `DELETE FROM users WHERE id = ?`; no affected row is an error. -/
def deleteRow (users : Users) (id : String) : Except UserError Users :=
  match users.get id with
  | none => .error .notFound
  | some _ => .ok (users.erase id)

/-- The body of the transaction of `Delete`. -/
def deleteTx (users : Users) (id : String) : Except UserError Users :=
  (checkLastAdminTx users id).bind fun _ ↦ deleteRow users id

inductive Operation
  | update (id now : String) (params : UpdateUserParams)
  | delete (id : String)
  deriving DecidableEq, Repr

def Operation.body (users : Users) : Operation → Except UserError Users
  | .update id now params => updateTx users id now params
  | .delete id => deleteTx users id

/-- `RunInTx`: the table changes only if the body succeeds and the commit does. -/
def runInTx (users : Users) (body : Except UserError Users) (commits : Bool) :
    Users × Except UserError Unit :=
  match body with
  | .error error => (users, .error error)
  | .ok changed => if commits then (changed, .ok ()) else (users, .error .failed)

/-! ### The admin tools -/

/-- The calls of the admin tools, with their arguments as they arrive. -/
inductive AdminCall
  | updateRole (userID role now : String)
  | toggleActive (userID : String) (isActive : Option Bool) (now : String)
  | deleteUser (userID : String)
  deriving DecidableEq, Repr

def noParams : UpdateUserParams := ⟨none, none, none, none, none⟩

def userIDRequired : String := "user_id is required. Use admin with action=users to find user IDs."

/-- The operation a call runs, or the text of the error it answers with. -/
def AdminCall.operation : AdminCall → Except String Operation
  | .updateRole userID role now =>
    if userID = "" then .error userIDRequired
    else if role = "admin" then .ok (.update userID now { noParams with role := some .admin })
    else if role = "member" then .ok (.update userID now { noParams with role := some .member })
    else .error "role must be 'admin' or 'member'."
  | .toggleActive userID isActive now =>
    if userID = "" then .error userIDRequired
    else
      match isActive with
      | none => .error "is_active is required (true or false)."
      | some active => .ok (.update userID now { noParams with isActive := some active })
  | .deleteUser userID =>
    if userID = "" then .error userIDRequired else .ok (.delete userID)

/-- A direct use of the store, or a call of an admin tool. The flag says whether the commit goes
through. -/
inductive UserRequest
  | store (operation : Operation) (commits : Bool)
  | admin (call : AdminCall) (commits : Bool)
  deriving DecidableEq, Repr

inductive UserAnswer
  | stored (result : Except UserError Unit)
  | refused (text : String)

def userMachine : Machine UserRequest UserAnswer Users where
  step := fun users request ↦
    match request with
    | .store operation commits =>
      ((runInTx users (operation.body users) commits).1,
        .stored (runInTx users (operation.body users) commits).2)
    | .admin call commits =>
      match call.operation with
      | .error text => (users, .refused text)
      | .ok operation =>
        ((runInTx users (operation.body users) commits).1,
          .stored (runInTx users (operation.body users) commits).2)

/-! ### The last administrator -/

/-- Some active administrator exists. -/
def HasActiveAdmin (users : Users) : Prop :=
  ∃ id user, users.get id = some user ∧ user.isActiveAdmin = true

theorem isActiveAdmin_iff {user : User} :
    user.isActiveAdmin = true ↔ user.role = .admin ∧ user.isActive = 1 := by
  simp [User.isActiveAdmin]

variable {id : String} {users changed : Users}

/-- When the check passes, the user is no active administrator or there is another one. -/
theorem checkLastAdminTx_eq_ok {users : Users} (hcheck : checkLastAdminTx users id = .ok ()) :
    (∀ user, users.get id = some user → user.isActiveAdmin = false) ∨
      ∃ other user, other ≠ id ∧ users.get other = some user ∧ user.isActiveAdmin = true := by
  unfold checkLastAdminTx at hcheck
  cases huser : users.get id with
  | none => exact .inl fun user hsome ↦ by cases hsome
  | some user =>
    simp only [huser] at hcheck
    split_ifs at hcheck with hordinary hothers
    · refine .inl fun found hfound ↦ ?_
      obtain rfl : user = found := Option.some.inj hfound
      rw [Bool.eq_false_iff, ne_eq, isActiveAdmin_iff, not_and_or]
      exact hordinary
    · obtain ⟨row, hrow, hadmin⟩ := List.countP_pos_iff.mp (Nat.pos_of_ne_zero hothers)
      rw [decide_eq_true_eq] at hadmin
      exact .inr ⟨row.1, row.2, hadmin.2, users.mem_rows.mp hrow, hadmin.1⟩

/-- An operation that leaves the other rows alone, and was checked, keeps an active administrator. -/
theorem hasActiveAdmin_of_check (hadmin : HasActiveAdmin users)
    (hcheck : checkLastAdminTx users id = .ok ())
    (hothers : ∀ other, other ≠ id → changed.get other = users.get other) :
    HasActiveAdmin changed := by
  have hother : ∃ other user, other ≠ id ∧ users.get other = some user ∧
      user.isActiveAdmin = true := by
    rcases checkLastAdminTx_eq_ok hcheck with hordinary | hother
    · obtain ⟨other, user, huser, hactive⟩ := hadmin
      refine ⟨other, user, fun hsame ↦ ?_, huser, hactive⟩
      rw [hordinary user (hsame ▸ huser)] at hactive
      cases hactive
    · exact hother
  obtain ⟨other, user, hne, huser, hactive⟩ := hother
  exact ⟨other, user, (hothers other hne).trans huser, hactive⟩

/-- An update that does not demote leaves an active administrator one. -/
theorem isActiveAdmin_apply {params : UpdateUserParams} {user : User} (now : String)
    (hparams : params.demotesAdmin = false) (huser : user.isActiveAdmin = true) :
    (params.apply now user).isActiveAdmin = true := by
  simp only [UpdateUserParams.demotesAdmin, decide_eq_false_iff_not, not_or] at hparams
  obtain ⟨hrole, hactive⟩ := isActiveAdmin_iff.mp huser
  refine isActiveAdmin_iff.mpr ⟨?_, ?_⟩
  · change params.role.getD user.role = .admin
    cases hset : params.role with
    | none => exact hrole
    | some role =>
      cases role with
      | admin => rfl
      | member => exact absurd hset hparams.1
  · change (params.isActive.map boolToInt64).getD user.isActive = 1
    cases hset : params.isActive with
    | none => exact hactive
    | some active =>
      cases active with
      | true => rfl
      | false => exact absurd hset hparams.2

theorem hasActiveAdmin_updateRow {id now : String} {params : UpdateUserParams}
    (hadmin : HasActiveAdmin users)
    (hchecked : params.demotesAdmin = true → checkLastAdminTx users id = .ok ())
    (hrow : updateRow users id now params = .ok changed) : HasActiveAdmin changed := by
  unfold updateRow at hrow
  cases huser : users.get id with
  | none => simp [huser] at hrow
  | some user =>
    simp only [huser, Except.ok.injEq] at hrow
    subst hrow
    cases hdemotes : params.demotesAdmin with
    | true =>
      exact hasActiveAdmin_of_check hadmin (hchecked hdemotes) fun other hne ↦
        users.get_set_of_ne hne _
    | false =>
      obtain ⟨other, found, hfound, hactive⟩ := hadmin
      by_cases hsame : other = id
      · subst hsame
        obtain rfl : user = found := Option.some.inj (huser.symm.trans hfound)
        exact ⟨other, _, users.get_set_self other _, isActiveAdmin_apply now hdemotes hactive⟩
      · exact ⟨other, found, (users.get_set_of_ne hsame _).trans hfound, hactive⟩

theorem hasActiveAdmin_deleteRow (hadmin : HasActiveAdmin users)
    (hchecked : checkLastAdminTx users id = .ok ()) (hrow : deleteRow users id = .ok changed) :
    HasActiveAdmin changed := by
  unfold deleteRow at hrow
  cases huser : users.get id with
  | none => simp [huser] at hrow
  | some user =>
    simp only [huser, Except.ok.injEq] at hrow
    subst hrow
    exact hasActiveAdmin_of_check hadmin hchecked fun other ↦ users.get_erase_of_ne

theorem bind_eq_ok {check : Except UserError Unit} {body : Unit → Except UserError Users}
    {changed : Users} (hbind : check.bind body = .ok changed) :
    check = .ok () ∧ body () = .ok changed := by
  cases check with
  | error error => cases hbind
  | ok done => exact ⟨rfl, hbind⟩

/-- One transaction keeps an active administrator. -/
theorem hasActiveAdmin_runInTx {users : Users} (hadmin : HasActiveAdmin users)
    (operation : Operation) (commits : Bool) :
    HasActiveAdmin (runInTx users (operation.body users) commits).1 := by
  unfold runInTx
  cases hbody : operation.body users with
  | error error => exact hadmin
  | ok changed =>
    split_ifs
    · cases operation with
      | update id now params =>
        obtain ⟨hchecked, hrow⟩ := bind_eq_ok hbody
        refine hasActiveAdmin_updateRow hadmin (fun hdemotes ↦ ?_) hrow
        rwa [if_pos hdemotes] at hchecked
      | delete id =>
        obtain ⟨hchecked, hrow⟩ := bind_eq_ok hbody
        exact hasActiveAdmin_deleteRow hadmin hchecked hrow
    · exact hadmin

/-- Starting from a table with an active administrator, there is one after any operations. -/
theorem active_admin_remains (users : Users) (hadmin : HasActiveAdmin users)
    (requests : List UserRequest) : HasActiveAdmin (userMachine.after users requests) := by
  refine userMachine.invariant (motive := HasActiveAdmin) hadmin (fun state request hstate ↦ ?_)
    requests
  cases request with
  | store operation commits => exact hasActiveAdmin_runInTx hstate operation commits
  | admin call commits =>
    cases hcall : call.operation with
    | error text =>
      simp only [userMachine, hcall]
      exact hstate
    | ok operation =>
      simp only [userMachine, hcall]
      exact hasActiveAdmin_runInTx hstate operation commits

/-- Two administrators, of whom one is demoted and the other asks to be deleted. -/
theorem active_admin_remains_witness : HasActiveAdmin (userMachine.after
      ((Table.empty.set "a" ⟨"", .admin, 0, 1, [], ""⟩).set "b" ⟨"", .admin, 0, 1, [], ""⟩)
      [.admin (.updateRole "a" "member" "") true, .store (.delete "b") true]) :=
  active_admin_remains _ ⟨"b", ⟨"", .admin, 0, 1, [], ""⟩, by decide, by decide⟩
    [.admin (.updateRole "a" "member" "") true, .store (.delete "b") true]

end OpenTrace.Sqlite
