import TelegramCms.Lib.Pool
import TelegramCms.Model.Editors
import TelegramCms.Model.Http

/-!
# `PATCH /admins/{admin_id}`

`handleUpdateAdmin` of `apigo/handlers_admins.go` and `update_admin` of
`api/routers/admins.py`. Both load the row, ask the database how many active
super-admins there are before they take one away, and then issue one `UPDATE`; each of
these is a statement of its own, and nothing is locked in between. Two things set them
apart: the Python handler assigns the role before it looks at `disabled`, and its
session writes only what it changed.
-/

namespace TelegramCms

inductive Role where
  | editor | admin | superAdmin
deriving DecidableEq, Repr

structure Admin where
  id : Nat
  username : Text
  passwordHash : Text
  role : Role := .editor
  tgUserId : Option Int := none
  disabledAt : Option Time := none
deriving DecidableEq

abbrev Admins := Table Nat Admin Admin.id

/-- `role='super_admin' AND disabled_at IS NULL` -/
def Admin.isActiveSuper (a : Admin) : Bool := a.role = .superAdmin ∧ a.disabledAt = none

/-- `SELECT count(id) FROM admins WHERE role='super_admin' AND disabled_at IS NULL` -/
def countActiveSuperAdmins (t : Admins) : Nat := t.rows.countP Admin.isActiveSuper

/-! ## Requests -/

/-- The columns an `UPDATE admins` assigns. -/
structure AdminSet where
  passwordHash : Option Text := none
  role : Option Role := none
  disabledAt : Option (Option Time) := none
  tgUserId : Option (Option Int) := none
deriving DecidableEq

def AdminSet.apply (s : AdminSet) (a : Admin) : Admin :=
  { a with
    passwordHash := s.passwordHash.getD a.passwordHash
    role := s.role.getD a.role
    disabledAt := s.disabledAt.getD a.disabledAt
    tgUserId := s.tgUserId.getD a.tgUserId }

@[simp] theorem AdminSet.apply_id (s : AdminSet) (a : Admin) : (s.apply a).id = a.id := rfl
@[simp] theorem AdminSet.apply_role (s : AdminSet) (a : Admin) :
    (s.apply a).role = s.role.getD a.role := rfl
@[simp] theorem AdminSet.apply_disabledAt (s : AdminSet) (a : Admin) :
    (s.apply a).disabledAt = s.disabledAt.getD a.disabledAt := rfl
@[simp] theorem AdminSet.apply_tgUserId (s : AdminSet) (a : Admin) :
    (s.apply a).tgUserId = s.tgUserId.getD a.tgUserId := rfl

/-- The body of the request. The fields but `tg_user_id` count as absent when `null`. -/
structure AdminUpdate where
  /-- What `hash_password` makes of the password; the salt is drawn anew for each request. -/
  password : Option Text := none
  role : Option Role := none
  disabled : Option Bool := none
  tgUserId : Option (Option Int) := none
deriving DecidableEq

structure AdminRequest where
  api : Api
  adminId : Nat
  body : AdminUpdate
deriving DecidableEq

section Handler

variable (req : AdminRequest) (adm : Admin)

/-- The role to be assigned, if it is another one than the loaded row has. -/
def AdminRequest.newRole : Option Role :=
  match req.body.role with
  | none => none
  | some role => if role = adm.role then none else some role

/-- A super-admin is about to lose the role. -/
def AdminRequest.demotes : Bool :=
  adm.role = .superAdmin ∧ (req.newRole adm).any (· ≠ .superAdmin)

/-- `admin.role` when `disabled` is looked at: the Python handler has assigned it already. -/
def AdminRequest.roleSeen : Role :=
  match req.api with
  | .go => adm.role
  | .python => (req.newRole adm).getD adm.role

/-- An active super-admin is about to be disabled. -/
def AdminRequest.disables : Bool :=
  req.body.disabled = some true ∧ req.roleSeen adm = .superAdmin ∧ adm.disabledAt = none

/-- What the `UPDATE` assigns, issued at time `now`. -/
def AdminRequest.set (now : Time) : AdminSet :=
  let disabledAt := req.body.disabled.map (fun d => if d then some now else none)
  match req.api with
  | .go =>
    { passwordHash := req.body.password
      role := req.newRole adm
      disabledAt := disabledAt
      tgUserId := req.body.tgUserId }
  | .python =>
    { passwordHash := changed adm.passwordHash (req.body.password.getD adm.passwordHash)
      role := req.newRole adm
      disabledAt := changed adm.disabledAt (disabledAt.getD adm.disabledAt)
      tgUserId := changed adm.tgUserId (req.body.tgUserId.getD adm.tgUserId) }

/-- `b.empty()` -/
def AdminRequest.empty : Bool :=
  req.body.password = none ∧ req.newRole adm = none ∧ req.body.disabled = none
    ∧ req.body.tgUserId = none

end Handler

/-! ## The handler, statement by statement -/

inductive AdminPc where
  | load
  /-- `countActiveSuperAdmins`, before a demotion. -/
  | countDemote (adm : Admin)
  /-- `countActiveSuperAdmins`, before a disabling. -/
  | countDisable (adm : Admin)
  | update (adm : Admin)
  | answered (a : HttpAnswer)
deriving DecidableEq

section Steps

variable (req : AdminRequest) (t : Admins)

def afterDisabled (adm : Admin) : AdminPc :=
  if req.api = .go ∧ req.empty adm then .answered ⟨200, none⟩ else .update adm

def afterRole (adm : Admin) : AdminPc :=
  if req.disables adm then .countDisable adm else afterDisabled req adm

def afterLoad (adm : Admin) : AdminPc :=
  if req.demotes adm then .countDemote adm else afterRole req adm

/-- The table the second count query sees: a session flushes what it changed before it
runs a query, and sees its own writes. -/
def AdminRequest.flushed (adm : Admin) : Admins :=
  match req.api with
  | .go => t
  | .python =>
    t.update req.adminId ({ role := req.newRole adm } : AdminSet).apply (AdminSet.apply_id _)

/-- The unique index on `tg_user_id`. -/
def tgUserIdTaken (t : Admins) (id : Nat) (s : AdminSet) : Bool :=
  match s.tgUserId with
  | some (some u) => t.rows.any (fun a => a.id ≠ id ∧ a.tgUserId = some u)
  | _ => false

def updateAdmin (now : Time) (adm : Admin) : Admins × AdminPc :=
  let s := req.set adm now
  match t.get req.adminId with
  | none => (t, .answered dbError)
  | some _ =>
    if tgUserIdTaken t req.adminId s then (t, .answered dbError)
    else (t.update req.adminId s.apply s.apply_id, .answered ⟨200, none⟩)

/-- One statement of `handleUpdateAdmin` or `update_admin`. -/
def adminStep (now : Time) : AdminPc → Option (Admins × AdminPc)
  | .load =>
    match t.get req.adminId with
    | none => some (t, .answered (.error 404 "admin not found"))
    | some adm => some (t, afterLoad req adm)
  | .countDemote adm =>
    if countActiveSuperAdmins t ≤ 1 then
      some (t, .answered (.error 400 "cannot demote the last super-admin"))
    else some (t, afterRole req adm)
  | .countDisable adm =>
    if countActiveSuperAdmins (req.flushed t adm) ≤ 1 then
      some (t, .answered (.error 400 "cannot disable the last active super-admin"))
    else some (t, afterDisabled req adm)
  | .update adm => some (updateAdmin req t now adm)
  | .answered _ => none

end Steps

/-- A request and where its handler stands. -/
structure AdminCall where
  req : AdminRequest
  pc : AdminPc
deriving DecidableEq

/-- Any number of requests at work on one `admins` table. A step is taken at a time. -/
def adminProgram : Concurrent.Program Admins AdminCall AdminRequest Time where
  enter req := ⟨req, .load⟩
  next t c now := (adminStep c.req t now c.pc).map (fun x => (x.1, some ⟨c.req, x.2⟩))

end TelegramCms
