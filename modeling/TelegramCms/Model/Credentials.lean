import TelegramCms.Model.Endpoints
import TelegramCms.Model.Passwords

/-!
# Accounts and their passwords over time

`POST /admins` and `PATCH /admins/{id}` of the Go API one after another, with a record of the
accounts that were created and of the passwords that were set, and the login of
`apigo/handlers_auth.go`.
-/

namespace TelegramCms

section Login

variable (A : Argon2)

/-- `handleLoginJSON` and `handleLoginForm` once they have read a name and a password, with
`authenticateLogin`: the account that tokens are issued for. `none` is a panic in the
handler, which drops the connection. -/
def Go.handleLogin (t : Admins) (username password : Text) : Option (Except HttpAnswer Admin) :=
  if username = [] ∨ password = [] then
    some (.error (.error 422 "username and password are required"))
  else
    match t.rows.find? (fun a => a.username = username ∧ a.disabledAt = none) with
    | none => some (.error (.error 401 "Incorrect username or password"))
    | some admin =>
      (Passwords.verifyPassword A password admin.passwordHash).map (fun ok =>
        if ok then .ok admin else .error (.error 401 "Incorrect username or password"))

/-- `hashPassword`, which does not fail. -/
def Passwords.hashed (salt : Vector UInt8 argonSaltLen) (password : Text) : Text :=
  (hashPassword A salt password).getD []

end Login

/-- The two endpoints that write credentials. -/
inductive CredentialCall where
  | create
  | update (adminId : Nat)
deriving DecidableEq, Repr

/-- A request, with what its handler takes from outside. -/
structure CredentialRequest where
  env : ApiEnv
  /-- Of the hash, should one be made. -/
  salt : Vector UInt8 Passwords.argonSaltLen
  call : CredentialCall
  body : Text

/-- A site, and what was done to its accounts so far. -/
structure Accounts where
  site : Site
  created : List Nat := []
  passwords : List (Nat × Text) := []

namespace Go

/-- `in.Username` of `handleCreateAdmin` -/
def sentUsername (body : Text) : Text := (field [] intoStr (structBody body).1 "username").1

/-- `in.Password` of `handleCreateAdmin` -/
def sentPassword (body : Text) : Text := (field [] intoStr (structBody body).1 "password").1

/-- `pw` of `handleUpdateAdmin`, if the body has one. -/
def newPassword (body : Text) : Option Text :=
  match decodePatchBody (decodeJSON body) with
  | none => none
  | some fields => (presentNotNull str fields "password").join

end Go

section Serve

variable (A : Argon2)

def CredentialRequest.api (r : CredentialRequest) : ApiEnv :=
  { r.env with hashPassword := Passwords.hashed A r.salt }

/-- A request is served; one that is turned down leaves no record. -/
def Accounts.serve (h : Accounts) (r : CredentialRequest) : Accounts :=
  match r.call with
  | .create =>
    match Go.handleCreateAdmin (r.api A) h.site r.body with
    | .error _ => h
    | .ok site =>
      { site := site
        created := h.site.admins.fresh :: h.created
        passwords := (h.site.admins.fresh, Go.sentPassword r.body) :: h.passwords }
  | .update id =>
    match Go.handleUpdateAdmin (r.api A) h.site id r.body with
    | .error _ => h
    | .ok site =>
      { site := site
        created := h.created
        passwords := ((Go.newPassword r.body).toList.map (fun pw => (id, pw))) ++ h.passwords }

/-- Any request may come next. -/
def Accounts.step (h : Accounts) (r : CredentialRequest) : Option Accounts := some (h.serve A r)

end Serve

end TelegramCms
