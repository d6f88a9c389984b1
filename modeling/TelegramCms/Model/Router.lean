import TelegramCms.Model.Auth

/-!
# The Go API behind its router

`apigo/server.go`: which role each route asks for, and the handlers behind it; and of
`apigo/handlers_auth.go` the tokens that a login and a refresh hand out. One request is
served at a time. Between two of them the clock moves on, and the other services work on the
posts.
-/

namespace TelegramCms

/-! ## Routes -/

inductive WriteRoute where
  | createTag
  | updateTag (id : Nat)
  | deleteTag (id : Nat)
  | createTemplate
  | updateTemplate (id : Nat)
  | deleteTemplate (id : Nat)
  | createChannel
  | updateChannel (id : Nat)
  | deleteChannel (id : Nat)
  | updateAISettings (id : Nat)
  | createAdmin
  | updateAdmin (id : Nat)
  | editTags (postId : Nat)
  | decision (postId : Nat)
  | approve (postId : Nat)
  | schedule (postId : Nat)
  | reject (postId : Nat)
deriving DecidableEq, Repr

/-- The routes that only read, `/auth/me` among them. -/
inductive ReadRoute where
  | me | listTags | countTags | listTemplates | listChannels
  | getAISettings (id : Nat) | testAITransform (id : Nat)
  | listAdmins | listQueue
  | getPost (postId : Nat)
  | listEvents
  | listPostEvents (postId : Nat)
deriving DecidableEq, Repr

inductive Route where
  /-- `/auth/login` and `/auth/token`, with what they read from the body. -/
  | login (username password : Text)
  | refresh
  | logout
  | read (r : ReadRoute)
  | write (w : WriteRoute)
deriving DecidableEq, Repr

/-- What `requireRole` is given. -/
def WriteRoute.min : WriteRoute → Role
  | .createTag | .updateTag _ | .deleteTag _ => .admin
  | .createTemplate | .updateTemplate _ | .deleteTemplate _ => .admin
  | .createChannel | .updateChannel _ | .deleteChannel _ | .updateAISettings _ => .admin
  | .createAdmin | .updateAdmin _ => .superAdmin
  | .editTags _ | .decision _ | .approve _ | .schedule _ | .reject _ => .editor

def ReadRoute.min : ReadRoute → Role
  | .listAdmins => .admin
  | _ => .editor

/-- The post that the path names. -/
def WriteRoute.post : WriteRoute → Option Nat
  | .editTags p | .decision p | .approve p | .schedule p | .reject p => some p
  | _ => none

/-! ## The rest of the handlers -/

/-- `DELETE FROM templates`, which the channels that use the template are left without
(`ON DELETE SET NULL`). -/
def Db.deleteTemplate (db : Db) (id : Nat) : Db :=
  { db with
    templates := db.templates.delete id
    channels := db.channels.mapRows
      (fun c => if c.normalizationTemplateId = some id then { c with normalizationTemplateId := none }
        else c)
      (fun c => by split <;> rfl) }

namespace Go

variable (s : Site)

def handleReject (env : ApiEnv) (postId actor : Nat) : Except HttpAnswer (Site × Enqueue) :=
  decide env s postId actor .reject none none

def handleDeleteTag (id : Nat) : Except HttpAnswer Site :=
  match s.db.tags.get id with
  | none => .error (.error 404 "tag not found")
  | some _ => .ok { s with db := s.db.deleteTag id }

def handleDeleteTemplate (id : Nat) : Except HttpAnswer Site :=
  match s.db.templates.get id with
  | none => .error (.error 404 "template not found")
  | some _ => .ok { s with db := s.db.deleteTemplate id }

def handleDeleteChannel (id : Nat) : Except HttpAnswer Site :=
  match s.db.channels.get id with
  | none => .error (.error 404 "source channel not found")
  | some _ =>
    if 0 < s.db.activePosts id then
      .error ⟨409, some ("channel has ".toList ++ Nat.toDigits 10 (s.db.activePosts id)
        ++ (" active post(s) (not yet published or rejected). " ++
          "Reject or wait for them to complete before deleting the channel.").toList)⟩
    else .ok { s with db := s.db.deleteChannel id }

end Go

/-- The handler of a route that writes, on behalf of an admin. -/
def Site.handle (s : Site) (env : ApiEnv) (actor : Nat) (body : Text) :
    WriteRoute → Site × HttpAnswer
  | .createTag => s.serve env body .createTag
  | .updateTag id => s.serve env body (.updateTag id)
  | .deleteTag id => s.reply 204 (Go.handleDeleteTag s id)
  | .createTemplate => s.serve env body .createTemplate
  | .updateTemplate id => s.serve env body (.updateTemplate id)
  | .deleteTemplate id => s.reply 204 (Go.handleDeleteTemplate s id)
  | .createChannel => s.serve env body .createChannel
  | .updateChannel id => s.serve env body (.updateChannel id)
  | .deleteChannel id => s.reply 204 (Go.handleDeleteChannel s id)
  | .updateAISettings id => s.serve env body (.updateAISettings id)
  | .createAdmin => s.serve env body .createAdmin
  | .updateAdmin id => s.serve env body (.updateAdmin id)
  | .editTags p => s.serve env body (.editTags p actor)
  | .decision p => s.serve env body (.decision p actor)
  | .approve p => s.serve env body (.approve p actor)
  | .schedule p => s.serve env body (.schedule p actor)
  | .reject p => s.replyEnqueued (Go.handleReject s env p actor)

/-! ## Serving requests -/

structure HttpRequest where
  route : Route
  authorization : Option Text := none
  /-- The cookie `refresh_token`. -/
  refreshCookie : Option Text := none
  body : Text := []
  /-- What the handlers take from outside, the clock apart. -/
  env : ApiEnv
  /-- What a handler that only reads answers. -/
  found : HttpAnswer := ⟨200, none⟩

/-- The answer to a request. -/
structure HttpReply where
  answer : HttpAnswer
  /-- The access and the refresh token of a `TokenOut`; the latter is also set as a cookie. -/
  tokens : Option (Text × Text) := none
  clearsCookie : Bool := false

/-- Why a token was issued. -/
inductive Cause where
  /-- Somebody gave the password of the account. -/
  | login (row : Admin) (password : Text)
  /-- Somebody had this refresh token. -/
  | refresh (token : Text)

structure Issued where
  token : Text
  tokenType : TokenType
  adminId : Nat
  at_ : Int
  cause : Cause

structure Backend where
  site : Site := {}
  now : Int
  /-- History variable: the tokens that were signed, newest first. -/
  issued : List Issued := []

inductive BackendAction where
  | tick (d : Nat)
  | request (r : HttpRequest)
  /-- The other services, which write no other tables. Their events have no actor; and old
  events are pruned. -/
  | work (posts : Table Nat Post Post.id) (events : List PostEvent)
      (dedupe : Table Digest PublishedDedupe PublishedDedupe.dedupeHash) (queue : List Job)

namespace Backend

variable (J : Jwt) (A : Argon2) (cfg : AuthConfig) (b : Backend)

/-- `tokensFor` -/
def tokensFor (admin : Admin) (t : TokenType) : Text :=
  J.encode .golang cfg.jwtSecret (payloadFor cfg b.now admin t)

def issue (admin : Admin) (cause : Cause) : Backend :=
  { b with issued := [TokenType.access, .refresh].map (fun t =>
      ⟨b.tokensFor J cfg admin t, t, admin.id, b.now, cause⟩) ++ b.issued }

/-- What a login and a refresh answer. -/
def tokenOut (admin : Admin) (cause : Cause) : Backend × Option HttpReply :=
  (b.issue J cfg admin cause,
    some ⟨⟨200, none⟩, some (b.tokensFor J cfg admin .access, b.tokensFor J cfg admin .refresh),
      false⟩)

/-- `handleLoginJSON` and `handleLoginForm`. No answer is a dropped connection. -/
def login (username password : Text) : Backend × Option HttpReply :=
  match Go.handleLogin A b.site.admins username password with
  | none => (b, none)
  | some (.error a) => (b, some ⟨a, none, false⟩)
  | some (.ok admin) => b.tokenOut J cfg admin (.login admin password)

/-- The token that `handleRefresh` looks at: the cookie before the body. -/
def refreshToken (r : HttpRequest) : Text :=
  let cookie := r.refreshCookie.getD []
  if cookie = [] then
    ((Go.field none (Go.intoPtr · Go.str []) (structBody r.body).1 "refresh_token").1).getD []
  else cookie

def refresh (r : HttpRequest) : Backend × Option HttpReply :=
  let token := refreshToken r
  if token = [] then (b, some ⟨.error 401 "missing refresh token", none, false⟩)
  else
    match Go.decodeToken J cfg b.now token with
    | none => (b, some ⟨.error 401 "invalid refresh token", none, false⟩)
    | some c =>
      if c.tokenType ≠ TokenType.refresh.value then
        (b, some ⟨.error 401 "invalid refresh token", none, false⟩)
      else
        match getAdminByID b.site.admins c.adminId with
        | none => (b, some ⟨.error 401 "admin not found", none, false⟩)
        | some admin => b.tokenOut J cfg admin (.refresh token)

/-- The admin a request is let in for by `requireRole`. -/
def admits (min : Role) (r : HttpRequest) : Except HttpAnswer Admin :=
  Go.requireRole J cfg b.now b.site.admins min r.authorization

/-- The clock of the handlers. -/
def apiEnv (r : HttpRequest) : ApiEnv := { r.env with now := b.now / 1000 }

def serve (r : HttpRequest) : Backend × Option HttpReply :=
  match r.route with
  | .login username password => b.login J A cfg username password
  | .refresh => b.refresh J cfg r
  | .logout => (b, some ⟨⟨204, none⟩, none, true⟩)
  | .read route =>
    match b.admits J cfg route.min r with
    | .error a => (b, some ⟨a, none, false⟩)
    | .ok _ => (b, some ⟨r.found, none, false⟩)
  | .write route =>
    match b.admits J cfg route.min r with
    | .error a => (b, some ⟨a, none, false⟩)
    | .ok admin =>
      ({ b with site := (b.site.handle (b.apiEnv r) admin.id r.body route).1 },
        some ⟨(b.site.handle (b.apiEnv r) admin.id r.body route).2, none, false⟩)

def step : BackendAction → Option Backend
  | .tick d => some { b with now := b.now + d }
  | .request r => some (b.serve J A cfg r).1
  | .work posts events dedupe queue =>
    if ∀ e ∈ events, e.actorAdminId = none ∨ e ∈ b.site.db.events then
      some { b with site := { b.site with
        db := { b.site.db with posts := posts, events := events, dedupe := dedupe }
        queue := queue } }
    else none

end Backend

end TelegramCms
