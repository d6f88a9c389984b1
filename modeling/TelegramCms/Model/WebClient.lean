import TelegramCms.Lib.Pool
import TelegramCms.Model.Router

/-!
# The web client

`apiFetch` of `web/lib/api.ts` as the pages of one browser call it, any number of times at
once. A request may get lost on its way, and so may its answer; in between the other clients
of the API and the other services go on.
-/

namespace TelegramCms

/-- The paths below `/auth`. -/
def Route.sendsCookie : Route → Bool
  | .login _ _ | .refresh | .logout | .read .me => true
  | _ => false

/-- `res.ok` -/
def HttpAnswer.isOk (a : HttpAnswer) : Bool := 200 ≤ a.status ∧ a.status < 300

namespace Web

/-- What the browser keeps of a session. -/
structure Browser where
  /-- `tg-cms-token` in `localStorage`. -/
  token : Option Text := none
  /-- The cookie `refresh_token`, whose path is `/api/auth`. -/
  cookie : Option Text := none

/-- A call of `apiFetch`. -/
structure ApiCall where
  route : Route
  body : Text := []
  env : ApiEnv

/-- The three fetches of a call, in their order. -/
inductive Attempt where
  | first | refresh | retry
deriving DecidableEq, Repr

/-- What a fetch waits for. -/
inductive Flight where
  | asked (authorization : Option Text)
  | answered (reply : HttpReply)

/-- How a call ends. -/
inductive Outcome where
  | ok
  /-- `ApiError` with the status of the answer. -/
  | apiError (status : Nat)
  /-- `ApiError("Unauthorized", 401)`, after the token was removed. -/
  | unauthorized
  /-- The promise of a fetch was rejected. -/
  | rejected
deriving DecidableEq, Repr

inductive FetchPc where
  | idle
  | out (attempt : Attempt) (flight : Flight)
  | done (o : Outcome)

structure PageCall where
  call : ApiCall
  pc : FetchPc := .idle
  /-- History variable: the site before and after each time that a handler which writes was run
  for this call. -/
  ran : List (Site × Site) := []

/-- Those who are at work on the backend. -/
inductive Party where
  | page (c : PageCall)
  | other (a : BackendAction)

inductive Request where
  | fetch (call : ApiCall)
  | other (a : BackendAction)

/-- What becomes of a message. -/
inductive Delivery where
  /-- A handler that only reads answers `found`. -/
  | arrives (found : HttpAnswer)
  | lost

structure Store where
  backend : Backend
  browser : Browser := {}

/-- The header, if there is a token. -/
def authorization (b : Browser) : Option Text :=
  match b.token with
  | none => none
  | some t => if t = [] then none else some (bearer t)

/-- The request of a fetch. -/
def request (b : Browser) (c : ApiCall) (attempt : Attempt) (authorization : Option Text)
    (found : HttpAnswer) : HttpRequest :=
  match attempt with
  | .refresh =>
    { route := .refresh, authorization := authorization, refreshCookie := b.cookie,
      body := "\x7b\x7d".toList, env := c.env, found := found }
  | _ =>
    { route := c.route, authorization := authorization,
      refreshCookie := if c.route.sendsCookie then b.cookie else none,
      body := c.body, env := c.env, found := found }

/-- `Set-Cookie` -/
def setCookie (b : Browser) (r : HttpReply) : Browser :=
  if r.clearsCookie then { b with cookie := none }
  else
    match r.tokens with
    | none => b
    | some (_, refresh) => { b with cookie := some refresh }

def clearTokens (b : Browser) : Browser := { b with token := none }

/-- `setTokens` -/
def setTokens (b : Browser) (tokens : Text × Text) : Browser := { b with token := some tokens.1 }

/-- The end of a call. `login` keeps the token, and `logout` removes it however the call ends. -/
def finish (b : Browser) (c : PageCall) (o : Outcome) (tokens : Option (Text × Text)) :
    Browser × PageCall :=
  let b := match c.call.route, tokens with
    | .login _ _, some t => setTokens b t
    | .logout, _ => clearTokens b
    | _, _ => b
  (b, { c with pc := .done o })

/-- A fetch is answered. The cookie is the browser's business, before any script runs. -/
def resume (b : Browser) (c : PageCall) (attempt : Attempt) (r : HttpReply) : Browser × PageCall :=
  let b := setCookie b r
  match attempt with
  | .first =>
    if r.answer.status = 401 then
      (b, { c with pc := .out .refresh (.asked (authorization b)) })
    else if r.answer.isOk then finish b c .ok r.tokens
    else finish b c (.apiError r.answer.status) none
  | .refresh =>
    match if r.answer.isOk then r.tokens else none with
    | some tokens =>
      (setTokens b tokens, { c with pc := .out .retry (.asked (some (bearer tokens.1))) })
    | none => finish (clearTokens b) c .unauthorized none
  | .retry =>
    if r.answer.isOk then finish b c .ok r.tokens
    else finish (clearTokens b) c .unauthorized none

/-- No answer comes. `_callRefresh` catches that. -/
def fail (b : Browser) (c : PageCall) : Attempt → Browser × PageCall
  | .refresh => finish (clearTokens b) c .unauthorized none
  | _ => finish b c .rejected none

variable (J : Jwt) (A : Argon2) (cfg : AuthConfig)

/-- What a request writes, if it is let in. -/
def writes (b : Backend) (r : HttpRequest) : List (Site × Site) :=
  match r.route with
  | .write w =>
    match b.admits J cfg w.min r with
    | .ok _ => [(b.site, (b.serve J A cfg r).1.site)]
    | .error _ => []
  | _ => []

def next (d : Store) : Party → Delivery → Option (Store × Option Party)
  | .other a, _ => (d.backend.step J A cfg a).map (fun b => ({ d with backend := b }, none))
  | .page c, delivery =>
    match c.pc with
    | .idle =>
      some (d, some (.page { c with pc := .out .first (.asked (authorization d.browser)) }))
    | .out attempt (.asked authorization) =>
      match delivery with
      | .arrives found =>
        let r := request d.browser c.call attempt authorization found
        let (b, reply) := d.backend.serve J A cfg r
        let c := { c with ran := c.ran ++ writes J A cfg d.backend r }
        match reply with
        | some reply =>
          some ({ d with backend := b }, some (.page { c with pc := .out attempt (.answered reply) }))
        | none =>
          let (browser, c) := fail d.browser c attempt
          some (⟨b, browser⟩, some (.page c))
      | .lost =>
        let (browser, c) := fail d.browser c attempt
        some ({ d with browser := browser }, some (.page c))
    | .out attempt (.answered reply) =>
      let (browser, c) := match delivery with
        | .arrives _ => resume d.browser c attempt reply
        | .lost => fail d.browser c attempt
      some ({ d with browser := browser }, some (.page c))
    | .done _ => none

def program : Concurrent.Program Store Party Request Delivery where
  enter
    | .fetch call => .page { call := call }
    | .other a => .other a
  next := next J A cfg

end Web

end TelegramCms
