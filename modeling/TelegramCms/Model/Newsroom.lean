import TelegramCms.Model.Auth
import TelegramCms.Model.World

/-!
# The system behind its doors

Requests of people reach the posts by three doors: the inline buttons, which `_authorized` of
`bot/handlers/callbacks.py` answers for, and the two APIs with their tokens. Each looks the
account up once, before the handler takes its first step; whatever becomes of the account
later, the run goes on. The events are all that were ever written: no handler reads them, and
`_prune_audit_events` only deletes old ones.
-/

namespace TelegramCms

/-- A press of an inline button, as Telegram reports it. -/
structure CallbackQuery where
  /-- What `callback.data` says: `ap:` or `rj:`, and a post. -/
  button : Button
  postId : Nat
  /-- The chat of the message with the button, where Telegram still has the message. -/
  chatId : Option Int
  fromUser : Int
deriving DecidableEq, Repr

/-- `_authorized`, with the row it found. -/
def authorized (env : Env) (t : Admins) (q : CallbackQuery) : Option Admin :=
  match q.chatId with
  | none => none
  | some chat =>
    if chat ≠ env.settings.editorGroupId then none
    else
      match t.rows.find? (fun a => a.tgUserId = some q.fromUser ∧ a.disabledAt = none) with
      | none => none
      | some admin => if roleAtLeast admin.role .editor then some admin else none

/-- `get_current_admin`: every role is at least `editor`. -/
def Python.getCurrentAdmin (J : Jwt) (cfg : AuthConfig) (now : Int) (t : Admins) (token : Text) :
    Option (Except HttpAnswer Admin) :=
  Python.requireRole J cfg now t .editor token

/-- Who a request to one of the two APIs is from. -/
inductive Credential where
  /-- The header `Authorization`. -/
  | go (authorization : Option Text)
  /-- The token that the security scheme found. -/
  | python (token : Text)
deriving DecidableEq

def Credential.api : Credential → Api
  | .go _ => .go
  | .python _ => .python

structure Newsroom where
  world : World
  admins : Admins := .empty

inductive NewsroomAction where
  /-- What the services do by themselves. -/
  | run (a : Action)
  | press (q : CallbackQuery)
  | decide (c : Credential) (postId : Nat) (decision : Decision) (tagIds : Option (List Nat))
  | editTags (c : Credential) (postId : Nat) (tagIds : List Nat)
  /-- Administration of the accounts. -/
  | staff (admins : Admins)

/-- Nobody has to be let in for it. -/
def Action.unattended : Action → Bool
  | .request (.press ..) | .request (.decide _) | .request (.editTags _) => false
  | _ => true

namespace Newsroom

variable (env : Env) (J : Jwt) (cfg : AuthConfig) (n : Newsroom)

/-- The admin that an API finds in the credential. The clock of tokens is in nanoseconds. -/
def admits : Credential → Option Admin
  | .go header => (Go.requireRole J cfg (n.world.now * 1000) n.admins .editor header).toOption
  | .python token =>
    (Python.getCurrentAdmin J cfg (n.world.now * 1000) n.admins token).bind Except.toOption

/-- The admin who is let in, and the request that goes on to its handler. -/
def lets : NewsroomAction → Option (Admin × Request)
  | .press q => (authorized env n.admins q).map fun admin =>
      (admin, .press q.button q.fromUser q.postId)
  | .decide c postId decision tagIds => (n.admits J cfg c).map fun admin =>
      (admin, .decide ⟨c.api, postId, admin.id, decision, tagIds⟩)
  | .editTags c postId tagIds => (n.admits J cfg c).map fun admin =>
      (admin, .editTags ⟨c.api, postId, admin.id, tagIds⟩)
  | .run _ | .staff _ => none

/-- A step of the services. -/
def go (a : Action) : Option Newsroom :=
  (World.step env n.world a).map fun w => { n with world := w }

def step (a : NewsroomAction) : Option Newsroom :=
  match a with
  | .run a => if a.unattended then n.go env a else none
  | .staff admins => some { n with admins := admins }
  | a =>
    match n.lets env J cfg a with
    -- an alert in the chat, or an answer 401 or 403
    | none => some n
    | some (_, req) => n.go env (.request req)

end Newsroom

end TelegramCms
