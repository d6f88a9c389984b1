import TelegramCms.Model.World

/-!
# The editor group

The draft cards the bot has posted into the editor group, each with the keyboard under it.
A card is sent by `post_draft` and edited by `post_draft`, by the inline buttons and by the
publish job. Each of them renders it from the post it holds (`bot/cards.py`).

The group is outside the database. The one link to a card is `posts.draft_message_id`, which
is stored after the send, in a transaction of its own.
-/

namespace TelegramCms

/-! ## Keyboards -/

inductive Keyboard where
  /-- `draft_keyboard(post)`: Approve and Reject, for the post with this id. -/
  | draft (postId : Nat)
  /-- `published_keyboard()` -/
  | published
  /-- `InlineKeyboardMarkup(inline_keyboard=[])` -/
  | empty
deriving DecidableEq, Repr

/-- The post that the Approve and Reject buttons are for, if the keyboard has them. -/
def Keyboard.offers : Keyboard → Option Nat
  | .draft postId => some postId
  | .published | .empty => none

/-- The keyboard `build_draft_payload` renders. -/
def draftPayloadKeyboard (post : Post) : Keyboard :=
  match post.state with
  | .published => .published
  | .rejected | .publishFailed => .empty
  | .pending | .approved | .scheduled | .publishing => .draft post.id

/-- A message of the group that is a draft card. -/
structure CardMessage where
  messageId : Nat
  keyboard : Keyboard
deriving DecidableEq, Repr

/-- The message as `edit_message_text(…, reply_markup=keyboard)` leaves it. -/
def CardMessage.edit (keyboard : Keyboard) (m : CardMessage) : CardMessage :=
  { m with keyboard := keyboard }

@[simp] theorem CardMessage.messageId_edit (keyboard : Keyboard) (m : CardMessage) :
    (m.edit keyboard).messageId = m.messageId := rfl

/-! ## Calls to the group -/

/-- The post a run is rendering the card of, at its call to send or to edit it. -/
def Proc.renders : Proc → Option Post
  | .postDraft _ (.send post) | .callback _ _ _ (.card post) | .publish _ (.cardEdit post) =>
    some post
  | _ => none

/-- The message that such a run edits. -/
def Proc.edits (p : Proc) : Option Nat := p.renders.bind Post.draftMessageId

structure EditorGroup where
  world : World
  messages : Table Nat CardMessage CardMessage.messageId := .empty

namespace EditorGroup

variable (env : Env) (g : EditorGroup)

/-- The messages after a call of run `p` is answered by `r`. Telegram numbers the messages of
a chat from 1 and uses no number twice. -/
def answered (p : Proc) (r : Reply) : Option (Table Nat CardMessage CardMessage.messageId) :=
  match p.renders, r with
  | some post, .ok =>
    match post.draftMessageId with
    | some mid =>
      some (g.messages.update mid (CardMessage.edit (draftPayloadKeyboard post))
        (CardMessage.messageId_edit _))
    -- a press of a button on a card whose id is not stored yet edits nothing
    | none => some g.messages
  | some post, .message mid =>
    if mid ≠ 0 ∧ g.messages.get mid = none then
      some (g.messages.insert ⟨mid, draftPayloadKeyboard post⟩)
    else none
  | _, _ => some g.messages

/-- A step of the system, with what it does to the group. -/
def step (a : Action) : Option EditorGroup :=
  match a with
  | .advance i r =>
    match g.world.proc i with
    | none => none
    | some p => (g.answered p r).bind fun messages =>
        (World.step env g.world (.advance i r)).map fun w => ⟨w, messages⟩
  | a => (World.step env g.world a).map fun w => { g with world := w }

/-- A group without cards, in front of a system that has done nothing yet. -/
structure Init (g : EditorGroup) : Prop where
  world : World.Init g.world
  messages : g.messages.rows = []

end EditorGroup

end TelegramCms
