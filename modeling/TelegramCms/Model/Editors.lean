import TelegramCms.Model.Process

/-!
# What editors do

The inline buttons (`bot/handlers/callbacks.py`), the decisions and tag edits of the
two back-office APIs (`api/routers/queue.py`, `apigo/handlers_queue.go`), and the draft
card the bot posts for a queued post (`bot/draft.py`).

The Python handlers write through a session, so they write what they changed. The Go
handlers issue an `UPDATE` that names its columns.
-/

namespace TelegramCms

/-! ## Inline buttons -/

inductive Button where
  | approve | reject
deriving DecidableEq, Repr

inductive CallbackPc where
  | load
  | commit (post : Post)
  /-- `build_draft_payload`, then `callback.answer`. -/
  | answer (post : Post)
  | enqueue (post : Post)
  /-- Editing the card, if the post has one. -/
  | card (post : Post)
deriving DecidableEq

def Button.state : Button → PostState
  | .approve => .approved
  | .reject => .rejected

def Button.action : Button → EventAction
  | .approve => .approved
  | .reject => .rejected

def Button.decision : Button → Decision
  | .approve => .approve
  | .reject => .reject

section Callback

variable (v : View) (button : Button) (tgUserId : Int) (postId : Nat)

/-- Post and channel are loaded, and nothing of the post is looked at. -/
def callbackLoad : Effect CallbackPc :=
  match v.db.posts.get postId with
  | none => v.ret .notFound
  | some post =>
    match v.db.channels.get post.sourceChannelId with
    | none => v.ret .noChannel
    | some _ => v.goto (.commit post)

def callbackCommit (post : Post) : Effect CallbackPc :=
  v.commit postId (flush post { post with state := button.state })
    [{ postId := postId
       action := button.action
       payload := [("via", .str "inline".toList), ("tg_user_id", .int tgUserId)]
       createdAt := v.now }]
    v.raise
    (fun db => {
      db := db
      seen := [.decided postId button.decision]
      next := .goto (.answer { post with state := button.state }) })

/-- `cb_approve` and `cb_reject`, for a press that passed `_authorized`. -/
def callbackStep : CallbackPc → Reply → Option (Effect CallbackPc)
  | .load, r => r.await v.raise (callbackLoad v postId)
  | .commit post, r => r.await v.raise (callbackCommit v button tgUserId postId post)
  | .answer post, r =>
    r.await v.raise (match button with
      | .approve => v.goto (.enqueue post)
      | .reject => v.goto (.card post))
  | .enqueue post, r =>
    r.await v.raise {
      db := v.db, jobs := [enqueuePublish v.now postId], next := .goto (.card post) }
  | .card _, r =>
    r.await (fun e => if e.kind = .telegramAPIError then v.ret .done else v.raise e) (v.ret .done)

end Callback

/-! ## Back-office decisions -/

inductive Api where
  | python | go
deriving DecidableEq, Repr

/-- The body of a decision request; `action` is one of the three the handlers accept. -/
structure DecisionRequest where
  api : Api
  postId : Nat
  actor : Nat
  decision : Decision
  tagIds : Option (List Nat) := none
deriving DecidableEq

inductive DecidePc where
  | load
  /-- `now` is when the handler read the clock. -/
  | commit (post : Post) (now : Time)
  /-- `enqueue_publish`, with its delay. -/
  | enqueue (delay : Time)
  /-- `session.refresh`, before the Python handler answers. -/
  | refresh
deriving DecidableEq

def badRequest : PyError := ⟨.other, "scheduled_for must be in the future".toList⟩

section Decide

variable (v : View) (req : DecisionRequest)

def decideLoad : Effect DecidePc :=
  match v.db.posts.get req.postId with
  | none => v.ret .notFound
  | some post =>
    match req.decision with
    -- the time is checked once, here
    | .schedule t => if t ≤ v.now then v.raise badRequest else v.goto (.commit post v.now)
    | _ => v.goto (.commit post v.now)

def decisionState : Decision → PostState
  | .approve => .approved
  | .schedule _ => .scheduled
  | .reject => .rejected

def decisionAction : Decision → EventAction
  | .approve => .approved
  | .schedule _ => .scheduled
  | .reject => .rejected

/-- What a decision makes of `scheduled_for`; `none` leaves it alone. -/
def decisionSchedule : Decision → Option (Option Time)
  | .approve => some none
  | .schedule t => some (some t)
  | .reject => none

/-- The columns a decision writes. -/
def decideSet (post : Post) : PostSet :=
  let tagIds := req.tagIds.getD post.tagIds
  match req.api with
  | .python =>
    -- what the session loaded and does not change stays out of the `UPDATE`
    flush post { post with
      state := decisionState req.decision
      scheduledFor := (decisionSchedule req.decision).getD post.scheduledFor
      tagIds := tagIds }
  | .go =>
    { state := some (decisionState req.decision)
      scheduledFor := decisionSchedule req.decision
      tagIds := some tagIds }

def decidePayload (post : Post) : List (String × Val) :=
  ("tag_ids", .ints (req.tagIds.getD post.tagIds)) ::
  match req.decision with
  | .schedule t => [("scheduled_for", .time t)]
  | _ => []

/-- The handler's last leg. -/
def decideAnswer : Next DecidePc :=
  match req.api with
  | .python => .goto .refresh
  | .go => .stop (.returned .done)

/-- What follows the commit: an immediate job, a delayed one, or none. -/
def decideNext (now : Time) : Next DecidePc :=
  match req.decision with
  | .approve => .goto (.enqueue 0)
  | .schedule t => .goto (.enqueue (t - now))
  | .reject => decideAnswer req

def decideCommit (post : Post) (now : Time) : Effect DecidePc :=
  v.commit req.postId (decideSet req post)
    [{ postId := req.postId
       actorAdminId := some req.actor
       action := decisionAction req.decision
       payload := decidePayload req post
       createdAt := v.now }]
    v.raise
    (fun db => { db := db, seen := [.decided req.postId req.decision], next := decideNext req now })

/-- `_decide` of the Python API and `decide` of the Go API. -/
def decideStep : DecidePc → Reply → Option (Effect DecidePc)
  | .load, r => r.await v.raise (decideLoad v req)
  | .commit post now, r => r.await v.raise (decideCommit v req post now)
  | .enqueue delay, r =>
    r.await v.raise {
      db := v.db, jobs := [enqueuePublish v.now req.postId delay], next := decideAnswer req }
  | .refresh, r => r.await v.raise (v.ret .done)

end Decide

/-! ## Editing tags -/

structure TagsRequest where
  api : Api
  postId : Nat
  actor : Nat
  tagIds : List Nat
deriving DecidableEq

inductive TagsPc where
  | load
  | commit (post : Post)
deriving DecidableEq

section Tags

variable (v : View) (req : TagsRequest)

def tagsSet (post : Post) : PostSet :=
  match req.api with
  | .python => flush post { post with tagIds := req.tagIds }
  | .go => { tagIds := some req.tagIds }

def tagsCommit (post : Post) : Effect TagsPc :=
  v.commit req.postId (tagsSet req post)
    [{ postId := req.postId
       actorAdminId := some req.actor
       action := .edited
       payload := [("tag_ids", .ints req.tagIds)]
       createdAt := v.now }]
    v.raise (fun db => { db := db, next := .stop (.returned .done) })

/-- `edit_tags` and `handleEditTags`. -/
def tagsStep : TagsPc → Reply → Option (Effect TagsPc)
  | .load, r =>
    r.await v.raise (match v.db.posts.get req.postId with
      | none => v.ret .notFound
      | some post => v.goto (.commit post))
  | .commit post, r => r.await v.raise (tagsCommit v req post)

end Tags

/-! ## The `post_draft` job -/

inductive DraftPc where
  | load
  /-- Sending or editing the card for the post as loaded. -/
  | send (post : Post)
  /-- The card was sent: load the post again, then store the card's id. -/
  | storeLoad (messageId : Nat)
  | storeCommit (messageId : Nat) (post : Post)
deriving DecidableEq

section Draft

variable (env : Env) (v : View) (postId : Nat)

def draftLoad : Effect DraftPc :=
  match v.db.posts.get postId with
  | none => v.ret .notFound
  | some post =>
    match v.db.channels.get post.sourceChannelId with
    | none => v.ret .noChannel
    | some _ =>
      if env.settings.editorGroupId = 0 then v.ret .noEditorGroup
      else if post.normalizedText.isNone then v.ret .notNormalized
      else v.goto (.send post)

/-- A post that has a card gets it edited, another one gets a new card. -/
def draftSent (post : Post) : Reply → Option (Effect DraftPc)
  | .ok => if post.draftMessageId.isSome then some (v.ret .refreshed) else none
  | .message id => if post.draftMessageId.isSome then none else some (v.goto (.storeLoad id))
  | .raise e =>
    some (if e.kind = .telegramAPIError then v.ret (.draftError e) else v.raise e)
  | _ => none

def draftStore (messageId : Nat) (post : Post) : Effect DraftPc :=
  v.commit postId (flush post { post with draftMessageId := some messageId })
    [{ postId := postId
       action := .draftPosted
       payload := [("chat_id", .int env.settings.editorGroupId), ("message_id", .int messageId)]
       createdAt := v.now }]
    v.raise (fun db => { db := db, next := .stop (.returned .posted) })

def draftStep : DraftPc → Reply → Option (Effect DraftPc)
  | .load, r => r.await v.raise (draftLoad env v postId)
  | .send post, r => draftSent v post r
  | .storeLoad mid, r =>
    r.await v.raise (match v.db.posts.get postId with
      | none => v.ret .posted
      | some post => v.goto (.storeCommit mid post))
  | .storeCommit mid post, r => r.await v.raise (draftStore env v postId mid post)

end Draft

end TelegramCms
