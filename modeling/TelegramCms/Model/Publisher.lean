import TelegramCms.Model.Process

/-!
# The `publish` job

`bot/publisher.py`. A `PublishPc` is a place where `_publish_core`, or the handler
`_on_publish_failure` that `publish` runs on any exception, awaits something. Sessions
are opened with `expire_on_commit=False`, so the values used after the claim are the
ones loaded before it.

`_send_post` is one call here: it delivers the whole post and gives its message id, or
it delivers nothing.
-/

namespace TelegramCms

/-- What the run carries from the claim to the send. -/
structure SendCtx where
  text : Text
  mediaRefs : List MediaRef
  dedupeHash : Option Digest
  /-- History variable: when this run reserved its hash. -/
  reservedAt : Option Time := none
deriving DecidableEq

inductive PublishPc where
  /-- `session.get(Post, post_id)` -/
  | load
  /-- The early checks passed on `post`; `publishing` is to be committed. -/
  | claim (post : Post)
  /-- `session.get(SourceChannel, …)` -/
  | channel (post : Post)
  /-- `_dedupe_exists` -/
  | lookup (ctx : SendCtx) (h : Digest)
  /-- `_reserve_dedupe` -/
  | reserve (ctx : SendCtx) (h : Digest)
  /-- Waiting for `_send_lock`. -/
  | lock (ctx : SendCtx)
  /-- Holding the lock, asleep for the spacing. -/
  | spacing (ctx : SendCtx) (until_ : Time)
  /-- Inside `_send_post`; the second time after `TelegramRetryAfter`. -/
  | sending (ctx : SendCtx) (retried : Bool)
  /-- Holding the lock, asleep before the second attempt. -/
  | backoff (ctx : SendCtx) (until_ : Time)
  /-- `_release_dedupe` -/
  | release (ctx : SendCtx) (h : Digest) (e : PyError)
  /-- `_mark_published`: load, then commit. -/
  | markLoad (ctx : SendCtx) (messageId : Nat)
  | markCommit (ctx : SendCtx) (messageId : Nat) (post : Post)
  /-- The card edit: load the post, then `_edit_draft_card`. -/
  | cardLoad
  | cardEdit (post : Post)
  /-- `_mark_duplicate`: load, then commit. -/
  | duplicateLoad (h : Digest)
  | duplicateCommit (h : Digest) (post : Post)
  /-- `_on_publish_failure`: load, commit, alert. -/
  | failureLoad (e : PyError)
  | failureCommit (e : PyError) (post : Post)
  | failureAlert (e : PyError)
deriving DecidableEq

/-- `_SKIP_STATES` -/
def skipStates : List PostState := [.rejected, .published, .publishing]

/-- The text `_publish_core` passes to `_send_post`. -/
def publishText (post : Post) : Text :=
  (Py.orElse post.aiTransformedText (Py.orElse post.normalizedText post.rawText)).getD []

/-- What the run takes along from the claimed post. -/
def sendCtx (post : Post) : SendCtx where
  text := publishText post
  mediaRefs := post.rawMediaRefs
  dedupeHash := post.dedupeHash

/-- What can be handed to `Session.add`. -/
inductive SessionItem where
  /-- An instance of a mapped class. -/
  | event (e : PostEvent)
  /-- `pg_insert(PublishedDedupe).values(…).on_conflict_do_nothing(…)` -/
  | insertStatement (h : Digest)

/-- `Session.add` takes mapped instances only. -/
def sessionAdd : SessionItem → Except PyError PostEvent
  | .event e => .ok e
  | .insertStatement _ =>
    .error ⟨.unmappedInstanceError, "Class 'Insert' is not mapped".toList⟩

/-- What `_mark_published` adds to its session, in order. -/
def markPublishedItems (env : Env) (now : Time) (postId messageId : Nat)
    (dedupeHash : Option Digest) : List SessionItem :=
  .event {
    postId := postId
    action := .published
    payload := [("published_message_id", .int messageId),
      ("chat_id", .int env.settings.destinationChannelId)]
    createdAt := now } ::
  match dedupeHash with
  | none => []
  | some h => [.insertStatement h]

section Steps

variable (env : Env) (v : View) (postId : Nat)

/-- An exception inside `_publish_core` goes to `_on_publish_failure`. -/
def publishFail (e : PyError) : Effect PublishPc := v.goto (.failureLoad e)

/-- The early checks of `_publish_core`. -/
def publishLoad : Effect PublishPc :=
  match v.db.posts.get postId with
  | none => v.ret .notFound
  | some post =>
    if post.publishedMessageId.isSome then v.ret .alreadyPublished
    else if post.state ∈ skipStates then v.ret (.skip post.state)
    else v.goto (.claim post)

def publishClaim (post : Post) : Effect PublishPc :=
  -- the row is not read again: a decision committed since the load is overwritten
  v.commit postId (flush post { post with state := .publishing }) [] (publishFail v)
    (fun db => { db := db, next := .goto (.channel { post with state := .publishing }) })

def publishChannel (post : Post) : Effect PublishPc :=
  match v.db.channels.get post.sourceChannelId with
  -- the claim is committed, so the post stays `publishing`
  | none => v.ret .noChannel
  | some _ =>
    match post.dedupeHash with
    | none => v.goto (.lock (sendCtx post))
    | some h => v.goto (.lookup (sendCtx post) h)

def dedupeExists (ctx : SendCtx) (h : Digest) : Effect PublishPc :=
  match v.db.dedupe.get h with
  | some _ => v.goto (.duplicateLoad h)
  | none => v.goto (.reserve ctx h)

/-- `INSERT … ON CONFLICT DO NOTHING RETURNING`; `published_at` defaults to `now()`. -/
def reserveDedupe (ctx : SendCtx) (h : Digest) : Effect PublishPc :=
  match v.db.dedupe.get h with
  | some _ => v.goto (.duplicateLoad h)
  | none =>
    { db := { v.db with dedupe := v.db.dedupe.insert ⟨h, v.now, v.run, postId⟩ }
      next := .goto (.lock { ctx with reservedAt := some v.now }) }

/-- The send failed: release the reservation, if there is one, and raise. -/
def sendFailed (ctx : SendCtx) (e : PyError) : Effect PublishPc :=
  match ctx.dedupeHash with
  | none => publishFail v e
  | some h => v.goto (.release ctx h e)

def sendDelivered (ctx : SendCtx) (messageId : Nat) : Effect PublishPc where
  db := v.db
  seen := [.delivered {
    run := v.run
    post := postId
    hash := ctx.dedupeHash
    reservedAt := ctx.reservedAt
    text := ctx.text
    mediaRefs := ctx.mediaRefs
    messageId := messageId }]
  next := .goto (.markLoad ctx messageId)

def sendBegins (ctx : SendCtx) (retried : Bool) : Effect PublishPc where
  db := v.db
  seen := [.sendBegan v.run postId v.now]
  next := .goto (.sending ctx retried)

def noMessageId : PyError := ⟨.runtimeError, "_send_post returned no message_id".toList⟩

def retryAfterError : PyError := ⟨.telegramAPIError, "Too Many Requests".toList⟩

/-- The answer to a call of `_send_post`. Telegram numbers messages from 1. -/
def sendAnswered (ctx : SendCtx) (retried : Bool) : Reply → Option (Effect PublishPc)
  | .message id => if id = 0 then none else some (sendDelivered v postId ctx id)
  | .nothing => some (sendFailed v ctx noMessageId)
  | .raise e => some (sendFailed v ctx e)
  | .retryAfter s =>
    -- the second `TelegramRetryAfter` is an error like any other
    if retried then some (sendFailed v ctx retryAfterError)
    else some (v.goto (.backoff ctx (v.now + seconds (s + 1))))
  | _ => none

def releaseDedupe (h : Digest) (e : PyError) : Effect PublishPc where
  db := { v.db with dedupe := v.db.dedupe.delete h }
  next := .goto (.failureLoad e)

/-- Load a post for a helper that does nothing when the row is gone. -/
def loadOr (missing : Effect PublishPc) (found : Post → PublishPc) : Effect PublishPc :=
  match v.db.posts.get postId with
  | none => missing
  | some post => v.goto (found post)

def markPublished (ctx : SendCtx) (messageId : Nat) (post : Post) : Effect PublishPc :=
  match (markPublishedItems env v.now postId messageId ctx.dedupeHash).mapM sessionAdd with
  -- the message is out, and the transaction that would record it is rolled back
  | .error e => publishFail v e
  | .ok events =>
    v.commit postId
      (flush post { post with
        state := .published, publishedMessageId := some messageId, publishedAt := some v.now })
      events (publishFail v) (fun db => { db := db, next := .goto .cardLoad })

/-- Load the post for the card edit; there is nothing to edit without a card. -/
def cardLoad : Effect PublishPc :=
  match v.db.posts.get postId with
  | none => v.ret .published
  | some post => if post.draftMessageId.isSome then v.goto (.cardEdit post) else v.ret .published

/-- Only `TelegramAPIError` is caught around the edit. -/
def cardEdited : Reply → Option (Effect PublishPc)
  | .ok => some (v.ret .published)
  | .raise e =>
    some (if e.kind = .telegramAPIError then v.ret .published else publishFail v e)
  | _ => none

def markDuplicate (h : Digest) (post : Post) : Effect PublishPc :=
  v.commit postId (flush post { post with state := .rejected })
    [{ postId := postId
       action := .duplicate
       payload := [("dedupe_hash", .str h.hex), ("reason", .str "race_at_publish".toList)]
       createdAt := v.now }]
    (publishFail v)
    (fun db => { db := db, seen := [.duplicate postId h], next := .stop (.returned .duplicate) })

def onPublishFailure (e : PyError) (post : Post) : Effect PublishPc :=
  v.commit postId (flush post { post with state := .publishFailed })
    [{ postId := postId
       action := .publishFailed
       payload := [("error", .str (e.message.take 500))]
       createdAt := v.now }]
    v.raise (fun db => { db := db, next := .goto (.failureAlert e) })

/-- One step of the `publish` job for `postId`. -/
def publishStep : PublishPc → Reply → Option (Effect PublishPc)
  | .load, r => r.await (publishFail v) (publishLoad v postId)
  | .claim post, r => r.await (publishFail v) (publishClaim v postId post)
  | .channel post, r => r.await (publishFail v) (publishChannel v post)
  | .lookup ctx h, r => r.await (publishFail v) (dedupeExists v ctx h)
  | .reserve ctx h, r => r.await (publishFail v) (reserveDedupe v postId ctx h)
  | .lock ctx, .ok =>
    if v.lockFree then some (v.goto (.spacing ctx (v.now + env.settings.publishSpacing)))
    else none
  | .spacing ctx until_, .ok =>
    if until_ ≤ v.now then some (sendBegins v postId ctx false) else none
  | .sending ctx retried, r => sendAnswered v postId ctx retried r
  | .backoff ctx until_, .ok =>
    if until_ ≤ v.now then some (sendBegins v postId ctx true) else none
  | .release _ h e, r => r.await (publishFail v) (releaseDedupe v h e)
  | .markLoad ctx mid, r =>
    r.await (publishFail v) (loadOr v postId (v.goto .cardLoad) (.markCommit ctx mid))
  | .markCommit ctx mid post, r =>
    r.await (publishFail v) (markPublished env v postId ctx mid post)
  | .cardLoad, r => r.await (publishFail v) (cardLoad v postId)
  | .cardEdit _, r => cardEdited v r
  | .duplicateLoad h, r =>
    r.await (publishFail v) (loadOr v postId (v.ret .duplicate) (.duplicateCommit h))
  | .duplicateCommit h post, r => r.await (publishFail v) (markDuplicate v postId h post)
  | .failureLoad e, r => r.await v.raise (loadOr v postId (v.raise e) (.failureCommit e))
  | .failureCommit e post, r => r.await v.raise (onPublishFailure v postId e post)
  | .failureAlert e, r => r.await v.raise (v.raise e)
  | _, _ => none

end Steps

/-- The places at which a run holds `_send_lock`. -/
def PublishPc.holdsLock : PublishPc → Bool
  | .spacing .. | .sending .. | .backoff .. => true
  | _ => false

end TelegramCms
