import TelegramCms.Model.Publisher

/-!
# A publish job that nothing disturbs

The `publish` job run on its own, with every database statement, send and card edit
succeeding. What should come out of it is a `published` post.

It does for a post without a `dedupe_hash`. For a post with one, `_mark_published` hands
an `INSERT` statement to `Session.add`, which takes mapped instances only. The message
is out, the transaction is lost, and the failure handler leaves `publish_failed`
(`publishAlone_hash`).
-/

namespace TelegramCms

variable (env : Env) (run postId messageId : Nat)

/-- The answer that lets a step succeed. -/
def successReply : PublishPc → Reply
  | .sending .. => .message messageId
  | _ => .ok

/-- When the next step is taken: a run that sleeps sleeps it out. -/
def wakeAt (now : Time) : PublishPc → Time
  | .spacing _ until_ | .backoff _ until_ => max now until_
  | _ => now

/-- Run the job to its end, if `fuel` steps get there. -/
def publishAlone : (fuel : Nat) → Time → Db → PublishPc → Option (Outcome × Db)
  | 0, _, _, _ => none
  | fuel + 1, now, db, pc =>
    match publishStep env ⟨wakeAt now pc, db, run, true⟩ postId pc (successReply messageId pc) with
    | none => none
    | some e =>
      match e.next with
      | .goto pc' => publishAlone fuel (wakeAt now pc) e.db pc'
      | .stop o => some (o, e.db)

/-- The post is there, may be sent, and no row reserves its hash. -/
structure Publishable (db : Db) (postId : Nat) (post : Post) : Prop where
  row : db.posts.get postId = some post
  unsent : post.publishedMessageId = none
  state : post.state ∉ skipStates
  channel : db.channels.get post.sourceChannelId ≠ none
  free : ∀ h, post.dedupeHash = some h → db.dedupe.get h = none

/-- The run that led from `db` to `db'` published the post as `messageId`. -/
structure PublishedAs (db db' : Db) (postId messageId : Nat) (hash : Option Digest)
    (o : Outcome) : Prop where
  returned : o = .returned .published
  row : ∃ row, db'.posts.get postId = some row ∧ row.state = .published
    ∧ row.publishedMessageId = some messageId
  events : ∃ new, db'.events = db.events ++ new
    ∧ (new.filter (fun e => e.action = .published)).length = 1
    ∧ ∀ e ∈ new, e.action ≠ .publishFailed
  dedupe : ∀ h, hash = some h → (db'.dedupe.get h).isSome = true

/-! ## Up to the lock -/

variable {env run postId messageId} {now : Time} {db : Db}

/-- The database after a session that is not overtaken rewrote the row `old` to `new`. -/
def Db.rewrite (db : Db) (postId : Nat) (old new : Post) (events : List PostEvent) : Db :=
  db.write postId (flush old new) events

theorem Db.commit_rewrite {old new : Post} {events : List PostEvent}
    (h : db.posts.get postId = some old) :
    db.commit postId (flush old new) events = some (db.rewrite postId old new events) :=
  Db.commit_some h

/-- What the job sends. -/
def ctxOf (post : Post) (reservedAt : Option Time) : SendCtx :=
  { sendCtx post with reservedAt := reservedAt }

/-- The claimed row. -/
def claimed (post : Post) : Post := { post with state := .publishing }

/-- The database after the claim. -/
def Db.claim (db : Db) (postId : Nat) (post : Post) : Db :=
  db.rewrite postId post (claimed post) []

theorem Db.claim_row {post : Post} (h : db.posts.get postId = some post) :
    (db.claim postId post).posts.get postId = some (claimed post) := by
  rw [Db.claim, Db.rewrite, Db.write_row h, flush_apply] <;> rfl

/-- A publishable post passes the early checks. -/
theorem Publishable.load {v : View} {post : Post} (h : Publishable v.db postId post) :
    publishLoad v postId = v.goto (.claim post) := by
  simp [publishLoad, h.row, h.unsent, h.state]

theorem alone_claim {post : Post} (fuel : Nat) (h : Publishable db postId post) :
    publishAlone env run postId messageId (fuel + 2) now db .load
      = publishAlone env run postId messageId fuel now (db.claim postId post)
          (.channel (claimed post)) := by
  -- two steps: the early checks pass, and the claim finds the row as it was loaded
  have hload := Publishable.load (v := ⟨now, db, run, true⟩) h
  simp only [publishAlone, wakeAt, successReply, publishStep, Reply.await, hload, View.goto,
    publishClaim, View.commit, Db.commit_rewrite h.row]
  rfl

/-- Without a hash the job goes straight to the lock. -/
theorem alone_no_hash {post : Post} (fuel : Nat)
    (hc : db.channels.get post.sourceChannelId ≠ none) (hh : post.dedupeHash = none) :
    publishAlone env run postId messageId (fuel + 1) now db (.channel post)
      = publishAlone env run postId messageId fuel now db (.lock (ctxOf post none)) := by
  obtain ⟨c, hc⟩ := Option.ne_none_iff_exists'.mp hc
  simp only [publishAlone, wakeAt, successReply, publishStep, Reply.await, publishChannel, hc, hh,
    View.goto, ctxOf, sendCtx]

/-- The database after the reservation. -/
def Db.reserve (db : Db) (h : Digest) (now : Time) (run postId : Nat) : Db :=
  { db with dedupe := db.dedupe.insert ⟨h, now, run, postId⟩ }

/-- With a hash it reserves it first. -/
theorem alone_reserve {post : Post} {h : Digest} (fuel : Nat)
    (hc : db.channels.get post.sourceChannelId ≠ none) (hh : post.dedupeHash = some h)
    (hf : db.dedupe.get h = none) :
    publishAlone env run postId messageId (fuel + 3) now db (.channel post)
      = publishAlone env run postId messageId fuel now (db.reserve h now run postId)
          (.lock (ctxOf post (some now))) := by
  obtain ⟨c, hc⟩ := Option.ne_none_iff_exists'.mp hc
  simp only [publishAlone, wakeAt, successReply, publishStep, Reply.await, publishChannel, hc, hh,
    View.goto, dedupeExists, hf, reserveDedupe, ctxOf, sendCtx,
    Db.reserve]

/-! ## The send -/

theorem alone_send (fuel : Nat) (ctx : SendCtx) (hm : messageId ≠ 0) :
    publishAlone env run postId messageId (fuel + 3) now db (.lock ctx)
      = publishAlone env run postId messageId fuel (max now (now + env.settings.publishSpacing)) db
          (.markLoad ctx messageId) := by
  simp only [publishAlone, wakeAt, successReply, publishStep, if_true, View.goto, le_max_right,
    sendBegins, sendAnswered, hm, if_false, sendDelivered]

/-! ## The mark -/

/-- The row of a published post. -/
def published (post : Post) (messageId : Nat) (now : Time) : Post :=
  { post with
    state := .published, publishedMessageId := some messageId, publishedAt := some now }

def publishedEvent (env : Env) (postId messageId : Nat) (now : Time) : PostEvent where
  postId := postId
  action := .published
  payload := [("published_message_id", .int messageId),
    ("chat_id", .int env.settings.destinationChannelId)]
  createdAt := now

/-- The database after `_mark_published` committed. -/
def Db.publish (env : Env) (db : Db) (postId messageId : Nat) (now : Time) (post : Post) : Db :=
  db.rewrite postId post (published post messageId now) [publishedEvent env postId messageId now]

theorem Db.publish_row {post : Post} (h : db.posts.get postId = some post) :
    (db.publish env postId messageId now post).posts.get postId
      = some (published post messageId now) := by
  rw [Db.publish, Db.rewrite, Db.write_row h, flush_apply] <;> rfl

theorem sessionAdd_no_hash (now : Time) :
    (markPublishedItems env now postId messageId none).mapM sessionAdd
      = .ok [publishedEvent env postId messageId now] := rfl

theorem sessionAdd_hash (env : Env) (postId messageId : Nat) (now : Time) (h : Digest) :
    ∃ e, (markPublishedItems env now postId messageId (some h)).mapM sessionAdd = .error e :=
  ⟨_, rfl⟩

/-- Without a hash the transaction of `_mark_published` commits. -/
theorem alone_mark {ctx : SendCtx} {post : Post} (fuel : Nat) (hh : ctx.dedupeHash = none)
    (hr : db.posts.get postId = some post) :
    publishAlone env run postId messageId (fuel + 4) now db (.markLoad ctx messageId)
      = some (.returned .published, db.publish env postId messageId now post) := by
  have hrow : (db.publish env postId messageId now post).posts.get postId
      = some (published post messageId now) := Db.publish_row hr
  have hmark : db.commit postId (flush post (published post messageId now))
      [publishedEvent env postId messageId now]
      = some (db.publish env postId messageId now post) := Db.commit_rewrite hr
  simp only [Db.publish, published] at hmark hrow
  simp only [publishAlone, wakeAt, successReply, publishStep, Reply.await, loadOr, hr, View.goto,
    markPublished, hh, sessionAdd_no_hash, View.commit, hmark]
  simp only [cardLoad, hrow]
  -- a card is edited, its absence passed over; either way the job is done
  by_cases hd : post.draftMessageId.isSome = true
  · simp only [hd, if_true, View.goto, cardEdited, View.ret]; rfl
  · simp only [hd, Bool.false_eq_true, if_false, View.ret]; rfl

/-- The failure handler's event. -/
def failedEvent (postId : Nat) (now : Time) (e : PyError) : PostEvent where
  postId := postId
  action := .publishFailed
  payload := [("error", .str (e.message.take 500))]
  createdAt := now

/-- The database after the failure handler committed. -/
def Db.fail (db : Db) (postId : Nat) (now : Time) (e : PyError) (post : Post) : Db :=
  db.rewrite postId post { post with state := .publishFailed } [failedEvent postId now e]

/-- With a hash the transaction is lost, and the failure handler takes over. -/
theorem alone_mark_hash (env : Env) (run messageId : Nat) (now : Time) {ctx : SendCtx}
    {post : Post} {h : Digest} (fuel : Nat)
    (hh : ctx.dedupeHash = some h) (hr : db.posts.get postId = some post) :
    ∃ e, publishAlone env run postId messageId (fuel + 5) now db (.markLoad ctx messageId)
      = some (.raised e, db.fail postId now e post) := by
  obtain ⟨e, he⟩ := sessionAdd_hash env postId messageId now h
  refine ⟨e, ?_⟩
  have hfail : db.commit postId (flush post { post with state := .publishFailed })
      [failedEvent postId now e] = some (db.fail postId now e post) := Db.commit_rewrite hr
  rw [failedEvent] at hfail
  simp only [publishAlone, wakeAt, successReply, publishStep, Reply.await, loadOr, hr, View.goto,
    markPublished, hh, he, publishFail, onPublishFailure, View.commit, hfail]
  rfl

/-! ## The whole job -/

/-- When the job wakes up to send. -/
def sendTime (env : Env) (now : Time) : Time := max now (now + env.settings.publishSpacing)

/-- **Without a hash a successful send ends as published.** -/
theorem publishAlone_no_hash {post : Post} (fuel : Nat) (h : Publishable db postId post)
    (hm : messageId ≠ 0) (hh : post.dedupeHash = none) :
    publishAlone env run postId messageId (fuel + 10) now db .load = some (.returned .published,
      (db.claim postId post).publish env postId messageId (sendTime env now) (claimed post)) := by
  have hchan : (db.claim postId post).channels.get (claimed post).sourceChannelId ≠ none :=
    h.channel
  rw [alone_claim _ h, alone_no_hash _ hchan hh, alone_send _ _ hm,
    alone_mark _ hh (Db.claim_row h.row)]
  rfl

theorem publishedAs_of_no_hash (env : Env) (messageId : Nat) (now : Time) {post : Post} (h : Publishable db postId post)
    (hh : post.dedupeHash = none) :
    PublishedAs db
      ((db.claim postId post).publish env postId messageId (sendTime env now) (claimed post))
      postId messageId post.dedupeHash (.returned .published) where
  returned := rfl
  row := ⟨_, Db.publish_row (Db.claim_row h.row), rfl, rfl⟩
  events := ⟨[publishedEvent env postId messageId (sendTime env now)],
    by simp [Db.publish, Db.claim, Db.rewrite], rfl, by simp [publishedEvent]⟩
  dedupe := by intro d hd; rw [hh] at hd; exact absurd hd (by simp)

/-- **With a hash the job raises, after the message is out.** The reservation stays. -/
theorem publishAlone_hash (env : Env) (run : Nat) (now : Time) {post : Post} {d : Digest}
    (fuel : Nat)
    (h : Publishable db postId post) (hm : messageId ≠ 0) (hh : post.dedupeHash = some d) :
    ∃ e, publishAlone env run postId messageId (fuel + 13) now db .load = some (.raised e,
      ((db.claim postId post).reserve d now run postId).fail postId (sendTime env now) e
        (claimed post)) := by
  have hchan : (db.claim postId post).channels.get (claimed post).sourceChannelId ≠ none :=
    h.channel
  have hrow : ((db.claim postId post).reserve d now run postId).posts.get postId
      = some (claimed post) := Db.claim_row h.row
  have hctx : (ctxOf (claimed post) (some now)).dedupeHash = some d := hh
  obtain ⟨e, he⟩ := alone_mark_hash env run messageId (sendTime env now) fuel hctx hrow
  refine ⟨e, ?_⟩
  rw [alone_claim _ h, alone_reserve _ hchan hh (h.free d hh), alone_send _ _ hm, ← sendTime, he]

/--
**A successful send ends as published exactly when the post has no hash.**

The job is run to its end by itself, in thirteen steps at most, so both directions are read off
its two possible runs: `publishAlone_no_hash`, and with a hash `publishAlone_hash`, which raises
at the statement that updates the row of the hash.
-/
theorem publishedAs_iff {post : Post} (fuel : Nat) (h : Publishable db postId post)
    (hm : messageId ≠ 0) :
    ∃ o db', publishAlone env run postId messageId (fuel + 13) now db .load = some (o, db')
      ∧ (PublishedAs db db' postId messageId post.dedupeHash o ↔ post.dedupeHash = none) := by
  cases hh : post.dedupeHash with
  | none =>
      have hpub := publishedAs_of_no_hash env messageId now h hh
      rw [hh] at hpub
      exact ⟨_, _, publishAlone_no_hash (fuel + 3) h hm hh, fun _ => rfl, fun _ => hpub⟩
  | some d =>
      obtain ⟨e, he⟩ := publishAlone_hash env run now fuel h hm hh
      refine ⟨_, _, he, fun hpub => ?_, fun hn => ?_⟩
      · -- the job raised
        exact absurd hpub.returned (by simp)
      · exact absurd hn (by simp)

/-- An approved post, normalized or not. -/
def approvedPost (hash : Option Digest) : Post where
  id := 1
  sourceChannelId := 1
  sourceMessageId := 1
  rawText := some "hi".toList
  receivedAt := 0
  state := .approved
  dedupeHash := hash

def approvedDb (hash : Option Digest) : Db where
  channels := Table.empty.insert sampleChannel
  posts := Table.empty.insert (approvedPost hash)

theorem publishable_approved (hash : Option Digest) :
    Publishable (approvedDb hash) 1 (approvedPost hash) where
  row := rfl
  unsent := rfl
  state := by simp [approvedPost, skipStates]
  channel := fun h => absurd (show some sampleChannel = none from h) (by simp)
  free := fun _ _ => rfl

theorem publishedAs_iff_approved :
    ∃ o db', publishAlone (sampleEnv {}) 0 1 7 13 0 (approvedDb none) .load = some (o, db')
      ∧ (PublishedAs (approvedDb none) db' 1 7 none o ↔ (none : Option Digest) = none) :=
  publishedAs_iff 0 (publishable_approved none) (by decide)

/-- A post with a hash is sent as message 7 and ends as `publish_failed`. -/
theorem approved_hash_fails :
    Publishable (approvedDb (some digestOfPair)) 1 (approvedPost (some digestOfPair))
      ∧ ∃ e db', publishAlone (sampleEnv {}) 0 1 7 13 0 (approvedDb (some digestOfPair)) .load
          = some (.raised e, db')
        ∧ (db'.posts.get 1).map Post.state = some .publishFailed
        ∧ ¬ PublishedAs (approvedDb (some digestOfPair)) db' 1 7 (some digestOfPair)
            (.raised e) := by
  obtain ⟨e, he⟩ := publishAlone_hash (sampleEnv {}) 0 0 0
    (publishable_approved (some digestOfPair)) (show 7 ≠ 0 by decide) rfl
  exact ⟨publishable_approved _, e, _, he, rfl, fun h => absurd h.returned (by simp)⟩

end TelegramCms
