import TelegramCms.Model.Publisher

/-!
# The moves of the `publish` job

`publishStep` once more, as a relation with one constructor for each thing a step can
do. Everything later that depends on where a publish run can go is a case analysis over
these moves.
-/

namespace TelegramCms

/-- The run is in `_on_publish_failure`. -/
def PublishPc.failed : PublishPc → Bool
  | .failureLoad _ | .failureCommit .. | .failureAlert _ => true
  | _ => false

/-- The run has claimed the post, and a commit of another state is still to come. -/
def PublishPc.claimed : PublishPc → Bool
  | .load | .claim _ | .cardLoad | .cardEdit _ | .failureAlert _ => false
  | _ => true

/-- The next send is the second. -/
def PublishPc.retries : PublishPc → Bool
  | .backoff .. => true
  | _ => false

/-- What one step of the `publish` job for `postId` can do. -/
inductive PublishMove (env : Env) (v : View) (postId : Nat) :
    PublishPc → Reply → Effect PublishPc → Prop where
  /-- The run ends without having written anything in this step. Once it has claimed the post,
  that is because the row or its channel is gone, or a call of the failure handler failed. -/
  | stops {pc r} (o : Outcome)
      (hwhy : pc.claimed = false ∨ v.db.posts.get postId = none
        ∨ (∃ post, pc = .channel post ∧ v.db.channels.get post.sourceChannelId = none)
        ∨ (pc.failed = true ∧ ∃ ex, r = .raise ex)) :
      PublishMove env v postId pc r { db := v.db, next := .stop o }
  /-- An exception goes to the failure handler. A call that did answer is followed by one
  only where the row is gone or where `_mark_published` builds its session. -/
  | fails {pc r} (e : PyError)
      (hr : r ≠ .ok ∨ v.db.posts.get postId = none ∨ ∃ ctx mid post, pc = .markCommit ctx mid post)
      (hpc : pc.failed = false) :
      PublishMove env v postId pc r (publishFail v e)
  | loads {post} (hrow : v.db.posts.get postId = some post)
      (hm : post.publishedMessageId = none) (hs : post.state ∉ skipStates) :
      PublishMove env v postId .load .ok (v.goto (.claim post))
  | claims {post row} (hrow : v.db.posts.get postId = some row) :
      PublishMove env v postId (.claim post) .ok {
        db := v.db.write postId (flush post { post with state := .publishing }) []
        next := .goto (.channel { post with state := .publishing }) }
  | unhashed {post} (hh : post.dedupeHash = none) :
      PublishMove env v postId (.channel post) .ok (v.goto (.lock (sendCtx post)))
  | hashed {post h} (hh : post.dedupeHash = some h) :
      PublishMove env v postId (.channel post) .ok (v.goto (.lookup (sendCtx post) h))
  | absent {ctx h} (hf : v.db.dedupe.get h = none) :
      PublishMove env v postId (.lookup ctx h) .ok (v.goto (.reserve ctx h))
  /-- The hash is taken, at the lookup or at the insertion. -/
  | taken {pc ctx h row} (hpc : pc = .lookup ctx h ∨ pc = .reserve ctx h)
      (hrow : v.db.dedupe.get h = some row) :
      PublishMove env v postId pc .ok (v.goto (.duplicateLoad h))
  | reserves {ctx h} (hf : v.db.dedupe.get h = none) :
      PublishMove env v postId (.reserve ctx h) .ok {
        db := { v.db with dedupe := v.db.dedupe.insert ⟨h, v.now, v.run, postId⟩ }
        next := .goto (.lock { ctx with reservedAt := some v.now }) }
  | locks {ctx} (hl : v.lockFree = true) :
      PublishMove env v postId (.lock ctx) .ok
        (v.goto (.spacing ctx (v.now + env.settings.publishSpacing)))
  | begins {pc ctx until_} (hpc : pc = .spacing ctx until_ ∨ pc = .backoff ctx until_)
      (hu : until_ ≤ v.now) : PublishMove env v postId pc .ok (sendBegins v postId ctx pc.retries)
  | delivers {ctx retried id} (hid : id ≠ 0) :
      PublishMove env v postId (.sending ctx retried) (.message id) (sendDelivered v postId ctx id)
  | sendFails {ctx retried r h} (e : PyError) (hh : ctx.dedupeHash = some h) :
      PublishMove env v postId (.sending ctx retried) r (v.goto (.release ctx h e))
  | backsOff {ctx s} :
      PublishMove env v postId (.sending ctx false) (.retryAfter s)
        (v.goto (.backoff ctx (v.now + seconds (s + 1))))
  | releases {ctx h e} :
      PublishMove env v postId (.release ctx h e) .ok (releaseDedupe v h e)
  | markLoads {ctx mid post} (hrow : v.db.posts.get postId = some post) :
      PublishMove env v postId (.markLoad ctx mid) .ok (v.goto (.markCommit ctx mid post))
  | marks {ctx mid post row events} (hh : ctx.dedupeHash = none)
      (hrow : v.db.posts.get postId = some row) :
      PublishMove env v postId (.markCommit ctx mid post) .ok {
        db := v.db.write postId
          (flush post { post with
            state := .published, publishedMessageId := some mid, publishedAt := some v.now })
          events
        next := .goto .cardLoad }
  /-- On to the card edit: there is no row to mark, or there is a card to edit. -/
  | card {pc pc'} (h : (∃ ctx mid, pc = .markLoad ctx mid ∧ pc' = .cardLoad)
        ∨ (pc = .cardLoad ∧ ∃ post, pc' = .cardEdit post ∧ v.db.posts.get postId = some post))
      (hgone : pc = .cardLoad ∨ v.db.posts.get postId = none) :
      PublishMove env v postId pc .ok (v.goto pc')
  | duplicateLoads {h post} (hrow : v.db.posts.get postId = some post) :
      PublishMove env v postId (.duplicateLoad h) .ok (v.goto (.duplicateCommit h post))
  | duplicates {h post row events} (hrow : v.db.posts.get postId = some row) :
      PublishMove env v postId (.duplicateCommit h post) .ok {
        db := v.db.write postId (flush post { post with state := .rejected }) events
        seen := [.duplicate postId h]
        next := .stop (.returned .duplicate) }
  | failureLoads {e post} (hrow : v.db.posts.get postId = some post) :
      PublishMove env v postId (.failureLoad e) .ok (v.goto (.failureCommit e post))
  | failureCommits {e post row events} (hrow : v.db.posts.get postId = some row) :
      PublishMove env v postId (.failureCommit e post) .ok {
        db := v.db.write postId (flush post { post with state := .publishFailed }) events
        next := .goto (.failureAlert e) }

variable {env : Env} {v : View} {postId : Nat} {r : Reply} {e : Effect PublishPc}

/-- The load: the post is missing, is published, is in one of the states to skip, or is read. -/
theorem publishLoad_move : PublishMove env v postId .load .ok (publishLoad v postId) := by
  unfold publishLoad
  split
  · exact .stops _ (.inl rfl)
  · split
    · exact .stops _ (.inl rfl)
    · split
      · exact .stops _ (.inl rfl)
      · rename_i hrow hm hs
        exact .loads hrow (by simpa using hm) hs

theorem publishClaim_move {post : Post} :
    PublishMove env v postId (.claim post) .ok (publishClaim v postId post) := by
  unfold publishClaim
  rcases View.commit_cases with ⟨hn, h⟩ | ⟨row, hrow, h⟩
  · rw [h]; exact .fails _ (.inr (.inl hn)) rfl
  · rw [h]; exact .claims hrow

theorem publishChannel_move {post : Post} :
    PublishMove env v postId (.channel post) .ok (publishChannel v post) := by
  unfold publishChannel
  split
  · exact .stops _ (.inr (.inr (.inl ⟨post, rfl, ‹_›⟩)))
  · split
    · exact .unhashed ‹_›
    · exact .hashed ‹_›

/-- The lookup goes by the row of the hash. -/
theorem dedupeExists_move {ctx : SendCtx} {h : Digest} :
    PublishMove env v postId (.lookup ctx h) .ok (dedupeExists v ctx h) := by
  unfold dedupeExists
  split
  · exact .taken (.inl rfl) ‹_›
  · exact .absent ‹_›

/-- The reservation inserts the row, or finds that another run has. -/
theorem reserveDedupe_move {ctx : SendCtx} {h : Digest} :
    PublishMove env v postId (.reserve ctx h) .ok (reserveDedupe v postId ctx h) := by
  unfold reserveDedupe
  split
  · exact .taken (.inr rfl) ‹_›
  · exact .reserves ‹_›

/-- A send that failed releases the hash, if the context has one. -/
theorem sendFailed_move {ctx : SendCtx} {retried : Bool} {e : PyError} (hr : r ≠ .ok) :
    PublishMove env v postId (.sending ctx retried) r (sendFailed v ctx e) := by
  unfold sendFailed
  split
  · exact .fails _ (.inl hr) rfl
  · exact .sendFails e ‹_›

/-- The answers to a send: a message, a wait, the second of which is a failure, or an exception. -/
theorem sendAnswered_move {ctx : SendCtx} {retried : Bool}
    (h : sendAnswered v postId ctx retried r = some e) :
    PublishMove env v postId (.sending ctx retried) r e := by
  unfold sendAnswered at h
  split at h
  · split at h
    · exact absurd h (by simp)
    · obtain rfl := Option.some.inj h
      exact .delivers ‹_›
  · obtain rfl := Option.some.inj h
    exact sendFailed_move (by simp)
  · obtain rfl := Option.some.inj h
    exact sendFailed_move (by simp)
  · split at h
    · obtain rfl := Option.some.inj h
      exact sendFailed_move (by simp)
    · rename_i hr
      obtain rfl := Option.some.inj h
      obtain rfl : retried = false := by simpa using hr
      exact .backsOff
  · exact absurd h (by simp)

/-- The commit that marks the post: without a hash it goes through, with one it raises first. -/
theorem markPublished_move {ctx : SendCtx} {mid : Nat} {post : Post} :
    PublishMove env v postId (.markCommit ctx mid post) .ok
      (markPublished env v postId ctx mid post) := by
  unfold markPublished
  split
  · exact .fails _ (.inr (.inr ⟨ctx, mid, post, rfl⟩)) rfl
  · rename_i events hadd
    have hh : ctx.dedupeHash = none := by
      cases hc : ctx.dedupeHash with
      | none => rfl
      | some h =>
          rw [hc] at hadd
          exact absurd hadd (by simp [markPublishedItems, sessionAdd, bind, Except.bind])
    rcases View.commit_cases with ⟨hn, h⟩ | ⟨row, hrow, h⟩
    · rw [h]; exact .fails _ (.inr (.inl hn)) rfl
    · rw [h]; exact .marks hh hrow

theorem cardLoad_move : PublishMove env v postId .cardLoad .ok (cardLoad v postId) := by
  unfold cardLoad
  split
  · exact .stops _ (.inl rfl)
  · rename_i post hrow
    split
    · exact .card (.inr ⟨rfl, post, rfl, hrow⟩) (.inl rfl)
    · exact .stops _ (.inl rfl)

/-- The edit of the card: what Telegram refuses is caught, and anything else raised. -/
theorem cardEdited_move {post : Post} (h : cardEdited v r = some e) :
    PublishMove env v postId (.cardEdit post) r e := by
  unfold cardEdited at h
  split at h
  · obtain rfl := Option.some.inj h
    exact .stops _ (.inl rfl)
  · obtain rfl := Option.some.inj h
    split
    · exact .stops _ (.inl rfl)
    · exact .fails _ (.inl (by simp)) rfl
  · exact absurd h (by simp)

theorem markDuplicate_move {h : Digest} {post : Post} :
    PublishMove env v postId (.duplicateCommit h post) .ok (markDuplicate v postId h post) := by
  unfold markDuplicate
  rcases View.commit_cases with ⟨hn, h⟩ | ⟨row, hrow, h⟩
  · rw [h]; exact .fails _ (.inr (.inl hn)) rfl
  · rw [h]; exact .duplicates hrow

theorem onPublishFailure_move {e : PyError} {post : Post} :
    PublishMove env v postId (.failureCommit e post) .ok (onPublishFailure v postId e post) := by
  unfold onPublishFailure
  rcases View.commit_cases with ⟨hn, h⟩ | ⟨row, hrow, h⟩
  · rw [h]; exact .stops _ (.inr (.inl hn))
  · rw [h]; exact .failureCommits hrow

/-- A step that awaits a database call fails if the call does. -/
theorem await_move {pc : PublishPc} {x : Effect PublishPc}
    (h : r.await (publishFail v) x = some e) (hpc : pc.failed = false)
    (hx : PublishMove env v postId pc .ok x) : PublishMove env v postId pc r e := by
  rcases Reply.await_cases h with ⟨rfl, rfl⟩ | ⟨ex, rfl, rfl⟩
  · exact hx
  · exact .fails _ (.inl (by simp)) hpc

/-- The failure handler itself just raises. -/
theorem await_raise_move {pc : PublishPc} {x : Effect PublishPc}
    (h : r.await v.raise x = some e) (hpc : pc.failed = true)
    (hx : PublishMove env v postId pc .ok x) : PublishMove env v postId pc r e := by
  rcases Reply.await_cases h with ⟨rfl, rfl⟩ | ⟨ex, rfl, rfl⟩
  · exact hx
  · exact .stops _ (.inr (.inr (.inr ⟨hpc, ex, rfl⟩)))

/-- **Every step of the job is one of the moves.** -/
theorem publishStep_move {pc : PublishPc} (h : publishStep env v postId pc r = some e) :
    PublishMove env v postId pc r e := by
  cases pc with
  | load => exact await_move h rfl publishLoad_move
  | claim post => exact await_move h rfl publishClaim_move
  | channel post => exact await_move h rfl publishChannel_move
  | lookup ctx hash => exact await_move h rfl dedupeExists_move
  | reserve ctx hash => exact await_move h rfl reserveDedupe_move
  | lock ctx =>
      cases r <;> simp only [publishStep, reduceCtorEq] at h
      split at h
      · obtain rfl := Option.some.inj h
        exact .locks ‹_›
      · exact absurd h (by simp)
  | spacing ctx until_ =>
      cases r <;> simp only [publishStep, reduceCtorEq] at h
      split at h
      · obtain rfl := Option.some.inj h
        exact .begins (.inl rfl) ‹_›
      · exact absurd h (by simp)
  | sending ctx retried => exact sendAnswered_move h
  | backoff ctx until_ =>
      cases r <;> simp only [publishStep, reduceCtorEq] at h
      split at h
      · obtain rfl := Option.some.inj h
        exact .begins (.inr rfl) ‹_›
      · exact absurd h (by simp)
  | release ctx hash ex => exact await_move h rfl .releases
  | markLoad ctx mid =>
      refine await_move h rfl ?_
      unfold loadOr
      split
      · exact .card (.inl ⟨ctx, mid, rfl, rfl⟩) (.inr ‹_›)
      · exact .markLoads ‹_›
  | markCommit ctx mid post => exact await_move h rfl markPublished_move
  | cardLoad => exact await_move h rfl cardLoad_move
  | cardEdit post => exact cardEdited_move h
  | duplicateLoad hash =>
      refine await_move h rfl ?_
      unfold loadOr
      split
      · exact .stops _ (.inr (.inl ‹_›))
      · exact .duplicateLoads ‹_›
  | duplicateCommit hash post => exact await_move h rfl markDuplicate_move
  | failureLoad ex =>
      refine await_raise_move h rfl ?_
      unfold loadOr
      split
      · exact .stops _ (.inr (.inl ‹_›))
      · exact .failureLoads ‹_›
  | failureCommit ex post => exact await_raise_move h rfl onPublishFailure_move
  | failureAlert ex => exact await_raise_move h rfl (.stops _ (.inl rfl))

/-! ## What a run carries -/

/-- Hash, text and media, between the load of the row and the end of the send. -/
def PublishPc.taken? : PublishPc → Option (Option Digest × Text × List MediaRef)
  | .claim post | .channel post => some (post.dedupeHash, publishText post, post.rawMediaRefs)
  | .lookup ctx _ | .reserve ctx _ | .lock ctx | .spacing ctx _ | .sending ctx _
  | .backoff ctx _ => some (ctx.dedupeHash, ctx.text, ctx.mediaRefs)
  | _ => none

/-- They stay those of the row that was loaded. -/
theorem move_taken {pc pc' : PublishPc} {x : Option Digest × Text × List MediaRef}
    (hm : PublishMove env v postId pc r e) (hn : e.next = .goto pc') (hx : pc'.taken? = some x) :
    pc.taken? = some x
    ∨ ∃ post, pc = .load ∧ r = .ok ∧ v.db.posts.get postId = some post
        ∧ post.publishedMessageId = none ∧ post.state ∉ skipStates
        ∧ x = (post.dedupeHash, publishText post, post.rawMediaRefs) := by
  cases hm with
  | stops o => exact absurd hn (by simp)
  | duplicates hrow => exact absurd hn (by simp)
  | loads hrow hm hs =>
      obtain rfl := Next.goto.inj hn
      exact .inr ⟨_, rfl, rfl, hrow, hm, hs, (Option.some.inj hx).symm⟩
  | claims hrow => obtain rfl := Next.goto.inj hn; exact .inl hx
  | unhashed hh => obtain rfl := Next.goto.inj hn; exact .inl hx
  | hashed hh => obtain rfl := Next.goto.inj hn; exact .inl hx
  | absent hf => obtain rfl := Next.goto.inj hn; exact .inl hx
  | reserves hf => obtain rfl := Next.goto.inj hn; exact .inl hx
  | locks hl => obtain rfl := Next.goto.inj hn; exact .inl hx
  | begins hpc hu =>
      obtain rfl := Next.goto.inj hn
      rcases hpc with rfl | rfl <;> exact .inl hx
  | backsOff => obtain rfl := Next.goto.inj hn; exact .inl hx
  | card hpc =>
      obtain rfl := Next.goto.inj hn
      rcases hpc with ⟨_, _, -, rfl⟩ | ⟨-, _, rfl, -⟩ <;> exact absurd hx (by simp [PublishPc.taken?])
  | _ => obtain rfl := Next.goto.inj hn; exact absurd hx (by simp [PublishPc.taken?])

end TelegramCms
