import TelegramCms.Proof.Approved
import TelegramCms.Proof.Orphans
import TelegramCms.Proof.Snapshots

/-!
# Posts left in `publishing`

`publishing` is the lock of a post, and the mark by which a further job passes it over. It
is set by the claim of a publish run and taken off by the last commit of that run, and of
no other: `reconcile_scheduled` and `reconcile_pending` look for posts in other states, and
a publish job that is run again skips the post.

`never_stranded`: a post does not stay behind in `publishing` in a run in which no publish
run that holds it dies, and no database call of its failure handler fails.
-/

namespace TelegramCms

open Transition

/-! ## Holding a post -/

/-- The run is between its claim and the commit that takes the post out of `publishing`. A
session that loaded another state does not write it. -/
def PublishPc.holds : PublishPc → Bool
  | .channel _ | .lookup .. | .reserve .. | .lock _ | .spacing .. | .sending .. | .backoff ..
  | .release .. | .markLoad .. | .duplicateLoad _ | .failureLoad _ => true
  | .markCommit _ _ post | .duplicateCommit _ post | .failureCommit _ post =>
    post.state = .publishing
  | .load | .claim _ | .cardLoad | .cardEdit _ | .failureAlert _ => false

def Proc.holds (p : Nat) : Proc → Bool
  | .publish job pc => job.postId = p && pc.holds
  | _ => false

/-- The run is at a database call of `_on_publish_failure`. -/
def Proc.handlesFailure : Proc → Bool
  | .publish _ (.failureLoad _) | .publish _ (.failureCommit ..) => true
  | _ => false

theorem holds_iff {p : Nat} {q : Proc} :
    q.holds p = true ↔ ∃ job pc, q = .publish job pc ∧ job.postId = p ∧ pc.holds = true := by
  cases q <;> simp [Proc.holds]

section Step

variable {env : Env} {v : View} {p : Nat} {pc : PublishPc} {r : Reply} {e : Effect PublishPc}
  {row : Post}

/-- What becomes of a run that holds the post. -/
def Holding (p : Nat) (e : Effect PublishPc) : Prop :=
  (∃ pc', e.next = .goto pc' ∧ pc'.holds = true)
    ∨ ∃ row', e.db.posts.get p = some row' ∧ row'.state ≠ .publishing

/-- A run that holds its post has claimed it. -/
theorem claimed_of_holds (h : pc.holds = true) : pc.claimed = true := by
  cases pc <;> first | rfl | exact absurd h (by simp [PublishPc.holds])

/-- A commit that assigns another state takes the post out of `publishing`. -/
theorem holding_write {new post : Post} {evs : List PostEvent} {next : Next PublishPc}
    (hrow : v.db.posts.get p = some row) (hpost : post.state = .publishing)
    (hnew : new.state ≠ .publishing) :
    Holding p { db := v.db.write p (flush post new) evs, next := next } := by
  refine .inr ⟨_, Db.write_row hrow, ?_⟩
  rw [PostSet.apply_state, flush, changed_getD_of_ne _ (by rw [hpost]; exact hnew)]
  exact hnew

/-- A run that holds a post in `publishing` goes on to hold it, or takes it out, unless its
failure handler raises. -/
theorem publish_holding (h : publishStep env v p pc r = some e) (hpc : pc.holds = true)
    (hrow : v.db.posts.get p = some row) (hst : row.state = .publishing)
    (hch : ∀ post, pc = .channel post → v.db.channels.get post.sourceChannelId ≠ none) :
    Holding p e ∨ (∃ ex, r = .raise ex)
      ∧ ((∃ ex, pc = .failureLoad ex) ∨ ∃ ex post, pc = .failureCommit ex post) := by
  have hthere : v.db.posts.get p ≠ none := by simp [hrow]
  have hreload : ∀ post, v.db.posts.get p = some post → post.state = .publishing := by
    intro post hpost
    rw [← Option.some.inj (hrow.symm.trans hpost)]
    exact hst
  cases publishStep_move h with
  | stops o hwhy =>
      -- only a call of the failure handler can end the run here
      rcases hwhy with hfree | hgone | ⟨post, rfl, hgone⟩ | ⟨hfailed, hraise⟩
      · exact absurd (claimed_of_holds hpc) (by simp [hfree])
      · exact absurd hgone hthere
      · exact absurd hgone (hch post rfl)
      · cases pc with
        | failureLoad ex => exact .inr ⟨hraise, .inl ⟨ex, rfl⟩⟩
        | failureCommit ex post => exact .inr ⟨hraise, .inr ⟨ex, post, rfl⟩⟩
        | failureAlert ex => exact absurd hpc (by simp [PublishPc.holds])
        | _ => exact absurd hfailed (by simp [PublishPc.failed])
  | loads | claims => exact absurd hpc (by simp [PublishPc.holds])
  | card hcard hgone =>
      rcases hgone with rfl | hgone
      · exact absurd hpc (by simp [PublishPc.holds])
      · exact absurd hgone hthere
  | markLoads hpost | duplicateLoads hpost | failureLoads hpost =>
      exact .inl (.inl ⟨_, rfl, decide_eq_true (hreload _ hpost)⟩)
  | marks | duplicates | failureCommits =>
      exact .inl (holding_write hrow (of_decide_eq_true hpc) (by simp))
  | _ => exact .inl (.inl ⟨_, rfl, rfl⟩)

end Step

/-- The run is not going to do anything about a post `p` that is in `publishing`. -/
def Proc.idle (p : Nat) : Proc → Bool
  | .publish _ .load | .postDraft .. | .reconcileScheduled _ | .reconcilePending .query => true
  | .publish job _ | .normalize job _ => job.postId ≠ p
  | .reconcilePending (.enqueue ids) => p ∉ ids
  | _ => false

section Idle

variable {env : Env} {v : View} {r : Reply} {p : Nat} {q q' : Proc}

/-- A publish run does nothing about the post if it is at its start, where it will skip it, or
works on another. -/
theorem idle_publish {job : Job} {pc : PublishPc} (h : (Proc.publish job pc).idle p = true) :
    pc = .load ∨ job.postId ≠ p := by
  cases pc <;> first | exact .inl rfl | exact .inr (of_decide_eq_true h)

theorem idle_of_ne {job : Job} {pc : PublishPc} (h : job.postId ≠ p) :
    (Proc.publish job pc).idle p = true := by
  cases pc <;> first | rfl | exact decide_eq_true h

/-- A run that is idle about a post assigns it no state. -/
theorem idle_set {set : PostSet} (hs : q.set env v = some (p, set)) (hq : q.idle p = true) :
    set.state = none := by
  rcases set_cases hs with ⟨job, _, _, _, rfl, rfl, -⟩ | ⟨-, hass⟩
  · exact absurd rfl (of_decide_eq_true hq)
  · cases hset : set.state with
    | none => rfl
    | some s =>
        rw [hset, Option.map_some] at hass
        cases assigns_iff.mp hass with
        | button hne => exact absurd hq (by simp [Proc.idle])
        | decision hne => exact absurd hq (by simp [Proc.idle])
        | _ => exact absurd rfl (of_decide_eq_true hq)

theorem idle_enqueues {now : Time} {job : Job} (h : q.enqueues now = some job)
    (hq : q.idle p = true) (hname : job.name = .normalize) : job.postId ≠ p := by
  unfold Proc.enqueues at h
  split at h
  case h_6 =>
    obtain rfl := Option.some.inj h
    exact fun he => of_decide_eq_true hq (he ▸ List.mem_cons_self)
  case h_7 => exact absurd hq (by simp [Proc.idle])
  case h_8 => exact absurd h (by simp)
  all_goals
    obtain rfl := Option.some.inj h
    exact absurd hname (by simp [enqueuePublish, enqueuePostDraft])

/-- A publish run that is started on a post in `publishing` skips it. -/
theorem load_skips {row : Post} {pc : PublishPc} {e : Effect PublishPc}
    (h : publishStep env v p .load r = some e) (hrow : v.db.posts.get p = some row)
    (hst : row.state = .publishing) (hr : ∀ ex, r ≠ .raise ex) : e.next ≠ .goto pc := by
  rcases Reply.await_cases h with ⟨-, rfl⟩ | ⟨ex, rfl, -⟩
  · have hskip : row.state ∈ skipStates := by rw [hst]; decide
    simp only [publishLoad, hrow, if_pos hskip]
    split <;> simp [View.ret]
  · exact absurd rfl (hr ex)

/-- It stays idle: the query of the reconciler asks for `pending`, and so it does not find a post
in `publishing`. -/
theorem idle_goes {row : Post} (h : Goes env v q r q') (hq : q.idle p = true)
    (hload : ∀ job, q = .publish job .load → job.postId ≠ p)
    (hrow : v.db.posts.get p = some row) (hst : row.state = .publishing) : q'.idle p = true := by
  cases h with
  | publish hm hn =>
      rcases idle_publish hq with rfl | hne
      · exact idle_of_ne (hload _ rfl)
      · exact idle_of_ne hne
  | normalizes hrow hp hr => exact hq
  | renders hch ht hctx hpc => exact hq
  | transforms hai => exact hq
  | routes hrow => exact hq
  | drafts hrow ht => rfl
  | posts => rfl
  | cardLoads hrow => rfl
  | overdue => rfl
  | nextOverdue => rfl
  | orphaned =>
      refine decide_eq_true fun hmem => ?_
      obtain ⟨row', hrow', horph⟩ := row_of_mem_orphanedPosts hmem
      obtain rfl := Option.some.inj (hrow'.symm.trans hrow)
      exact absurd (hst.symm.trans horph.1) (by simp)
  | nextOrphan => exact decide_eq_true fun hmem => of_decide_eq_true hq (List.mem_cons_of_mem _ hmem)
  | _ => exact absurd hq (by simp [Proc.idle])

end Idle

namespace World

variable {env : Env} {w w' w₀ : World} {a : Action} {i p : Nat}

/-! ## The channel of a post -/

/-- Only a configuration changes the channels, and it leaves every post its own. -/
theorem channels_step (h : step env w a = some w') :
    w'.db.channels = w.db.channels
      ∨ ∀ row ∈ w'.db.posts.rows, w'.db.channels.get row.sourceChannelId ≠ none := by
  cases a with
  | configure channels templates tags =>
      rw [step] at h
      split at h
      · rename_i hg
        obtain rfl := Option.some.inj h
        exact .inr hg
      · exact absurd h (by simp)
  | _ =>
      left
      rcases step_cases h with ⟨d, -, rfl⟩ | ⟨k, r, q, e, -, hq, he, rfl⟩ | ⟨k, q, -, _, rfl⟩ |
        ⟨job, -, _, _, rfl⟩ | ⟨req, -, rfl⟩ | ⟨c, m, text, db, -, hdb, rfl⟩ |
        ⟨ch, te, ta, ha, rfl⟩ | ⟨at_, -, _, rfl⟩
      · rfl
      · show e.db.channels = _
        cases step_does he <;> rfl
      · rfl
      · rfl
      · rfl
      · show db.channels = _
        unfold Db.insertPost at hdb
        split at hdb
        · exact absurd hdb (by simp)
        · obtain rfl := Option.some.inj hdb
          rfl
      · cases ha
      · rfl

/-- Every post has its channel, also the copy of it that a publish run is about to look the
channel up for. -/
structure Housed (w : World) : Prop where
  rows : ∀ p row, w.row p = some row → w.db.channels.get row.sourceChannelId ≠ none
  copies : ∀ i job pc post, w.proc i = some (.publish job pc) → pc = .claim post ∨ pc = .channel post →
    ∃ row, w.row job.postId = some row ∧ row.sourceChannelId = post.sourceChannelId

/-- Every post keeps its channel. -/
theorem housed_step (hn : Numbered w) (hw : Housed w) (h : step env w a = some w') : Housed w' where
  rows := by
    intro p row hrow
    rcases channels_step h with hch | hall
    · rw [hch]
      rcases row_step p h with he | ⟨_, _, set, row₀, -, -, -, hr, he⟩ | ⟨c, m, text, rfl, -, he⟩
      · exact hw.rows p row (he ▸ hrow)
      · obtain rfl := Option.some.inj (hrow.symm.trans he)
        exact hw.rows p row₀ hr
      · obtain rfl := Option.some.inj (hrow.symm.trans he)
        rw [step] at h
        -- the foreign key of the row that was inserted
        unfold Db.insertPost at h
        split at h
        · exact absurd h (by simp)
        · rename_i hdb
          split at hdb
          · exact absurd hdb (by simp)
          · rename_i hfk
            exact fun hnone => hfk (.inr hnone)
    · exact hall row (Table.mem_of_get hrow)
  copies := by
    intro i job pc post hq hpc
    rcases publish_origin hn h hq with hp | ⟨r, pc₀, e, rfl, hp, hm, hnx, -⟩ | ⟨rfl, -⟩
    · obtain ⟨row, hrow, he⟩ := hw.copies i job pc post hp hpc
      obtain ⟨row', hrow', he', -⟩ := row_fixed h hrow
      exact ⟨row', hrow', he'.trans he⟩
    · have hold : ∃ row, w.row job.postId = some row
          ∧ row.sourceChannelId = post.sourceChannelId := by
        rcases hpc with rfl | rfl
        · exact ⟨post, (publish_loaded hm hnx rfl).1, rfl⟩
        · cases hm with
          | @claims loaded _ hrow =>
              obtain rfl := PublishPc.channel.inj (Next.goto.inj hnx)
              exact hw.copies i job (.claim loaded) loaded hp (.inl rfl)
          | card hc => rcases hc with ⟨_, _, -, rfl⟩ | ⟨-, _, rfl, -⟩ <;> exact absurd hnx (by simp [View.goto])
          | stops o => exact absurd hnx (by simp)
          | duplicates hrow => exact absurd hnx (by simp)
          | _ => exact absurd (Next.goto.inj hnx) (by simp)
      obtain ⟨row, hrow, he⟩ := hold
      obtain ⟨row', hrow', he', -⟩ := row_fixed h hrow
      exact ⟨row', hrow', he'.trans he⟩
    · exact absurd hpc (by simp)

theorem housed_init (h : Init w) : Housed w where
  rows p row hrow := by rw [row_init h] at hrow; exact absurd hrow (by simp)
  copies i job pc post hq := by rw [proc_init h] at hq; exact absurd hq (by simp)

/-! ## Runs that hold a post -/

/-- The state of post `p`. -/
def stateOf (w : World) (p : Nat) : Option PostState := (w.row p).map Post.state

/-- A run holds post `p`. -/
def Held (p : Nat) (w : World) : Prop := ∃ i q, w.proc i = some q ∧ q.holds p = true

/-- A run other than `i` holds it. -/
def HeldElsewhere (w : World) (p i : Nat) : Prop :=
  ∃ r ∈ w.runs.rows, r.run ≠ i ∧ r.proc.holds p = true

instance (w : World) (p i : Nat) : Decidable (HeldElsewhere w p i) :=
  inferInstanceAs (Decidable (∃ r ∈ w.runs.rows, r.run ≠ i ∧ r.proc.holds p = true))

/-- The only run that holds a post in `publishing` does not die, and its failure handler
does not raise. -/
def HoldsOn (p : Nat) (w : World) : Action → Prop
  | .crash i => ∀ q ∈ w.proc i, q.holds p = true → w.stateOf p = some .publishing →
    HeldElsewhere w p i
  | .advance i (.raise _) => ∀ q ∈ w.proc i, q.handlesFailure = true → q.holds p = true →
    w.stateOf p = some .publishing → HeldElsewhere w p i
  | _ => True

instance (p : Nat) (w : World) : DecidablePred (HoldsOn p w) := fun a =>
  match a with
  | .crash i =>
    inferInstanceAs (Decidable (∀ q ∈ w.proc i, q.holds p = true →
      w.stateOf p = some .publishing → HeldElsewhere w p i))
  | .advance i (.raise _) =>
    inferInstanceAs (Decidable (∀ q ∈ w.proc i, q.handlesFailure = true → q.holds p = true →
      w.stateOf p = some .publishing → HeldElsewhere w p i))
  | .advance _ .ok | .advance _ (.retryAfter _) | .advance _ (.message _)
  | .advance _ .nothing | .advance _ (.transformed _) | .advance _ (.media _)
  | .tick _ | .startJob _ | .request _ | .arrive .. | .configure .. | .pruneDedupe _ =>
    inferInstanceAs (Decidable True)

/-- Another run that holds the post goes on to do so. -/
theorem HeldElsewhere.kept (hn : Numbered w) (h : step env w a = some w')
    (hw : HeldElsewhere w p i) (ha : a = .crash i ∨ ∃ r, a = .advance i r) : Held p w' := by
  obtain ⟨j, q, hq, hne, hp⟩ :=
    (exists_run_iff (P := fun j q => j ≠ i ∧ q.holds p = true)).mp hw
  rcases proc_kept hn h hq with hq' | ⟨r, rfl⟩ | rfl
  · exact ⟨j, q, hq', hp⟩
  · rcases ha with ha | ⟨_, ha⟩ <;> cases ha
    exact absurd rfl hne
  · rcases ha with ha | ⟨_, ha⟩ <;> cases ha
    exact absurd rfl hne

/-- A post in `publishing` is held. -/
structure Secured (p : Nat) (w : World) : Prop where
  numbered : Numbered w
  housed : Housed w
  held : w.stateOf p = some .publishing → Held p w

/-- A run that holds the post before a step holds it afterwards, or the post is out of
`publishing`. -/
theorem Secured.kept (hw : Secured p w) (hg : HoldsOn p w a) (h : step env w a = some w')
    (hst : w.stateOf p = some .publishing) : Held p w' ∨ w'.stateOf p ≠ some .publishing := by
  obtain ⟨i, q, hq, hp⟩ := hw.held hst
  rcases proc_kept hw.numbered h hq with hq' | ⟨r, rfl⟩ | rfl
  · exact .inl ⟨i, q, hq', hp⟩
  · obtain ⟨q', e, hq', he, hw'⟩ := advance_cases h
    obtain rfl := Option.some.inj (hq.symm.trans hq')
    obtain ⟨job, pc, rfl, rfl, hpc⟩ := holds_iff.mp hp
    obtain ⟨row, hrow, hrst⟩ := Option.map_eq_some_iff.mp hst
    obtain ⟨e₀, he₀, rfl⟩ := Option.map_eq_some_iff.mp he
    -- the channel is there, so the one step that gives the post up without a commit is not taken
    have hch : ∀ post, pc = .channel post →
        (w.view i).db.channels.get post.sourceChannelId ≠ none := by
      rintro post rfl
      obtain ⟨row, hrow, hc⟩ := hw.housed.copies i job _ post hq (.inr rfl)
      rw [← hc]
      exact hw.housed.rows _ row hrow
    rcases publish_holding he₀ hpc hrow hrst hch with (⟨pc', hnx, hpc'⟩ | ⟨row', hrow', hne⟩) |
      ⟨⟨ex, rfl⟩, hfail⟩
    · refine .inl ⟨i, .publish job pc', ?_, holds_iff.mpr ⟨job, pc', rfl, rfl, hpc'⟩⟩
      rw [hw']
      exact proc_apply_goto hq (by rw [Effect.map, hnx])
    · have hrow' : w'.row job.postId = some row' := hw' ▸ hrow'
      refine .inr ?_
      rw [stateOf, hrow', Option.map_some]
      exact fun he => hne (Option.some.inj he)
    -- the failure handler raises, and another run holds the post
    · refine .inl ((hg _ hq ?_ hp hst).kept hw.numbered h (.inr ⟨_, rfl⟩))
      rcases hfail with ⟨_, rfl⟩ | ⟨_, _, rfl⟩ <;> rfl
  · exact .inl ((hg q hq hp hst).kept hw.numbered h (.inl rfl))

/-- Only a claim makes a post `publishing`. -/
theorem assigns_publishing {v : View} {q : Proc} (h : q.assigns env v = some (p, .publishing)) :
    ∃ job post, q = .publish job (.claim post) ∧ p = job.postId := by
  generalize hs : PostState.publishing = s at h
  cases assigns_iff.mp h with
  | claim hne => exact ⟨_, _, rfl, rfl⟩
  | button hne =>
      rename_i b _ _
      cases b <;> exact absurd hs (by simp [Button.state])
  | decision hne =>
      rename_i req _ _
      cases hd : req.decision <;> rw [hd] at hs <;> exact absurd hs (by simp [decisionState])
  | _ => exact absurd hs (by simp)

/-- **One step**: a post in `publishing` is held by a run, the one that claims it to begin with. -/
theorem secured_step (hw : Secured p w) (hg : HoldsOn p w a) (h : step env w a = some w') :
    Secured p w' where
  numbered := numbered_step hw.numbered h
  housed := housed_step hw.numbered hw.housed h
  held := by
    intro hst'
    by_cases hst : w.stateOf p = some .publishing
    · exact (hw.kept hg h hst).resolve_right (not_not_intro hst')
    · -- the post has just been claimed
      obtain ⟨row', hrow', hrst⟩ := Option.map_eq_some_iff.mp hst'
      rcases state_origin h hrow' (by simp [hrst]) (by simp [hrst]) with
        ⟨row, hr, hst₀⟩ | ⟨i, q, row, rfl, hq, hass, hr⟩
      · exact absurd (by rw [stateOf, hr, Option.map_some, hst₀, hrst]) hst
      · obtain ⟨job, post, rfl, rfl⟩ := assigns_publishing (hrst ▸ hass)
        obtain ⟨q', e, hq', he', rfl⟩ := advance_cases h
        obtain rfl := Option.some.inj (hq.symm.trans hq')
        refine ⟨i, .publish job (.channel { post with state := .publishing }), ?_,
          holds_iff.mpr ⟨job, _, rfl, rfl, rfl⟩⟩
        have hfound : (w.view i).db.posts.get job.postId = some row := hr
        rw [Proc.step, publishStep, Reply.await, publishClaim, View.commit_found hfound,
          Option.map_some] at he'
        obtain rfl := Option.some.inj he'
        exact proc_apply_goto hq rfl

theorem secured_init (h : Init w) : Secured p w where
  numbered := numbered_init h
  housed := housed_init h
  held := by
    intro hst
    rw [stateOf, row_init h] at hst
    exact absurd hst (by simp)

/-! ## Rescue -/

/-- The step is one of the system left to itself with all its calls answered: a queued job
is started, a service boots, a run goes on. -/
def Automatic (_ : World) : Action → Prop
  | .tick _ | .startJob _ | .request .bootWorker | .request .bootUserbot => True
  | .advance _ r => ∀ ex, r ≠ .raise ex
  | _ => False

/-- Queued jobs and boot-time reconciles can take post `p` out of `publishing`. -/
def Rescued (env : Env) (p : Nat) (w : World) : Prop :=
  ∃ tr w', Trace (step env) w tr w' ∧ AllSteps Automatic tr ∧ w'.stateOf p ≠ some .publishing

/-- Post `p` is not left in `publishing` without a publish run that works on it. -/
def Unstranded (env : Env) (p : Nat) (w : World) : Prop :=
  (∀ r ∈ w.runs.rows, r.proc.publishes p = false) →
    w.stateOf p ≠ some .publishing ∨ Rescued env p w

/--
**A post is not stranded in `publishing` in any run in which no run that alone holds it
dies, or has its failure handler raise.**

The invariant is that some run holds each post in `publishing`. A run that holds it goes on to
do so, or its commit takes the post out (`publish_holding`), unless it ends in one of the two ways
that `HoldsOn` excludes.
-/
theorem never_stranded {tr : List (World × Action)} (h0 : Init w₀)
    (h : Trace (step env) w₀ tr w) (hg : AllSteps (HoldsOn p) tr) : Unstranded env p w := by
  have hw : Secured p w := h.invariant (fun _ _ _ hw hg hu => secured_step hw hg hu) hg (secured_init h0)
  intro hno
  refine .inl fun hst => ?_
  obtain ⟨i, q, hq, hp⟩ := hw.held hst
  obtain ⟨r, hr, hp⟩ := (exists_run_iff (P := fun _ q => q.holds p = true)).mpr ⟨i, q, hq, hp⟩
  obtain ⟨job, pc, hproc, hpost, -⟩ := holds_iff.mp hp
  have hpub := hno r hr
  rw [hproc] at hpub
  exact absurd hpost (of_decide_eq_false hpub)

/-- Post 1 is approved, and the call that sends it raises. -/
def sendRaised : List Action :=
  ingests 1 0 ++ normalizes 1 1 0 ++ approvesWeb 2 3 ++ sends 1 3 0 6 ++
  .advance 3 (.raise redisError) :: goes 3 4

theorem never_stranded_raised :
    ∃ w, (sample sampleChannel).after (sampleEnv {}) sendRaised = some w
      ∧ w.runs.rows = [] ∧ Unstranded (sampleEnv {}) 1 w := by
  have hrun : ((sample sampleChannel).after (sampleEnv {}) sendRaised).map (fun w =>
      w.runs.rows) = some [] := by decide +kernel
  obtain ⟨w, hw, hruns⟩ := Option.map_eq_some_iff.mp hrun
  exact ⟨w, hw, hruns, never_stranded (sample_init _) (path_after hw) (by decide +kernel)⟩

/-! ## A run that dies -/

/-- Nothing in the system is going to take post `p` out of `publishing`. -/
structure Stuck (p : Nat) (w : World) : Prop where
  numbered : Numbered w
  state : w.stateOf p = some .publishing
  queue : ∀ job ∈ w.queue, job.name = .normalize → job.postId ≠ p
  runs : ∀ i q, w.proc i = some q → q.idle p = true

/-- Why a post that nobody holds stays stuck: its state stays, -/
theorem Stuck.state_step (hw : Stuck p w) (ha : Automatic w a) (h : step env w a = some w') :
    w'.stateOf p = some .publishing := by
  rcases row_step p h with he | ⟨i, q, set, row, rfl, hq, hs, hr, he⟩ | ⟨_, _, _, rfl, -⟩
  · rw [stateOf, he]; exact hw.state
  · have hst := hw.state
    rw [stateOf, hr, Option.map_some] at hst
    rw [stateOf, he, Option.map_some, PostSet.apply_state, idle_set hs (hw.runs i q hq)]
    exact hst
  · exact absurd ha (by simp [Automatic])

/-- no job to normalize it comes into the queue, -/
theorem Stuck.queue_step (hw : Stuck p w) (ha : Automatic w a) (h : step env w a = some w')
    {job : Job} (hj : job ∈ w'.queue) (hname : job.name = .normalize) : job.postId ≠ p := by
  rcases World.queue_step h hj with hj | ⟨i, q, rfl, hq, henq⟩ | ⟨i, q, rfl, -, -⟩
  · exact hw.queue job hj hname
  · exact idle_enqueues henq (hw.runs i q hq) hname
  · exact absurd ha (by simp [Automatic])

/-- and each run stays idle about it, those that start now included. -/
theorem Stuck.runs_step (hw : Stuck p w) (ha : Automatic w a) (h : step env w a = some w')
    {q : Proc} (hq : w'.proc i = some q) : q.idle p = true := by
  rcases proc_step hw.numbered h hq with hq | ⟨r, q₀, e, rfl, hq₀, he, hnx, -⟩ | ⟨-, -, hs⟩
  · exact hw.runs i q hq
  · obtain ⟨row, hrow, hst⟩ := Option.map_eq_some_iff.mp hw.state
    refine idle_goes (step_goes he hnx) (hw.runs i q₀ hq₀) ?_ hrow hst
    rintro job rfl rfl
    obtain ⟨e₀, he₀, rfl⟩ := Option.map_eq_some_iff.mp he
    obtain ⟨_, hnx₀, -⟩ := Effect.map_goto hnx
    exact load_skips he₀ hrow hst ha hnx₀
  · cases hs with
    | publish => rfl
    | normalize hname => exact decide_eq_true (hw.queue _ (startJob_cases h).1 hname)
    | postDraft => rfl
    | bootWorker => rfl
    | bootUserbot => rfl
    | _ => exact absurd ha (by simp [Automatic])

/-- So nothing automatic takes it out of `publishing`. -/
theorem Stuck.not_rescued (hw : Stuck p w) : ¬ Rescued env p w := by
  rintro ⟨tr, w', h, hauto, hst⟩
  have hw' : Stuck p w' := by
    refine h.invariant (fun t a u hw ha hu => ?_) hauto hw
    exact ⟨numbered_step hw.numbered hu, hw.state_step ha hu, fun _ hj => hw.queue_step ha hu hj,
      fun _ _ hq => hw.runs_step ha hu hq⟩
  exact hst hw'.state

/-- The run of the publish job dies right after its claim. -/
def claimDied : List Action :=
  ingests 1 0 ++ normalizes 1 1 0 ++ approvesWeb 2 3 ++ .startJob ⟨.publish, 1, 0⟩ ::
  goes 3 2 ++ [.crash 3]

/-- The publish job that has been retried is still in the queue, and skips the post when it runs. -/
theorem claimDied_stranded :
    ∃ w tr, Init (sample sampleChannel) ∧ Trace (step (sampleEnv {})) (sample sampleChannel) tr w
      ∧ ⟨.publish, 1, 0⟩ ∈ w.queue ∧ ¬ Unstranded (sampleEnv {}) 1 w := by
  have hrun : ((sample sampleChannel).after (sampleEnv {}) claimDied).map (fun w =>
      Decidable.decide (⟨.publish, 1, 0⟩ ∈ w.queue ∧ w.stateOf 1 = some .publishing
        ∧ (∀ job ∈ w.queue, job.name = .normalize → job.postId ≠ 1) ∧ w.runs.rows = []))
      = some true := by decide +kernel
  obtain ⟨w, hw, hd⟩ := Option.map_eq_some_iff.mp hrun
  obtain ⟨hjob, hst, hqueue, hruns⟩ := of_decide_eq_true hd
  have hstuck : Stuck 1 w := by
    refine ⟨(path_after hw).invariant' (fun _ _ _ => numbered_step) (numbered_init (sample_init _)),
      hst, hqueue, fun i q hq => ?_⟩
    obtain ⟨r, hr, -⟩ := Option.map_eq_some_iff.mp hq
    exact absurd (Table.mem_of_get hr) (by simp [hruns])
  refine ⟨w, _, sample_init _, path_after hw, hjob, fun hu => ?_⟩
  rcases hu (by simp [hruns]) with hne | hres
  · exact hne hst
  · exact hstuck.not_rescued hres

end World

end TelegramCms
