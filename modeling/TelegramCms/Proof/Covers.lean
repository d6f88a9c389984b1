import TelegramCms.Proof.Paths
import TelegramCms.Proof.Rows

/-!
# What covers an approved post

The bot and both APIs commit an approval first and enqueue its job afterwards. So an approved
post has a publish job, queued or running, or the request that approved it is still about to
enqueue one; its cover, with `late` to allow for the second.

A commit that approves a post covers it, late. `approvedCovered_step_iff`: a post stays covered
in a step exactly if the step is not the last one of its last cover.
-/

namespace TelegramCms

open Transition

/-- The job publishes post `p`. -/
def Job.publishes (p : Nat) (job : Job) : Bool := job.name = .publish ∧ job.postId = p

/-- The run is a publish job of post `p`. -/
def Proc.publishes (p : Nat) : Proc → Bool
  | .publish job _ => job.postId = p
  | _ => false

/-- The run has committed an approval of post `p`, and is to enqueue its job. -/
def Proc.enqueuing (p : Nat) : Proc → Bool
  | .callback .approve _ q (.answer _) | .callback .approve _ q (.enqueue _) => q = p
  | .decide req (.enqueue _) => req.decision = .approve ∧ req.postId = p
  | _ => false

/-- The run is a cover of post `p`. -/
def Proc.covers (late : Bool) (p : Nat) (q : Proc) : Bool := q.publishes p || (late && q.enqueuing p)

/-- The step is the last one of the run. -/
def Proc.ends (env : Env) (v : View) (proc : Proc) (r : Reply) : Bool :=
  match proc.step env v r with
  | some ⟨_, _, _, .stop _⟩ => true
  | _ => false

/-- The run ends, and neither does it enqueue a job nor give a post another state. -/
def Proc.quits (env : Env) (v : View) (q : Proc) (r : Reply) : Bool :=
  q.ends env v r && (r != .ok || ((q.enqueues v.now).isNone && (q.assigns env v).isNone))

section Step

variable {env : Env} {v : View} {late : Bool} {p : Nat} {q : Proc} {r : Reply} {e : Effect Proc}

theorem ends_iff : q.ends env v r = true ↔ ∃ e o, q.step env v r = some e ∧ e.next = .stop o := by
  unfold Proc.ends
  constructor
  · intro h
    split at h
    · rename_i he
      exact ⟨_, _, he, rfl⟩
    · exact absurd h (by simp)
  · rintro ⟨⟨_, _, _, next⟩, o, he, rfl⟩
    rw [he]

theorem publishes_iff : q.publishes p = true ↔ ∃ job pc, q = .publish job pc ∧ job.postId = p := by
  cases q <;> simp [Proc.publishes]

theorem covers_iff : q.covers late p = true
    ↔ q.publishes p = true ∨ late = true ∧ q.enqueuing p = true := by
  simp [Proc.covers]

theorem quits_iff : q.quits env v r = true ↔ q.ends env v r = true
    ∧ (r = .ok → q.enqueues v.now = none ∧ q.assigns env v = none) := by
  simp [Proc.quits, Option.isNone_iff_eq_none, Classical.or_iff_not_imp_left]

/-- A publish job enqueues nothing. -/
theorem enqueues_of_publishes (h : q.publishes p = true) (now : Time) : q.enqueues now = none := by
  obtain ⟨job, pc, rfl, -⟩ := publishes_iff.mp h
  rfl

/-- A commit enqueues nothing. -/
theorem enqueues_of_set {set : PostSet} (hs : q.set env v = some (p, set)) (now : Time) :
    q.enqueues now = none := by
  cases issues_of_set hs <;> rfl

/-- What a request does that is to enqueue the job: it goes on to do so, does it, or raises. -/
inductive EnqueuingStep (v : View) (p : Nat) (q : Proc) (r : Reply) (e : Effect Proc) : Prop where
  | goesOn (q' : Proc) (hn : e.next = .goto q') (hq : q'.enqueuing p = true)
  | enqueues (job : Job) (hj : job ∈ e.jobs) (hp : job.publishes p = true) (hr : r = .ok)
      (hq : q.enqueues v.now = some job)
  | raises (ex : PyError) (o : Outcome) (hr : r = .raise ex) (hn : e.next = .stop o)

theorem enqueuing_step (hq : q.enqueuing p = true) (h : q.step env v r = some e) :
    e.db = v.db ∧ EnqueuingStep v p q r e := by
  obtain ⟨u, q, post, rfl, rfl⟩ | ⟨u, q, post, rfl, rfl⟩ | ⟨req, delay, rfl, -, rfl⟩ :
      (∃ u q' post, q = .callback .approve u q' (.answer post) ∧ q' = p)
      ∨ (∃ u q' post, q = .callback .approve u q' (.enqueue post) ∧ q' = p)
      ∨ ∃ req delay, q = .decide req (.enqueue delay) ∧ req.decision = .approve ∧ req.postId = p := by
    unfold Proc.enqueuing at hq
    split at hq
    · exact .inl ⟨_, _, _, rfl, of_decide_eq_true hq⟩
    · exact .inr (.inl ⟨_, _, _, rfl, of_decide_eq_true hq⟩)
    · exact .inr (.inr ⟨_, _, rfl, of_decide_eq_true hq⟩)
    · exact absurd hq (by simp)
  · obtain ⟨e₀, he, rfl⟩ := Option.map_eq_some_iff.mp h
    rcases Reply.await_cases he with ⟨rfl, rfl⟩ | ⟨ex, rfl, rfl⟩
    · exact ⟨rfl, .goesOn _ rfl (decide_eq_true rfl)⟩
    · exact ⟨rfl, .raises ex _ rfl rfl⟩
  · obtain ⟨e₀, he, rfl⟩ := Option.map_eq_some_iff.mp h
    rcases Reply.await_cases he with ⟨rfl, rfl⟩ | ⟨ex, rfl, rfl⟩
    · exact ⟨rfl, .enqueues _ (List.mem_singleton_self _) (decide_eq_true ⟨rfl, rfl⟩) rfl rfl⟩
    · exact ⟨rfl, .raises ex _ rfl rfl⟩
  · obtain ⟨e₀, he, rfl⟩ := Option.map_eq_some_iff.mp h
    rcases Reply.await_cases he with ⟨rfl, rfl⟩ | ⟨ex, rfl, rfl⟩
    · exact ⟨rfl, .enqueues _ (List.mem_singleton_self _) (decide_eq_true ⟨rfl, rfl⟩) rfl rfl⟩
    · exact ⟨rfl, .raises ex _ rfl rfl⟩

/-- A run of a job is none of a request. -/
theorem job?_of_enqueuing (hq : q.enqueuing p = true) : q.job? = none := by
  unfold Proc.enqueuing at hq
  split at hq <;> first | rfl | exact absurd hq (by simp)

/-- What commits an approval is to enqueue the job next. -/
theorem enqueuing_of_assigns {row : Post} (hass : q.assigns env v = some (p, .approved))
    (hrow : v.db.posts.get p = some row) (h : q.step env v .ok = some e) :
    ∃ q', e.next = .goto q' ∧ q'.enqueuing p = true := by
  -- the two commits differ in what follows
  have hcommit : ∀ {Pc : Type} {set : PostSet} {evs : List PostEvent} {f : PyError → Effect Pc}
      {k : Db → Effect Pc}, v.commit p set evs f k = k (v.db.write p set evs) := by
    intro Pc set evs f k
    rcases View.commit_cases with ⟨hnone, -⟩ | ⟨-, -, hc⟩
    · rw [hrow] at hnone
      exact absurd hnone (by simp)
    · exact hc
  generalize hst : PostState.approved = st at hass
  cases assigns_iff.mp hass with
  | @button b u _ post hne =>
      cases b with
      | reject => exact absurd hst (by simp [Button.state])
      | approve =>
          rw [Proc.step, Option.map_eq_some_iff] at h
          obtain ⟨e₀, he, rfl⟩ := h
          obtain rfl := Option.some.inj he
          rw [callbackCommit, hcommit]
          exact ⟨_, rfl, decide_eq_true rfl⟩
  | @decision req post now hne =>
      have hd : req.decision = .approve := by
        cases hd : req.decision with
        | approve => rfl
        | _ => rw [hd] at hst; exact absurd hst (by simp [decisionState])
      rw [Proc.step, Option.map_eq_some_iff] at h
      obtain ⟨e₀, he, rfl⟩ := h
      obtain rfl := Option.some.inj he
      rw [decideCommit, hcommit, decideNext, hd]
      exact ⟨_, rfl, decide_eq_true ⟨hd, rfl⟩⟩
  | _ => exact absurd hst (by simp)

/-- A publish run ends without a commit, or with the one of `_mark_duplicate`. -/
theorem publish_end {job : Job} {pc : PublishPc} {o : Outcome}
    (he : (Proc.publish job pc).step env v r = some e) (hnx : e.next = .stop o) :
    e.db = v.db ∨ ∃ h post row, r = .ok ∧ pc = .duplicateCommit h post
      ∧ v.db.posts.get job.postId = some row
      ∧ e.db.posts.get job.postId
        = some ((flush post { post with state := .rejected }).apply row) := by
  obtain ⟨e₀, hm, rfl⟩ := publish_step he
  have hstop : ∃ o, e₀.next = .stop o := by
    cases hn : e₀.next with
    | goto pc' => rw [Effect.map, hn] at hnx; exact absurd hnx (by simp)
    | stop o => exact ⟨o, rfl⟩
  obtain ⟨o, hstop⟩ := hstop
  cases hm with
  | stops o => exact .inl rfl
  | duplicates hrow => exact .inr ⟨_, _, _, rfl, rfl, hrow, Db.write_row hrow⟩
  | _ => exact absurd hstop (by simp [publishFail, View.goto, sendDelivered, sendBegins, releaseDedupe])

end Step

namespace World

variable {env : Env} {w w' : World} {a : Action} {late : Bool} {i p : Nat}

/-- Post `p` is covered: a publish job of it is queued or running, or (late) about to be
enqueued. -/
def HasCover (late : Bool) (w : World) (p : Nat) : Prop :=
  (∃ job ∈ w.queue, job.publishes p = true) ∨ ∃ r ∈ w.runs.rows, r.proc.covers late p = true

instance (late : Bool) (w : World) (p : Nat) : Decidable (HasCover late w p) :=
  inferInstanceAs (Decidable ((∃ job ∈ w.queue, job.publishes p = true)
    ∨ ∃ r ∈ w.runs.rows, r.proc.covers late p = true))

/-- The same, not counting run `i`. -/
def HasOtherCover (late : Bool) (w : World) (p i : Nat) : Prop :=
  (∃ job ∈ w.queue, job.publishes p = true)
    ∨ ∃ r ∈ w.runs.rows, r.run ≠ i ∧ r.proc.covers late p = true

instance (late : Bool) (w : World) (p i : Nat) : Decidable (HasOtherCover late w p i) :=
  inferInstanceAs (Decidable ((∃ job ∈ w.queue, job.publishes p = true)
    ∨ ∃ r ∈ w.runs.rows, r.run ≠ i ∧ r.proc.covers late p = true))

theorem hasCover_iff : HasCover late w p ↔ (∃ job ∈ w.queue, job.publishes p = true)
    ∨ ∃ j q, w.proc j = some q ∧ q.covers late p = true :=
  or_congr_right (exists_run_iff (P := fun _ q => q.covers late p = true))

theorem hasOtherCover_iff : HasOtherCover late w p i ↔ (∃ job ∈ w.queue, job.publishes p = true)
    ∨ ∃ j q, w.proc j = some q ∧ j ≠ i ∧ q.covers late p = true :=
  or_congr_right (exists_run_iff (P := fun j q => j ≠ i ∧ q.covers late p = true))

theorem hasCover_of_proc {q : Proc} (hq : w.proc i = some q) (hc : q.covers late p = true) :
    HasCover late w p :=
  hasCover_iff.mpr (.inr ⟨i, q, hq, hc⟩)

/-- The run of a publish job has a publish job. -/
def Named (w : World) : Prop :=
  ∀ i job pc, w.proc i = some (.publish job pc) → job.name = .publish

theorem named_step (hn : Numbered w) (hw : Named w) (h : step env w a = some w') : Named w' := by
  intro i job pc hq
  rcases publish_origin hn h hq with hp | ⟨r, pc₀, e, rfl, hp, -⟩ | ⟨-, -, hname⟩
  · exact hw i job pc hp
  · exact hw i job pc₀ hp
  · exact hname

/-! ## One step of a cover -/

/-- The step is the last one of run `i`, and no job comes of it. -/
def LastStep (env : Env) (w : World) (i : Nat) (q : Proc) (a : Action) : Prop :=
  (∃ r, a = .advance i r ∧ q.ends env (w.view i) r = true ∧ (r = .ok → q.enqueues w.now = none))
    ∨ a = .crash i ∧ q.job? = none

theorem hasCover_of_queued {job : Job} (hn : Numbered w) (h : step env w a = some w')
    (hj : job ∈ w.queue) (hp : job.publishes p = true) : HasCover late w' p := by
  rcases queue_kept h hj with hj | rfl
  · exact .inl ⟨job, hj, hp⟩
  · -- the job becomes a run
    obtain ⟨hname, hpost⟩ := of_decide_eq_true hp
    refine hasCover_of_proc (startJob_proc hn h) (covers_iff.mpr (.inl ?_))
    rw [Job.start, hname]
    exact decide_eq_true hpost

theorem hasCover_of_running {q : Proc} (hn : Numbered w) (hw : Named w) (h : step env w a = some w')
    (hq : w.proc i = some q) (hc : q.covers late p = true) (hlast : ¬ LastStep env w i q a) :
    HasCover late w' p := by
  rcases proc_kept hn h hq with hq' | ⟨r, rfl⟩ | rfl
  · exact hasCover_of_proc hq' hc
  · obtain ⟨q', e, hq', he, rfl⟩ := advance_cases h
    obtain rfl := Option.some.inj (hq.symm.trans hq')
    cases hnx : e.next with
    | stop o =>
        -- the run ends: its last step has put a job into the queue, or was no last step
        have hends := ends_iff.mpr ⟨e, o, he, hnx⟩
        rcases covers_iff.mp hc with hp | ⟨-, hp⟩
        · exact (hlast (.inl ⟨r, rfl, hends, fun _ => enqueues_of_publishes hp _⟩)).elim
        · cases (enqueuing_step hp he).2 with
          | goesOn q' hn => rw [hnx] at hn; exact absurd hn (by simp)
          | enqueues job hj hp => exact .inl ⟨job, List.mem_append_right _ hj, hp⟩
          | raises ex o hr =>
              refine (hlast (.inl ⟨r, rfl, hends, fun hok => ?_⟩)).elim
              exact absurd (hr.symm.trans hok) (by simp)
    | goto q' =>
        -- the run goes on, and covers the post still
        have hq' := proc_apply_goto hq hnx
        rcases covers_iff.mp hc with hp | ⟨hlate, hp⟩
        · obtain ⟨job, pc, rfl, rfl⟩ := publishes_iff.mp hp
          obtain ⟨e₀, -, rfl⟩ := publish_step he
          obtain ⟨pc', -, rfl⟩ := Effect.map_goto hnx
          exact hasCover_of_proc hq' (covers_iff.mpr (.inl hp))
        · cases (enqueuing_step hp he).2 with
          | goesOn q₁ hn hq₁ =>
              obtain rfl := Next.goto.inj (hnx.symm.trans hn)
              exact hasCover_of_proc hq' (covers_iff.mpr (.inr ⟨hlate, hq₁⟩))
          | enqueues job hj hp => exact .inl ⟨job, List.mem_append_right _ hj, hp⟩
          | raises ex o hr hn => rw [hnx] at hn; exact absurd hn (by simp)
  · obtain ⟨q', hq', rfl⟩ := crash_cases h
    obtain rfl := Option.some.inj (hq.symm.trans hq')
    rcases covers_iff.mp hc with hp | ⟨-, hp⟩
    · obtain ⟨job, pc, rfl, rfl⟩ := publishes_iff.mp hp
      -- a job whose run crashes is queued again
      refine .inl ⟨job, List.mem_append_right _ (List.mem_singleton_self job), ?_⟩
      exact decide_eq_true ⟨hw i job pc hq, rfl⟩
    · exact (hlast (.inr ⟨rfl, job?_of_enqueuing hp⟩)).elim

/-- Cover gets lost by the last step of the last one only. -/
theorem hasCover_step (hn : Numbered w) (hw : Named w) (h : step env w a = some w')
    (hc : HasCover late w p)
    (hlast : ∀ i q, w.proc i = some q → q.covers late p = true → LastStep env w i q a →
      HasOtherCover late w p i) : HasCover late w' p := by
  rcases hasCover_iff.mp hc with ⟨job, hj, hp⟩ | ⟨i, q, hq, hc⟩
  · exact hasCover_of_queued hn h hj hp
  · by_cases hl : LastStep env w i q a
    · rcases hasOtherCover_iff.mp (hlast i q hq hc hl) with ⟨job, hj, hp⟩ | ⟨j, q', hq', hji, hc'⟩
      · exact hasCover_of_queued hn h hj hp
      · refine hasCover_of_running hn hw h hq' hc' ?_
        -- the step is one of run `i`
        rintro (⟨r, ha, -⟩ | ⟨ha, -⟩)
        · rcases hl with ⟨_, ha', -⟩ | ⟨ha', -⟩
          · rw [ha] at ha'; cases ha'; exact hji rfl
          · rw [ha] at ha'; cases ha'
        · rcases hl with ⟨_, ha', -⟩ | ⟨ha', -⟩
          · rw [ha] at ha'; cases ha'
          · rw [ha] at ha'; cases ha'; exact hji rfl
    · exact hasCover_of_running hn hw h hq hc hl

/-- Conversely: what cover there is after a last step was there before. -/
theorem hasCover_before {q : Proc} (hn : Numbered w) (h : step env w a = some w')
    (hq : w.proc i = some q) (hlast : LastStep env w i q a) (hc : HasCover late w' p) :
    HasOtherCover late w p i := by
  -- the run is over, so whatever covers the post now is another
  have hgone : w'.proc i = none := by
    rcases hlast with ⟨r, rfl, hend, -⟩ | ⟨rfl, -⟩
    · obtain ⟨q', e, hq', he, rfl⟩ := advance_cases h
      obtain rfl := Option.some.inj (hq'.symm.trans hq)
      obtain ⟨e', o, he', hnx⟩ := ends_iff.mp hend
      obtain rfl := Option.some.inj (he.symm.trans he')
      exact proc_apply_stop hnx
    · obtain ⟨q', -, rfl⟩ := crash_cases h
      exact proc_crash_self
  rcases hasCover_iff.mp hc with ⟨job, hj, hp⟩ | ⟨j, q', hq', hc'⟩
  · rcases queue_step h hj with hj | ⟨j, q', ha, hq', hen⟩ | ⟨j, q', ha, hq', hjob⟩
    · exact .inl ⟨job, hj, hp⟩
    · rcases hlast with ⟨r, ha', -, hnone⟩ | ⟨ha', -⟩
      · rw [ha] at ha'
        cases ha'
        obtain rfl := Option.some.inj (hq.symm.trans hq')
        rw [hnone rfl] at hen
        exact absurd hen (by simp)
      · rw [ha] at ha'; cases ha'
    · rcases hlast with ⟨r, ha', -⟩ | ⟨ha', hnone⟩
      · rw [ha] at ha'; cases ha'
      · rw [ha] at ha'
        cases ha'
        obtain rfl := Option.some.inj (hq.symm.trans hq')
        rw [hnone] at hjob
        exact absurd hjob (by simp)
  · have hji : j ≠ i := by
      rintro rfl
      rw [hgone] at hq'
      exact absurd hq' (by simp)
    rcases proc_step hn h hq' with hq₀ | ⟨r, _, _, rfl, -⟩ | ⟨-, -, hs⟩
    · exact hasOtherCover_iff.mpr (.inr ⟨j, q', hq₀, hji, hc'⟩)
    · rcases hlast with ⟨_, ha', -⟩ | ⟨ha', -⟩ <;> cases ha'
      exact absurd rfl hji
    · rcases hlast with ⟨_, rfl, -⟩ | ⟨rfl, -⟩ <;> cases hs

/-! ## The state of the post -/

/-- If post `p` is approved, it is covered. -/
def ApprovedCovered (late : Bool) (p : Nat) (w : World) : Prop :=
  (w.row p).map Post.state = some .approved → HasCover late w p

/-- An approval of post `p` is committed only while a job is there. -/
abbrev ApprovesQueued (env : Env) (p : Nat) : World → Action → Prop :=
  OnOk fun w i q => q.assigns env (w.view i) = some (p, .approved) → (w.row p).isSome →
    HasCover false w p

/-- The step ends the run for good. -/
def Running.leaves (env : Env) (w : World) (x : Running) : Action → Bool
  | .advance i r => i = x.run && x.proc.quits env (w.view i) r
  | .crash i => i = x.run && x.proc.job?.isNone
  | _ => false

/-- While post `p` is approved, its last cover does not end for good. -/
def CoverKept (env : Env) (late : Bool) (p : Nat) (w : World) (a : Action) : Prop :=
  ∀ x ∈ w.runs.rows, x.proc.covers late p = true → Running.leaves env w x a = true →
    (w.row p).map Post.state = some .approved → HasOtherCover late w p x.run

instance (env : Env) (late : Bool) (p : Nat) (w : World) : DecidablePred (CoverKept env late p w) :=
  fun a => inferInstanceAs (Decidable (∀ x ∈ w.runs.rows, x.proc.covers late p = true →
    Running.leaves env w x a = true → (w.row p).map Post.state = some .approved →
    HasOtherCover late w p x.run))

theorem leaves_iff {x : Running} : Running.leaves env w x a = true
    ↔ LastStep env w x.run x.proc a
      ∧ (a = .advance x.run .ok → x.proc.assigns env (w.view x.run) = none) := by
  cases a with
  | advance i r =>
      simp only [Running.leaves, LastStep, Bool.and_eq_true, decide_eq_true_eq, quits_iff]
      constructor
      · rintro ⟨rfl, hend, hok⟩
        exact ⟨.inl ⟨r, rfl, hend, fun h => (hok h).1⟩, fun h => by cases h; exact (hok rfl).2⟩
      · rintro ⟨⟨r', ha, hend, hen⟩ | ⟨ha, -⟩, hass⟩
        · cases ha
          exact ⟨rfl, hend, fun h => ⟨hen h, hass (by rw [h])⟩⟩
        · cases ha
  | crash i => simp [Running.leaves, LastStep, Option.isNone_iff_eq_none]
  | _ => simp [Running.leaves, LastStep]

/-- A last step that assigns no state leaves an approved post approved. -/
theorem approved_leaves {x : Running} (h : step env w a = some w') (hx : x ∈ w.runs.rows)
    (hc : x.proc.covers late p = true) (hl : Running.leaves env w x a = true)
    (hst : (w.row p).map Post.state = some .approved) :
    (w'.row p).map Post.state = some .approved := by
  obtain ⟨hlast, hass⟩ := leaves_iff.mp hl
  rcases hlast with ⟨r, rfl, hend, -⟩ | ⟨rfl, -⟩
  · obtain ⟨q, e, hq, he, rfl⟩ := advance_cases h
    obtain rfl := Option.some.inj (hq.symm.trans (proc_of_mem hx))
    obtain ⟨e', o, he', hnx⟩ := ends_iff.mp hend
    obtain rfl := Option.some.inj (he.symm.trans he')
    show (e.db.posts.get _).map _ = _
    rcases covers_iff.mp hc with hp | ⟨-, hp⟩
    · obtain ⟨job, pc, hproc, rfl⟩ := publishes_iff.mp hp
      rw [hproc] at he hass
      rcases publish_end he hnx with hdb | ⟨k, post, row, rfl, rfl, hrow, hrow'⟩
      · rw [hdb]
        exact hst
      · -- the session loaded the post as rejected, so it writes no state
        have hnone := hass rfl
        rw [Proc.assigns, Option.map_eq_none_iff] at hnone
        have hrow : w.row job.postId = some row := hrow
        rw [hrow] at hst
        rw [hrow', Option.map_some, PostSet.apply_state, flush, hnone]
        exact hst
    · rw [(enqueuing_step hp he).1]
      exact hst
  · obtain ⟨q, -, rfl⟩ := crash_cases h
    exact hst

/-- An approved post was approved before, or is so by this commit. -/
theorem approved_origin (h : step env w a = some w')
    (hst : (w'.row p).map Post.state = some .approved) :
    (w.row p).map Post.state = some .approved
      ∨ ∃ i q row, a = .advance i .ok ∧ w.proc i = some q
        ∧ q.assigns env (w.view i) = some (p, .approved) ∧ w.row p = some row := by
  obtain ⟨row', hrow', hst⟩ := Option.map_eq_some_iff.mp hst
  rcases state_origin h hrow' (by simp [hst]) (by simp [hst]) with
    ⟨row, hr, hst'⟩ | ⟨i, q, row, rfl, hq, hass, hr⟩
  · exact .inl (by rw [hr, Option.map_some, hst', hst])
  · exact .inr ⟨i, q, row, rfl, hq, hst ▸ hass, hr⟩

/-- A publish job assigns its own post a state other than `approved`. -/
theorem assigns_of_publishes {v : View} {q : Proc} {id : Nat} {st : PostState}
    (hp : q.publishes p = true) (hass : q.assigns env v = some (id, st)) :
    id = p ∧ st ≠ .approved := by
  obtain ⟨job, pc, rfl, rfl⟩ := publishes_iff.mp hp
  cases assigns_iff.mp hass <;> exact ⟨rfl, by simp⟩

theorem assigns_of_enqueuing {v : View} {q : Proc} (hp : q.enqueuing p = true) :
    q.assigns env v = none := by
  unfold Proc.enqueuing at hp
  split at hp <;> first | rfl | exact absurd hp (by simp)

/-- **A step keeps an approved post covered exactly if it is not the last one of its last cover**,
and, if a request that is to enqueue the job does not count, no approval is committed
without a job. -/
theorem approvedCovered_step_iff (hn : Numbered w) (hw : Named w) (hP : ApprovedCovered late p w)
    (h : step env w a = some w') :
    ApprovedCovered late p w'
      ↔ (late = true ∨ ApprovesQueued env p w a) ∧ CoverKept env late p w a := by
  constructor
  · intro hP'
    constructor
    · cases late with
      | true => exact .inl rfl
      | false =>
          right
          cases a with
          | advance i r =>
              refine onOk_advance.mpr ?_
              rintro rfl q hq hass hrow
              obtain ⟨row, hrow⟩ := Option.isSome_iff_exists.mp hrow
              obtain ⟨row', hrow', hst⟩ := row_assigns h hq hass hrow
              obtain ⟨set, hs⟩ := set_of_assigns hass
              have hj := hP' (by rw [hrow', Option.map_some, hst])
              rcases hasCover_iff.mp hj with ⟨job, hj, hp⟩ | ⟨j, q', hq', hc⟩
              · rcases queue_step h hj with hj | ⟨_, q', ha, hq', hen⟩ | ⟨_, _, ha, -⟩
                · exact .inl ⟨job, hj, hp⟩
                · cases ha
                  obtain rfl := Option.some.inj (hq.symm.trans hq')
                  rw [enqueues_of_set hs] at hen
                  exact absurd hen (by simp)
                · cases ha
              · -- no publish job starts with a commit
                obtain ⟨job, pc, rfl, -⟩ := publishes_iff.mp ((covers_iff.mp hc).resolve_right (by simp))
                rcases publish_origin hn h hq' with hp | ⟨_, pc₀, _, -, hp, -⟩ | ⟨-, ha, -⟩
                · exact hasCover_of_proc hp hc
                · exact hasCover_of_proc hp hc
                · cases ha
          | _ => trivial
    · intro x hx hc hl hst
      exact hasCover_before hn h (proc_of_mem hx) (leaves_iff.mp hl).1
        (hP' (approved_leaves h hx hc hl hst))
  · rintro ⟨happ, hkept⟩ hafter
    -- what ends here does not give the post another state
    have hassigns : ∀ i q, w.proc i = some q → q.covers late p = true →
        (w.row p).map Post.state = some .approved → a = .advance i .ok →
        q.assigns env (w.view i) = none := by
      rintro i q hq hc hst rfl
      rcases covers_iff.mp hc with hp | ⟨-, hp⟩
      · by_contra hass
        obtain ⟨⟨id, st⟩, hass⟩ := Option.ne_none_iff_exists'.mp hass
        obtain ⟨rfl, hne⟩ := assigns_of_publishes hp hass
        obtain ⟨row, hrow, -⟩ := Option.map_eq_some_iff.mp hst
        obtain ⟨row', hrow', hst'⟩ := row_assigns h hq hass hrow
        rw [hrow', Option.map_some, hst'] at hafter
        exact hne (Option.some.inj hafter)
      · exact assigns_of_enqueuing hp
    have hlast : (w.row p).map Post.state = some .approved → ∀ i q, w.proc i = some q →
        q.covers late p = true → LastStep env w i q a → HasOtherCover late w p i := by
      intro hst i q hq hc hl
      obtain ⟨x, hx, rfl⟩ := Option.map_eq_some_iff.mp hq
      obtain rfl := Table.key_of_get hx
      exact hkept x (Table.mem_of_get hx) hc (leaves_iff.mpr ⟨hl, hassigns _ _ hq hc hst⟩) hst
    rcases approved_origin h hafter with hst | ⟨i, q, row, rfl, hq, hass, hrow⟩
    · exact hasCover_step hn hw h (hP hst) (hlast hst)
    · cases late with
      | true =>
          -- the run that has committed is to enqueue the job
          obtain ⟨q₀, e, hq₀, he, rfl⟩ := advance_cases h
          obtain rfl := Option.some.inj (hq.symm.trans hq₀)
          obtain ⟨q', hnx, hq'⟩ := enqueuing_of_assigns hass hrow he
          exact hasCover_of_proc (proc_apply_goto hq hnx) (covers_iff.mpr (.inr ⟨rfl, hq'⟩))
      | false =>
          have hj := onOk_advance.mp (happ.resolve_left (by simp)) rfl q hq hass (by rw [hrow]; rfl)
          refine hasCover_step hn hw h hj fun j q' hq' hc hl => ?_
          rcases hl with ⟨r, ha, -⟩ | ⟨ha, -⟩
          · -- a run that approves does not publish
            cases ha
            obtain rfl := Option.some.inj (hq.symm.trans hq')
            rcases covers_iff.mp hc with hp | ⟨hf, -⟩
            · exact absurd rfl (assigns_of_publishes hp hass).2
            · exact absurd hf (by simp)
          · cases ha

end World

end TelegramCms
