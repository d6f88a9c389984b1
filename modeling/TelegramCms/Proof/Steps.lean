import TelegramCms.Lib.Transition
import TelegramCms.Proof.Moves

/-!
# Steps of the system

What one step does to the clock, to the runs in progress and to the parts of the
database that runs do not touch. `step_cases` takes a step apart once and for all; the
lemmas after it say which runs there are afterwards, and `publish_origin` where a publish
run can have come from.
-/

namespace TelegramCms

open Transition

namespace World

variable {env : Env} {w w' : World} {a : Action} {i j : Nat}

/-- What each action can do, guards included. -/
theorem step_cases (h : step env w a = some w') :
    (∃ d : Nat, a = .tick d ∧ w' = { w with now := w.now + d })
    ∨ (∃ i r p e, a = .advance i r ∧ w.proc i = some p ∧ p.step env (w.view i) r = some e
        ∧ w' = w.apply i e)
    ∨ (∃ i p, a = .crash i ∧ w.proc i = some p
        ∧ w' = { w with runs := w.runs.delete i, queue := w.queue ++ p.job?.toList })
    ∨ (∃ job, a = .startJob job ∧ job ∈ w.queue ∧ job.score ≤ toMs w.now
        ∧ w' = { w with queue := w.queue.erase job }.spawn job.start)
    ∨ (∃ req, a = .request req ∧ w' = w.spawn req.start)
    ∨ (∃ c m text db, a = .arrive c m text ∧ w.db.insertPost w.now c m text = some db
        ∧ w' = { w with db := db }.spawn (.ingest w.db.nextPostId .download))
    ∨ (∃ channels templates tags, a = .configure channels templates tags
        ∧ w' = { w with db := { w.db with
            channels := channels, templates := templates, tags := tags } })
    ∨ (∃ at_, a = .pruneDedupe at_ ∧ at_ ≤ w.now
        ∧ w' = w.pruneDedupeRows (at_ - days env.settings.dedupeLookbackDays)) := by
  cases a with
  | tick d => exact .inl ⟨d, rfl, (Option.some.inj h).symm⟩
  | advance i r =>
      rw [step] at h
      cases hp : w.proc i with
      | none => rw [hp] at h; exact absurd h (by simp)
      | some p =>
          rw [hp] at h
          obtain ⟨e, he, rfl⟩ := Option.map_eq_some_iff.mp h
          exact .inr (.inl ⟨i, r, p, e, rfl, hp, he, rfl⟩)
  | crash i =>
      rw [step] at h
      cases hp : w.proc i with
      | none => rw [hp] at h; exact absurd h (by simp)
      | some p =>
          rw [hp] at h
          exact .inr (.inr (.inl ⟨i, p, rfl, hp, (Option.some.inj h).symm⟩))
  | startJob job =>
      rw [step] at h
      split at h
      · rename_i hg
        exact .inr (.inr (.inr (.inl ⟨job, rfl, hg.1, hg.2, (Option.some.inj h).symm⟩)))
      · exact absurd h (by simp)
  | request req =>
      exact .inr (.inr (.inr (.inr (.inl ⟨req, rfl, (Option.some.inj h).symm⟩))))
  | arrive c m text =>
      rw [step] at h
      cases hdb : w.db.insertPost w.now c m text with
      | none => rw [hdb] at h; exact absurd h (by simp)
      | some db =>
          rw [hdb] at h
          exact .inr (.inr (.inr (.inr (.inr (.inl
            ⟨c, m, text, db, rfl, hdb, (Option.some.inj h).symm⟩)))))
  | configure channels templates tags =>
      rw [step] at h
      split at h
      · exact .inr (.inr (.inr (.inr (.inr (.inr (.inl
          ⟨channels, templates, tags, rfl, (Option.some.inj h).symm⟩))))))
      · exact absurd h (by simp)
  | pruneDedupe at_ =>
      rw [step] at h
      split at h
      · rename_i hg
        exact .inr (.inr (.inr (.inr (.inr (.inr (.inr
          ⟨at_, rfl, hg, (Option.some.inj h).symm⟩))))))
      · exact absurd h (by simp)

/-- The step of a run, taken apart. -/
theorem advance_cases {r : Reply} (h : step env w (.advance i r) = some w') :
    ∃ p e, w.proc i = some p ∧ p.step env (w.view i) r = some e ∧ w' = w.apply i e := by
  rcases step_cases h with ⟨_, ha, _⟩ | ⟨_, _, p, e, ha, hp, he, hw⟩ | ⟨_, _, ha, _⟩ |
    ⟨_, ha, _⟩ | ⟨_, ha, _⟩ | ⟨_, _, _, _, ha, _⟩ | ⟨_, _, _, ha, _⟩ | ⟨_, ha, _⟩ <;> cases ha
  exact ⟨p, e, hp, he, hw⟩

/-- A job is started from its queue, once it is due. -/
theorem startJob_cases {job : Job} (h : step env w (.startJob job) = some w') :
    job ∈ w.queue ∧ job.score ≤ toMs w.now
      ∧ w' = { w with queue := w.queue.erase job }.spawn job.start := by
  rcases step_cases h with ⟨_, ha, _⟩ | ⟨_, _, _, _, ha, _⟩ | ⟨_, _, ha, _⟩ |
    ⟨_, ha, hq, hs, hw⟩ | ⟨_, ha, _⟩ | ⟨_, _, _, _, ha, _⟩ | ⟨_, _, _, ha, _⟩ | ⟨_, ha, _⟩ <;> cases ha
  exact ⟨hq, hs, hw⟩

/-- A condition on the run that takes a step, where its awaited call succeeds. -/
def OnOk (G : World → Nat → Proc → Prop) (w : World) : Action → Prop
  | .advance i .ok => ∀ p ∈ w.proc i, G w i p
  | _ => True

instance (G : World → Nat → Proc → Prop) [∀ w i, DecidablePred (G w i)] (w : World) :
    DecidablePred (OnOk G w) := fun a =>
  match a with
  | .advance i .ok => inferInstanceAs (Decidable (∀ p ∈ w.proc i, G w i p))
  | .advance _ (.raise _) | .advance _ (.retryAfter _) | .advance _ (.message _)
  | .advance _ .nothing | .advance _ (.transformed _) | .advance _ (.media _)
  | .tick _ | .crash _ | .startJob _ | .request _ | .arrive .. | .configure .. | .pruneDedupe _ =>
    inferInstanceAs (Decidable True)

theorem onOk_advance {G : World → Nat → Proc → Prop} {r : Reply} :
    OnOk G w (.advance i r) ↔ (r = .ok → ∀ p ∈ w.proc i, G w i p) := by
  cases r <;> simp [OnOk]

/-! ## The runs -/

/-- Identities are handed out in order. -/
def Numbered (w : World) : Prop := ∀ i, w.nextRun ≤ i → w.proc i = none

theorem proc_none_iff : w.proc i = none ↔ w.runs.get i = none := by
  rw [proc, Option.map_eq_none_iff]

theorem proc_of_mem {r : Running} (hr : r ∈ w.runs.rows) : w.proc r.run = some r.proc := by
  rw [proc, Table.get_of_mem hr, Option.map_some]

/-- What is true of a row of the table of runs is true of a run in progress. -/
theorem exists_run_iff {P : Nat → Proc → Prop} :
    (∃ r ∈ w.runs.rows, P r.run r.proc) ↔ ∃ i p, w.proc i = some p ∧ P i p := by
  constructor
  · rintro ⟨r, hr, h⟩
    exact ⟨r.run, r.proc, proc_of_mem hr, h⟩
  · rintro ⟨i, p, hp, h⟩
    obtain ⟨r, hr, rfl⟩ := Option.map_eq_some_iff.mp hp
    obtain rfl := Table.key_of_get hr
    exact ⟨r, Table.mem_of_get hr, h⟩

theorem proc_init (h : Init w) (i : Nat) : w.proc i = none := by
  rw [proc_none_iff, Table.get_eq_none, h.runs]
  intro r hr
  exact absurd hr (by simp)

theorem proc_of_runs {w₁ w₂ : World} (h : w₁.runs = w₂.runs) : w₁.proc i = w₂.proc i := by
  rw [proc, proc, h]

theorem proc_spawn_ne {p : Proc} (h : i ≠ w.nextRun) : (w.spawn p).proc i = w.proc i := by
  rw [proc, spawn, Table.get_insert_ne (by exact h)]
  rfl

theorem proc_spawn_self {p : Proc} (hn : Numbered w) :
    (w.spawn p).proc w.nextRun = some p := by
  have hf : w.runs.get (⟨w.nextRun, p⟩ : Running).run = none :=
    proc_none_iff.mp (hn _ (Nat.le_refl _))
  rw [proc, spawn]
  simp only [Table.get_insert_self hf, Option.map_some]

theorem proc_apply_ne {e : Effect Proc} (h : j ≠ i) : (w.apply i e).proc j = w.proc j := by
  rw [proc, apply, runsAfter]
  cases e.next with
  | goto p => simp only [Table.get_update_ne h]; rfl
  | stop o => simp only [Table.get_delete_ne h]; rfl

theorem proc_apply_goto {e : Effect Proc} {p q : Proc} (hp : w.proc i = some p)
    (hn : e.next = .goto q) : (w.apply i e).proc i = some q := by
  obtain ⟨r, hr, -⟩ := Option.map_eq_some_iff.mp hp
  simp only [proc, apply, runsAfter, hn, Table.get_update_self, hr, Option.map_some,
    Running.move]

theorem proc_apply_stop {e : Effect Proc} {o : Outcome} (hn : e.next = .stop o) :
    (w.apply i e).proc i = none := by
  simp only [proc, apply, runsAfter, hn, Table.get_delete_self, Option.map_none]

theorem proc_crash_ne {q : List Job} (h : j ≠ i) :
    ({ w with runs := w.runs.delete i, queue := q } : World).proc j = w.proc j := by
  simp only [proc, Table.get_delete_ne h]

theorem proc_crash_self {q : List Job} :
    ({ w with runs := w.runs.delete i, queue := q } : World).proc i = none := by
  simp only [proc, Table.get_delete_self, Option.map_none]

/-- The run that an action starts, one constructor for each kind. -/
inductive Starts (w : World) : Action → Proc → Prop where
  | publish {job} (hname : job.name = .publish) : Starts w (.startJob job) (.publish job .load)
  | normalize {job} (hname : job.name = .normalize) : Starts w (.startJob job) (.normalize job .load)
  | postDraft {job} (hname : job.name = .postDraft) : Starts w (.startJob job) (.postDraft job .load)
  | press {b u q} : Starts w (.request (.press b u q)) (.callback b u q .load)
  | decide {req} : Starts w (.request (.decide req)) (.decide req .load)
  | editTags {req} : Starts w (.request (.editTags req)) (.editTags req .load)
  | bootWorker : Starts w (.request .bootWorker) (.reconcileScheduled .query)
  | bootUserbot : Starts w (.request .bootUserbot) (.reconcilePending .query)
  | arrive {c m text} : Starts w (.arrive c m text) (.ingest w.db.nextPostId .download)

theorem starts_job (job : Job) : Starts w (.startJob job) job.start := by
  unfold Job.start
  split
  · exact .publish ‹_›
  · exact .normalize ‹_›
  · exact .postDraft ‹_›

theorem starts_request (req : Request) : Starts w (.request req) req.start := by
  cases req <;> constructor

/-- A step that starts a run uses up its number. -/
theorem Starts.nextRun {q : Proc} (hs : Starts w a q) (h : step env w a = some w') :
    w'.nextRun = w.nextRun + 1 := by
  rcases step_cases h with ⟨_, rfl, _⟩ | ⟨_, _, _, _, rfl, _⟩ | ⟨_, _, rfl, _⟩ |
    ⟨_, rfl, _, _, rfl⟩ | ⟨_, rfl, rfl⟩ | ⟨_, _, _, _, rfl, _, rfl⟩ | ⟨_, _, _, rfl, _⟩ |
    ⟨_, rfl, _⟩
  · cases hs
  · cases hs
  · cases hs
  · rfl
  · rfl
  · rfl
  · cases hs
  · cases hs

/-- A run that is at `q` after a step was there before, moved there in this step, or
started there in this step. -/
theorem proc_step {q : Proc} (hn : Numbered w) (h : step env w a = some w')
    (hq : w'.proc i = some q) :
    w.proc i = some q
    ∨ (∃ r p e, a = .advance i r ∧ w.proc i = some p ∧ p.step env (w.view i) r = some e
        ∧ e.next = .goto q ∧ w' = w.apply i e)
    ∨ (w.proc i = none ∧ i = w.nextRun ∧ Starts w a q) := by
  -- what a spawned run is, given the world it is spawned into
  have hspawn : ∀ {w₀ : World} {p : Proc}, w₀.runs = w.runs → w₀.nextRun = w.nextRun →
      (w₀.spawn p).proc i = some q →
      w.proc i = some q ∨ (w.proc i = none ∧ i = w.nextRun ∧ q = p) := by
    intro w₀ p hr hnr hs
    have hn₀ : Numbered w₀ := by
      intro j hj
      rw [proc_of_runs hr]
      exact hn j (hnr ▸ hj)
    by_cases hi : i = w₀.nextRun
    · subst hi
      rw [proc_spawn_self hn₀] at hs
      exact .inr ⟨hn _ (hnr ▸ Nat.le_refl _), hnr, (Option.some.inj hs).symm⟩
    · rw [proc_spawn_ne hi, proc_of_runs hr] at hs
      exact .inl hs
  rcases step_cases h with ⟨d, rfl, rfl⟩ | ⟨k, r, p, e, rfl, hp, he, rfl⟩ | ⟨k, p, rfl, hp, rfl⟩ |
    ⟨job, rfl, _, _, rfl⟩ | ⟨req, rfl, rfl⟩ | ⟨c, m, text, db, rfl, hdb, rfl⟩ |
    ⟨ch, te, ta, rfl, rfl⟩ | ⟨at_, rfl, _, rfl⟩
  · exact .inl hq
  · by_cases hi : i = k
    · subst hi
      cases hnx : e.next with
      | goto q' =>
          rw [proc_apply_goto hp hnx] at hq
          obtain rfl := Option.some.inj hq
          exact .inr (.inl ⟨r, p, e, rfl, hp, he, hnx, rfl⟩)
      | stop o => rw [proc_apply_stop hnx] at hq; exact absurd hq (by simp)
    · rw [proc_apply_ne hi] at hq
      exact .inl hq
  · by_cases hi : i = k
    · -- a run that died is gone
      subst hi; rw [proc_crash_self] at hq; exact absurd hq (by simp)
    · rw [proc_crash_ne hi] at hq
      exact .inl hq
  · rcases hspawn rfl rfl hq with h | ⟨h, hi, rfl⟩
    · exact .inl h
    · exact .inr (.inr ⟨h, hi, starts_job job⟩)
  · rcases hspawn rfl rfl hq with h | ⟨h, hi, rfl⟩
    · exact .inl h
    · exact .inr (.inr ⟨h, hi, starts_request req⟩)
  · rcases hspawn rfl rfl hq with h | ⟨h, hi, rfl⟩
    · exact .inl h
    · exact .inr (.inr ⟨h, hi, .arrive⟩)
  · exact .inl hq
  · exact .inl hq

/-- A publish run starts at its load. -/
theorem start_publish {job : Job} {pc : PublishPc} (hs : Starts w a (.publish job pc)) :
    pc = .load ∧ a = .startJob job ∧ job.name = .publish := by
  cases hs with
  | publish hname => exact ⟨rfl, rfl, hname⟩

/-- A publish run that is at `pc` after a step was there before, made a move that leads
there, or has just been started. -/
theorem publish_origin {job : Job} {pc : PublishPc} (hn : Numbered w)
    (h : step env w a = some w') (hq : w'.proc i = some (.publish job pc)) :
    w.proc i = some (.publish job pc)
    ∨ (∃ r pc₀ e, a = .advance i r ∧ w.proc i = some (.publish job pc₀)
        ∧ PublishMove env (w.view i) job.postId pc₀ r e ∧ e.next = .goto pc
        ∧ w' = w.apply i (e.map (.publish job)))
    ∨ (pc = .load ∧ a = .startJob job ∧ job.name = .publish) := by
  rcases proc_step hn h hq with hp | ⟨r, p, e, rfl, hp, he, hnx, rfl⟩ | ⟨_, _, hs⟩
  · exact .inl hp
  · cases p with
    | publish job' pc₀ =>
        obtain ⟨e₀, hm, rfl⟩ := publish_step he
        obtain ⟨_, hpc, hx⟩ := Effect.map_goto hnx
        obtain ⟨rfl, rfl⟩ := Proc.publish.inj hx
        exact .inr (.inl ⟨r, pc₀, e₀, rfl, hp, hm, hpc, rfl⟩)
    | _ =>
        -- a run keeps its kind
        obtain ⟨e₀, -, rfl⟩ := Option.map_eq_some_iff.mp he
        obtain ⟨_, -, hx⟩ := Effect.map_goto hnx
        exact absurd hx (by simp)
  · exact .inr (.inr (start_publish hs))

/-! ## The log -/

/-- Only a step of a run is seen. -/
theorem log_step (h : step env w a = some w') :
    w'.log = w.log
    ∨ ∃ i r p e, a = .advance i r ∧ w.proc i = some p ∧ p.step env (w.view i) r = some e
        ∧ w' = w.apply i e ∧ w'.log = seenOf i e ++ w.log := by
  rcases step_cases h with ⟨d, rfl, rfl⟩ | ⟨i, r, p, e, rfl, hp, he, rfl⟩ | ⟨k, p, rfl, hp, rfl⟩ |
    ⟨job, rfl, _, _, rfl⟩ | ⟨req, rfl, rfl⟩ | ⟨c, m, text, db, rfl, hdb, rfl⟩ |
    ⟨ch, te, ta, rfl, rfl⟩ | ⟨at_, rfl, _, rfl⟩
  · exact .inl rfl
  · exact .inr ⟨i, r, p, e, rfl, hp, he, rfl, rfl⟩
  all_goals exact .inl rfl

/-- What is seen of a step besides the end of its run. -/
theorem mem_seenOf {e : Effect Proc} {o : Obs} (ho : o ∈ seenOf i e)
    (hne : ∀ out, o ≠ .ended i out) : o ∈ e.seen := by
  unfold seenOf at ho
  split at ho
  · exact ho
  · rcases List.mem_cons.mp ho with rfl | ho
    · exact absurd rfl (hne _)
    · exact ho

theorem mem_seenOf_of_mem {e : Effect Proc} {o : Obs} (ho : o ∈ e.seen) : o ∈ seenOf i e := by
  unfold seenOf
  split
  · exact ho
  · exact List.mem_cons_of_mem _ ho

theorem subset_log (h : step env w a = some w') : w.log ⊆ w'.log := by
  rcases log_step h with hl | ⟨_, _, _, _, _, _, _, _, hl⟩
  · rw [hl]; exact fun _ hx => hx
  · rw [hl]; exact List.subset_append_right _ _

/-- What is in the log after a step was there before, or is seen of the step. -/
theorem mem_log_step {o : Obs} (h : step env w a = some w') (ho : o ∈ w'.log)
    (hne : ∀ i out, o ≠ .ended i out) :
    o ∈ w.log
    ∨ ∃ i r p e, a = .advance i r ∧ w.proc i = some p ∧ p.step env (w.view i) r = some e
        ∧ w' = w.apply i e ∧ o ∈ e.seen := by
  rcases log_step h with hl | ⟨i, r, p, e, rfl, hp, he, hw, hl⟩
  · rw [hl] at ho; exact .inl ho
  · rw [hl] at ho
    rcases List.mem_append.mp ho with ho | ho
    · exact .inr ⟨i, r, p, e, rfl, hp, he, hw, mem_seenOf ho (hne i)⟩
    · exact .inl ho

/-! ## The queues -/

/-- A job that is in a queue after a step was there before, was enqueued in this step, or
goes back because its run died. -/
theorem queue_step {job : Job} (h : step env w a = some w') (hj : job ∈ w'.queue) :
    job ∈ w.queue
    ∨ (∃ i p, a = .advance i .ok ∧ w.proc i = some p ∧ p.enqueues w.now = some job)
    ∨ ∃ i p, a = .crash i ∧ w.proc i = some p ∧ p.job? = some job := by
  rcases step_cases h with ⟨d, rfl, rfl⟩ | ⟨i, r, p, e, rfl, hp, he, rfl⟩ | ⟨i, p, rfl, hp, rfl⟩ |
    ⟨job', rfl, _, _, rfl⟩ | ⟨req, rfl, rfl⟩ | ⟨c, m, text, db, rfl, hdb, rfl⟩ |
    ⟨ch, te, ta, rfl, rfl⟩ | ⟨at_, rfl, _, rfl⟩
  · exact .inl hj
  · rcases List.mem_append.mp hj with hj | hj
    · exact .inl hj
    · obtain ⟨rfl, henq⟩ := (step_does he).jobs hj
      exact .inr (.inl ⟨i, p, rfl, hp, henq⟩)
  · rcases List.mem_append.mp hj with hj | hj
    · exact .inl hj
    · exact .inr (.inr ⟨i, p, rfl, hp, Option.mem_toList.mp hj⟩)
  · exact .inl (List.mem_of_mem_erase hj)
  · exact .inl hj
  · exact .inl hj
  · exact .inl hj
  · exact .inl hj

/-! ## The identities of runs -/

theorem numbered_init (h : Init w) : Numbered w := fun i _ => proc_init h i

/-- No run is in progress yet, and nothing was recorded. -/
structure Idle (w : World) : Prop where
  runs : w.runs.rows = []
  log : w.log = []

theorem Idle.proc (h : Idle w) (i : Nat) : w.proc i = none := by
  rw [proc_none_iff, Table.get_eq_none, h.runs]
  exact fun r hr => absurd hr (by simp)

theorem numbered_idle (h : Idle w) : Numbered w := fun i _ => h.proc i

theorem lt_nextRun (hn : Numbered w) {p : Proc} (hp : w.proc i = some p) : i < w.nextRun := by
  by_contra hc
  rw [hn i (Nat.le_of_not_lt hc)] at hp
  exact absurd hp (by simp)

theorem nextRun_apply {e : Effect Proc} : (w.apply i e).nextRun = w.nextRun := rfl

theorem nextRun_step (h : step env w a = some w') : w.nextRun ≤ w'.nextRun := by
  rcases step_cases h with ⟨d, rfl, rfl⟩ | ⟨k, r, p, e, rfl, hp, he, rfl⟩ | ⟨k, p, rfl, hp, rfl⟩ |
    ⟨job, rfl, _, _, rfl⟩ | ⟨req, rfl, rfl⟩ | ⟨c, m, text, db, rfl, hdb, rfl⟩ |
    ⟨ch, te, ta, rfl, rfl⟩ | ⟨at_, rfl, _, rfl⟩ <;>
    first | exact Nat.le_refl _ | exact Nat.le_succ _

theorem numbered_step (hn : Numbered w) (h : step env w a = some w') : Numbered w' := by
  intro i hi
  have hle := nextRun_step h
  cases hq : w'.proc i with
  | none => rfl
  | some q =>
      rcases proc_step hn h hq with hp | ⟨_, p, _, _, hp, _⟩ | ⟨_, rfl, hs⟩
      · rw [hn i (Nat.le_trans hle hi)] at hp; exact absurd hp (by simp)
      · rw [hn i (Nat.le_trans hle hi)] at hp; exact absurd hp (by simp)
      · rw [hs.nextRun h] at hi
        exact absurd hi (Nat.not_succ_le_self _)

/-! ## What stays -/

theorem now_step (h : step env w a = some w') : w.now ≤ w'.now := by
  rcases step_cases h with ⟨d, rfl, rfl⟩ | ⟨k, r, p, e, rfl, hp, he, rfl⟩ | ⟨k, p, rfl, hp, rfl⟩ |
    ⟨job, rfl, _, _, rfl⟩ | ⟨req, rfl, rfl⟩ | ⟨c, m, text, db, rfl, hdb, rfl⟩ |
    ⟨ch, te, ta, rfl, rfl⟩ | ⟨at_, rfl, _, rfl⟩
  · exact Int.le_add_of_nonneg_right (Int.natCast_nonneg d)
  all_goals exact Int.le_refl _

/-- A run stays where it is until it takes a step or dies. -/
theorem proc_kept {p : Proc} (hn : Numbered w) (h : step env w a = some w')
    (hp : w.proc i = some p) : w'.proc i = some p ∨ (∃ r, a = .advance i r) ∨ a = .crash i := by
  have hne : i ≠ w.nextRun := Nat.ne_of_lt (lt_nextRun hn hp)
  rcases step_cases h with ⟨d, rfl, rfl⟩ | ⟨k, r, p, e, rfl, _, _, rfl⟩ | ⟨k, p, rfl, _, rfl⟩ |
    ⟨job, rfl, _, _, rfl⟩ | ⟨req, rfl, rfl⟩ | ⟨c, m, text, db, rfl, hdb, rfl⟩ |
    ⟨ch, te, ta, rfl, rfl⟩ | ⟨at_, rfl, _, rfl⟩
  · exact .inl hp
  · by_cases hi : i = k
    · exact .inr (.inl ⟨r, hi ▸ rfl⟩)
    · exact .inl ((proc_apply_ne hi).trans hp)
  · by_cases hi : i = k
    · exact .inr (.inr (hi ▸ rfl))
    · exact .inl ((proc_crash_ne hi).trans hp)
  · exact .inl ((proc_spawn_ne hne).trans hp)
  · exact .inl ((proc_spawn_ne hne).trans hp)
  · exact .inl ((proc_spawn_ne hne).trans hp)
  · exact .inl hp
  · exact .inl hp

/-- A job stays in its queue until it is started. -/
theorem queue_kept {job : Job} (h : step env w a = some w') (hj : job ∈ w.queue) :
    job ∈ w'.queue ∨ a = .startJob job := by
  rcases step_cases h with ⟨d, rfl, rfl⟩ | ⟨k, r, p, e, rfl, _, _, rfl⟩ | ⟨k, p, rfl, _, rfl⟩ |
    ⟨job', rfl, _, _, rfl⟩ | ⟨req, rfl, rfl⟩ | ⟨c, m, text, db, rfl, hdb, rfl⟩ |
    ⟨ch, te, ta, rfl, rfl⟩ | ⟨at_, rfl, _, rfl⟩
  · exact .inl hj
  · exact .inl (List.mem_append_left _ hj)
  · exact .inl (List.mem_append_left _ hj)
  · by_cases he : job = job'
    · exact .inr (he ▸ rfl)
    · exact .inl ((List.mem_erase_of_ne he).mpr hj)
  · exact .inl hj
  · exact .inl hj
  · exact .inl hj
  · exact .inl hj

/-- A job that is started is a run at its first step. -/
theorem startJob_proc {job : Job} (hn : Numbered w) (h : step env w (.startJob job) = some w') :
    w'.proc w.nextRun = some job.start := by
  obtain ⟨-, -, rfl⟩ := startJob_cases h
  exact proc_spawn_self (w := { w with queue := w.queue.erase job }) hn

/-- A run that dies goes back to its queue. -/
theorem crash_cases (h : step env w (.crash i) = some w') :
    ∃ p, w.proc i = some p
      ∧ w' = { w with runs := w.runs.delete i, queue := w.queue ++ p.job?.toList } := by
  rcases step_cases h with ⟨_, ha, _⟩ | ⟨_, _, _, _, ha, _⟩ | ⟨_, p, ha, hp, hw⟩ |
    ⟨_, ha, _⟩ | ⟨_, ha, _⟩ | ⟨_, _, _, _, ha, _⟩ | ⟨_, _, _, ha, _⟩ | ⟨_, ha, _⟩ <;> cases ha
  exact ⟨p, hp, hw⟩

/-! ## Scripts

A system with one channel, and the actions that take one job of it through its steps
while every call succeeds. -/

def sample (channel : SourceChannel) : World where
  now := 0
  db := { channels := Table.empty.insert channel }

theorem sample_init (channel : SourceChannel) : Init (sample channel) :=
  ⟨rfl, rfl, rfl, rfl, rfl, rfl⟩

/-- The system after a script, if every action of it is enabled. -/
def after (env : Env) (w : World) (script : List Action) : Option World :=
  Transition.runs (step env) w script

/-- The steps of a script. -/
def stepsOf (env : Env) (w : World) (script : List Action) : List (World × Action) :=
  trail (step env) w script

theorem path_after {script : List Action} (h : w.after env script = some w') :
    Trace (step env) w (stepsOf env w script) w' := Trace.of_runs h

/-- Run `i` takes `n` steps. -/
def goes (i n : Nat) : List Action := List.replicate n (.advance i .ok)

/-- A message arrives and is stored by run `i`. -/
def ingests (messageId i : Nat) : List Action :=
  .arrive 1 messageId (some "hi".toList) :: .advance i (.media none) :: goes i 3

/-- Run `i` normalizes post `p`. -/
def normalizes (p i : Nat) (score : Int) : List Action :=
  .startJob ⟨.normalize, p, score⟩ :: goes i 4

/-- Somebody presses a button under the card of post `p`; run `i` takes `n` steps. -/
def presses (button : Button) (p i n : Nat) : List Action :=
  .request (.press button 5 p) :: goes i n

/-- Run `i` works on a publish job of post `p` up to its call of `_send_post`. -/
def sends (p i : Nat) (score : Int) (steps : Nat) : List Action :=
  .startJob ⟨.publish, p, score⟩ :: goes i steps ++ [.tick 2_000_000, .advance i .ok]

end World

end TelegramCms
