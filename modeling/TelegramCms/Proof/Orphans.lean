import TelegramCms.Lib.Ranking
import TelegramCms.Proof.Reserve

/-!
# Orphans after a restart

An ingest that dies between its first commit and its enqueue leaves a row behind that no
job works on. On its boot the userbot looks for such rows: `reconcile_pending` takes a
`pending` row without media for an orphan, and the 200 oldest ones get a job.

`orphan_requeued_iff` says which rows these are. A row whose media the second commit has
stored is not among them, and neither is one with 200 older orphans before it.
-/

namespace TelegramCms

open Transition

/-! ## What `reconcile_pending` selects -/

/-- `reconcile_pending` takes the post for an orphan. -/
def Post.Orphan (now : Time) (p : Post) : Prop :=
  p.state = .pending ∧ p.rawMediaRefs = [] ∧ p.receivedAt ≤ now - seconds 300

instance (now : Time) : DecidablePred (Post.Orphan now) := fun p =>
  inferInstanceAs (Decidable (p.state = .pending ∧ p.rawMediaRefs = []
    ∧ p.receivedAt ≤ now - seconds 300))

/-- `p` was received before `row`; posts received at the same time go by their ids. -/
def Post.Earlier (p row : Post) : Prop :=
  p.receivedAt < row.receivedAt ∨ (p.receivedAt = row.receivedAt ∧ p.id < row.id)

instance : DecidableRel Post.Earlier := fun p row =>
  inferInstanceAs (Decidable (p.receivedAt < row.receivedAt
    ∨ (p.receivedAt = row.receivedAt ∧ p.id < row.id)))

/-- How many orphans come before `row`. -/
def Db.orphansBefore (db : Db) (now : Time) (row : Post) : Nat :=
  db.posts.rows.countP (fun p => p.Orphan now ∧ p.Earlier row)

/-- Posts are numbered in the order of their rows. -/
def Db.InOrder (db : Db) : Prop := db.posts.rows.Pairwise (fun p q => p.id < q.id)

theorem before_iff_earlier {p row : Post} :
    Ranking.Before (fun a b : Post => a.receivedAt ≤ b.receivedAt) (fun a b => a.id < b.id) p row
      ↔ p.Earlier row := by
  unfold Ranking.Before Post.Earlier
  constructor
  · rintro ⟨hle, hid⟩
    rcases Int.lt_or_eq_of_le hle with h | h
    · exact .inl h
    · exact .inr ⟨h, hid (Int.le_of_eq h.symm)⟩
  · rintro (h | ⟨h, hid⟩)
    · exact ⟨Int.le_of_lt h, fun h' => absurd h (Int.not_lt.mpr h')⟩
    · exact ⟨Int.le_of_eq h, fun _ => hid⟩

/-- **What the query selects**: the orphans with fewer than 200 of them in front. -/
theorem mem_orphanedPosts {db : Db} (ho : db.InOrder) {now : Time} {q : Nat} {row : Post}
    (hrow : db.posts.get q = some row) :
    q ∈ orphanedPosts now db ↔ row.Orphan now ∧ db.orphansBefore now row < 200 := by
  have hid : row.id = q := Table.key_of_get hrow
  -- a row is known by its id
  have hmem : q ∈ orphanedPosts now db ↔
      row ∈ ((db.posts.rows.filter (fun p => p.Orphan now)).insertionSort
        (fun p q => p.receivedAt ≤ q.receivedAt)).take 200 := by
    unfold orphanedPosts
    simp only [List.mem_map]
    constructor
    · rintro ⟨p, hp, hpq⟩
      have hpr : p ∈ db.posts.rows :=
        List.mem_of_mem_filter ((List.mem_insertionSort _).mp (List.mem_of_mem_take hp))
      have he := Db.get_post hpr
      rw [hpq, hrow] at he
      obtain rfl := Option.some.inj he
      exact hp
    · intro hp
      exact ⟨row, hp, hid⟩
  rw [hmem, Ranking.mem_take_insertionSort (r := fun a b : Post => a.receivedAt ≤ b.receivedAt)
    (s := fun a b : Post => a.id < b.id) (fun a b => Int.le_total _ _) (fun a b c => Int.le_trans) (fun a b => Nat.lt_asymm)
    (ho.sublist List.filter_sublist), List.mem_filter, List.countP_filter, Db.orphansBefore]
  have hcount : ∀ p : Post,
      (decide (Ranking.Before (fun a b : Post => a.receivedAt ≤ b.receivedAt)
        (fun a b => a.id < b.id) p row) && decide (p.Orphan now))
        = decide (p.Orphan now ∧ p.Earlier row) := by
    intro p
    rw [← Bool.decide_and, decide_eq_decide, before_iff_earlier, and_comm]
  simp only [hcount, decide_eq_true_eq, Table.mem_of_get hrow, true_and]

/-- What is selected is there, and an orphan. -/
theorem row_of_mem_orphanedPosts {now : Time} {db : Db} {q : Nat} (h : q ∈ orphanedPosts now db) :
    ∃ row, db.posts.get q = some row ∧ row.Orphan now := by
  unfold orphanedPosts at h
  obtain ⟨row, hrow, rfl⟩ := List.mem_map.mp h
  have hmem := (List.mem_insertionSort _).mp (List.mem_of_mem_take hrow)
  obtain ⟨hmem, hsel⟩ := List.mem_filter.mp hmem
  exact ⟨row, Db.get_post hmem, of_decide_eq_true hsel⟩

/-! ## Rows keep their order -/

theorem Db.inOrder_iff {db : Db} : db.InOrder ↔ (db.posts.rows.map Post.id).Pairwise (· < ·) := by
  rw [List.pairwise_map]; rfl

theorem write_ids (db : Db) (id : Nat) (s : PostSet) (evs : List PostEvent) :
    (db.write id s evs).posts.rows.map Post.id = db.posts.rows.map Post.id := by
  rw [Db.write, Table.update]
  simp only [List.map_map]
  refine List.map_congr_left fun p _ => ?_
  simp only [Function.comp]
  split
  · exact PostSet.apply_id s p
  · rfl

/-- A new post comes after all others. -/
theorem insertPost_inOrder {db db' : Db} {now : Time} {c m : Nat} {text : Option Text}
    (ho : db.InOrder) (h : db.insertPost now c m text = some db') : db'.InOrder := by
  unfold Db.insertPost at h
  split at h
  · exact absurd h (by simp)
  · obtain rfl := Option.some.inj h
    have hfresh := db.nextPostId_fresh
    rw [Table.get_eq_none] at hfresh
    show (db.posts.insert _).rows.Pairwise _
    have hnot : (ingestedPost now db.nextPostId c m text).id ∉ db.posts.rows.map Post.id := by
      intro hm
      obtain ⟨p, hp, he⟩ := List.mem_map.mp hm
      exact hfresh p hp he
    rw [Table.insert, dif_neg hnot, List.pairwise_append]
    refine ⟨ho, by simp, ?_⟩
    intro p hp r hr
    obtain rfl := List.mem_singleton.mp hr
    exact db.lt_nextPostId hp

theorem Does.inOrder {env : Env} {v : View} {p : Proc} {r : Reply} {e : Effect Proc}
    (h : Does env v p r e) (ho : v.db.InOrder) : e.db.InOrder := by
  cases h with
  | writes hs hrow => rw [Db.inOrder_iff, write_ids, ← Db.inOrder_iff]; exact ho
  | _ => exact ho

/-- A reconcile run enqueues the next job of its list, or returns at its end, or raises. -/
theorem reconcileStep_cases {select : Time → Db → List Nat} {job : Time → Nat → Job} {v : View}
    {ids : List Nat} {r : Reply} {f : ReconcilePc → Proc} {e : Effect Proc}
    (h : (reconcileStep select job v (.enqueue ids) r).map (.map f) = some e) :
    (∃ id rest, ids = id :: rest ∧ e.jobs = [job v.now id] ∧ e.next = .goto (f (.enqueue rest)))
    ∨ (ids = [] ∧ e.jobs = [] ∧ e.next = .stop (.returned .done))
    ∨ (∃ ex, e.jobs = [] ∧ e.next = .stop (.raised ex)) := by
  obtain ⟨e₀, he, rfl⟩ := Option.map_eq_some_iff.mp h
  cases ids with
  | nil =>
      cases r <;> simp only [reconcileStep, reduceCtorEq] at he
      obtain rfl := Option.some.inj he
      exact .inr (.inl ⟨rfl, rfl, rfl⟩)
  | cons id rest =>
      rcases Reply.await_cases he with ⟨-, rfl⟩ | ⟨ex, -, rfl⟩
      · exact .inl ⟨id, rest, rfl, rfl, rfl⟩
      · exact .inr (.inr ⟨ex, rfl, rfl⟩)

namespace World

variable {env : Env} {w w' : World} {a : Action} {i q : Nat}

/-- The rows stay in the order of their ids. -/
theorem inOrder_step (ho : w.db.InOrder) (h : step env w a = some w') : w'.db.InOrder := by
  rcases step_cases h with ⟨d, rfl, rfl⟩ | ⟨k, r, p, e, rfl, hp, he, rfl⟩ | ⟨k, p, rfl, hp, rfl⟩ |
    ⟨job, rfl, _, _, rfl⟩ | ⟨req, rfl, rfl⟩ | ⟨c, m, text, db, rfl, hdb, rfl⟩ |
    ⟨ch, te, ta, rfl, rfl⟩ | ⟨at_, rfl, _, rfl⟩
  · exact ho
  · exact (step_does he).inOrder ho
  · exact ho
  · exact ho
  · exact ho
  · exact insertPost_inOrder ho hdb
  · exact ho
  · exact ho

/-! ## The jobs of a run -/

/-- The posts for which a step enqueues a normalize job, each with the run that does. -/
def normalizesOf (env : Env) (w : World) : Action → List (Nat × Nat)
  | .advance i r =>
    match (w.proc i).bind (fun p => p.step env (w.view i) r) with
    | none => []
    | some e => (e.jobs.filter (fun j => j.name = .normalize)).map (fun j => (i, j.postId))
  | _ => []

/-- The normalize jobs enqueued in the course of `tr`: by which run, for which post. -/
def normalizeJobs (env : Env) (tr : List (World × Action)) : List (Nat × Nat) :=
  tr.flatMap (fun x => normalizesOf env x.1 x.2)

/-- Run `i`, after the steps `tr`, has seen to post `q` in the steps `tr'`: it has enqueued
a normalize job for the post, unless one was enqueued before. -/
def Recovered (env : Env) (i q : Nat) (tr tr' : List (World × Action)) : Prop :=
  (∀ j, (j, q) ∉ normalizeJobs env tr) → (i, q) ∈ normalizeJobs env tr'

theorem normalizeJobs_snoc {tr : List (World × Action)} :
    normalizeJobs env (tr ++ [(w, a)]) = normalizeJobs env tr ++ normalizesOf env w a := by
  simp [normalizeJobs]

/-- The jobs that a step enqueues are those of its effect. -/
theorem normalizesOf_advance {p : Proc} {r : Reply} {e : Effect Proc} (hp : w.proc i = some p)
    (he : p.step env (w.view i) r = some e) :
    normalizesOf env w (.advance i r)
      = (e.jobs.filter (fun j => j.name = .normalize)).map (fun j => (i, j.postId)) := by
  simp only [normalizesOf, hp, Option.bind_some, he]

/-- A step of another run, or of none, enqueues nothing for run `i`. -/
theorem not_mem_normalizesOf (h : ∀ r, a ≠ .advance i r) : (i, q) ∉ normalizesOf env w a := by
  intro hm
  cases a with
  | advance k r =>
      simp only [normalizesOf] at hm
      split at hm
      · exact absurd hm (by simp)
      · obtain ⟨j, -, hj⟩ := List.mem_map.mp hm
        obtain ⟨rfl, -⟩ := Prod.mk.inj hj
        exact h r rfl
  | _ => exact absurd hm (by simp [normalizesOf])

/-! ## A run of `reconcile_pending` -/

/-- The end of a run is recorded by its last step. -/
theorem ended_step {o : Outcome} (h : step env w a = some w') (ho : .ended i o ∈ w'.log) :
    .ended i o ∈ w.log
    ∨ ∃ r p e, a = .advance i r ∧ w.proc i = some p ∧ p.step env (w.view i) r = some e
        ∧ e.next = .stop o ∧ w' = w.apply i e := by
  rcases log_step h with hl | ⟨k, r, p, e, rfl, hp, he, rfl, hl⟩
  · rw [hl] at ho; exact .inl ho
  · rw [hl] at ho
    rcases List.mem_append.mp ho with ho | ho
    · -- nothing else that is seen of a step is an end
      have hseen : .ended i o ∉ e.seen := by
        intro hm
        obtain ⟨hs, -⟩ := (step_does he).sees hm (by simp) (by simp)
        rcases sees_eq hs with ⟨_, _, h⟩ | ⟨_, _, h⟩ <;> exact absurd h (by simp)
      unfold seenOf at ho
      split at ho
      · exact absurd ho hseen
      · rename_i o' hnx
        rcases List.mem_cons.mp ho with ho | ho
        · obtain ⟨rfl, rfl⟩ := Obs.ended.inj ho
          exact .inr ⟨r, p, e, rfl, hp, he, hnx, rfl⟩
        · exact absurd ho hseen
    · exact .inl ho

/-- A run that has ended is gone. -/
def Gone (w : World) : Prop := ∀ i o, .ended i o ∈ w.log → w.proc i = none ∧ i < w.nextRun

theorem gone_proc (hn : Numbered w) (hi : w.proc i = none) (hlt : i < w.nextRun)
    (h : step env w a = some w') : w'.proc i = none := by
  cases hq : w'.proc i with
  | none => rfl
  | some p =>
      rcases proc_step hn h hq with hp | ⟨_, _, _, -, hp, _⟩ | ⟨-, rfl, -⟩
      · rw [hi] at hp; exact absurd hp (by simp)
      · rw [hi] at hp; exact absurd hp (by simp)
      · exact absurd hlt (Nat.lt_irrefl _)

/-- A run that is over does not come back. -/
theorem gone_step (hn : Numbered w) (hg : Gone w) (h : step env w a = some w') : Gone w' := by
  intro i o ho
  rcases ended_step h ho with ho | ⟨r, p, e, rfl, hp, he, hnx, rfl⟩
  · obtain ⟨hi, hlt⟩ := hg i o ho
    exact ⟨gone_proc hn hi hlt h, Nat.lt_of_lt_of_le hlt (nextRun_step h)⟩
  · have hlt : i < w.nextRun := lt_nextRun hn hp
    exact ⟨proc_apply_stop hnx, hlt⟩

/-- What a step of the system is for run `i`, which has not ended: another run's, its death,
or its own. -/
theorem run_step {p : Proc} (hn : Numbered w) (hp : w.proc i = some p)
    (hne : ∀ o, .ended i o ∉ w.log) (h : step env w a = some w') :
    ((∀ r, a ≠ .advance i r) ∧ (w'.proc i = some p ∨ w'.proc i = none)
      ∧ ∀ o, .ended i o ∉ w'.log)
    ∨ (∃ r e p', a = .advance i r ∧ p.step env (w.view i) r = some e ∧ e.next = .goto p'
        ∧ w' = w.apply i e ∧ w'.proc i = some p' ∧ ∀ o, .ended i o ∉ w'.log)
    ∨ (∃ r e o, a = .advance i r ∧ p.step env (w.view i) r = some e ∧ e.next = .stop o
        ∧ w' = w.apply i e ∧ w'.proc i = none ∧ ∀ o', .ended i o' ∈ w'.log → o' = o) := by
  by_cases ha : ∃ r, a = .advance i r
  · obtain ⟨r, rfl⟩ := ha
    obtain ⟨p₀, e, hp₀, he, rfl⟩ := advance_cases h
    obtain rfl := Option.some.inj (hp.symm.trans hp₀)
    -- an end that is recorded now is the one this step made
    have hend : ∀ o, .ended i o ∈ (w.apply i e).log → e.next = .stop o := by
      intro o ho
      rcases ended_step h ho with ho | ⟨_, _, e', ha, hp', he', hnx, -⟩
      · exact absurd ho (hne o)
      · cases ha
        obtain rfl := Option.some.inj (hp.symm.trans hp')
        obtain rfl := Option.some.inj (he.symm.trans he')
        exact hnx
    cases hnx : e.next with
    | goto p' =>
        refine .inr (.inl ⟨r, e, p', rfl, he, hnx, rfl, proc_apply_goto hp hnx, fun o ho => ?_⟩)
        have hstop := hend o ho
        rw [hnx] at hstop
        exact absurd hstop (by simp)
    | stop o =>
        refine .inr (.inr ⟨r, e, o, rfl, he, hnx, rfl, proc_apply_stop hnx, fun o' ho => ?_⟩)
        have hstop := hend o' ho
        rw [hnx] at hstop
        exact (Next.stop.inj hstop).symm
  · have hother : ∀ r, a ≠ .advance i r := fun r he => ha ⟨r, he⟩
    refine .inl ⟨hother, ?_, fun o ho => ?_⟩
    · cases hi' : w'.proc i with
      | none => exact .inr rfl
      | some p' =>
          rcases proc_step hn h hi' with hp' | ⟨r, _, _, he, -⟩ | ⟨hno, -⟩
          · exact .inl (hp'.symm.trans hp)
          · exact absurd he (hother r)
          · rw [hp] at hno; exact absurd hno (by simp)
    · rcases ended_step h ho with ho | ⟨r, _, _, he, -⟩
      · exact hne o ho
      · exact hother r he

/-- A run that is gone takes no step, and its end is not recorded once more. -/
theorem gone_run_step (hn : Numbered w) (hi : w.proc i = none) (hlt : i < w.nextRun)
    (h : step env w a = some w') :
    (∀ r, a ≠ .advance i r) ∧ w'.proc i = none ∧ i < w'.nextRun
      ∧ ∀ o, .ended i o ∈ w'.log → .ended i o ∈ w.log := by
  have hother : ∀ r, a ≠ .advance i r := by
    rintro r rfl
    obtain ⟨p, _, hp, -⟩ := advance_cases h
    rw [hi] at hp; exact absurd hp (by simp)
  refine ⟨hother, gone_proc hn hi hlt h, Nat.lt_of_lt_of_le hlt (nextRun_step h), fun o ho => ?_⟩
  rcases ended_step h ho with ho | ⟨r, _, _, he, -⟩
  · exact ho
  · exact absurd he (hother r)

/-- How far run `i` is with the list `ids`, the steps `tr` after its query. -/
def Progress (env : Env) (i : Nat) (ids : List Nat) (tr : List (World × Action)) (w : World) :
    Prop :=
  (∃ sent rest, ids = sent ++ rest ∧ w.proc i = some (.reconcilePending (.enqueue rest))
      ∧ (∀ o, .ended i o ∉ w.log) ∧ ∀ q, (i, q) ∈ normalizeJobs env tr ↔ q ∈ sent)
  ∨ (w.proc i = none ∧ i < w.nextRun
      ∧ (.ended i (.returned .done) ∈ w.log → ∀ q, (i, q) ∈ normalizeJobs env tr ↔ q ∈ ids))

/-- **One step**: the run enqueues the next of its ids, or ends; any other step leaves it where it
is. -/
theorem progress_step {ids : List Nat} {tr : List (World × Action)} (hn : Numbered w)
    (hw : Progress env i ids tr w) (h : step env w a = some w') :
    Progress env i ids (tr ++ [(w, a)]) w' := by
  have hjobs : ∀ q, (i, q) ∈ normalizeJobs env (tr ++ [(w, a)])
      ↔ (i, q) ∈ normalizeJobs env tr ∨ (i, q) ∈ normalizesOf env w a := by
    intro q
    rw [normalizeJobs_snoc, List.mem_append]
  rcases hw with ⟨sent, rest, rfl, hi, hne, hmem⟩ | ⟨hi, hlt, hall⟩
  · have hlt : i < w'.nextRun := Nat.lt_of_lt_of_le (lt_nextRun hn hi) (nextRun_step h)
    rcases run_step hn hi hne h with ⟨hother, hi', hne'⟩ | ⟨r, e, p', rfl, he, hnx, rfl, hi', hne'⟩ |
      ⟨r, e, o, rfl, he, hnx, rfl, hi', hend⟩
    · have hmem' : ∀ q, (i, q) ∈ normalizeJobs env (tr ++ [(w, a)]) ↔ q ∈ sent := by
        intro q
        rw [hjobs q, hmem q, or_iff_left (not_mem_normalizesOf hother)]
      rcases hi' with hi' | hi'
      · exact .inl ⟨sent, rest, rfl, hi', hne', hmem'⟩
      · exact .inr ⟨hi', hlt, fun hdone => absurd hdone (hne' _)⟩
    · rw [normalizesOf_advance hi he] at hjobs
      rcases reconcileStep_cases he with ⟨id, rest', rfl, hj, hgo⟩ | ⟨-, -, hgo⟩ | ⟨ex, -, hgo⟩
      · rw [hnx] at hgo
        obtain rfl := Next.goto.inj hgo
        refine .inl ⟨sent ++ [id], rest', by simp, hi', hne', fun q => ?_⟩
        rw [hjobs q, hmem q, hj, List.mem_append]
        simp [enqueueNormalize, eq_comm]
      · rw [hnx] at hgo; exact absurd hgo (by simp)
      · rw [hnx] at hgo; exact absurd hgo (by simp)
    · rw [normalizesOf_advance hi he] at hjobs
      rcases reconcileStep_cases he with ⟨id, rest', -, -, hgo⟩ | ⟨rfl, hj, hgo⟩ | ⟨ex, -, hgo⟩
      · rw [hnx] at hgo; exact absurd hgo (by simp)
      · refine .inr ⟨hi', hlt, fun _ q => ?_⟩
        rw [hjobs q, hmem q, hj]
        simp
      · refine .inr ⟨hi', hlt, fun hdone => ?_⟩
        -- a run that raised has not returned
        rw [hnx] at hgo
        have hret := (hend _ hdone).trans (Next.stop.inj hgo)
        exact absurd hret (by simp)
  · obtain ⟨hother, hi', hlt', hback⟩ := gone_run_step hn hi hlt h
    refine .inr ⟨hi', hlt', fun hdone q => ?_⟩
    rw [hjobs q, or_iff_left (not_mem_normalizesOf hother)]
    exact hall (hback _ hdone) q

/-- So what it has enqueued and what is left are the list it began with. -/
theorem progress_trace {ids : List Nat} {w₁ : World} {tr : List (World × Action)}
    (hn : Numbered w₁) (hw : Progress env i ids [] w₁) (hp : Trace (step env) w₁ tr w) :
    Progress env i ids tr w := by
  suffices h : Numbered w ∧ Progress env i ids tr w from h.2
  induction hp with
  | nil => exact ⟨hn, hw⟩
  | snoc _ hu ih => exact ⟨numbered_step ih.1 hu, progress_step ih.1 ih.2 hu⟩

/-! ## Which orphans are recovered -/

/--
**A run of `reconcile_pending` that returns has seen to a post received more than five
minutes ago exactly if a normalize job was enqueued for it before, or the post is still
pending, no media is stored in it, and fewer than 200 such posts come before it.**

The run goes through the list of its query one id at a time (`Progress`), so it enqueues exactly
the ids on the list if it returns; and a post is on the list exactly if it meets the condition of
the query and its place in the order is below the limit (`mem_orphanedPosts`).
-/
theorem orphan_requeued_iff {w₀ w₁ w₂ : World} {tr tr' : List (World × Action)} {row : Post}
    (h0 : Init w₀) (hp : Trace (step env) w₀ tr w)
    (hi : w.proc i = some (.reconcilePending .query)) (hrow : w.row q = some row)
    (hold : row.receivedAt ≤ w.now - seconds 300)
    (hquery : step env w (.advance i .ok) = some w₁) (hp' : Trace (step env) w₁ tr' w₂)
    (hdone : .ended i (.returned .done) ∈ w₂.log) :
    Recovered env i q tr tr' ↔
      (∀ j, (j, q) ∉ normalizeJobs env tr) →
        row.state = .pending ∧ row.rawMediaRefs = [] ∧ w.db.orphansBefore w.now row < 200 := by
  obtain ⟨hn, hg, ho⟩ : Numbered w ∧ Gone w ∧ w.db.InOrder := by
    refine hp.invariant' (I := fun w => Numbered w ∧ Gone w ∧ w.db.InOrder) ?_ ⟨numbered_init h0, ?_, ?_⟩
    · rintro t a u ⟨hn, hg, ho⟩ hu
      exact ⟨numbered_step hn hu, gone_step hn hg hu, inOrder_step ho hu⟩
    · intro i o hm
      rw [h0.log] at hm
      exact absurd hm (by simp)
    · unfold Db.InOrder
      rw [h0.posts]
      exact List.Pairwise.nil
  obtain ⟨p, e, hpi, he, rfl⟩ := advance_cases hquery
  obtain rfl := Option.some.inj (hi.symm.trans hpi)
  obtain rfl := Option.some.inj he
  -- after its query the run is at the head of the list, with nothing enqueued
  have hstart : Progress env i (orphanedPosts w.now w.db) [] (w.apply i
      (((w.view i).goto (.enqueue (orphanedPosts w.now w.db))).map .reconcilePending)) := by
    refine .inl ⟨[], _, rfl, proc_apply_goto hi rfl, ?_, by simp [normalizeJobs]⟩
    intro o hm
    have hgone := (hg i o (by simpa [apply, seenOf, View.goto, Effect.map] using hm)).1
    rw [hi] at hgone; exact absurd hgone (by simp)
  -- at its return it has enqueued all of it
  have hjob : (i, q) ∈ normalizeJobs env tr' ↔ q ∈ orphanedPosts w.now w.db := by
    rcases progress_trace (numbered_step hn hquery) hstart hp' with ⟨_, _, _, _, hne, _⟩ | ⟨_, _, hall⟩
    · exact absurd hdone (hne _)
    · exact hall hdone q
  rw [Recovered, hjob, mem_orphanedPosts ho hrow]
  simp only [Post.Orphan, hold, and_true, and_assoc]

/-- An ingest is under way; more than five minutes after its death the userbot boots. -/
def restarted (ingest : List Action) : List Action :=
  .arrive 1 1 (some "hi".toList) :: ingest ++
  [.crash 0, .tick 301_000_000, .request .bootUserbot]

/-- It died during the download: the post gets its job. -/
theorem orphan_requeued_iff_downloading :
    ∃ w w₁ w₂, (sample sampleChannel).after (sampleEnv {}) (restarted []) = some w
      ∧ step (sampleEnv {}) w (.advance 1 .ok) = some w₁
      ∧ w₁.after (sampleEnv {}) (goes 1 2) = some w₂
      ∧ Recovered (sampleEnv {}) 1 1 (stepsOf (sampleEnv {}) (sample sampleChannel) (restarted []))
        (stepsOf (sampleEnv {}) w₁ (goes 1 2)) := by
  have hrun : ((sample sampleChannel).after (sampleEnv {}) (restarted [])).bind (fun w =>
      (step (sampleEnv {}) w (.advance 1 .ok)).bind (fun w₁ =>
        (w₁.after (sampleEnv {}) (goes 1 2)).map (fun w₂ => Decidable.decide
          (w.proc 1 = some (.reconcilePending .query)
            ∧ (w.row 1).any (fun row => row.receivedAt ≤ w.now - seconds 300
              ∧ row.state = .pending ∧ row.rawMediaRefs = [] ∧ w.db.orphansBefore w.now row < 200)
            ∧ .ended 1 (.returned .done) ∈ w₂.log)))) = some true := by
    decide +kernel
  obtain ⟨w, hw, hrun⟩ := Option.bind_eq_some_iff.mp hrun
  obtain ⟨w₁, hw₁, hrun⟩ := Option.bind_eq_some_iff.mp hrun
  obtain ⟨w₂, hw₂, hrun⟩ := Option.map_eq_some_iff.mp hrun
  obtain ⟨hi, hrow, hdone⟩ := of_decide_eq_true hrun
  obtain ⟨row, hrow, he⟩ := (Option.any_eq_true _ _).mp hrow
  obtain ⟨hold, horphan⟩ := of_decide_eq_true he
  exact ⟨w, w₁, w₂, hw, hw₁, hw₂, (orphan_requeued_iff (sample_init _) (path_after hw) hi hrow
    hold hw₁ (path_after hw₂) hdone).mpr fun _ => horphan⟩

def samplePhoto : MediaRef where
  type := "photo".toList
  file := some "/media/1_0_photo.bin".toList
  size := some 0

/-- It died after the second commit, which stored the photo: no job. -/
theorem stored_not_recovered :
    ∃ w₀ w w₁ w₂ tr tr', ∃ row : Post, Init w₀ ∧ Trace (step (sampleEnv {})) w₀ tr w
      ∧ w.proc 1 = some (.reconcilePending .query) ∧ w.row 1 = some row
      ∧ row.state = .pending ∧ row.receivedAt ≤ w.now - seconds 300
      ∧ step (sampleEnv {}) w (.advance 1 .ok) = some w₁ ∧ Trace (step (sampleEnv {})) w₁ tr' w₂
      ∧ .ended 1 (.returned .done) ∈ w₂.log ∧ ¬ Recovered (sampleEnv {}) 1 1 tr tr' := by
  have hrun : ((sample sampleChannel).after (sampleEnv {})
      (restarted (.advance 0 (.media (some samplePhoto)) :: goes 0 2))).bind (fun w =>
      (step (sampleEnv {}) w (.advance 1 .ok)).bind (fun w₁ =>
        (w₁.after (sampleEnv {}) (goes 1 1)).map (fun w₂ => Decidable.decide
          (w.proc 1 = some (.reconcilePending .query)
            ∧ (w.row 1).any (fun row => row.state = .pending
              ∧ row.receivedAt ≤ w.now - seconds 300)
            ∧ .ended 1 (.returned .done) ∈ w₂.log
            ∧ normalizeJobs (sampleEnv {}) (stepsOf (sampleEnv {}) (sample sampleChannel)
              (restarted (.advance 0 (.media (some samplePhoto)) :: goes 0 2))) = []
            ∧ normalizeJobs (sampleEnv {}) (stepsOf (sampleEnv {}) w₁ (goes 1 1)) = []))))
      = some true := by
    decide +kernel
  obtain ⟨w, hw, hrun⟩ := Option.bind_eq_some_iff.mp hrun
  obtain ⟨w₁, hw₁, hrun⟩ := Option.bind_eq_some_iff.mp hrun
  obtain ⟨w₂, hw₂, hrun⟩ := Option.map_eq_some_iff.mp hrun
  obtain ⟨hi, hrow, hdone, hbefore, hafter⟩ := of_decide_eq_true hrun
  obtain ⟨row, hrow, he⟩ := (Option.any_eq_true _ _).mp hrow
  obtain ⟨hst, hold⟩ := of_decide_eq_true he
  refine ⟨_, w, w₁, w₂, _, _, row, sample_init _, path_after hw, hi, hrow, hst, hold, hw₁,
    path_after hw₂, hdone, fun hrec => ?_⟩
  have hjob := hrec fun j hj => by rw [hbefore] at hj; exact absurd hj (by simp)
  rw [hafter] at hjob
  exact absurd hjob (by simp)

end World

end TelegramCms
