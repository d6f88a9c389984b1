import TelegramCms.Proof.Approved
import TelegramCms.Proof.Orphans

/-!
# Overdue posts after a restart

A delayed publish job can get lost. On its boot the worker looks for posts that are
scheduled for a time that has passed: `reconcile_scheduled` enqueues a publish job for the
first `_RECONCILE_BATCH` of them in the order of their times, and the rest is left to a
later boot.
-/

namespace TelegramCms

open Transition

/-- The post should have been sent, within the last 30 days. -/
def Post.Overdue (now : Time) (p : Post) : Prop :=
  p.state = .scheduled ∧ p.publishedMessageId = none
    ∧ p.scheduledFor.any (fun t => decide (t ≤ now ∧ now - days 30 ≤ t))

instance (now : Time) : DecidablePred (Post.Overdue now) := fun p =>
  inferInstanceAs (Decidable (p.state = .scheduled ∧ p.publishedMessageId = none
    ∧ p.scheduledFor.any (fun t => decide (t ≤ now ∧ now - days 30 ≤ t)) = true))

/-- How many other overdue posts are scheduled no later than `row`. -/
def Db.overdueUpTo (db : Db) (now : Time) (row : Post) : Nat :=
  db.posts.rows.countP (fun p =>
    p.Overdue now ∧ p.id ≠ row.id ∧ p.scheduledFor.getD 0 ≤ row.scheduledFor.getD 0)

/-- A post is selected if fewer than `_RECONCILE_BATCH` others are scheduled no later, in
whatever order posts with equal times come. -/
theorem mem_overduePosts_of_few {db : Db} {now : Time} {q : Nat} {row : Post}
    (hrow : db.posts.get q = some row) (hov : row.Overdue now)
    (hfew : db.overdueUpTo now row < 100) : q ∈ overduePosts now db := by
  refine List.mem_map.mpr ⟨row, ?_, Table.key_of_get hrow⟩
  have hnodup : db.posts.rows.Nodup := List.Nodup.of_map _ db.posts.unique
  refine Ranking.mem_take_of_few (fun a b => Int.le_total _ _) (fun a b c => Int.le_trans)
    (hnodup.sublist List.filter_sublist) ?_ (Nat.lt_of_le_of_lt ?_ hfew)
  · exact List.mem_filter.mpr ⟨Table.mem_of_get hrow, decide_eq_true hov⟩
  · rw [List.countP_filter]
    refine List.countP_mono_left fun p hp hsel => ?_
    obtain ⟨hother, hsel⟩ := Bool.and_eq_true_iff.mp hsel
    obtain ⟨hne, hle⟩ := of_decide_eq_true hother
    refine decide_eq_true ⟨of_decide_eq_true hsel, fun he => hne ?_, hle⟩
    -- two posts do not share an id
    have hget := Db.get_post hp
    rw [he, Table.key_of_get hrow, hrow] at hget
    exact (Option.some.inj hget).symm

namespace World

variable {env : Env} {w w' : World} {a : Action} {i q : Nat} {tr : List (World × Action)}

/-- A publish job of post `q` is in the queue, or it was until a worker started it in one of
the steps `tr`. -/
def PublishQueued (q : Nat) (tr : List (World × Action)) (w : World) : Prop :=
  (∃ job ∈ w.queue, job.publishes q = true)
    ∨ ∃ x ∈ tr, ∃ job : Job, x.2 = .startJob job ∧ job.publishes q = true

theorem publishQueued_step (hq : PublishQueued q tr w) (h : step env w a = some w') :
    PublishQueued q (tr ++ [(w, a)]) w' := by
  rcases hq with ⟨job, hj, hp⟩ | ⟨x, hx, job, ha, hp⟩
  · rcases queue_kept h hj with hj | rfl
    · exact .inl ⟨job, hj, hp⟩
    · exact .inr ⟨_, List.mem_append_right _ (List.mem_singleton.mpr rfl), job, rfl, hp⟩
  · exact .inr ⟨x, List.mem_append_left _ hx, job, ha, hp⟩

/-- How far run `i` is with the list `ids`, the steps `tr` after its query. -/
def Requeues (i : Nat) (ids : List Nat) (tr : List (World × Action)) (w : World) : Prop :=
  (∃ rest, w.proc i = some (.reconcileScheduled (.enqueue rest)) ∧ (∀ o, .ended i o ∉ w.log)
      ∧ ∀ q ∈ ids, q ∈ rest ∨ PublishQueued q tr w)
  ∨ (w.proc i = none ∧ i < w.nextRun
      ∧ (.ended i (.returned .done) ∈ w.log → ∀ q ∈ ids, PublishQueued q tr w))

theorem requeues_step {ids : List Nat} (hn : Numbered w) (hw : Requeues i ids tr w)
    (h : step env w a = some w') : Requeues i ids (tr ++ [(w, a)]) w' := by
  rcases hw with ⟨rest, hi, hne, hall⟩ | ⟨hi, hlt, hall⟩
  · have hlt : i < w'.nextRun := Nat.lt_of_lt_of_le (lt_nextRun hn hi) (nextRun_step h)
    have hkeep : ∀ q ∈ ids, q ∈ rest ∨ PublishQueued q (tr ++ [(w, a)]) w' :=
      fun q hq => (hall q hq).imp_right fun hq => publishQueued_step hq h
    rcases run_step hn hi hne h with ⟨-, hi', hne'⟩ | ⟨r, e, p', rfl, he, hnx, rfl, hi', hne'⟩ |
      ⟨r, e, o, rfl, he, hnx, rfl, hi', hend⟩
    · rcases hi' with hi' | hi'
      · exact .inl ⟨rest, hi', hne', hkeep⟩
      · exact .inr ⟨hi', hlt, fun hdone => absurd hdone (hne' _)⟩
    · rcases reconcileStep_cases he with ⟨id, rest', rfl, hj, hgo⟩ | ⟨-, -, hgo⟩ | ⟨ex, -, hgo⟩
      · rw [hnx] at hgo
        obtain rfl := Next.goto.inj hgo
        refine .inl ⟨rest', hi', hne', fun q hq => ?_⟩
        rcases hkeep q hq with hrest | hq
        · rcases List.mem_cons.mp hrest with rfl | hrest
          · -- the job that was just enqueued
            refine .inr (.inl ⟨enqueuePublish w.now q, ?_, decide_eq_true ⟨rfl, rfl⟩⟩)
            show _ ∈ w.queue ++ e.jobs
            rw [hj]
            exact List.mem_append_right _ (List.mem_singleton.mpr rfl)
          · exact .inl hrest
        · exact .inr hq
      · rw [hnx] at hgo; exact absurd hgo (by simp)
      · rw [hnx] at hgo; exact absurd hgo (by simp)
    · rcases reconcileStep_cases he with ⟨id, rest', -, -, hgo⟩ | ⟨rfl, -, hgo⟩ | ⟨ex, -, hgo⟩
      · rw [hnx] at hgo; exact absurd hgo (by simp)
      · exact .inr ⟨hi', hlt, fun _ q hq => (hkeep q hq).resolve_left (by simp)⟩
      · refine .inr ⟨hi', hlt, fun hdone => ?_⟩
        rw [hnx] at hgo
        have hret := (hend _ hdone).trans (Next.stop.inj hgo)
        exact absurd hret (by simp)
  · obtain ⟨-, hi', hlt', hback⟩ := gone_run_step hn hi hlt h
    exact .inr ⟨hi', hlt', fun hdone q hq => publishQueued_step (hall (hback _ hdone) q hq) h⟩

theorem requeues_trace {ids : List Nat} {w₁ : World} (hn : Numbered w₁)
    (hw : Requeues i ids [] w₁) (hp : Trace (step env) w₁ tr w) : Requeues i ids tr w := by
  suffices h : Numbered w ∧ Requeues i ids tr w from h.2
  induction hp with
  | nil => exact ⟨hn, hw⟩
  | snoc _ hu ih => exact ⟨numbered_step ih.1 hu, requeues_step ih.1 ih.2 hu⟩

/-- The reconcile of a boot, from its query to its return. -/
theorem requeues_query {w₀ w₁ w₂ : World} {tr' : List (World × Action)}
    (h0 : Idle w₀) (hp : Trace (step env) w₀ tr w)
    (hi : w.proc i = some (.reconcileScheduled .query))
    (hquery : step env w (.advance i .ok) = some w₁) (hp' : Trace (step env) w₁ tr' w₂)
    (hdone : .ended i (.returned .done) ∈ w₂.log) :
    ∀ q ∈ overduePosts w.now w.db, PublishQueued q tr' w₂ := by
  obtain ⟨hn, hg⟩ : Numbered w ∧ Gone w := by
    refine hp.invariant' (I := fun w => Numbered w ∧ Gone w) ?_ ⟨numbered_idle h0, ?_⟩
    · rintro t a u ⟨hn, hg⟩ hu
      exact ⟨numbered_step hn hu, gone_step hn hg hu⟩
    · intro j o hm
      rw [h0.log] at hm
      exact absurd hm (by simp)
  obtain ⟨p, e, hpi, he, rfl⟩ := advance_cases hquery
  obtain rfl := Option.some.inj (hi.symm.trans hpi)
  obtain rfl := Option.some.inj he
  have hstart : Requeues i (overduePosts w.now w.db) [] (w.apply i
      (((w.view i).goto (.enqueue (overduePosts w.now w.db))).map .reconcileScheduled)) := by
    refine .inl ⟨_, proc_apply_goto hi rfl, ?_, fun q hq => .inl hq⟩
    intro o hm
    have hgone := (hg i o (by simpa [apply, seenOf, View.goto, Effect.map] using hm)).1
    rw [hi] at hgone; exact absurd hgone (by simp)
  rcases requeues_trace (numbered_step hn hquery) hstart hp' with ⟨_, _, hne, _⟩ | ⟨_, _, hall⟩
  · exact absurd hdone (hne _)
  · exact hall hdone

/--
**Once the reconcile of a boot returned, every post that was overdue at its query has a
publish job in the queue, or had until it was started, if fewer than `_RECONCILE_BATCH`
other overdue posts were scheduled no later.**

In whatever order posts with equal times come, such a post is in the batch
(`mem_overduePosts_of_few`). The run enqueues the ids of its batch one by one, and an id that is
already in the queue is left there, so each of them ends up in it (`requeues_query`).
-/
theorem overdue_requeued {w₀ w₁ w₂ : World} {tr' : List (World × Action)} {row : Post}
    (h0 : Idle w₀) (hp : Trace (step env) w₀ tr w)
    (hi : w.proc i = some (.reconcileScheduled .query)) (hrow : w.row q = some row)
    (hov : row.Overdue w.now) (hfew : w.db.overdueUpTo w.now row < 100)
    (hquery : step env w (.advance i .ok) = some w₁) (hp' : Trace (step env) w₁ tr' w₂)
    (hdone : .ended i (.returned .done) ∈ w₂.log) : PublishQueued q tr' w₂ :=
  requeues_query h0 hp hi hquery hp' hdone q (mem_overduePosts_of_few hrow hov hfew)

/-- A system with `n` posts that are due, one second apart, and no jobs. -/
def sampleOverdue (n : Nat) : World where
  now := seconds n
  db := { posts := {
    rows := (List.range n).map (fun i => {
      id := i + 1, sourceChannelId := 1, sourceMessageId := i + 1, rawText := none, receivedAt := 0
      state := .scheduled, scheduledFor := some (seconds i) })
    unique := by
      rw [List.map_map]
      exact List.nodup_range.map (fun i j h => Nat.succ.inj h) } }

theorem overdue_requeued_two :
    ∃ w w₁ w₂, (sampleOverdue 2).after (sampleEnv {}) [.request .bootWorker] = some w
      ∧ step (sampleEnv {}) w (.advance 0 .ok) = some w₁
      ∧ w₁.after (sampleEnv {}) (goes 0 3) = some w₂
      ∧ PublishQueued 2 (stepsOf (sampleEnv {}) w₁ (goes 0 3)) w₂ := by
  have hrun : ((sampleOverdue 2).after (sampleEnv {}) [.request .bootWorker]).bind (fun w =>
      (step (sampleEnv {}) w (.advance 0 .ok)).bind (fun w₁ =>
        (w₁.after (sampleEnv {}) (goes 0 3)).map (fun w₂ => Decidable.decide
          (w.proc 0 = some (.reconcileScheduled .query)
            ∧ (w.row 2).any (fun row => row.Overdue w.now ∧ w.db.overdueUpTo w.now row < 100)
            ∧ .ended 0 (.returned .done) ∈ w₂.log)))) = some true := by
    decide +kernel
  obtain ⟨w, hw, hrun⟩ := Option.bind_eq_some_iff.mp hrun
  obtain ⟨w₁, hw₁, hrun⟩ := Option.bind_eq_some_iff.mp hrun
  obtain ⟨w₂, hw₂, hrun⟩ := Option.map_eq_some_iff.mp hrun
  obtain ⟨hi, hrow, hdone⟩ := of_decide_eq_true hrun
  obtain ⟨row, hrow, he⟩ := (Option.any_eq_true _ _).mp hrow
  obtain ⟨hov, hfew⟩ := of_decide_eq_true he
  exact ⟨w, w₁, w₂, hw, hw₁, hw₂, overdue_requeued ⟨rfl, rfl⟩ (path_after hw) hi hrow hov hfew hw₁
    (path_after hw₂) hdone⟩

/-- Of 101 overdue posts the last one gets no job. -/
theorem overdue_left :
    ∃ w₀ w w₁ w₂ tr tr', ∃ row : Post, Idle w₀ ∧ Trace (step (sampleEnv {})) w₀ tr w
      ∧ w.proc 0 = some (.reconcileScheduled .query) ∧ w.row 101 = some row ∧ row.Overdue w.now
      ∧ step (sampleEnv {}) w (.advance 0 .ok) = some w₁ ∧ Trace (step (sampleEnv {})) w₁ tr' w₂
      ∧ .ended 0 (.returned .done) ∈ w₂.log ∧ ¬ PublishQueued 101 tr' w₂ := by
  have hrun : ((sampleOverdue 101).after (sampleEnv {}) [.request .bootWorker]).bind (fun w =>
      (step (sampleEnv {}) w (.advance 0 .ok)).bind (fun w₁ =>
        (w₁.after (sampleEnv {}) (goes 0 101)).map (fun w₂ => Decidable.decide
          (w.proc 0 = some (.reconcileScheduled .query)
            ∧ (w.row 101).any (fun row => row.Overdue w.now)
            ∧ .ended 0 (.returned .done) ∈ w₂.log
            ∧ w₂.queue.all (fun job => !job.publishes 101))))) = some true := by
    decide +kernel
  obtain ⟨w, hw, hrun⟩ := Option.bind_eq_some_iff.mp hrun
  obtain ⟨w₁, hw₁, hrun⟩ := Option.bind_eq_some_iff.mp hrun
  obtain ⟨w₂, hw₂, hrun⟩ := Option.map_eq_some_iff.mp hrun
  obtain ⟨hi, hrow, hdone, hqueue⟩ := of_decide_eq_true hrun
  obtain ⟨row, hrow, hov⟩ := (Option.any_eq_true _ _).mp hrow
  refine ⟨_, w, w₁, w₂, _, _, row, ⟨rfl, rfl⟩, path_after hw, hi, hrow, of_decide_eq_true hov, hw₁,
    path_after hw₂, hdone, ?_⟩
  rintro (⟨job, hj, hp⟩ | ⟨x, hx, job, ha, -⟩)
  · have hno := List.all_eq_true.mp hqueue job hj
    rw [hp] at hno
    exact absurd hno (by simp)
  · -- the reconcile is all that happens
    have hgo : x.2 ∈ goes 0 101 := mem_trail hx
    rw [ha] at hgo
    exact absurd (List.eq_of_mem_replicate hgo) (by simp)

end World

end TelegramCms
