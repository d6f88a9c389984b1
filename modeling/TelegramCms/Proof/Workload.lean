import TelegramCms.Lib.Potential
import TelegramCms.Proof.Paths
import TelegramCms.Proof.Steps

/-!
# How much work there is

Every service enqueues jobs for the others, a job whose run dies is run again, and the bot
sends a second time after a `TelegramRetryAfter`. Still nothing goes round in circles: each
place of a run has a rank, the steps that can be left of it and of the jobs it enqueues, and
each step lowers it. So the steps of a run of the system are paid for by what came from
outside (`steps_le`), and left alone the system comes to rest (`comes_to_rest`).
-/

namespace TelegramCms

open Transition

/-! ## Ranks -/

/-- The most steps a publish run can take from here. -/
def PublishPc.rank : PublishPc → Nat
  | .load => 17
  | .claim _ => 16
  | .channel _ => 15
  | .lookup .. => 14
  | .reserve .. => 13
  | .lock _ => 12
  | .spacing .. => 11
  | .sending _ false => 10
  | .backoff .. => 9
  | .sending _ true => 8
  | .markLoad .. => 7
  | .markCommit .. => 6
  | .cardLoad | .duplicateLoad _ => 5
  | .cardEdit _ | .duplicateCommit .. | .release .. => 4
  | .failureLoad _ => 3
  | .failureCommit .. => 2
  | .failureAlert _ => 1

/-- A job in a queue: its start, and what its run can come to. -/
def Job.rank (job : Job) : Nat :=
  match job.name with
  | .publish => 18
  | .postDraft => 5
  | .normalize => 24

/-- The most steps that can be left of a run and of the jobs it enqueues. -/
def Proc.rank : Proc → Nat
  | .publish _ pc => pc.rank
  | .normalize _ .load => 23
  | .normalize _ (.context _) => 22
  | .normalize _ (.transform ..) => 21
  | .normalize _ (.commit ..) => 20
  | .normalize _ (.enqueue ..) => 19
  | .postDraft _ .load => 4
  | .postDraft _ (.send _) => 3
  | .postDraft _ (.storeLoad _) => 2
  | .postDraft _ (.storeCommit ..) => 1
  | .callback _ _ _ .load => 23
  | .callback _ _ _ (.commit _) => 22
  | .callback _ _ _ (.answer _) => 21
  | .callback _ _ _ (.enqueue _) => 20
  | .callback _ _ _ (.card _) => 1
  | .decide _ .load => 22
  | .decide _ (.commit ..) => 21
  | .decide _ (.enqueue _) => 20
  | .decide _ .refresh => 1
  | .editTags _ .load => 2
  | .editTags _ (.commit _) => 1
  | .reconcileScheduled .query => 2 + 19 * 100
  | .reconcileScheduled (.enqueue ids) => 1 + 19 * ids.length
  | .reconcilePending .query => 2 + 25 * 200
  | .reconcilePending (.enqueue ids) => 1 + 25 * ids.length
  | .ingest _ .download => 28
  | .ingest _ (.storeLoad _) => 27
  | .ingest _ (.storeCommit ..) => 26
  | .ingest _ .enqueue => 25

section Step

variable {env : Env} {v : View} {r : Reply}

/-- The failure handler is three steps long, and every other place further off the end. -/
theorem rank_of_not_failed {pc : PublishPc} (h : pc.failed = false) : 3 < pc.rank := by
  cases pc with
  | sending ctx retried => cases retried <;> simp [PublishPc.rank]
  | failureLoad | failureCommit | failureAlert => exact absurd h (by simp [PublishPc.failed])
  | _ => simp [PublishPc.rank]

theorem sending_rank {ctx : SendCtx} {retried : Bool} :
    8 ≤ (PublishPc.sending ctx retried).rank := by
  cases retried <;> simp [PublishPc.rank]

/-- Every move of a publish run lowers its rank. -/
theorem publish_rank {q : Nat} {pc pc' : PublishPc} {e : Effect PublishPc}
    (h : publishStep env v q pc r = some e) (hn : e.next = .goto pc') : pc'.rank < pc.rank := by
  cases publishStep_move h with
  | stops o => cases hn
  | fails ex hr hpc =>
      obtain rfl := Next.goto.inj hn
      exact rank_of_not_failed hpc
  | taken hpc hrow =>
      obtain rfl := Next.goto.inj hn
      rcases hpc with rfl | rfl <;> simp [PublishPc.rank]
  | begins hpc hu =>
      obtain rfl := Next.goto.inj hn
      -- the second send is below the wait before it, and the first above
      rcases hpc with rfl | rfl <;> simp [PublishPc.rank, PublishPc.retries]
  | delivers hid =>
      obtain rfl := Next.goto.inj hn
      exact Nat.lt_of_lt_of_le (by decide : 7 < 8) sending_rank
  | sendFails ex hh =>
      obtain rfl := Next.goto.inj hn
      exact Nat.lt_of_lt_of_le (by decide : 4 < 8) sending_rank
  | card hpc =>
      obtain rfl := Next.goto.inj hn
      rcases hpc with ⟨_, _, rfl, rfl⟩ | ⟨rfl, _, rfl, -⟩ <;> simp [PublishPc.rank]
  | duplicates hrow => cases hn
  | _ =>
      obtain rfl := Next.goto.inj hn
      simp [PublishPc.rank]

/-- What the job that a run is about to enqueue can come to. -/
def Proc.toCome (now : Time) (p : Proc) : Nat := ((p.enqueues now).map Job.rank).getD 0

theorem publishPc_rank_pos (pc : PublishPc) : 0 < pc.rank := by
  cases pc with
  | sending ctx retried => cases retried <;> simp [PublishPc.rank]
  | _ => simp [PublishPc.rank]

theorem rank_pos (p : Proc) : 0 < p.rank := by
  unfold Proc.rank
  split
  · exact publishPc_rank_pos _
  all_goals omega

theorem toCome_lt_rank (now : Time) (p : Proc) : p.toCome now < p.rank := by
  have hpos := rank_pos p
  unfold Proc.toCome Proc.enqueues
  split
  · simp [Job.rank, enqueuePublish, Proc.rank]
  · simp [Job.rank, enqueuePostDraft, Proc.rank]
  · simp [Job.rank, enqueuePublish, Proc.rank]
  · simp [Job.rank, enqueuePublish, Proc.rank]
  · simp only [Option.map_some, Option.getD_some, Job.rank, enqueuePublish, Proc.rank,
      List.length_cons]
    omega
  · simp only [Option.map_some, Option.getD_some, Job.rank, enqueueNormalize, Proc.rank,
      List.length_cons]
    omega
  · simp [Job.rank, enqueueNormalize, Proc.rank]
  · exact hpos

theorem Does.jobs_le {p : Proc} {e : Effect Proc} (h : Does env v p r e) :
    (e.jobs.map Job.rank).sum ≤ p.toCome v.now := by
  cases h with
  | enqueues hj => simp [Proc.toCome, hj]
  | _ => exact Nat.zero_le _

theorem overduePosts_length (now : Time) (db : Db) : (overduePosts now db).length ≤ 100 := by
  rw [overduePosts, List.length_map]
  exact List.length_take_le _ _

theorem orphanedPosts_length (now : Time) (db : Db) : (orphanedPosts now db).length ≤ 200 := by
  rw [orphanedPosts, List.length_map]
  exact List.length_take_le _ _

/-- A step of a run that is not a publish run, after which the run is still there. -/
theorem goes_rank {p p' : Proc} (h : Goes env v p r p') (hp : ∀ job pc, p ≠ .publish job pc) :
    p'.rank + p.toCome v.now < p.rank := by
  cases h with
  | publish hm hn => exact absurd rfl (hp _ _)
  | renders hch ht hctx hpc => rcases hpc with rfl | rfl <;> simp [Proc.rank, Proc.toCome, Proc.enqueues]
  | @decides req post now pc row hrow hn =>
      -- after its commit a decision enqueues, or is answered
      have hpc : pc = .refresh ∨ ∃ d, pc = .enqueue d := by
        unfold decideNext at hn
        split at hn
        · exact .inr ⟨_, (Next.goto.inj hn).symm⟩
        · exact .inr ⟨_, (Next.goto.inj hn).symm⟩
        · unfold decideAnswer at hn
          split at hn <;> cases hn
          exact .inl rfl
      rcases hpc with rfl | ⟨d, rfl⟩ <;> simp [Proc.rank, Proc.toCome, Proc.enqueues]
  | overdue =>
      -- the ids that are to be enqueued are no more than the limit of the query
      have hl := overduePosts_length v.now v.db
      simp only [Proc.rank, Proc.toCome, Proc.enqueues, Option.map_none, Option.getD_none]
      omega
  | orphaned =>
      have hl := orphanedPosts_length v.now v.db
      simp only [Proc.rank, Proc.toCome, Proc.enqueues, Option.map_none, Option.getD_none]
      omega
  | nextOverdue | nextOrphan =>
      simp only [Proc.rank, Proc.toCome, Proc.enqueues, Option.map_some, Option.getD_some, Job.rank,
        enqueuePublish, enqueueNormalize, List.length_cons]
      omega
  | _ => simp [Proc.rank, Proc.toCome, Proc.enqueues, Job.rank, enqueuePublish]

/-- What is left to do of a run. -/
def Next.rank : Next Proc → Nat
  | .goto p => p.rank
  | .stop _ => 0

/-- **A step lowers the rank of its run by more than the jobs that it enqueues.** -/
theorem step_rank {p : Proc} {e : Effect Proc} (h : p.step env v r = some e) :
    e.next.rank + (e.jobs.map Job.rank).sum < p.rank := by
  have hjobs := (step_does h).jobs_le
  cases hn : e.next with
  | stop o =>
      have := toCome_lt_rank v.now p
      simp only [Next.rank]
      omega
  | goto p' =>
      cases p with
      | publish job pc =>
          obtain ⟨e₀, he, rfl⟩ := Option.map_eq_some_iff.mp h
          obtain ⟨pc', hpc, rfl⟩ := Effect.map_goto hn
          have hlt := publish_rank he hpc
          have hnone : (Proc.publish job pc).toCome v.now = 0 := rfl
          simp only [Next.rank, Proc.rank]
          omega
      | _ =>
          have hlt := goes_rank (step_goes h hn) (by simp)
          simp only [Next.rank]
          omega

/-! ## Runs can go on -/

/-- The call did not fail. -/
def Reply.succeeds : Reply → Bool
  | .raise _ | .retryAfter _ => false
  | _ => true

/-- A run can go on, after some time, unless it waits for the lock. -/
theorem step_enabled (env : Env) (p : Proc) (v : View)
    (h : v.lockFree = true ∨ p.holdsLock = true) :
    ∃ (d : Nat) (r : Reply) (e : Effect Proc), r.succeeds = true
      ∧ p.step env { v with now := v.now + d } r = some e := by
  have hgo : ∀ {d : Nat} {r : Reply}, r.succeeds = true →
      (p.step env { v with now := v.now + d } r).isSome →
      ∃ (d : Nat) (r : Reply) (e : Effect Proc), r.succeeds = true
        ∧ p.step env { v with now := v.now + d } r = some e := by
    intro d r hr hsome
    obtain ⟨e, he⟩ := Option.isSome_iff_exists.mp hsome
    exact ⟨d, r, e, hr, he⟩
  -- a run that sleeps goes on when its time has come
  have hsleep : ∀ until_ now : Int, until_ ≤ now + ((until_ - now).toNat : Int) := by
    intro until_ now
    omega
  cases p with
  | publish job pc =>
      cases pc with
      | lock ctx =>
          -- the only place where a run waits for another
          have hfree : v.lockFree = true := h.resolve_right (by simp [Proc.holdsLock, PublishPc.holdsLock])
          exact hgo (d := 0) (r := .ok) rfl (by simp [Proc.step, publishStep, hfree])
      | spacing ctx until_ =>
          refine hgo (d := (until_ - v.now).toNat) (r := .ok) rfl ?_
          rw [Proc.step, publishStep, if_pos (hsleep until_ v.now)]
          rfl
      | backoff ctx until_ =>
          refine hgo (d := (until_ - v.now).toNat) (r := .ok) rfl ?_
          rw [Proc.step, publishStep, if_pos (hsleep until_ v.now)]
          rfl
      | sending ctx retried => exact hgo (d := 0) (r := .message 1) rfl rfl
      | _ => exact hgo (d := 0) (r := .ok) rfl rfl
  | normalize job pc =>
      cases pc with
      | transform post ctx => exact hgo (d := 0) (r := .transformed ⟨['a'], [], 0, 0, 0⟩) rfl rfl
      | _ => exact hgo (d := 0) (r := .ok) rfl rfl
  | postDraft job pc =>
      cases pc with
      | send post =>
          cases hcard : post.draftMessageId with
          | none => exact hgo (d := 0) (r := .message 1) rfl (by simp [Proc.step, draftStep, draftSent, hcard])
          | some mid => exact hgo (d := 0) (r := .ok) rfl (by simp [Proc.step, draftStep, draftSent, hcard])
      | _ => exact hgo (d := 0) (r := .ok) rfl rfl
  | callback b u q pc => cases pc <;> exact hgo (d := 0) (r := .ok) rfl rfl
  | decide req pc => cases pc <;> exact hgo (d := 0) (r := .ok) rfl rfl
  | editTags req pc => cases pc <;> exact hgo (d := 0) (r := .ok) rfl rfl
  | reconcileScheduled pc =>
      cases pc with
      | query => exact hgo (d := 0) (r := .ok) rfl rfl
      | enqueue ids => cases ids <;> exact hgo (d := 0) (r := .ok) rfl rfl
  | reconcilePending pc =>
      cases pc with
      | query => exact hgo (d := 0) (r := .ok) rfl rfl
      | enqueue ids => cases ids <;> exact hgo (d := 0) (r := .ok) rfl rfl
  | ingest q pc =>
      cases pc with
      | download => exact hgo (d := 0) (r := .media none) rfl rfl
      | _ => exact hgo (d := 0) (r := .ok) rfl rfl

end Step

namespace World

variable {env : Env} {w w' w₀ : World} {a : Action}

/-! ## The potential -/

/-- What is left to do of the jobs and of the runs. -/
def potential (w : World) : Nat := (w.queue.map Job.rank).sum + w.runs.weight (fun r => r.proc.rank)

/-- The steps of the services: of a run, or the start of a job. -/
def work (_ : World) : Action → Nat
  | .advance .. | .startJob _ => 1
  | _ => 0

/-- What an event from outside can come to. -/
def cost (_ : World) : Action → Nat
  | .arrive .. => 28
  | .request req => req.start.rank
  -- the job is run again
  | .crash _ => 24
  | .tick _ | .advance .. | .startJob _ | .configure .. | .pruneDedupe _ => 0

theorem potential_spawn_le (p : Proc) : (w.spawn p).potential ≤ w.potential + p.rank := by
  have h : (w.spawn p).runs.weight (fun r => r.proc.rank)
      ≤ w.runs.weight (fun r => r.proc.rank) + p.rank := Table.weight_insert_le
  simp only [potential]
  show (w.queue.map Job.rank).sum + _ ≤ _
  omega

theorem job_rank_le (job : Job) : job.rank ≤ 24 := by
  unfold Job.rank
  split <;> omega

theorem weight_runsAfter {i : Nat} {p : Proc} {e : Effect Proc} (hp : w.proc i = some p) :
    (w.runsAfter i e).weight (fun r => r.proc.rank) + p.rank
      = w.runs.weight (fun r => r.proc.rank) + e.next.rank := by
  obtain ⟨row, hrow, rfl⟩ := Option.map_eq_some_iff.mp hp
  unfold runsAfter
  cases e.next with
  | goto q => exact Table.weight_update hrow
  | stop o => exact Table.weight_delete hrow

/-- What a step does is paid for by the potential, or by what came from outside. -/
theorem step_potential (h : step env w a = some w') :
    w.work a + w'.potential ≤ w.potential + w.cost a := by
  rcases step_cases h with ⟨d, rfl, rfl⟩ | ⟨i, r, p, e, rfl, hp, he, rfl⟩ | ⟨k, p, rfl, hp, rfl⟩ |
    ⟨job, rfl, hj, _, rfl⟩ | ⟨req, rfl, rfl⟩ | ⟨c, m, text, db, rfl, hdb, rfl⟩ |
    ⟨ch, te, ta, rfl, rfl⟩ | ⟨at_, rfl, _, rfl⟩
  · simp [work, cost, potential]
  · have hrank := step_rank he
    have hruns := weight_runsAfter (e := e) hp
    simp only [work, cost, potential, apply, List.map_append, List.sum_append]
    omega
  · -- the run is gone, and its job is back
    obtain ⟨row, hrow, rfl⟩ := Option.map_eq_some_iff.mp hp
    have hruns := Table.weight_delete (f := fun r : Running => r.proc.rank) hrow
    have hjob : (row.proc.job?.toList.map Job.rank).sum ≤ 24 := by
      cases row.proc.job? with
      | none => simp
      | some job => simpa using job_rank_le job
    simp only [work, cost, potential, List.map_append, List.sum_append]
    omega
  · have hstart : job.start.rank < job.rank := by
      unfold Job.start Job.rank
      cases job.name <;> simp [Proc.rank, PublishPc.rank]
    have herase : job.rank + ((w.queue.erase job).map Job.rank).sum = (w.queue.map Job.rank).sum :=
      List.sum_map_erase Job.rank hj
    have hspawn := potential_spawn_le (w := { w with queue := w.queue.erase job }) job.start
    simp only [potential] at hspawn
    simp only [work, cost, potential]
    omega
  · have hspawn := potential_spawn_le (w := w) req.start
    simp only [work, cost]
    omega
  · have hspawn := potential_spawn_le (w := { w with db := db }) (.ingest w.db.nextPostId .download)
    have hsame : ({ w with db := db } : World).potential = w.potential := rfl
    have hrank : (Proc.ingest w.db.nextPostId .download).rank = 28 := rfl
    simp only [work, cost]
    omega
  · simp [work, cost, potential]
  · simp [work, cost, potential, pruneDedupeRows]

/--
**No job storm: in every run, the steps that the services take, and the jobs that they start,
are no more than what was left to do at the start and what each arrival, request and crash
can come to.**

A potential argument: every run and every queued job has a rank, the steps that it and the jobs
it enqueues can still take, and each step of work takes one off at least (`step_potential`).
-/
theorem steps_le {tr : List (World × Action)} (h : Trace (step env) w₀ tr w) :
    total work tr + w.potential ≤ w₀.potential + total cost tr :=
  h.work_le fun _ _ _ => step_potential

/-- A message is ingested and approved, and the run that publishes it dies once. -/
def crashedScript : List Action :=
  ingests 1 0 ++ presses .approve 1 1 5 ++ [.startJob ⟨.publish, 1, 0⟩, .crash 2] ++
    .startJob ⟨.publish, 1, 0⟩ :: goes 3 3

/-- An arrival, a press and a crash pay for 14 steps. -/
theorem steps_le_crashed : ∃ w, (sample sampleChannel).after (sampleEnv {}) crashedScript = some w
    ∧ 14 + w.potential ≤ 28 + 23 + 24 := by
  have hrun : ((sample sampleChannel).after (sampleEnv {}) crashedScript).isSome = true := by
    decide +kernel
  obtain ⟨w, hw⟩ := Option.isSome_iff_exists.mp hrun
  have hwork : total work (stepsOf (sampleEnv {}) (sample sampleChannel) crashedScript) = 14 := by
    decide +kernel
  have hcost : total cost (stepsOf (sampleEnv {}) (sample sampleChannel) crashedScript)
      = 28 + 23 + 24 := by
    decide +kernel
  have hle := steps_le (path_after hw)
  rw [hwork, hcost] at hle
  have hstart : (sample sampleChannel).potential = 0 := rfl
  rw [hstart, Nat.zero_add] at hle
  exact ⟨w, hw, hle⟩

/-! ## Rest -/

/-- Nothing is queued and nothing runs. -/
def AtRest (w : World) : Prop := w.queue = [] ∧ w.runs.rows = []

/-- Nothing comes from outside, and the calls that are answered succeed. -/
def Calm (_ : World) : Action → Prop
  | .tick _ | .startJob _ => True
  | .advance _ r => r.succeeds = true
  | _ => False

theorem cost_of_calm {tr : List (World × Action)} (h : AllSteps Calm tr) : total cost tr = 0 := by
  refine List.sum_eq_zero fun n hn => ?_
  obtain ⟨x, hx, rfl⟩ := List.mem_map.mp hn
  have hcalm := h x hx
  cases hx2 : x.2 with
  | tick d => rfl
  | startJob job => rfl
  | advance i r => rfl
  | _ => rw [hx2] at hcalm; exact absurd hcalm id

/-- Some run can go on, if any is there: the one that holds the lock, or else any. -/
theorem run_enabled (env : Env) {row : Running} (hrow : row ∈ w.runs.rows) :
    ∃ (d i : Nat) (r : Reply) (w' : World), r.succeeds = true
      ∧ step env { w with now := w.now + d } (.advance i r) = some w' := by
  obtain ⟨row, hrow, hlock⟩ :
      ∃ row ∈ w.runs.rows, w.lockFree = true ∨ row.proc.holdsLock = true := by
    by_cases hheld : ∃ holder ∈ w.runs.rows, holder.proc.holdsLock = true
    · obtain ⟨holder, hmem, hholds⟩ := hheld
      exact ⟨holder, hmem, .inr hholds⟩
    · refine ⟨row, hrow, .inl (List.all_eq_true.mpr fun x hx => ?_)⟩
      rw [Bool.not_eq_true', Bool.eq_false_iff]
      exact fun hx' => hheld ⟨x, hx, hx'⟩
  obtain ⟨d, r, e, hr, he⟩ := step_enabled env row.proc (w.view row.run) hlock
  have hproc : ({ w with now := w.now + d } : World).proc row.run = some row.proc := proc_of_mem hrow
  refine ⟨d, row.run, r, apply { w with now := w.now + d } row.run e, hr, ?_⟩
  rw [step, hproc]
  exact Option.map_eq_some_iff.mpr ⟨e, he, rfl⟩

/-- As long as something is left, time can pass and a step can be taken. -/
theorem step_of_not_rest (env : Env) (h : ¬ AtRest w) :
    ∃ tr w', Trace (step env) w tr w' ∧ AllSteps Calm tr ∧ w'.potential < w.potential := by
  have htrace : ∀ {d : Nat} {a : Action} {w' : World}, Calm w a → w.work a = 1 → w.cost a = 0 →
      step env { w with now := w.now + d } a = some w' →
      ∃ tr w', Trace (step env) w tr w' ∧ AllSteps Calm tr ∧ w'.potential < w.potential := by
    intro d a w' hcalm hwork hcost hstep
    have htick : step env w (.tick d) = some { w with now := w.now + d } := rfl
    refine ⟨_, w', ((Trace.nil w).snoc htick).snoc hstep, ?_, ?_⟩
    · rw [allSteps_snoc, allSteps_snoc]
      exact ⟨⟨allSteps_nil _, trivial⟩, hcalm⟩
    · have hlt := step_potential hstep
      have hsame : ({ w with now := w.now + d } : World).potential = w.potential := rfl
      have hw : ({ w with now := w.now + d } : World).work a = 1 := hwork
      have hc : ({ w with now := w.now + d } : World).cost a = 0 := hcost
      omega
  cases hruns : w.runs.rows with
  | cons row rows =>
      have hrow : row ∈ w.runs.rows := by rw [hruns]; exact List.mem_cons_self
      obtain ⟨d, i, r, w', hr, hstep⟩ := run_enabled env hrow
      exact htrace (a := .advance i r) hr rfl rfl hstep
  | nil =>
      cases hqueue : w.queue with
      | nil => exact absurd ⟨hqueue, hruns⟩ h
      | cons job jobs =>
          have hmem : job ∈ w.queue := by rw [hqueue]; exact List.mem_cons_self
          -- the clock reaches the score of the job
          obtain ⟨d, hd⟩ : ∃ d : Nat, 1000 * job.score - w.now ≤ (d : Int) :=
            ⟨_, Int.self_le_toNat _⟩
          have hdue : job.score ≤ toMs (w.now + d) := by
            unfold toMs
            omega
          exact htrace (d := d) (a := .startJob job) trivial rfl rfl (if_pos ⟨hmem, hdue⟩)

/--
**Left alone, the system comes to rest: from every state, whoever holds `_send_lock` and
whatever is queued, it can run without anything from outside and with calls that succeed
until nothing is queued and nothing runs, within the steps that were left to do.**

While the system is not at rest it has a calm step that is work (`step_of_not_rest`): a job to
start, the holder of the lock, or a run that does not wait for it. The potential ends this.
-/
theorem comes_to_rest (env : Env) (w : World) :
    ∃ tr w', Trace (step env) w tr w' ∧ AllSteps Calm tr ∧ total work tr ≤ w.potential
      ∧ AtRest w' := by
  obtain ⟨tr, w', htr, hcalm, hrest⟩ := exists_rest (fun _ => step_of_not_rest env) w
  have hle : total work tr + w'.potential ≤ w.potential + total cost tr :=
    htr.work_le fun _ _ _ => step_potential
  rw [cost_of_calm hcalm] at hle
  exact ⟨tr, w', htr, hcalm, by omega, hrest⟩

end World

end TelegramCms
