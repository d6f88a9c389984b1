import TelegramCms.Proof.Rows

/-!
# Scheduled posts are on time

A decision leaves the publish jobs of earlier decisions in the queue, and a publish job
does not ask when its post is due. What keeps a scheduled post from going out early is the
ARQ score alone.

`sends_on_time`: where no publish job of a scheduled post is started so soon that its send
can begin early, and no run of one is that far when the post is scheduled, every send
begins when the post is due or later. The job that the decision itself enqueues meets the
condition whenever it is started (`schedule_job_due`).
-/

namespace TelegramCms

open Transition

/-! ## When a post is due -/

def Obs.decision? (p : Nat) : Obs → Option Decision
  | .decided q d => if q = p then some d else none
  | _ => none

/-- The last decision on post `p` that was committed. -/
def latestDecision (p : Nat) (log : List Obs) : Option Decision :=
  log.findSome? (Obs.decision? p)

/-- When post `p` is due, if its last decision is a schedule. -/
def dueAt (p : Nat) (log : List Obs) : Option Time :=
  match latestDecision p log with
  | some (.schedule t) => some t
  | _ => none

/-! ## How soon a send can begin -/

/-- The earliest time at which a publish run can begin a send; `none` if it never will. -/
def PublishPc.sendsFrom (env : Env) (now : Time) : PublishPc → Option Time
  | .load | .claim _ | .channel _ | .lookup .. | .reserve .. | .lock _ =>
    some (now + env.settings.publishSpacing)
  | .spacing _ until_ | .backoff _ until_ => some (max now until_)
  | .sending _ false => some (now + seconds 1)
  | _ => none

def Proc.sendsFrom (env : Env) (now : Time) (p : Nat) : Proc → Option Time
  | .publish job pc => if job.postId = p then pc.sendsFrom env now else none
  | _ => none

/-- The post a web request is about to schedule, and for when. -/
def Proc.schedules? : Proc → Option (Nat × Time)
  | .decide req (.commit _ _) =>
    match req.decision with
    | .schedule t => some (req.postId, t)
    | _ => none
  | _ => none

/-- Rounding times down to milliseconds loses less than two of them. -/
theorem le_rounded {now later start t s : Int} (hn : now ≤ later) (hs : 2000 ≤ s)
    (hstart : later / 1000 + (t - now) / 1000 ≤ start / 1000) : t ≤ start + s := by
  have h1 : later - 999 ≤ later / 1000 * 1000 := by omega
  have h2 : (t - now) - 999 ≤ (t - now) / 1000 * 1000 := by omega
  have h3 : start / 1000 * 1000 ≤ start := by omega
  omega

/-- The job that a schedule decision enqueues is not early, if the spacing before a send
makes up for the rounding. -/
theorem schedule_job_due (env : Env) {now later start t : Time} (p : Nat) (hn : now ≤ later)
    (hs : 2000 ≤ env.settings.publishSpacing)
    (hstart : (enqueuePublish later p (t - now)).score ≤ toMs start) :
    t ≤ start + env.settings.publishSpacing :=
  le_rounded hn (by omega) hstart

section Move

variable {env : Env} {v : View} {postId : Nat} {pc pc' : PublishPc} {r : Reply}
  {e : Effect PublishPc}

/-- A move brings no send nearer. -/
theorem move_sendsFrom (hm : PublishMove env v postId pc r e) (hn : e.next = .goto pc') {u : Time}
    (hu : pc'.sendsFrom env v.now = some u) : ∃ u₀, pc.sendsFrom env v.now = some u₀ ∧ u₀ ≤ u := by
  have hself : ∀ {x : Time}, some x = some u → ∃ u₀, some x = some u₀ ∧ u₀ ≤ u :=
    fun hx => ⟨_, hx, Int.le_refl _⟩
  cases hm with
  | stops o => exact absurd hn (by simp)
  | duplicates hrow => exact absurd hn (by simp)
  | loads hrow hm hs => obtain rfl := Next.goto.inj hn; exact hself hu
  | claims hrow => obtain rfl := Next.goto.inj hn; exact hself hu
  | unhashed hh => obtain rfl := Next.goto.inj hn; exact hself hu
  | hashed hh => obtain rfl := Next.goto.inj hn; exact hself hu
  | absent hf => obtain rfl := Next.goto.inj hn; exact hself hu
  | reserves hf => obtain rfl := Next.goto.inj hn; exact hself hu
  | locks hl =>
      obtain rfl := Next.goto.inj hn
      obtain rfl := Option.some.inj hu
      exact ⟨_, rfl, Int.le_max_right _ _⟩
  | @begins pc ctx until_ hpc hle =>
      obtain rfl := Next.goto.inj hn
      rcases hpc with rfl | rfl
      · obtain rfl := Option.some.inj hu
        have h1 : v.now ≤ v.now + seconds 1 := Int.le_add_of_nonneg_right (by decide)
        exact ⟨_, rfl, Int.max_le.mpr ⟨h1, Int.le_trans hle h1⟩⟩
      · exact absurd hu (by simp [PublishPc.retries, PublishPc.sendsFrom])
  | @backsOff ctx s =>
      obtain rfl := Next.goto.inj hn
      obtain rfl := Option.some.inj hu
      refine ⟨_, rfl, Int.le_trans ?_ (Int.le_max_right _ _)⟩
      have h1 : (seconds 1 : Int) ≤ seconds (s + 1) := by
        show (1 * 1_000_000 : Int) ≤ (s + 1) * 1_000_000
        omega
      exact Int.add_le_add_left h1 _
  | card hpc =>
      obtain rfl := Next.goto.inj hn
      rcases hpc with ⟨_, _, -, rfl⟩ | ⟨-, _, rfl, -⟩ <;> exact absurd hu (by simp [PublishPc.sendsFrom])
  | _ => obtain rfl := Next.goto.inj hn; exact absurd hu (by simp [PublishPc.sendsFrom])

/-- Waiting brings no send nearer. -/
theorem sendsFrom_mono {now now' : Time} (hle : now ≤ now') {u : Time}
    (hu : pc.sendsFrom env now' = some u) : ∃ u₀, pc.sendsFrom env now = some u₀ ∧ u₀ ≤ u := by
  have hmax : ∀ x : Time, max now x ≤ max now' x := fun x =>
    Int.max_le.mpr ⟨Int.le_trans hle (Int.le_max_left _ _), Int.le_max_right _ _⟩
  cases pc with
  | sending ctx retried =>
      cases retried with
      | true => exact absurd hu (by simp [PublishPc.sendsFrom])
      | false =>
          obtain rfl := Option.some.inj hu
          exact ⟨_, rfl, Int.add_le_add_right hle _⟩
  | spacing ctx until_ => obtain rfl := Option.some.inj hu; exact ⟨_, rfl, hmax _⟩
  | backoff ctx until_ => obtain rfl := Option.some.inj hu; exact ⟨_, rfl, hmax _⟩
  | load => obtain rfl := Option.some.inj hu; exact ⟨_, rfl, Int.add_le_add_right hle _⟩
  | claim post => obtain rfl := Option.some.inj hu; exact ⟨_, rfl, Int.add_le_add_right hle _⟩
  | channel post => obtain rfl := Option.some.inj hu; exact ⟨_, rfl, Int.add_le_add_right hle _⟩
  | lookup ctx h => obtain rfl := Option.some.inj hu; exact ⟨_, rfl, Int.add_le_add_right hle _⟩
  | reserve ctx h => obtain rfl := Option.some.inj hu; exact ⟨_, rfl, Int.add_le_add_right hle _⟩
  | lock ctx => obtain rfl := Option.some.inj hu; exact ⟨_, rfl, Int.add_le_add_right hle _⟩
  | _ => exact absurd hu (by simp [PublishPc.sendsFrom])

end Move

namespace World

variable {env : Env} {w w' : World} {a : Action} {p : Nat} {t : Time}

/-- If post `p` is scheduled, no publish job of it is started so soon that its send can
begin before it is due. -/
def StartsOnTime (env : Env) (p : Nat) (w : World) : Action → Prop
  | .startJob job => job.name = .publish → job.postId = p →
    ∀ t ∈ dueAt p w.log, t ≤ w.now + env.settings.publishSpacing
  | _ => True

instance (env : Env) (p : Nat) (w : World) : DecidablePred (StartsOnTime env p w) := fun a =>
  match a with
  | .startJob job =>
    inferInstanceAs (Decidable (job.name = .publish → job.postId = p →
      ∀ t ∈ dueAt p w.log, t ≤ w.now + env.settings.publishSpacing))
  | .tick _ | .advance .. | .crash _ | .request _ | .arrive .. | .configure .. | .pruneDedupe _ =>
    inferInstanceAs (Decidable True)

/-- When post `p` is scheduled, no publish run of it is so far that its send can begin
before it is due. -/
abbrev RunsOnTime (env : Env) (p : Nat) : World → Action → Prop :=
  OnOk fun w _ proc => ∀ x ∈ proc.schedules?, x.1 = p → ∀ r ∈ w.runs.rows,
    ∀ u ∈ r.proc.sendsFrom env w.now p, x.2 ≤ u

/-- The condition on a step. -/
abbrev OnTime (env : Env) (p : Nat) (w : World) (a : Action) : Prop :=
  StartsOnTime env p w a ∧ RunsOnTime env p w a

/-- Each send of post `p` begins when it is due or later. -/
def Punctual (p : Nat) : List Obs → Prop
  | [] => True
  | o :: log =>
    (∀ run at_, o = .sendBegan run p at_ → ∀ t ∈ dueAt p log, t ≤ at_) ∧ Punctual p log

theorem Punctual.split {log : List Obs} (hp : Punctual p log) {later earlier : List Obs}
    {run : Nat} {at_ : Time} (hl : log = later ++ .sendBegan run p at_ :: earlier) :
    ∀ t ∈ dueAt p earlier, t ≤ at_ := by
  induction later generalizing log with
  | nil => subst hl; exact hp.1 run at_ rfl
  | cons o later ih => subst hl; exact ih hp.2 rfl

/-! ## Decisions -/

theorem decision_eq_some {o : Obs} {d : Decision} (h : o.decision? p = some d) :
    o = .decided p d := by
  unfold Obs.decision? at h
  split at h
  · split at h
    · rename_i hq
      rw [Option.some.inj h, hq]
    · exact absurd h (by simp)
  · exact absurd h (by simp)

/-- What is seen of a step is either no decision on the post, or the last one. -/
theorem latestDecision_append (p : Nat) (seen log : List Obs) :
    latestDecision p (seen ++ log) = latestDecision p log
    ∨ ∃ d, .decided p d ∈ seen ∧ latestDecision p (seen ++ log) = some d := by
  unfold latestDecision
  rw [List.findSome?_append]
  cases hs : seen.findSome? (Obs.decision? p) with
  | none => exact .inl (Option.none_or)
  | some d =>
      obtain ⟨o, ho, hd⟩ := List.exists_of_findSome?_eq_some hs
      rw [decision_eq_some hd] at ho
      exact .inr ⟨d, ho, rfl⟩

/-- A schedule that is recorded is the commit of a schedule request. -/
theorem schedules_of_sees {v : View} {proc : Proc} (h : .decided p (.schedule t) ∈ proc.sees env v) :
    proc.schedules? = some (p, t) := by
  rcases sees_decided h with ⟨b, u, post, -, hb⟩ | ⟨req, post, now, rfl, rfl, hd⟩
  · cases b <;> exact absurd hb (by simp [Button.decision])
  · rw [Proc.schedules?, ← hd]

/-- A post becomes due at `t` when a web request schedules it. -/
theorem dueAt_step (h : step env w a = some w') (ht : dueAt p w'.log = some t) :
    dueAt p w.log = some t
    ∨ ∃ i proc, a = .advance i .ok ∧ w.proc i = some proc ∧ proc.schedules? = some (p, t) := by
  rcases log_step h with he | ⟨i, r, proc, e, rfl, hproc, he, -, hl⟩
  · rw [he] at ht; exact .inl ht
  · unfold dueAt at ht
    rw [hl] at ht
    rcases latestDecision_append p (seenOf i e) w.log with hsame | ⟨d, hd, hs⟩
    · rw [hsame] at ht
      exact .inl ht
    · rw [hs] at ht
      split at ht
      · rename_i t' hdt
        obtain rfl := Option.some.inj hdt
        obtain rfl := Option.some.inj ht
        obtain ⟨hsees, rfl⟩ := (step_does he).sees (mem_seenOf hd (by simp)) (by simp) (by simp)
        exact .inr ⟨i, proc, rfl, hproc, schedules_of_sees hsees⟩
      · exact absurd ht (by simp)

/-! ## Sends -/

/-- No step brings the send of a run nearer; a run that is new sends after the spacing. -/
theorem sends_step (hn : Numbered w) (h : step env w a = some w') {i : Nat} {proc : Proc}
    (hq : w'.proc i = some proc) {u : Time} (hu : proc.sendsFrom env w'.now p = some u) :
    (∃ proc₀ u₀, w.proc i = some proc₀ ∧ proc₀.sendsFrom env w.now p = some u₀ ∧ u₀ ≤ u)
    ∨ ∃ job, a = .startJob job ∧ job.name = .publish ∧ job.postId = p
        ∧ w.now + env.settings.publishSpacing ≤ u := by
  have hpub : ∀ {now : Time} {job : Job} {pc : PublishPc} {u : Time},
      (Proc.publish job pc).sendsFrom env now p = some u →
      job.postId = p ∧ pc.sendsFrom env now = some u := by
    intro now job pc u hu
    simp only [Proc.sendsFrom] at hu
    split at hu
    · exact ⟨‹_›, hu⟩
    · exact absurd hu (by simp)
  cases proc with
  | publish job pc =>
      obtain ⟨rfl, hpc⟩ := hpub hu
      rcases publish_origin hn h hq with hp | ⟨r, pc₀, e, rfl, hp, hm, hnx, rfl⟩ |
        ⟨rfl, rfl, hname⟩
      -- the run has not moved, and time went by
      · obtain ⟨u₀, hu₀, hle⟩ := sendsFrom_mono (now_step h) hpc
        exact .inl ⟨_, u₀, hp, by rw [Proc.sendsFrom, if_pos rfl, hu₀], hle⟩
      · obtain ⟨u₀, hu₀, hle⟩ := move_sendsFrom hm hnx hpc
        exact .inl ⟨_, u₀, hp, by rw [Proc.sendsFrom, if_pos rfl]; exact hu₀, hle⟩
      -- a new run pauses before it sends
      · obtain ⟨-, -, rfl⟩ := startJob_cases h
        refine .inr ⟨job, rfl, hname, rfl, ?_⟩
        exact Int.le_of_eq (Option.some.inj hpc)
  | _ => exact absurd hu (by simp [Proc.sendsFrom])

/-! ## The invariant -/

/-- No run of post `p` can send it early, and none did. -/
structure Scheduled (env : Env) (p : Nat) (w : World) : Prop where
  numbered : Numbered w
  runs : ∀ t, dueAt p w.log = some t → ∀ i proc, w.proc i = some proc →
    ∀ u, proc.sendsFrom env w.now p = some u → t ≤ u
  punctual : Punctual p w.log

theorem runs_step (hw : Scheduled env p w) (hg : OnTime env p w a) (h : step env w a = some w')
    (ht : dueAt p w'.log = some t) {i : Nat} {proc : Proc} (hq : w'.proc i = some proc) {u : Time}
    (hu : proc.sendsFrom env w'.now p = some u) : t ≤ u := by
  rcases sends_step hw.numbered h hq hu with
    ⟨proc₀, u₀, hp, hu₀, hle⟩ | ⟨job, rfl, hname, hpost, hle⟩
  · refine Int.le_trans ?_ hle
    -- the post was due before, or this very step schedules it
    rcases dueAt_step h ht with ht | ⟨j, proc₁, rfl, hj, hs⟩
    · exact hw.runs t ht i proc₀ hp u₀ hu₀
    · obtain ⟨r, hr, rfl⟩ := Option.map_eq_some_iff.mp hp
      exact hg.2 proc₁ hj (p, t) hs rfl r (Table.mem_of_get hr) u₀ hu₀
  · refine Int.le_trans ?_ hle
    rcases dueAt_step h ht with ht | ⟨_, _, ha, -⟩
    · exact hg.1 hname hpost t ht
    · cases ha

theorem punctual_append {seen log : List Obs} (hp : Punctual p log)
    (hs : ∀ run at_, .sendBegan run p at_ ∈ seen →
      (∀ o ∈ seen, o.decision? p = none) ∧ ∀ t ∈ dueAt p log, t ≤ at_) :
    Punctual p (seen ++ log) := by
  induction seen with
  | nil => exact hp
  | cons o seen ih =>
      refine ⟨?_, ih fun run at_ ho => ?_⟩
      · rintro run at_ rfl t ht
        obtain ⟨hno, hle⟩ := hs run at_ List.mem_cons_self
        have hnone : seen.findSome? (Obs.decision? p) = none :=
          List.findSome?_eq_none_iff.mpr fun o ho => hno o (List.mem_cons_of_mem _ ho)
        have hsame : dueAt p (seen ++ log) = dueAt p log := by
          unfold dueAt latestDecision
          rw [List.findSome?_append, hnone, Option.none_or]
        exact hle t (hsame ▸ ht)
      · obtain ⟨hno, hle⟩ := hs run at_ (List.mem_cons_of_mem _ ho)
        exact ⟨fun o ho => hno o (List.mem_cons_of_mem _ ho), hle⟩

/-- A step that begins a send commits no decision. -/
theorem no_decision_of_sendBegan {v : View} {proc : Proc} {r : Reply} {e : Effect Proc} {i run q : Nat}
    {at_ : Time} (h : Does env v proc r e) (ho : .sendBegan run q at_ ∈ e.seen) :
    ∀ o ∈ seenOf i e, o.decision? p = none := by
  have key : ∀ o ∈ e.seen, o.decision? p = none := by
    cases h with
    | begins hpc hu =>
        intro o ho
        rw [List.mem_singleton.mp ho]; rfl
    | quiet => exact absurd ho (by simp)
    | writes hs hrow => rcases sees_eq ho with ⟨_, _, h⟩ | ⟨_, _, h⟩ <;> exact absurd h (by simp)
    | enqueues hj => exact absurd ho (by simp)
    | delivers hid => exact absurd ho (by simp [sendDelivered])
    | reserves hf => exact absurd ho (by simp)
    | releases => exact absurd ho (by simp)
  intro o ho
  unfold seenOf at ho
  split at ho
  · exact key o ho
  · rcases List.mem_cons.mp ho with rfl | ho
    · rfl
    · exact key o ho

theorem punctual_step (hw : Scheduled env p w) (h : step env w a = some w') :
    Punctual p w'.log := by
  rcases log_step h with hl | ⟨i, r, proc, e, rfl, hproc, he, -, hl⟩
  · rw [hl]; exact hw.punctual
  · rw [hl]
    refine punctual_append hw.punctual fun run at_ ho => ?_
    have hdoes := step_does he
    have ho := mem_seenOf ho (by simp)
    refine ⟨no_decision_of_sendBegan hdoes ho, fun t ht => ?_⟩
    obtain ⟨job, pc, ctx, until_, rfl, hpc, hu, -, -, rfl, rfl⟩ := hdoes.sendBegan ho
    -- the run sleeps no longer, so its send can begin now
    have hmax : (max w.now until_ : Int) = w.now := Int.max_eq_left hu
    refine hw.runs t ht i _ hproc w.now ?_
    rcases hpc with rfl | rfl <;> rw [Proc.sendsFrom, if_pos rfl, PublishPc.sendsFrom, hmax]

theorem scheduled_step (hw : Scheduled env p w) (hg : OnTime env p w a)
    (h : step env w a = some w') : Scheduled env p w' where
  numbered := numbered_step hw.numbered h
  runs := fun _ ht _ _ hq _ hu => runs_step hw hg h ht hq hu
  punctual := punctual_step hw h

/--
**No scheduled post is sent early where no job of it can be.**

Each place of a publish run has a time before which it does not send (`sendsFrom`), and no move
brings that nearer. So it is enough that the time is late enough when a run starts and when a
decision is taken, which is what `OnTime` says of these steps.
-/
theorem sends_on_time {w₀ : World} {tr : List (World × Action)} (h0 : Init w₀)
    (hp : Trace (step env) w₀ tr w) (hg : AllSteps (OnTime env p) tr) {later earlier : List Obs}
    {run : Nat} {at_ : Time} (hl : w.log = later ++ .sendBegan run p at_ :: earlier) :
    ∀ t ∈ dueAt p earlier, t ≤ at_ := by
  have hstart : Scheduled env p w₀ := by
    refine ⟨numbered_init h0, ?_, by rw [h0.log]; trivial⟩
    intro t ht
    rw [h0.log] at ht
    exact absurd ht (by simp [dueAt, latestDecision])
  have hend : Scheduled env p w :=
    hp.invariant (fun _ _ _ hw hga hu => scheduled_step hw hga hu) hg hstart
  exact hend.punctual.split hl

/-- Post 1 is scheduled for one hour after the epoch; run `i` serves the request. -/
def schedules (i : Nat) : List Action :=
  .request (.decide ⟨.python, 1, 9, .schedule 3_600_000_000, none⟩) :: goes i 4

/-- The job of the decision runs after an hour. -/
def scheduledOnly : List Action :=
  ingests 1 0 ++ schedules 1 ++ .tick 3_600_000_000 :: sends 1 2 3_600_000 4

theorem sends_on_time_scheduledOnly :
    ∃ w earlier, (sample sampleChannel).after (sampleEnv {}) scheduledOnly = some w
      ∧ w.log = .sendBegan 2 1 3_602_000_000 :: earlier ∧ dueAt 1 earlier = some 3_600_000_000
      ∧ ∀ t ∈ dueAt 1 earlier, t ≤ (3_602_000_000 : Time) := by
  have hrun : ((sample sampleChannel).after (sampleEnv {}) scheduledOnly).map (fun w =>
      (w.log.head?, dueAt 1 w.log.tail))
        = some (some (.sendBegan 2 1 3_602_000_000), some 3_600_000_000) := by decide +kernel
  obtain ⟨w, hw, he⟩ := Option.map_eq_some_iff.mp hrun
  obtain ⟨hhead, hdue⟩ := Prod.mk.inj he
  have hl : w.log = [] ++ .sendBegan 2 1 3_602_000_000 :: w.log.tail :=
    List.eq_cons_of_mem_head? hhead
  exact ⟨w, w.log.tail, hw, hl, hdue,
    sends_on_time (sample_init _) (path_after hw) (by decide +kernel) hl⟩

/-- The post had been approved before, and that job is still in the queue. -/
def approvedFirst : List Action :=
  ingests 1 0 ++ presses .approve 1 1 5 ++ schedules 2 ++ sends 1 3 0 4

/-- It goes out two seconds after the epoch. -/
theorem approvedFirst_early :
    ∃ w tr earlier, Init (sample sampleChannel)
      ∧ Trace (step (sampleEnv {})) (sample sampleChannel) tr w
      ∧ w.log = .sendBegan 3 1 2_000_000 :: earlier ∧ dueAt 1 earlier = some 3_600_000_000 := by
  have hrun : ((sample sampleChannel).after (sampleEnv {}) approvedFirst).map (fun w =>
      (w.log.head?, dueAt 1 w.log.tail))
        = some (some (.sendBegan 3 1 2_000_000), some 3_600_000_000) := by decide +kernel
  obtain ⟨w, hw, he⟩ := Option.map_eq_some_iff.mp hrun
  obtain ⟨hhead, hdue⟩ := Prod.mk.inj he
  exact ⟨w, _, w.log.tail, sample_init _, path_after hw, List.eq_cons_of_mem_head? hhead, hdue⟩

end World

end TelegramCms
