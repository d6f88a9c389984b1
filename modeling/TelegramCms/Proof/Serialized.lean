import TelegramCms.Lib.Turns
import TelegramCms.Proof.Steps

/-!
# Sends one at a time

A publish run holds `_send_lock` from its pause to its last call of `_send_post`. Seen
from there the system is a lock that is taken for one turn at a time (`heldAt_step`), so
the calls come one after the other, and between two jobs the spacing passes
(`sends_serialized`).
-/

namespace TelegramCms

open Transition Turns

/-- Where `_send_lock` is while run `i` is here. -/
def PublishPc.turn (i : Nat) : PublishPc → Option (Turn Nat)
  | .spacing _ until_ => some (.pausing i until_)
  | .sending _ retried => some (.trying i retried)
  | .backoff _ _ => some (.between i)
  | _ => none

def Proc.turn (i : Nat) : Proc → Option (Turn Nat)
  | .publish _ pc => pc.turn i
  | _ => none

/-- Where it is once run `i` has moved on. -/
def Next.turn (i : Nat) : Next Proc → Option (Turn Nat)
  | .goto p => p.turn i
  | .stop _ => none

/-- The call of `_send_post` that begins or ends when run `i` moves on from here. -/
def PublishPc.sendEvents (i : Nat) (now : Time) : PublishPc → List (Event Nat)
  | .spacing .. => [.began i true now]
  | .sending .. => [.ended i now]
  | .backoff .. => [.began i false now]
  | _ => []

def Proc.sendEvents (i : Nat) (now : Time) : Proc → List (Event Nat)
  | .publish _ pc => pc.sendEvents i now
  | _ => []

/-- The call that ends when run `i` dies here. -/
def Proc.cutShort (i : Nat) (now : Time) : Proc → List (Event Nat)
  | .publish _ (.sending ..) => [.ended i now]
  | _ => []

section Turns

variable {env : Env} {v : View} {i j p : Nat} {pc : PublishPc} {q q' : Proc} {r : Reply}
  {turn : Turn Nat}

theorem holdsLock_iff (i : Nat) : q.holdsLock = true ↔ (q.turn i).isSome = true := by
  cases q with
  | publish job pc =>
      cases pc <;> simp [Proc.holdsLock, PublishPc.holdsLock, Proc.turn, PublishPc.turn]
  | _ => simp [Proc.holdsLock, Proc.turn]

/-- Whose turn it is can be told from the turn. -/
theorem turn_inj (hq : q.turn i = some turn) (hq' : q'.turn j = some turn) : i = j := by
  cases q with
  | publish job pc =>
      cases q' with
      | publish job' pc' =>
          cases pc <;> simp only [Proc.turn, PublishPc.turn, reduceCtorEq, Option.some.injEq] at hq <;>
            cases pc' <;>
            simp only [Proc.turn, PublishPc.turn, reduceCtorEq, Option.some.injEq] at hq' <;>
            subst hq <;> simp_all
      | _ => exact absurd hq' (by simp [Proc.turn])
  | _ => exact absurd hq (by simp [Proc.turn])

theorem turn_ne_free (hq : q.turn i = some turn) : turn ≠ .free := by
  rintro rfl
  cases q with
  | publish job pc => cases pc <;> exact absurd hq (by simp [Proc.turn, PublishPc.turn])
  | _ => exact absurd hq (by simp [Proc.turn])

/-- A run without the lock makes no call. -/
theorem sendEvents_of_turn (now : Time) (hq : q.turn i = none) :
    q.sendEvents i now = [] ∧ q.cutShort i now = [] := by
  cases q with
  | publish job pc =>
      cases pc with
      | spacing | sending | backoff => exact absurd hq (by simp [Proc.turn, PublishPc.turn])
      | _ => exact ⟨rfl, rfl⟩
  | _ => exact ⟨rfl, rfl⟩

/-- A run without the lock gets it only where it is free. -/
theorem publish_takes {e : Effect PublishPc} (h : PublishMove env v p pc r e)
    (hpc : pc.turn i = none) {pc' : PublishPc} (hn : e.next = .goto pc') :
    pc'.turn i = none
    ∨ v.lockFree = true ∧ pc'.turn i = some (.pausing i (v.now + env.settings.publishSpacing)) := by
  cases h with
  | locks hl =>
      obtain rfl := Next.goto.inj hn
      exact .inr ⟨hl, rfl⟩
  | begins hpc' hu => rcases hpc' with rfl | rfl <;> exact absurd hpc (by simp [PublishPc.turn])
  | backsOff => exact absurd hpc (by simp [PublishPc.turn])
  | stops o => exact absurd hn (by simp)
  | duplicates hrow => exact absurd hn (by simp)
  | card hc =>
      obtain rfl := Next.goto.inj hn
      rcases hc with ⟨_, _, -, rfl⟩ | ⟨-, _, rfl, -⟩ <;> exact .inl rfl
  | _ =>
      obtain rfl := Next.goto.inj hn
      exact .inl rfl

/-- A run that has the lock pauses, sends, or gives it back. -/
theorem publish_turn {e : Effect PublishPc} {job : Job} (hpc : pc.turn v.run = some turn)
    (h : publishStep env v p pc r = some e) :
    Move env.settings.publishSpacing v.now turn (pc.sendEvents v.run v.now)
      (((e.map (.publish job)).next.turn v.run).getD .free) := by
  cases pc with
  | spacing ctx until_ =>
      obtain rfl := Option.some.inj hpc
      cases r <;> simp only [publishStep, reduceCtorEq] at h
      split at h
      · obtain rfl := Option.some.inj h
        -- the pause is over, and the first call of the job begins
        exact .start ‹_›
      · exact absurd h (by simp)
  | backoff ctx until_ =>
      obtain rfl := Option.some.inj hpc
      cases r <;> simp only [publishStep, reduceCtorEq] at h
      split at h
      · obtain rfl := Option.some.inj h
        -- so is the wait that Telegram asked for
        exact .again v.run
      · exact absurd h (by simp)
  | sending ctx retried =>
      obtain rfl := Option.some.inj hpc
      have hm := publishStep_move h
      -- every answer but the first `RetryAfter` ends the turn
      cases hm with
      | backsOff => exact .interrupt v.run
      | begins hpc' hu => rcases hpc' with hpc' | hpc' <;> exact absurd hpc' (by simp)
      | taken hpc' hrow => rcases hpc' with hpc' | hpc' <;> exact absurd hpc' (by simp)
      | card hc => rcases hc with ⟨_, _, hc, -⟩ | ⟨hc, -⟩ <;> exact absurd hc (by simp)
      | _ => exact .finish v.run retried
  | _ => exact absurd hpc (by simp [PublishPc.turn])

end Turns

namespace World

variable {env : Env} {w w' : World} {a : Action} {i : Nat} {turn : Turn Nat}
  {tr : List (World × Action)}

/-- The calls of `_send_post` that begin or end in a step. -/
def sendEvents (w : World) : Action → List (Event Nat)
  | .advance i _ => ((w.proc i).map (Proc.sendEvents i w.now)).getD []
  | .crash i => ((w.proc i).map (Proc.cutShort i w.now)).getD []
  | _ => []

/-- The calls of `_send_post` made in the course of `tr`, oldest first. -/
def attempts (tr : List (World × Action)) : List (Attempt Nat) :=
  (tr.flatMap (fun x => sendEvents x.1 x.2)).foldl record []

theorem attempts_snoc : attempts (tr ++ [(w, a)]) = (sendEvents w a).foldl record (attempts tr) := by
  simp [attempts]

/-! ## The lock of the system -/

/-- The lock is at `turn`: nobody else holds it, and somebody does unless it is free. -/
structure HeldAt (w : World) (turn : Turn Nat) : Prop where
  only : ∀ i p t, w.proc i = some p → p.turn i = some t → t = turn
  held : turn ≠ .free → ∃ i p, w.proc i = some p ∧ p.turn i = some turn

/-- No run but `i` holds the lock. -/
theorem HeldAt.others (hw : HeldAt w turn) {p : Proc} (ht : p.turn i = some turn) {j : Nat}
    {q : Proc} (hj : j ≠ i) (hq : w.proc j = some q) : q.turn j = none := by
  cases hqt : q.turn j with
  | none => rfl
  | some t =>
      obtain rfl := hw.only j q t hq hqt
      exact absurd (turn_inj hqt ht) hj

theorem HeldAt.free (hw : HeldAt w turn) (hl : w.lockFree = true) : turn = .free := by
  by_contra hne
  obtain ⟨i, p, hp, ht⟩ := hw.held hne
  obtain ⟨r, hr, rfl⟩ := Option.map_eq_some_iff.mp hp
  have hfree := List.all_eq_true.mp hl r (Table.mem_of_get hr)
  have hlock : r.proc.holdsLock = true := (holdsLock_iff i).mpr (by rw [ht]; rfl)
  rw [hlock] at hfree
  exact absurd hfree (by simp)

/-- Run `i` is now where it has the lock at `turn`, if it has it at all, and nobody else
has it. -/
theorem heldAt_of_run (hothers : ∀ j q, j ≠ i → w.proc j = some q → q.turn j = none)
    {t : Option (Turn Nat)} (hi : (w.proc i).bind (Proc.turn i) = t) : HeldAt w (t.getD .free) := by
  refine ⟨fun j q t' hq ht => ?_, fun hne => ?_⟩
  · by_cases hj : j = i
    · subst hj
      rw [hq, Option.bind_some, ht] at hi
      rw [← hi, Option.getD_some]
    · rw [hothers j q hj hq] at ht
      exact absurd ht (by simp)
  · cases t with
    | none => exact absurd rfl hne
    | some t =>
        obtain ⟨p, hp, ht⟩ := Option.bind_eq_some_iff.mp hi
        exact ⟨i, p, hp, ht⟩

/-- A run that has the lock neither before nor after leaves it where it is. -/
theorem HeldAt.kept (hw : HeldAt w turn) {p : Proc} (hp : w.proc i = some p) (hpt : p.turn i = none)
    (hi : (w'.proc i).bind (Proc.turn i) = none) (hne : ∀ j, j ≠ i → w'.proc j = w.proc j) :
    HeldAt w' turn := by
  refine ⟨fun j q t hq ht => ?_, fun hheld => ?_⟩
  · by_cases hj : j = i
    · subst hj
      rw [hq, Option.bind_some, ht] at hi
      exact absurd hi (by simp)
    · rw [hne j hj] at hq
      exact hw.only j q t hq ht
  · obtain ⟨j, q, hq, ht⟩ := hw.held hheld
    refine ⟨j, q, ?_, ht⟩
    rw [hne j, hq]
    rintro rfl
    obtain rfl := Option.some.inj (hp.symm.trans hq)
    rw [hpt] at ht
    exact absurd ht (by simp)

/-- The run itself, after its step. -/
theorem turn_apply {p : Proc} {e : Effect Proc} (hp : w.proc i = some p) :
    ((w.apply i e).proc i).bind (Proc.turn i) = e.next.turn i := by
  cases hnx : e.next with
  | goto q => rw [proc_apply_goto hp hnx]; rfl
  | stop o => rw [proc_apply_stop hnx]; rfl

/-- A run keeps its kind, and only publish runs take the lock. -/
theorem takes {p : Proc} {r : Reply} {e : Effect Proc} (h : p.step env (w.view i) r = some e)
    (hp : p.turn i = none) :
    e.next.turn i = none ∨ w.lockFree = true
      ∧ e.next.turn i = some (.pausing i (w.now + env.settings.publishSpacing)) := by
  cases hnx : e.next with
  | stop o => exact .inl rfl
  | goto q =>
      cases p with
      | publish job pc =>
          obtain ⟨e₀, hm, rfl⟩ := publish_step h
          obtain ⟨pc', hpc, rfl⟩ := Effect.map_goto hnx
          exact publish_takes hm hp hpc
      | _ =>
          obtain ⟨e₀, -, rfl⟩ := Option.map_eq_some_iff.mp h
          obtain ⟨_, -, rfl⟩ := Effect.map_goto hnx
          exact .inl rfl

theorem turn_of_starts {q : Proc} (hs : Starts w a q) (j : Nat) : q.turn j = none := by
  cases hs <;> rfl

/-- A run moves on. -/
theorem heldAt_advance (hw : HeldAt w turn) {r : Reply}
    (h : step env w (.advance i r) = some w') :
    ∃ turn', Move env.settings.publishSpacing w.now turn (sendEvents w (.advance i r)) turn'
      ∧ HeldAt w' turn' := by
  obtain ⟨p, e, hp, he, rfl⟩ := advance_cases h
  have hevents : sendEvents w (.advance i r) = p.sendEvents i w.now := by
    rw [sendEvents, hp]; rfl
  rw [hevents]
  cases hpt : p.turn i with
  | some t =>
      -- the run has the turn
      obtain rfl := hw.only i p t hp hpt
      refine ⟨_, ?_, heldAt_of_run (fun j q hj hq => ?_) (turn_apply hp)⟩
      · cases p with
        | publish job pc =>
            obtain ⟨e₀, he₀, rfl⟩ := Option.map_eq_some_iff.mp he
            exact publish_turn (v := w.view i) hpt he₀
        | _ => exact absurd hpt (by simp [Proc.turn])
      · rw [proc_apply_ne hj] at hq
        exact hw.others hpt hj hq
  | none =>
      rw [(sendEvents_of_turn w.now hpt).1]
      -- a run without the turn takes the lock, if it is free, or does nothing to it
      rcases takes he hpt with hnt | ⟨hl, hnt⟩
      · exact ⟨turn, .stay turn,
          hw.kept hp hpt ((turn_apply hp).trans hnt) fun j hj => proc_apply_ne hj⟩
      · obtain rfl := hw.free hl
        refine ⟨_, .take i, heldAt_of_run (fun j q hj hq => ?_) ((turn_apply hp).trans hnt)⟩
        rw [proc_apply_ne hj] at hq
        cases hqt : q.turn j with
        | none => rfl
        | some t => exact absurd (hw.only j q t hq hqt) (turn_ne_free hqt)

/-- A run dies. -/
theorem heldAt_crash (hw : HeldAt w turn) (h : step env w (.crash i) = some w') :
    ∃ turn', Move env.settings.publishSpacing w.now turn (sendEvents w (.crash i)) turn'
      ∧ HeldAt w' turn' := by
  obtain ⟨p, hp, rfl⟩ := crash_cases h
  have hevents : sendEvents w (.crash i) = p.cutShort i w.now := by
    rw [sendEvents, hp]; rfl
  rw [hevents]
  cases hpt : p.turn i with
  | some t =>
      obtain rfl := hw.only i p t hp hpt
      refine ⟨.free, ?_, heldAt_of_run (i := i) (t := none) (fun j q hj hq => ?_) ?_⟩
      · cases p with
        | publish job pc =>
            cases pc with
            | sending ctx retried =>
                obtain rfl := Option.some.inj hpt
                -- a call that is cut short ends with its run
                exact .finish i retried
            | spacing ctx until_ | backoff ctx until_ =>
                obtain rfl := Option.some.inj hpt
                exact .leave _ (by simp)
            | _ => exact absurd hpt (by simp [Proc.turn, PublishPc.turn])
        | _ => exact absurd hpt (by simp [Proc.turn])
      · rw [proc_crash_ne hj] at hq
        exact hw.others hpt hj hq
      · rw [proc_crash_self]; rfl
  | none =>
      rw [(sendEvents_of_turn w.now hpt).2]
      exact ⟨turn, .stay turn,
        hw.kept hp hpt (by rw [proc_crash_self]; rfl) fun j hj => proc_crash_ne hj⟩

/-- **Seen from the lock, every step of the system is a move of it.** -/
theorem heldAt_step (hn : Numbered w) (hw : HeldAt w turn) (h : step env w a = some w') :
    ∃ turn', Move env.settings.publishSpacing w.now turn (sendEvents w a) turn'
      ∧ HeldAt w' turn' := by
  -- the steps in which no run moves on or dies
  have hquiet : (∀ i r, a ≠ .advance i r) → (∀ i, a ≠ .crash i) → sendEvents w a = [] →
      ∃ turn', Move env.settings.publishSpacing w.now turn (sendEvents w a) turn'
        ∧ HeldAt w' turn' := by
    intro hadv hcr hev
    rw [hev]
    refine ⟨turn, .stay turn, fun j q t hq ht => ?_, fun hne => ?_⟩
    · rcases proc_step hn h hq with hq | ⟨r, _, _, ha, -⟩ | ⟨-, -, hs⟩
      · exact hw.only j q t hq ht
      · exact absurd ha (hadv j r)
      · rw [turn_of_starts hs] at ht; exact absurd ht (by simp)
    · obtain ⟨j, q, hq, ht⟩ := hw.held hne
      rcases proc_kept hn h hq with hq | ⟨r, ha⟩ | ha
      · exact ⟨j, q, hq, ht⟩
      · exact absurd ha (hadv j r)
      · exact absurd ha (hcr j)
  cases a with
  | advance i r => exact heldAt_advance hw h
  | crash i => exact heldAt_crash hw h
  | _ => exact hquiet (by simp) (by simp) rfl

/-! ## Runs -/

/-- The calls of `_send_post` fit the place of the lock throughout a run. -/
theorem attempts_fit {w₀ : World} (h0 : Idle w₀) (hp : Trace (step env) w₀ tr w) :
    Numbered w ∧ ∃ turn, HeldAt w turn
      ∧ Fits env.settings.publishSpacing w.now (attempts tr) turn := by
  induction hp with
  | nil =>
      refine ⟨numbered_idle h0, .free, ⟨fun i p t hp => ?_, fun h => absurd rfl h⟩, fits_nil⟩
      rw [h0.proc i] at hp
      exact absurd hp (by simp)
  | snoc _ hu ih =>
      obtain ⟨hn, turn, hheld, hfits⟩ := ih
      obtain ⟨turn', hmove, hheld'⟩ := heldAt_step hn hheld hu
      refine ⟨numbered_step hn hu, turn', hheld', ?_⟩
      rw [attempts_snoc]
      exact (hfits.move hmove).later (now_step hu)

/--
**The calls of `_send_post` come one after the other. The first call of a job begins no
sooner than the spacing after every call before it has ended, and a second call comes right
after the first one of its job.**

The invariant goes by whose turn it is: `_send_lock` is free, or a run holds it and waits, calls
or waits to call again (`HeldAt`). What the calls so far have to satisfy for the next one to fit
depends on that place alone (`Fits`).
-/
theorem sends_serialized {w₀ : World} (h0 : Idle w₀) (hp : Trace (step env) w₀ tr w) :
    (attempts tr).Pairwise (Spaced env.settings.publishSpacing) ∧ Grouped (attempts tr) := by
  obtain ⟨-, turn, -, hfits⟩ := attempts_fit h0 hp
  exact ⟨hfits.spaced, hfits.grouped⟩

/-- A system with two approved posts, whose publish jobs are in the queue. -/
def sampleApproved : World where
  now := 0
  db := {
    posts := (Table.empty.insert {
      id := 1, sourceChannelId := 1, sourceMessageId := 1, rawText := some "a".toList,
      receivedAt := 0, state := .approved }).insert {
      id := 2, sourceChannelId := 1, sourceMessageId := 2, rawText := some "b".toList,
      receivedAt := 0, state := .approved }
    channels := Table.empty.insert sampleChannel }
  queue := [⟨.publish, 1, 0⟩, ⟨.publish, 2, 0⟩]

/-- Both jobs are started. The first one sends, is told to wait for three seconds, sends once
more and is cancelled; then the second one gets the lock. -/
def sendsTwice : List Action :=
  [.startJob ⟨.publish, 1, 0⟩, .startJob ⟨.publish, 2, 0⟩] ++ goes 0 4 ++ goes 1 3 ++
  [.tick 2_000_000, .advance 0 .ok, .advance 0 (.retryAfter 3), .tick 4_000_000, .advance 0 .ok,
    .crash 0, .advance 1 .ok, .tick 2_000_000, .advance 1 .ok]

theorem sends_serialized_twice :
    ∃ w, sampleApproved.after (sampleEnv {}) sendsTwice = some w
      ∧ (attempts (stepsOf (sampleEnv {}) sampleApproved sendsTwice)).map
          (fun a => (a.holder, a.start, a.stop))
        = [(0, seconds 2, some (seconds 2)), (0, seconds 6, some (seconds 6)), (1, seconds 8, none)]
      ∧ (attempts (stepsOf (sampleEnv {}) sampleApproved sendsTwice)).Pairwise (Spaced 2_000_000)
      ∧ Grouped (attempts (stepsOf (sampleEnv {}) sampleApproved sendsTwice)) := by
  have hrun : (sampleApproved.after (sampleEnv {}) sendsTwice).isSome = true := by decide +kernel
  obtain ⟨w, hw⟩ := Option.isSome_iff_exists.mp hrun
  obtain ⟨hspaced, hgrouped⟩ := sends_serialized ⟨rfl, rfl⟩ (path_after hw)
  exact ⟨w, hw, by decide +kernel, hspaced, hgrouped⟩

end World

end TelegramCms
