import TelegramCms.Model.Watchdog
import Mathlib.Data.List.Chain

/-!
# Alerts and transitions

The watchdog alerts where the health at the end of a cycle differs from that at the end of
the cycle before. Its first cycle is compared with nothing, although `run` has established
that the session is healthy: a session that is lost before the end of the first cycle is
not reported, and the first alert is then its recovery (`lost_unreported`).
-/

namespace TelegramCms

open Transition

/-! ## Edges -/

inductive AlertKind where
  | unhealthy | recovered | terminated
deriving DecidableEq, Repr

def Alert.kind : Alert → AlertKind
  | .unhealthy _ => .unhealthy
  | .recovered => .recovered
  | .terminated _ => .terminated

/-- The alert that a transition calls for. -/
def edge : Bool → Bool → List AlertKind
  | true, false => [.unhealthy]
  | false, true => [.recovered]
  | _, _ => []

/-- Each cycle enqueued the alert its transition calls for and no other. `was` is the health
before the first cycle; with `none` the first cycle is no transition. -/
def Edges : Option Bool → List CycleLog → Prop
  | _, [] => True
  | was, c :: cs =>
    c.alerts.map Alert.kind = (was.map (fun was => edge was c.healthy)).getD []
      ∧ Edges (some c.healthy) cs

/-- The health at the end of the last cycle. -/
def lastHealth (was : Option Bool) (log : List CycleLog) : Option Bool :=
  (log.getLast?.map CycleLog.healthy).or was

/-- The alerts of all cycles, oldest first. -/
def alertKinds (log : List CycleLog) : List AlertKind :=
  (log.flatMap CycleLog.alerts).map Alert.kind

section Logs

variable {was : Option Bool} {log : List CycleLog} {c : CycleLog}

theorem edges_snoc : Edges was (log ++ [c])
    ↔ Edges was log
      ∧ c.alerts.map Alert.kind = ((lastHealth was log).map (fun h => edge h c.healthy)).getD [] := by
  induction log generalizing was with
  | nil => simp [Edges, lastHealth]
  | cons d log ih =>
      have hlast : lastHealth (some d.healthy) log = lastHealth was (d :: log) := by
        cases log with
        | nil => rfl
        | cons e log =>
            simp only [lastHealth, List.getLast?_cons_cons]
            rw [List.getLast?_eq_some_getLast (List.cons_ne_nil e log)]
            rfl
      rw [List.cons_append, Edges, ih, Edges, hlast, and_assoc]

/-- The kind of alert that can come next. -/
def nextKind (healthy : Bool) : AlertKind := if healthy then .unhealthy else .recovered

/-- After a given health, alerts alternate, and the first one is the one that can come next. -/
theorem Edges.alternate {h : Bool} (he : Edges (some h) log) :
    (alertKinds log).IsChain (· ≠ ·) ∧ ∀ k ∈ (alertKinds log).head?, k = nextKind h := by
  induction log generalizing h with
  | nil => simp [alertKinds]
  | cons c log ih =>
      obtain ⟨hc, he⟩ := he
      obtain ⟨hchain, hhead⟩ := ih he
      have hkinds : alertKinds (c :: log) = edge h c.healthy ++ alertKinds log := by
        rw [alertKinds, List.flatMap_cons, List.map_append, hc]
        rfl
      rw [hkinds]
      -- a transition is followed by one the other way
      cases h <;> cases hh : c.healthy <;> rw [hh] at hhead <;> simp only [edge]
      · exact ⟨hchain, hhead⟩
      · refine ⟨List.isChain_cons.mpr ⟨fun k hk => ?_, hchain⟩, by simp [nextKind]⟩
        rw [hhead k hk]
        decide
      · refine ⟨List.isChain_cons.mpr ⟨fun k hk => ?_, hchain⟩, by simp [nextKind]⟩
        rw [hhead k hk]
        decide
      · exact ⟨hchain, hhead⟩

end Logs

/-! ## The loop -/

/-- In this cycle no call raises a fatal error, and an alert is enqueued. -/
def Cycle.Ordinary (c : Cycle) : Prop :=
  c.alertOk = true ∧ (∀ name, c.answers.connected ≠ .error (.fatal name))
    ∧ (∀ name, c.answers.authorized ≠ .error (.fatal name))
    ∧ ∀ name, c.answers.getMe ≠ .error (.fatal name)

namespace Watchdog

variable {w w' : Watchdog} {c : Cycle} {cycles : List Cycle}

theorem raised_ordinary {live : Liveness} {e : ProbeError} (h : ∀ name, e ≠ .fatal name) :
    (live.raised e).2 = none := by
  cases e with
  | fatal name => exact absurd rfl (h name)
  | _ => rfl

theorem probe_ordinary (hc : c.Ordinary) (live : Liveness) (now : Time) :
    (live.probe c.answers now).2 = none := by
  obtain ⟨-, hconn, hauth, hme⟩ := hc
  unfold Liveness.probe
  split
  · rename_i e he
    exact raised_ordinary fun name hn => hconn name (by rw [he, hn])
  · rfl
  · split
    · rename_i e he
      exact raised_ordinary fun name hn => hauth name (by rw [he, hn])
    · rfl
    · split
      · rename_i e he
        exact raised_ordinary fun name hn => hme name (by rw [he, hn])
      · rfl

/-- What an ordinary cycle does: it looks at the health, and at nothing else. -/
theorem step_ordinary (hc : c.Ordinary) (h : w.step c = some w') :
    ∃ live now, w' = w.check live now true := by
  unfold step at h
  split at h
  · exact absurd h (by simp)
  · have hnone := probe_ordinary hc w.live (w.now + c.slept + c.probing)
    dsimp only at h
    split at h
    · rename_i he
      rw [he] at hnone
      exact absurd hnone (by simp)
    · obtain rfl := Option.some.inj h
      exact ⟨_, _, by rw [hc.1]⟩

theorem kind_transitionAlert (was : Option Bool) (healthy : Bool) (detail : Text) :
    (transitionAlert was healthy detail).map Alert.kind
      = (was.map (fun was => edge was healthy)).getD [] := by
  cases was with
  | none => rfl
  | some was => cases was <;> cases healthy <;> rfl

/-- The loop remembers the health at the end of its last cycle. -/
structure Faithful (w : Watchdog) : Prop where
  edges : Edges none w.log
  last : w.wasHealthy = lastHealth none w.log

theorem faithful_check (hw : Faithful w) (live : Liveness) (now : Time) :
    Faithful (w.check live now true) where
  edges := by
    refine edges_snoc.mpr ⟨hw.edges, ?_⟩
    rw [if_pos rfl, kind_transitionAlert, hw.last]
  last := by simp [check, lastHealth]

theorem faithful_runs (hc : ∀ c ∈ cycles, c.Ordinary) (hw : Faithful w)
    (h : runs step w cycles = some w') : Faithful w' := by
  have hg : AllSteps (fun _ c => c.Ordinary) (trail step w cycles) := fun x hx => hc x.2 (mem_trail hx)
  refine (Trace.of_runs h).invariant (fun t c u ht hcyc hs => ?_) hg hw
  obtain ⟨live, now, rfl⟩ := step_ordinary hcyc hs
  exact faithful_check ht live now

/--
**From its second cycle on the watchdog enqueues an alert exactly at each transition, the
one the transition calls for. Its first cycle enqueues none. So alerts alternate, and they
start with a recovery only if the first cycle ended unhealthy.**

The invariant is that `was_healthy` is what the last cycle in the log found (`Faithful`). That
alerts alternate is then a fact about the log, in which an alert turns the state over.
-/
theorem alerts_follow_transitions {now : Time} (hc : ∀ c ∈ cycles, c.Ordinary)
    (h : runs step (started now true) cycles = some w) :
    Edges none w.log ∧ (alertKinds w.log).IsChain (· ≠ ·)
      ∧ (.recovered ∈ (alertKinds w.log).head? → ∀ first ∈ w.log.head?, first.healthy = false) := by
  have h0 : Faithful (started now true) := ⟨trivial, rfl⟩
  have he := (faithful_runs hc h0 h).edges
  refine ⟨he, ?_⟩
  cases hlog : w.log with
  | nil => simp [alertKinds]
  | cons first log =>
      rw [hlog] at he
      have hkinds : alertKinds (first :: log) = alertKinds log := by
        have hnone : first.alerts = [] := List.map_eq_nil_iff.mp he.1
        rw [alertKinds, List.flatMap_cons, hnone, List.nil_append]
        rfl
      obtain ⟨hchain, hhead⟩ := he.2.alternate
      rw [hkinds]
      refine ⟨hchain, fun hrec f hf => ?_⟩
      obtain rfl : first = f := by simpa using hf
      have hnext := hhead _ hrec
      cases hh : first.healthy with
      | false => rfl
      | true => rw [hh] at hnext; exact absurd hnext (by decide)

/-- A cycle that probes in time. -/
def sampleCycle (slept : Nat) (connected : Bool) : Cycle where
  slept := slept * 1_000_000
  answers := { connected := .ok connected }

theorem sampleCycle_ordinary (slept : Nat) (connected : Bool) :
    (sampleCycle slept connected).Ordinary := by
  refine ⟨rfl, ?_, ?_, ?_⟩ <;> simp [sampleCycle]

/-- The session is lost and found in the second and third cycle. -/
theorem alerts_follow_transitions_lost :
    ∃ w, runs step (started 0 true)
        [sampleCycle 30 true, sampleCycle 30 false, sampleCycle 30 true] = some w
      ∧ alertKinds w.log = [.unhealthy, .recovered]
      ∧ Edges none w.log ∧ (alertKinds w.log).IsChain (· ≠ ·) := by
  have hrun : (runs step (started 0 true)
      [sampleCycle 30 true, sampleCycle 30 false, sampleCycle 30 true]).map
        (fun w => alertKinds w.log) = some [.unhealthy, .recovered] := by decide +kernel
  obtain ⟨w, hw, hkinds⟩ := Option.map_eq_some_iff.mp hrun
  have hc : ∀ c ∈ [sampleCycle 30 true, sampleCycle 30 false, sampleCycle 30 true], c.Ordinary := by
    intro c hc
    simp only [List.mem_cons, List.not_mem_nil, or_false] at hc
    rcases hc with rfl | rfl | rfl <;> exact sampleCycle_ordinary _ _
  obtain ⟨he, hchain, -⟩ := alerts_follow_transitions hc hw
  exact ⟨w, hw, hkinds, he, hchain⟩

/-- The session is lost before the first cycle and found in the second one. The one alert is
the recovery. -/
theorem lost_unreported :
    ∃ w, (isMtprotoHealthy (started 0 true).live 0).1 = true
      ∧ (∀ c ∈ [sampleCycle 30 false, sampleCycle 30 true], c.Ordinary)
      ∧ runs step (started 0 true) [sampleCycle 30 false, sampleCycle 30 true] = some w
      ∧ alertKinds w.log = [.recovered] ∧ ¬ Edges (some true) w.log := by
  have hrun : (runs step (started 0 true) [sampleCycle 30 false, sampleCycle 30 true]).map
      Watchdog.log = some [⟨false, []⟩, ⟨true, [.recovered]⟩] := by decide +kernel
  obtain ⟨w, hw, hlog⟩ := Option.map_eq_some_iff.mp hrun
  refine ⟨w, by decide +kernel, fun c hc => ?_, hw, by rw [hlog]; rfl, fun he => ?_⟩
  · simp only [List.mem_cons, List.not_mem_nil, or_false] at hc
    rcases hc with rfl | rfl <;> exact sampleCycle_ordinary _ _
  · rw [hlog] at he
    exact absurd he.1 (by decide)

end Watchdog

end TelegramCms
