import Mathlib.Logic.Function.Basic
import TelegramCms.Lib.Transition

/-!
# Delivering once through a reservation table

Many agents want to deliver something under a key. A shared table holds at most one
row per key. An agent *reserves* the key by inserting the row (refused while one is
there), then delivers, or fails and *releases* the row again; it may also stop at any
point, leaving its row behind. A pruner deletes rows older than a retention time.

An agent that delivered, gave up or stopped is `spent` and never returns, so an agent
stands for one attempt. What the table is worth depends on the pruner:

* `spaced_of_timely`: if every attempt is over within a limit not longer than the
  retention, then two deliveries under one key are more than the retention apart, by
  the times of their reservations;
* `holds_step`: as long as the pruner leaves the rows of live attempts alone, a live
  attempt is the holder of its row.
-/

namespace Reservation

open Transition

/-- How far an attempt has come. -/
inductive Phase (K : Type) where
  /-- It has reserved nothing yet. -/
  | fresh
  /-- It reserved `k` at `since` and may still deliver. -/
  | armed (k : K) (since : Int)
  /-- Its delivery failed; the row is still to be released. -/
  | failed (k : K) (since : Int)
  | spent

/-- A delivery, with the time its key was reserved. -/
structure Item (K : Type) where
  agent : Nat
  key : K
  since : Int

@[ext] structure State (K : Type) where
  now : Int
  /-- The table: who inserted the row of a key, and when. -/
  held : K → Option (Nat × Int)
  phase : Nat → Phase K
  /-- The deliveries, newest first. -/
  done : List (Item K)

inductive Act (K : Type) where
  | wait (d : Nat)
  | reserve (i : Nat) (k : K)
  | deliver (i : Nat)
  | fail (i : Nat)
  | release (i : Nat)
  | retire (i : Nat)
  /-- Delete the rows inserted before `cutoff`. -/
  | prune (cutoff : Int)

variable {K : Type}

/-- A live attempt: it reserved `k` at `t` and has neither delivered nor released. -/
def Live (s : State K) (i : Nat) (k : K) (t : Int) : Prop :=
  s.phase i = .armed k t ∨ s.phase i = .failed k t

/-- An attempt that reserved `k` at `t` and is live or has delivered. -/
def Claims (s : State K) (i : Nat) (k : K) (t : Int) : Prop :=
  Live s i k t ∨ (⟨i, k, t⟩ : Item K) ∈ s.done

/-- The guard-free facts: times lie in the past, a delivered attempt is spent, and the
holder of a row reserved and delivered nothing but that key. -/
structure Sane (s : State K) : Prop where
  past : ∀ k i t, s.held k = some (i, t) → t ≤ s.now
  spent : ∀ it ∈ s.done, s.phase it.agent = .spent
  used : ∀ k i t, s.held k = some (i, t) → s.phase i ≠ .fresh
  own : ∀ k i t, s.held k = some (i, t) → ∀ k' t', Claims s i k' t' → k' = k

/-- A step that inserts no row and makes no new claim keeps the guard-free facts. -/
theorem Sane.of_shrink {s s' : State K} (hs : Sane s) (hnow : s.now ≤ s'.now)
    (hheld : ∀ k i t, s'.held k = some (i, t) → s.held k = some (i, t))
    (hclaims : ∀ i k t, Claims s' i k t → Claims s i k t)
    (hfresh : ∀ i, s'.phase i = .fresh → s.phase i = .fresh)
    (hspent : ∀ it ∈ s'.done, s'.phase it.agent = .spent) : Sane s' where
  past := fun k i t hk => Int.le_trans (hs.past k i t (hheld k i t hk)) hnow
  spent := hspent
  used := fun k i t hk hf => hs.used k i t (hheld k i t hk) (hfresh i hf)
  own := fun k i t hk k' t' hcl => hs.own k i t (hheld k i t hk) k' t' (hclaims i k' t' hcl)

/-- Moving attempt `i` on leaves the other attempts' claims what they were. -/
theorem claims_ne {s : State K} {i j : Nat} {p : Phase K} {k : K} {t : Int} (h : j ≠ i) :
    Claims { s with phase := Function.update s.phase i p } j k t ↔ Claims s j k t := by
  simp only [Claims, Live, Function.update_of_ne h]

/-- An attempt moved to `spent` keeps only the deliveries it made. -/
theorem claims_retired {s : State K} {i j : Nat} {k : K} {t : Int}
    (h : Claims { s with phase := Function.update s.phase i .spent } j k t) : Claims s j k t := by
  by_cases hj : j = i
  · subst hj
    rcases h with h | h
    · exact absurd h (by simp [Live])
    · exact .inr h
  · exact (claims_ne hj).mp h

/-- A delivery turns a live claim into a done one and makes no other. -/
theorem claims_delivered {s : State K} {i j : Nat} {k k' : K} {t t' : Int}
    (hp : s.phase i = .armed k t)
    (h : Claims { s with
      phase := Function.update s.phase i .spent, done := ⟨i, k, t⟩ :: s.done } j k' t') :
    Claims s j k' t' := by
  rcases h with h | h
  · exact claims_retired (i := i) (.inl h)
  · rcases List.mem_cons.mp h with he | h
    · cases he; exact .inl (.inl hp)
    · exact .inr h

/-- A failed delivery leaves the claims what they were. -/
theorem claims_failed {s : State K} {i j : Nat} {k k' : K} {t t' : Int}
    (hp : s.phase i = .armed k t)
    (h : Claims { s with phase := Function.update s.phase i (.failed k t) } j k' t') :
    Claims s j k' t' := by
  by_cases hj : j = i
  · subst hj
    rcases h with (h | h) | h
    · simp at h
    · simp only [Function.update_self, Phase.failed.injEq] at h
      obtain ⟨rfl, rfl⟩ := h
      exact .inl (.inl hp)
    · exact .inr h
  · exact (claims_ne hj).mp h

/-- Deliveries keep pointing at spent attempts when an attempt moves that made none. -/
theorem spent_update {s : State K} (hs : Sane s) {i : Nat} {p : Phase K}
    (hi : s.phase i ≠ .spent ∨ p = .spent) :
    ∀ it ∈ s.done, Function.update s.phase i p it.agent = .spent := by
  intro it hit
  by_cases he : it.agent = i
  · rcases hi with hi | rfl
    · exact absurd (he ▸ hs.spent it hit) hi
    · rw [he, Function.update_self]
  · rw [Function.update_of_ne he]; exact hs.spent it hit

theorem fresh_of_update {s : State K} {i j : Nat} {p : Phase K} (hp : p ≠ .fresh)
    (h : Function.update s.phase i p j = .fresh) : s.phase j = .fresh := by
  by_cases hj : j = i
  · subst hj; rw [Function.update_self] at h; exact absurd h hp
  · rwa [Function.update_of_ne hj] at h

/-! ## The steps -/

variable [DecidableEq K]

/-- One step; the pruner's cutoff lies at least `retention` in the past. -/
def next (retention : Int) (s : State K) : Act K → Option (State K)
  | .wait d => some { s with now := s.now + d }
  | .reserve i k =>
    match s.phase i, s.held k with
    | .fresh, none =>
      some { s with
        held := Function.update s.held k (some (i, s.now))
        phase := Function.update s.phase i (.armed k s.now) }
    | _, _ => none
  | .deliver i =>
    match s.phase i with
    | .armed k t =>
      some { s with phase := Function.update s.phase i .spent, done := ⟨i, k, t⟩ :: s.done }
    | _ => none
  | .fail i =>
    match s.phase i with
    | .armed k t => some { s with phase := Function.update s.phase i (.failed k t) }
    | _ => none
  | .release i =>
    match s.phase i with
    | .failed k _ =>
      some { s with
        held := Function.update s.held k none
        phase := Function.update s.phase i .spent }
    | _ => none
  | .retire i => some { s with phase := Function.update s.phase i .spent }
  | .prune cutoff =>
    if cutoff ≤ s.now - retention then
      some { s with held := fun k => (s.held k).filter (fun h => decide (cutoff ≤ h.2)) }
    else none

/-- What each action can do, guards included. -/
theorem next_cases {retention : Int} {s s' : State K} {a : Act K}
    (h : next retention s a = some s') :
    (∃ d : Nat, a = .wait d ∧ s' = { s with now := s.now + d })
    ∨ (∃ i k, a = .reserve i k ∧ s.phase i = .fresh ∧ s.held k = none
        ∧ s' = { s with
            held := Function.update s.held k (some (i, s.now))
            phase := Function.update s.phase i (.armed k s.now) })
    ∨ (∃ i k t, a = .deliver i ∧ s.phase i = .armed k t
        ∧ s' = { s with
            phase := Function.update s.phase i .spent, done := ⟨i, k, t⟩ :: s.done })
    ∨ (∃ i k t, a = .fail i ∧ s.phase i = .armed k t
        ∧ s' = { s with phase := Function.update s.phase i (.failed k t) })
    ∨ (∃ i k t, a = .release i ∧ s.phase i = .failed k t
        ∧ s' = { s with
            held := Function.update s.held k none
            phase := Function.update s.phase i .spent })
    ∨ (∃ i, a = .retire i ∧ s' = { s with phase := Function.update s.phase i .spent })
    ∨ (∃ cutoff, a = .prune cutoff ∧ cutoff ≤ s.now - retention
        ∧ s' = { s with
            held := fun k => (s.held k).filter (fun h => decide (cutoff ≤ h.2)) }) := by
  cases a with
  | wait d => exact .inl ⟨d, rfl, (Option.some.inj h).symm⟩
  | reserve i k =>
      refine .inr (.inl ⟨i, k, rfl, ?_⟩)
      rw [next] at h
      split at h
      · exact ⟨‹_›, ‹_›, (Option.some.inj h).symm⟩
      · exact absurd h (by simp)
  | deliver i =>
      rw [next] at h
      split at h
      · rename_i k t hp
        exact .inr (.inr (.inl ⟨i, k, t, rfl, hp, (Option.some.inj h).symm⟩))
      · exact absurd h (by simp)
  | fail i =>
      rw [next] at h
      split at h
      · rename_i k t hp
        exact .inr (.inr (.inr (.inl ⟨i, k, t, rfl, hp, (Option.some.inj h).symm⟩)))
      · exact absurd h (by simp)
  | release i =>
      rw [next] at h
      split at h
      · rename_i k t hp
        exact .inr (.inr (.inr (.inr (.inl ⟨i, k, t, rfl, hp, (Option.some.inj h).symm⟩))))
      · exact absurd h (by simp)
  | retire i =>
      exact .inr (.inr (.inr (.inr (.inr (.inl ⟨i, rfl, (Option.some.inj h).symm⟩)))))
  | prune cutoff =>
      rw [next] at h
      split at h
      · exact .inr (.inr (.inr (.inr (.inr (.inr ⟨cutoff, rfl, ‹_›, (Option.some.inj h).symm⟩)))))
      · exact absurd h (by simp)

/-- An attempt that is spent stays so. -/
theorem next_spent {retention : Int} {s s' : State K} {a : Act K}
    (h : next retention s a = some s') {i : Nat} (hi : s.phase i = .spent) :
    s'.phase i = .spent := by
  have hne : ∀ {j : Nat} {p : Phase K}, s.phase j ≠ .spent →
      Function.update s.phase j p i = .spent := by
    intro j p hj
    have hij : i ≠ j := by rintro rfl; exact hj hi
    rw [Function.update_of_ne hij]; exact hi
  rcases next_cases h with ⟨d, rfl, rfl⟩ | ⟨j, k, rfl, hf, hn, rfl⟩ | ⟨j, k, t, rfl, hp, rfl⟩ |
    ⟨j, k, t, rfl, hp, rfl⟩ | ⟨j, k, t, rfl, hp, rfl⟩ | ⟨j, rfl, rfl⟩ | ⟨c, rfl, hc, rfl⟩
  · exact hi
  · exact hne (by rw [hf]; simp)
  · exact hne (by rw [hp]; simp)
  · exact hne (by rw [hp]; simp)
  · exact hne (by rw [hp]; simp)
  · by_cases hij : i = j
    · subst hij; exact Function.update_self ..
    · simp only [Function.update_of_ne hij]; exact hi
  · exact hi

/-- A row is inserted by an attempt that was fresh. -/
theorem next_held {retention : Int} {s s' : State K} {a : Act K}
    (h : next retention s a = some s') {k : K} {i : Nat} {t : Int}
    (hk : s'.held k = some (i, t)) : s.held k = some (i, t) ∨ s.phase i = .fresh := by
  rcases next_cases h with ⟨d, rfl, rfl⟩ | ⟨j, k', rfl, hf, hn, rfl⟩ | ⟨j, k', t', rfl, hp, rfl⟩ |
    ⟨j, k', t', rfl, hp, rfl⟩ | ⟨j, k', t', rfl, hp, rfl⟩ | ⟨j, rfl, rfl⟩ | ⟨c, rfl, hc, rfl⟩
  · exact .inl hk
  · by_cases he : k = k'
    · subst he
      simp only [Function.update_self, Option.some.injEq, Prod.mk.injEq] at hk
      rw [← hk.1]; exact .inr hf
    · simp only [Function.update_of_ne he] at hk
      exact .inl hk
  · exact .inl hk
  · exact .inl hk
  · by_cases he : k = k'
    · subst he; simp at hk
    · simp only [Function.update_of_ne he] at hk
      exact .inl hk
  · exact .inl hk
  · exact .inl (Option.filter_eq_some_iff.mp hk).1

/-- Reserving: the new row belongs to an attempt that has claimed nothing yet. -/
theorem Sane.reserve {s : State K} (hs : Sane s) {i : Nat} {k : K} (hf : s.phase i = .fresh) :
    Sane { s with
      held := Function.update s.held k (some (i, s.now))
      phase := Function.update s.phase i (.armed k s.now) } := by
  -- rows of other keys are old rows, and an old row is never held by `i`
  have hold : ∀ {k' j t}, Function.update s.held k (some (i, s.now)) k' = some (j, t) →
      (k' = k ∧ j = i ∧ t = s.now) ∨ (j ≠ i ∧ s.held k' = some (j, t)) := by
    intro k' j t hk
    by_cases he : k' = k
    · subst he
      rw [Function.update_self] at hk
      cases hk
      exact .inl ⟨rfl, rfl, rfl⟩
    · rw [Function.update_of_ne he] at hk
      refine .inr ⟨fun hj => ?_, hk⟩
      subst hj
      exact hs.used k' j t hk hf
  refine ⟨?_, spent_update hs (.inl (by rw [hf]; simp)), ?_, ?_⟩
  · intro k' j t hk
    rcases hold hk with ⟨_, _, rfl⟩ | ⟨_, hk⟩
    · exact Int.le_refl _
    · exact hs.past k' j t hk
  · intro k' j t hk hfr
    rcases hold hk with ⟨_, rfl, _⟩ | ⟨_, hk⟩
    · simp at hfr
    · exact hs.used k' j t hk (fresh_of_update (by simp) hfr)
  · intro k' j t hk k'' t'' hcl
    rcases hold hk with ⟨rfl, rfl, _⟩ | ⟨hj, hk⟩
    · rcases hcl with (hcl | hcl) | hcl
      · simp only [Function.update_self, Phase.armed.injEq] at hcl
        exact hcl.1.symm
      · simp at hcl
      · exact absurd (hs.spent _ hcl) (by rw [hf]; simp)
    · exact hs.own k' j t hk k'' t'' ((claims_ne (s := s) hj).mp hcl)

/-- **The guard-free facts are kept by every step.** -/
theorem sane_step {retention : Int} {s s' : State K} {a : Act K}
    (hs : Sane s) (h : next retention s a = some s') : Sane s' := by
  rcases next_cases h with ⟨d, rfl, rfl⟩ | ⟨i, k, rfl, hf, hn, rfl⟩ | ⟨i, k, t, rfl, hp, rfl⟩ |
    ⟨i, k, t, rfl, hp, rfl⟩ | ⟨i, k, t, rfl, hp, rfl⟩ | ⟨i, rfl, rfl⟩ | ⟨c, rfl, hc, rfl⟩
  · exact hs.of_shrink (Int.le_add_of_nonneg_right (Int.natCast_nonneg d)) (fun _ _ _ h => h)
      (fun _ _ _ h => h) (fun _ h => h) hs.spent
  · exact hs.reserve hf
  · refine hs.of_shrink (Int.le_refl _) (fun _ _ _ h => h) (fun _ _ _ => claims_delivered hp)
      (fun _ => fresh_of_update (by simp)) ?_
    intro it hit
    rcases List.mem_cons.mp hit with rfl | hit
    · exact Function.update_self ..
    · exact spent_update hs (.inr rfl) it hit
  · exact hs.of_shrink (Int.le_refl _) (fun _ _ _ h => h) (fun _ _ _ => claims_failed hp)
      (fun _ => fresh_of_update (by simp)) (spent_update hs (.inl (by rw [hp]; simp)))
  · refine hs.of_shrink (Int.le_refl _) ?_ (fun _ _ _ h => claims_retired (i := i) h)
      (fun _ => fresh_of_update (by simp)) (spent_update hs (.inr rfl))
    intro k' j t' hk
    by_cases he : k' = k
    · subst he; simp at hk
    · simpa [Function.update_of_ne he] using hk
  · exact hs.of_shrink (Int.le_refl _) (fun _ _ _ h => h) (fun _ _ _ h => claims_retired h)
      (fun _ => fresh_of_update (by simp)) (spent_update hs (.inr rfl))
  · exact hs.of_shrink (Int.le_refl _) (fun _ _ _ h => (Option.filter_eq_some_iff.mp h).1)
      (fun _ _ _ h => h) (fun _ h => h) hs.spent

/-! ## Deliveries under one key are spaced -/

/-- Every attempt ends within `limit` of its reservation. -/
def Timely (limit : Int) (s : State K) : Act K → Prop
  | .deliver i | .release i => ∀ k t, Live s i k t → s.now < t + limit
  | _ => True

/-- Where the rows of the claims are, and what that says about the deliveries. -/
structure Spaced (retention : Int) (s : State K) : Prop where
  sane : Sane s
  /-- The row of a claim stands until it is old enough to be pruned. -/
  stands : ∀ i k t, Claims s i k t → s.held k = some (i, t) ∨ t + retention < s.now
  /-- A row that stands where a claim's row was is younger by more than the retention. -/
  replaced : ∀ i k t j t', Claims s i k t → s.held k = some (j, t') → i ≠ j →
    t + retention < t'
  pairwise : s.done.Pairwise
    (fun later earlier => later.key = earlier.key → earlier.since + retention < later.since)

omit [DecidableEq K] in
/-- A step that leaves the table alone and makes no new claim keeps the rows in place. -/
theorem Spaced.of_shrink {retention : Int} {s s' : State K} (hs : Spaced retention s)
    (hsane : Sane s') (hnow : s.now ≤ s'.now) (hheld : s'.held = s.held)
    (hclaims : ∀ i k t, Claims s' i k t → Claims s i k t)
    (hpair : s'.done.Pairwise
      (fun later earlier => later.key = earlier.key → earlier.since + retention < later.since)) :
    Spaced retention s' where
  sane := hsane
  stands := by
    intro i k t hcl
    rw [hheld]
    rcases hs.stands i k t (hclaims i k t hcl) with h | h
    · exact .inl h
    · exact .inr (Int.lt_of_lt_of_le h hnow)
  replaced := by
    intro i k t j t' hcl hk hij
    rw [hheld] at hk
    exact hs.replaced i k t j t' (hclaims i k t hcl) hk hij
  pairwise := hpair

theorem Spaced.reserve {retention : Int} {s : State K} (hs : Spaced retention s) {i : Nat} {k : K}
    (hf : s.phase i = .fresh) (hn : s.held k = none) :
    Spaced retention { s with
      held := Function.update s.held k (some (i, s.now))
      phase := Function.update s.phase i (.armed k s.now) } := by
  -- the only new claim is `i`'s own, on the row just inserted
  have hcl : ∀ {j k' t'}, Claims { s with
      held := Function.update s.held k (some (i, s.now))
      phase := Function.update s.phase i (.armed k s.now) } j k' t' →
      (j = i ∧ k' = k ∧ t' = s.now) ∨ (j ≠ i ∧ Claims s j k' t') := by
    intro j k' t' h
    by_cases hj : j = i
    · subst hj
      rcases h with (h | h) | h
      · simp only [Function.update_self, Phase.armed.injEq] at h
        exact .inl ⟨rfl, h.1.symm, h.2.symm⟩
      · simp at h
      · exact absurd (hs.sane.spent _ h) (by rw [hf]; simp)
    · exact .inr ⟨hj, (claims_ne (s := s) hj).mp h⟩
  refine ⟨hs.sane.reserve hf, ?_, ?_, hs.pairwise⟩
  · intro j k' t' h
    rcases hcl h with ⟨rfl, rfl, rfl⟩ | ⟨_, h⟩
    · exact .inl (Function.update_self ..)
    · rcases hs.stands j k' t' h with hk | hk
      · refine .inl ?_
        have hne : k' ≠ k := by rintro rfl; rw [hn] at hk; exact absurd hk (by simp)
        simp only [Function.update_of_ne hne]; exact hk
      · exact .inr hk
  · intro j k' t' j' t'' h hk hjj
    by_cases he : k' = k
    · subst he
      simp only [Function.update_self, Option.some.injEq, Prod.mk.injEq] at hk
      obtain ⟨rfl, rfl⟩ := hk
      rcases hcl h with ⟨rfl, _, _⟩ | ⟨_, h⟩
      · exact absurd rfl hjj
      · rcases hs.stands j k' t' h with hk | hk
        · rw [hn] at hk; exact absurd hk (by simp)
        · exact hk
    · simp only [Function.update_of_ne he] at hk
      rcases hcl h with ⟨_, rfl, _⟩ | ⟨_, h⟩
      · exact absurd rfl he
      · exact hs.replaced j k' t' j' t'' h hk hjj

omit [DecidableEq K] in
/-- While an attempt is in time its row cannot have been pruned. -/
theorem Spaced.holds {retention limit : Int} (hlim : limit ≤ retention) {s : State K}
    (hs : Spaced retention s) {i : Nat} {k : K} {t : Int} (hl : Live s i k t)
    (ht : s.now < t + limit) : s.held k = some (i, t) := by
  rcases hs.stands i k t (.inl hl) with h | h
  · exact h
  · omega

theorem spaced_step {retention limit : Int} (hlim : limit ≤ retention) {s s' : State K}
    {a : Act K} (hs : Spaced retention s) (hg : Timely limit s a)
    (h : next retention s a = some s') : Spaced retention s' := by
  have hsane := sane_step hs.sane h
  rcases next_cases h with ⟨d, rfl, rfl⟩ | ⟨i, k, rfl, hf, hn, rfl⟩ | ⟨i, k, t, rfl, hp, rfl⟩ |
    ⟨i, k, t, rfl, hp, rfl⟩ | ⟨i, k, t, rfl, hp, rfl⟩ | ⟨i, rfl, rfl⟩ | ⟨c, rfl, hc, rfl⟩
  · exact hs.of_shrink hsane (Int.le_add_of_nonneg_right (Int.natCast_nonneg d)) rfl
      (fun _ _ _ h => h) hs.pairwise
  · exact hs.reserve hf hn
  · -- a delivery: every earlier one under this key lost its row before this reservation
    refine hs.of_shrink hsane (Int.le_refl _) rfl (fun _ _ _ => claims_delivered hp) ?_
    refine List.Pairwise.cons ?_ hs.pairwise
    intro d hd hk
    have hk : k = d.key := hk
    have hheld := hs.holds hlim (.inl hp) (hg k t (.inl hp))
    have hne : d.agent ≠ i := by
      intro he; have := hs.sane.spent d hd; rw [he, hp] at this; exact absurd this (by simp)
    exact hs.replaced d.agent k d.since i t (.inr (by rw [hk]; exact hd)) hheld hne
  · exact hs.of_shrink hsane (Int.le_refl _) rfl (fun _ _ _ => claims_failed hp) hs.pairwise
  · -- a release in time removes the attempt's own row and nobody else's
    have hheld := hs.holds hlim (.inr hp) (hg k t (.inr hp))
    refine ⟨hsane, ?_, ?_, hs.pairwise⟩
    · intro j k' t' hcl
      have hj : j ≠ i := by
        rintro rfl
        rcases hcl with hcl | hcl
        · exact absurd hcl (by simp [Live])
        · exact absurd (hs.sane.spent _ hcl) (by rw [hp]; simp)
      rcases hs.stands j k' t' (claims_retired (i := i) hcl) with hk | hk
      · refine .inl ?_
        have hne : k' ≠ k := by
          rintro rfl
          rw [hheld] at hk
          cases hk; exact hj rfl
        simp only [Function.update_of_ne hne]; exact hk
      · exact .inr hk
    · intro j k' t' j' t'' hcl hk hjj
      have hne : k' ≠ k := by rintro rfl; simp at hk
      simp only [Function.update_of_ne hne] at hk
      exact hs.replaced j k' t' j' t'' (claims_retired (i := i) hcl) hk hjj
  · exact hs.of_shrink hsane (Int.le_refl _) rfl (fun _ _ _ h => claims_retired h) hs.pairwise
  · refine ⟨hsane, ?_, ?_, hs.pairwise⟩
    · intro j k' t' hcl
      rcases hs.stands j k' t' hcl with hk | hk
      · by_cases hct : c ≤ t'
        · exact .inl (by simp [hk, hct])
        · right; simp only; omega
      · exact .inr hk
    · intro j k' t' j' t'' hcl hk hjj
      exact hs.replaced j k' t' j' t'' hcl (Option.filter_eq_some_iff.mp hk).1 hjj

/-- A state in which no attempt has reserved or delivered anything. -/
structure Start (s : State K) : Prop where
  past : ∀ k i t, s.held k = some (i, t) → t ≤ s.now
  done : s.done = []
  idle : ∀ i k t, ¬ Live s i k t
  used : ∀ k i t, s.held k = some (i, t) → s.phase i ≠ .fresh

omit [DecidableEq K] in
theorem Start.no_claims {s : State K} (h : Start s) (i : Nat) (k : K) (t : Int) :
    ¬ Claims s i k t := by
  rintro (hl | hd)
  · exact h.idle i k t hl
  · rw [h.done] at hd; exact absurd hd (by simp)

omit [DecidableEq K] in
theorem Start.sane {s : State K} (h : Start s) : Sane s where
  past := h.past
  spent := by intro it hit; rw [h.done] at hit; exact absurd hit (by simp)
  used := h.used
  own := fun _ i _ _ k' t' hcl => absurd hcl (h.no_claims i k' t')

/-- **Two deliveries under one key are more than the retention apart**, counted from
reservation to reservation, if every attempt is over within the retention. -/
theorem spaced_of_timely {retention limit : Int} (hlim : limit ≤ retention) {s s' : State K}
    {tr : List (State K × Act K)} (h0 : Start s) (hp : Trace (next retention) s tr s')
    (hg : AllSteps (Timely limit) tr) : Spaced retention s' := by
  refine hp.invariant (fun t a u hs hga hu => spaced_step hlim hs hga hu) hg ?_
  exact ⟨h0.sane, fun i k t hcl => absurd hcl (h0.no_claims i k t),
    fun i k t _ _ hcl => absurd hcl (h0.no_claims i k t), by rw [h0.done]; exact .nil⟩

/-! ## A live attempt holds its row -/

/-- The pruner leaves a row alone while an attempt on its key is live. -/
def Kept (s : State K) : Act K → Prop
  | .prune cutoff =>
    ∀ i k t, Live s i k t → ∀ j t', s.held k = some (j, t') → cutoff ≤ t'
  | _ => True

/-- Every live attempt is the holder of its key. -/
def Holds (s : State K) : Prop :=
  ∀ i k t, Live s i k t → s.held k = some (i, t)

theorem holds_step {retention : Int} {s s' : State K} {a : Act K}
    (hs : Holds s) (hg : Kept s a) (h : next retention s a = some s') : Holds s' := by
  -- an attempt other than the one that moved is live only if it was
  have hne : ∀ {i j : Nat} {p : Phase K} {k : K} {t : Int}, j ≠ i →
      Live { s with phase := Function.update s.phase i p } j k t → Live s j k t := by
    intro i j p k t hj hl
    simpa only [Live, Function.update_of_ne hj] using hl
  rcases next_cases h with ⟨d, rfl, rfl⟩ | ⟨i, k, rfl, hf, hn, rfl⟩ | ⟨i, k, t, rfl, hp, rfl⟩ |
    ⟨i, k, t, rfl, hp, rfl⟩ | ⟨i, k, t, rfl, hp, rfl⟩ | ⟨i, rfl, rfl⟩ | ⟨c, rfl, hc, rfl⟩
  · exact hs
  · intro j k' t' hl
    by_cases hj : j = i
    · subst hj
      rcases hl with hl | hl
      · simp only [Function.update_self, Phase.armed.injEq] at hl
        obtain ⟨rfl, rfl⟩ := hl
        exact Function.update_self ..
      · simp at hl
    · have hk := hs j k' t' (hne (i := i) hj hl)
      have he : k' ≠ k := by rintro rfl; rw [hn] at hk; exact absurd hk (by simp)
      simp only [Function.update_of_ne he]; exact hk
  · intro j k' t' hl
    by_cases hj : j = i
    · subst hj; exact absurd hl (by simp [Live])
    · exact hs j k' t' (hne (i := i) hj hl)
  · intro j k' t' hl
    by_cases hj : j = i
    · subst hj
      rcases hl with hl | hl
      · simp at hl
      · simp only [Function.update_self, Phase.failed.injEq] at hl
        obtain ⟨rfl, rfl⟩ := hl
        exact hs j k t (.inl hp)
    · exact hs j k' t' (hne (i := i) hj hl)
  · intro j k' t' hl
    have hj : j ≠ i := by rintro rfl; exact absurd hl (by simp [Live])
    have hk := hs j k' t' (hne (i := i) hj hl)
    have he : k' ≠ k := by
      rintro rfl
      rw [hs i k' t (.inr hp)] at hk
      cases hk; exact hj rfl
    simp only [Function.update_of_ne he]; exact hk
  · intro j k' t' hl
    by_cases hj : j = i
    · subst hj; exact absurd hl (by simp [Live])
    · exact hs j k' t' (hne hj hl)
  · intro j k' t' hl
    have hk := hs j k' t' hl
    have hct : c ≤ t' := hg j k' t' hl j t' hk
    simp [hk, hct]

end Reservation
