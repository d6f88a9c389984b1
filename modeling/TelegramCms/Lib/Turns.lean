import Mathlib.Data.List.Chain
import Mathlib.Tactic.Common

/-!
# A lock that is taken for one turn at a time

Whoever takes the lock pauses, makes an attempt, possibly another one after a second
pause, and gives the lock back. It may lose the lock at any point of its turn.

What is recorded are the attempts. `Fits` is what they satisfy at any time: they are over
one after the other, a first attempt begins no sooner than a pause after all that came
before it has ended, and nothing comes between the two attempts of a turn (`Fits.move`).
-/

namespace Turns

variable {ι : Type}

/-- An attempt that began at `start` and, unless it is going on, ended at `stop`. -/
structure Attempt (ι : Type) where
  holder : ι
  /-- The first attempt of its turn. -/
  first : Bool
  start : Int
  stop : Option Int := none
deriving DecidableEq

inductive Event (ι : Type) where
  | began (holder : ι) (first : Bool) (t : Int)
  | ended (holder : ι) (t : Int)
deriving DecidableEq

/-- An attempt that is going on ends, if it is one of `i`. -/
def Attempt.close [DecidableEq ι] (i : ι) (t : Int) (a : Attempt ι) : Attempt ι :=
  if a.holder = i ∧ a.stop = none then { a with stop := some t } else a

/-- The attempts after an event, oldest first. -/
def record [DecidableEq ι] (l : List (Attempt ι)) : Event ι → List (Attempt ι)
  | .began i first t => l ++ [⟨i, first, t, none⟩]
  | .ended i t => l.map (Attempt.close i t)

/-- Where the lock is. -/
inductive Turn (ι : Type) where
  | free
  /-- In the pause before the first attempt, which lasts until `until_`. -/
  | pausing (holder : ι) (until_ : Int)
  /-- In the first attempt, or in the second one. -/
  | trying (holder : ι) (again : Bool)
  /-- In the pause before the second attempt. -/
  | between (holder : ι)
deriving DecidableEq

/-- What can happen to the lock at time `now`, and what is recorded of it. -/
inductive Move (pause : Nat) (now : Int) : Turn ι → List (Event ι) → Turn ι → Prop where
  | stay (turn : Turn ι) : Move pause now turn [] turn
  | take (i : ι) : Move pause now .free [] (.pausing i (now + pause))
  | start {i : ι} {until_ : Int} (h : until_ ≤ now) :
      Move pause now (.pausing i until_) [.began i true now] (.trying i false)
  | again (i : ι) : Move pause now (.between i) [.began i false now] (.trying i true)
  | interrupt (i : ι) : Move pause now (.trying i false) [.ended i now] (.between i)
  | finish (i : ι) (again : Bool) : Move pause now (.trying i again) [.ended i now] .free
  | leave (turn : Turn ι) (h : ∀ i again, turn ≠ .trying i again) : Move pause now turn [] .free

variable {pause : Nat} {now now' : Int} {l : List (Attempt ι)} {turn turn' : Turn ι}
  {events : List (Event ι)} {a b : Attempt ι} {i : ι}

/-! ## What the attempts satisfy -/

/-- `a` is over when `b` begins, and a pause has passed if `b` is the first of its turn. -/
def Spaced (pause : Nat) (a b : Attempt ι) : Prop :=
  ∃ t, a.stop = some t ∧ t ≤ b.start ∧ (b.first = true → t + pause ≤ b.start)

/-- If `b` is the second attempt of its turn, `a` is the first one. -/
def Follows (a b : Attempt ι) : Prop := b.first = false → a.holder = b.holder ∧ a.first = true

/-- A second attempt comes right after the first one of its turn. -/
def Grouped (l : List (Attempt ι)) : Prop :=
  l.IsChain Follows ∧ ∀ a ∈ l.head?, a.first = true

/-- All attempts were over by `t`. -/
def OverBy (t : Int) (l : List (Attempt ι)) : Prop := ∀ a ∈ l, ∃ s, a.stop = some s ∧ s ≤ t

/-- What the place of the lock says of the attempts. -/
def Place (pause : Nat) (now : Int) (l : List (Attempt ι)) : Turn ι → Prop
  | .free => OverBy now l
  | .pausing _ until_ => OverBy now l ∧ ∀ a ∈ l, ∃ s, a.stop = some s ∧ s + pause ≤ until_
  | .trying i again => ∃ before a, l = before ++ [a] ∧ OverBy now before
      ∧ a.holder = i ∧ a.first = !again ∧ a.stop = none
  | .between i => OverBy now l ∧ ∃ before a, l = before ++ [a] ∧ a.holder = i ∧ a.first = true

/-- The attempts made up to the time `now`, with the lock at `turn`. -/
structure Fits (pause : Nat) (now : Int) (l : List (Attempt ι)) (turn : Turn ι) : Prop where
  spaced : l.Pairwise (Spaced pause)
  grouped : Grouped l
  place : Place pause now l turn

theorem fits_nil : Fits pause now ([] : List (Attempt ι)) .free where
  spaced := .nil
  grouped := ⟨.nil, by simp⟩
  place := by simp [Place, OverBy]

theorem OverBy.mono (h : OverBy now l) (hle : now ≤ now') : OverBy now' l := by
  intro a ha
  obtain ⟨s, hs, hsn⟩ := h a ha
  exact ⟨s, hs, Int.le_trans hsn hle⟩

/-- Time passes. -/
theorem Fits.later (h : Fits pause now l turn) (hle : now ≤ now') : Fits pause now' l turn := by
  refine ⟨h.spaced, h.grouped, ?_⟩
  have hp := h.place
  cases turn with
  | free => exact hp.mono hle
  | pausing i u => exact ⟨hp.1.mono hle, hp.2⟩
  | trying i again =>
      obtain ⟨before, a, hl, hb, ha⟩ := hp
      exact ⟨before, a, hl, hb.mono hle, ha⟩
  | between i => exact ⟨hp.1.mono hle, hp.2⟩

/-- While no attempt is going on, all are over. -/
theorem Fits.overBy (h : Fits pause now l turn) (ht : ∀ i again, turn ≠ .trying i again) :
    OverBy now l := by
  have hp := h.place
  cases turn with
  | free => exact hp
  | pausing i u => exact hp.1
  | trying i again => exact absurd rfl (ht i again)
  | between i => exact hp.1

/-! ## An attempt begins -/

variable [DecidableEq ι]

theorem spaced_began {first : Bool} (hs : l.Pairwise (Spaced pause)) (ho : OverBy now l)
    (hf : first = true → ∀ a ∈ l, ∃ s, a.stop = some s ∧ s + pause ≤ now) :
    (record l (.began i first now)).Pairwise (Spaced pause) := by
  refine List.pairwise_append.mpr ⟨hs, List.pairwise_singleton _ _, fun a ha b hb => ?_⟩
  rw [List.mem_singleton.mp hb]
  obtain ⟨s, hstop, hle⟩ := ho a ha
  refine ⟨s, hstop, hle, fun hfirst => ?_⟩
  obtain ⟨s', hstop', hle'⟩ := hf hfirst a ha
  obtain rfl := Option.some.inj (hstop.symm.trans hstop')
  exact hle'

theorem grouped_first {t : Int} (hg : Grouped l) : Grouped (record l (.began i true t)) := by
  refine ⟨List.isChain_append.mpr ⟨hg.1, List.isChain_singleton _, ?_⟩, ?_⟩
  · intro a _ b hb
    obtain rfl : _ = b := by simpa using hb
    exact fun h => absurd h (by simp)
  · intro a ha
    cases l with
    | nil =>
        obtain rfl : _ = a := by simpa [record] using ha
        rfl
    | cons x l => exact hg.2 a (by simpa [record] using ha)

theorem grouped_again {t : Int} {before : List (Attempt ι)} (hg : Grouped (before ++ [a]))
    (hh : a.holder = i) (hf : a.first = true) :
    Grouped (record (before ++ [a]) (.began i false t)) := by
  refine ⟨List.isChain_append.mpr ⟨hg.1, List.isChain_singleton _, ?_⟩, ?_⟩
  · intro x hx b hb
    obtain rfl : _ = b := by simpa using hb
    obtain rfl : a = x := by simpa using hx
    exact fun _ => ⟨hh, hf⟩
  · intro x hx
    refine hg.2 x ?_
    rw [record, List.head?_append_of_ne_nil _ (by simp)] at hx
    exact hx

/-! ## An attempt ends -/

@[simp] theorem close_holder (i : ι) (t : Int) (a : Attempt ι) :
    (a.close i t).holder = a.holder := by
  unfold Attempt.close
  split <;> rfl

@[simp] theorem close_first (i : ι) (t : Int) (a : Attempt ι) :
    (a.close i t).first = a.first := by
  unfold Attempt.close
  split <;> rfl

@[simp] theorem close_start (i : ι) (t : Int) (a : Attempt ι) :
    (a.close i t).start = a.start := by
  unfold Attempt.close
  split <;> rfl

/-- What is over stays as it is. -/
theorem close_of_over {s t : Int} (h : a.stop = some s) : a.close i t = a :=
  if_neg fun hc => by rw [h] at hc; exact absurd hc.2 (by simp)

theorem close_stop {t : Int} (hh : a.holder = i) (h : a.stop = none) :
    (a.close i t).stop = some t := by
  rw [Attempt.close, if_pos ⟨hh, h⟩]

/-- The last attempt, which is going on, ends. -/
theorem record_ended {before : List (Attempt ι)} (ho : OverBy now before) (t : Int) :
    record (before ++ [a]) (.ended i t) = before ++ [a.close i t] := by
  have hb : before.map (Attempt.close i t) = before := by
    conv_rhs => rw [← List.map_id before]
    refine List.map_congr_left fun x hx => ?_
    obtain ⟨s, hs, -⟩ := ho x hx
    exact close_of_over hs
  rw [record, List.map_append, hb, List.map_singleton]

theorem overBy_ended {before : List (Attempt ι)} (ho : OverBy now before) (hh : a.holder = i)
    (h : a.stop = none) : OverBy now (before ++ [a.close i now]) := by
  intro x hx
  rcases List.mem_append.mp hx with hx | hx
  · exact ho x hx
  · rw [List.mem_singleton.mp hx]
    exact ⟨now, close_stop hh h, Int.le_refl _⟩

theorem spaced_ended {before : List (Attempt ι)} {t : Int}
    (hs : (before ++ [a]).Pairwise (Spaced pause)) :
    (before ++ [a.close i t]).Pairwise (Spaced pause) := by
  obtain ⟨hb, -, hlast⟩ := List.pairwise_append.mp hs
  refine List.pairwise_append.mpr ⟨hb, List.pairwise_singleton _ _, fun x hx y hy => ?_⟩
  rw [List.mem_singleton.mp hy]
  obtain ⟨s, hstop, hle, hp⟩ := hlast x hx a (List.mem_singleton_self a)
  exact ⟨s, hstop, by rw [close_start]; exact hle, by rw [close_first, close_start]; exact hp⟩

theorem grouped_ended {before : List (Attempt ι)} {t : Int} (hg : Grouped (before ++ [a])) :
    Grouped (before ++ [a.close i t]) := by
  obtain ⟨hchain, hhead⟩ := hg
  obtain ⟨hb, -, hlast⟩ := List.isChain_append.mp hchain
  refine ⟨List.isChain_append.mpr ⟨hb, List.isChain_singleton _, ?_⟩, ?_⟩
  · intro x hx y hy
    obtain rfl : a.close i t = y := by simpa using hy
    have hfol := hlast x hx a (by simp)
    unfold Follows at hfol ⊢
    rw [close_first, close_holder]
    exact hfol
  · cases before with
    | nil =>
        intro x hx
        obtain rfl : a.close i t = x := by simpa using hx
        rw [close_first]
        exact hhead a (by simp)
    | cons b before => exact fun x hx => hhead x (by simpa using hx)

/-! ## The invariant -/

/-- **Whatever happens to the lock, the attempts fit its place.** -/
theorem Fits.move (h : Fits pause now l turn) (hm : Move pause now turn events turn') :
    Fits pause now (events.foldl record l) turn' := by
  have hp := h.place
  cases hm with
  | stay => exact h
  | take i =>
      refine ⟨h.spaced, h.grouped, hp, fun a ha => ?_⟩
      obtain ⟨s, hs, hle⟩ := hp a ha
      exact ⟨s, hs, by omega⟩
  | @start i u hu =>
      -- every call so far has ended, and the pause since the last is over
      obtain ⟨ho, hpause⟩ := hp
      refine ⟨spaced_began h.spaced ho fun _ a ha => ?_, grouped_first h.grouped,
        l, _, rfl, ho, rfl, rfl, rfl⟩
      obtain ⟨s, hs, hle⟩ := hpause a ha
      exact ⟨s, hs, Int.le_trans hle hu⟩
  | again i =>
      -- the call before is the first of the same holder
      obtain ⟨ho, before, a, rfl, hh, hf⟩ := hp
      exact ⟨spaced_began h.spaced ho (fun h => absurd h (by simp)),
        grouped_again h.grouped hh hf, _, _, rfl, ho, rfl, rfl, rfl⟩
  | interrupt i =>
      obtain ⟨before, a, rfl, ho, hh, hf, hs⟩ := hp
      simp only [List.foldl_cons, List.foldl_nil, record_ended ho]
      exact ⟨spaced_ended h.spaced, grouped_ended h.grouped, overBy_ended ho hh hs,
        before, _, rfl, by rw [close_holder, hh], by rw [close_first, hf]; rfl⟩
  | finish i again =>
      obtain ⟨before, a, rfl, ho, hh, hf, hs⟩ := hp
      simp only [List.foldl_cons, List.foldl_nil, record_ended ho]
      exact ⟨spaced_ended h.spaced, grouped_ended h.grouped, overBy_ended ho hh hs⟩
  | leave turn ht => exact ⟨h.spaced, h.grouped, h.overBy ht⟩

end Turns
