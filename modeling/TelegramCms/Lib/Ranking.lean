import Mathlib.Data.List.Sort
import Mathlib.Tactic.Common

/-!
# The first rows in an order

`ORDER BY … LIMIT n` over a list of rows: sort stably, keep the first `n`. A row is kept
exactly when fewer than `n` rows come before it, where rows that tie keep the order they
had (`mem_take_insertionSort`).
-/

namespace Ranking

variable {α : Type} {n : Nat} {x : α} {l : List α}

/-- In a list ordered by an asymmetric `R`, the first `n` elements are those with fewer
than `n` elements before them. -/
theorem mem_take_iff_countP {R : α → α → Prop} [DecidableRel R] (hasym : ∀ a b, R a b → ¬ R b a)
    (hl : l.Pairwise R) : x ∈ l.take n ↔ x ∈ l ∧ l.countP (fun y => R y x) < n := by
  induction l generalizing n with
  | nil => simp
  | cons a l ih =>
      obtain ⟨ha, hl⟩ := List.pairwise_cons.mp hl
      cases n with
      | zero => simp
      | succ n =>
          rw [List.take_succ_cons, List.mem_cons, List.mem_cons, ih hl, List.countP_cons]
          by_cases hx : x ∈ l
          · -- an element of the tail has the head before it
            have hr : R a x := ha x hx
            have hne : x ≠ a := by rintro rfl; exact hasym x x hr hr
            simp [hx, hr, hne]
          · constructor
            · rintro (rfl | ⟨h, -⟩)
              · have hself : ¬ R x x := fun h => hasym x x h h
                have hcount : l.countP (fun y => R y x) = 0 := by
                  rw [List.countP_eq_zero]
                  intro b hb
                  simpa using hasym x b (ha b hb)
                simp [hself, hcount]
              · exact absurd h hx
            · rintro ⟨rfl | h, -⟩
              · exact .inl rfl
              · exact absurd h hx

/-- What precedes `b` in the order of `r`, where ties go by `s`. -/
def Before (r s : α → α → Prop) (a b : α) : Prop := r a b ∧ (r b a → s a b)

instance (r s : α → α → Prop) [DecidableRel r] [DecidableRel s] : DecidableRel (Before r s) :=
  fun a b => inferInstanceAs (Decidable (r a b ∧ (r b a → s a b)))

section Stable

variable {r s : α → α → Prop} [DecidableRel r]

theorem pairwise_before_orderedInsert (htotal : ∀ a b, r a b ∨ r b a)
    (htrans : ∀ a b c, r a b → r b c → r a c) {a : α} (ha : ∀ b ∈ l, s a b)
    (hl : l.Pairwise (Before r s)) : (l.orderedInsert r a).Pairwise (Before r s) := by
  induction l with
  | nil => simp
  | cons b l ih =>
      obtain ⟨hb, hl'⟩ := List.pairwise_cons.mp hl
      rw [List.orderedInsert_cons]
      split
      · rename_i hab
        refine List.pairwise_cons.mpr ⟨?_, hl⟩
        intro c hc
        rcases List.mem_cons.mp hc with rfl | hcl
        · exact ⟨hab, fun _ => ha _ hc⟩
        · exact ⟨htrans a b c hab (hb c hcl).1, fun _ => ha c hc⟩
      · rename_i hab
        have hba : r b a := (htotal a b).resolve_left hab
        refine List.pairwise_cons.mpr
          ⟨?_, ih (fun c hc => ha c (List.mem_cons_of_mem _ hc)) hl'⟩
        intro c hc
        rcases (List.mem_orderedInsert r).mp hc with rfl | hc
        · exact ⟨hba, fun h => absurd h hab⟩
        · exact hb c hc

/-- A stable sort leaves rows that tie in the order they had. -/
theorem pairwise_before_insertionSort (htotal : ∀ a b, r a b ∨ r b a)
    (htrans : ∀ a b c, r a b → r b c → r a c) (hl : l.Pairwise s) :
    (l.insertionSort r).Pairwise (Before r s) := by
  induction l with
  | nil => simp
  | cons a l ih =>
      obtain ⟨ha, hl⟩ := List.pairwise_cons.mp hl
      rw [List.insertionSort_cons]
      refine pairwise_before_orderedInsert htotal htrans ?_ (ih hl)
      intro b hb
      exact ha b ((List.mem_insertionSort r).mp hb)

/-- **The rows that `ORDER BY r LIMIT n` keeps.** -/
theorem mem_take_insertionSort [DecidableRel s] (htotal : ∀ a b, r a b ∨ r b a)
    (htrans : ∀ a b c, r a b → r b c → r a c) (hasym : ∀ a b, s a b → ¬ s b a)
    (hl : l.Pairwise s) :
    x ∈ (l.insertionSort r).take n ↔ x ∈ l ∧ l.countP (fun y => Before r s y x) < n := by
  have hb : ∀ a b, Before r s a b → ¬ Before r s b a := by
    intro a b hab hba
    exact hasym a b (hab.2 hba.1) (hba.2 hab.1)
  rw [mem_take_iff_countP hb (pairwise_before_insertionSort htotal htrans hl),
    List.mem_insertionSort, (List.perm_insertionSort r l).countP_eq]

/-- An element is kept if fewer than `n` others come no later, in whatever order those
that tie come. -/
theorem mem_take_of_few [DecidableEq α] (htotal : ∀ a b, r a b ∨ r b a)
    (htrans : ∀ a b c, r a b → r b c → r a c) (hl : l.Nodup) (hx : x ∈ l)
    (hfew : l.countP (fun y => y ≠ x ∧ r y x) < n) : x ∈ (l.insertionSort r).take n := by
  -- ties go by their places in the list
  have horder : l.Pairwise (fun a b => l.idxOf a < l.idxOf b) := by
    rw [List.pairwise_iff_getElem]
    intro i j hi hj hij
    rw [hl.idxOf_getElem i hi, hl.idxOf_getElem j hj]
    exact hij
  rw [mem_take_insertionSort htotal htrans (fun a b => Nat.lt_asymm) horder]
  refine ⟨hx, Nat.lt_of_le_of_lt (List.countP_mono_left fun y _ hy => ?_) hfew⟩
  obtain ⟨hyx, htie⟩ := of_decide_eq_true hy
  refine decide_eq_true ⟨?_, hyx⟩
  rintro rfl
  exact Nat.lt_irrefl _ (htie hyx)

end Stable

end Ranking
