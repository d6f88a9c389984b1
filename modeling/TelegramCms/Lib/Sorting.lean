import Mathlib.Data.List.Sort
import Mathlib.Tactic.Common

/-!
# What sorting leaves of the order

A stable sort leaves elements that tie in the order they had, so the orders of one
collection sort to lists that differ in their ties (`retied_insertionSort`). What is
computed from the sorted list is computed from the collection when ties may change places
in it (`Retied.flatMap_eq`), and only then (`insertionSort_tie`).
-/

namespace Sorting

variable {α β : Type} {r : α → α → Prop} {a b : α} {l m n : List α}

/-- The elements are equal for the order. -/
def Tied (r : α → α → Prop) (a b : α) : Prop := r a b ∧ r b a

instance (r : α → α → Prop) [DecidableRel r] : DecidableRel (Tied r) :=
  fun a b => inferInstanceAs (Decidable (r a b ∧ r b a))

/-- One list from the other, by exchanging neighbours that tie. -/
inductive Retied (r : α → α → Prop) : List α → List α → Prop
  | refl (l : List α) : Retied r l l
  | cons (a : α) {l m : List α} (h : Retied r l m) : Retied r (a :: l) (a :: m)
  | swap {a b : α} (l : List α) (h : Tied r a b) : Retied r (a :: b :: l) (b :: a :: l)
  | trans {l m n : List α} (hl : Retied r l m) (hm : Retied r m n) : Retied r l n

theorem Retied.perm (h : Retied r l m) : l.Perm m := by
  induction h with
  | refl l => exact .refl l
  | cons a _ ih => exact ih.cons a
  | swap l _ => exact .swap _ _ l
  | trans _ _ ihl ihm => exact ihl.trans ihm

/-- Ties that may change places, may do so anywhere in the list. -/
theorem Retied.flatMap_eq {f : α → List β} (h : Retied r l m)
    (hf : ∀ a ∈ l, ∀ b ∈ l, Tied r a b → f a ++ f b = f b ++ f a) :
    l.flatMap f = m.flatMap f := by
  induction h with
  | refl l => rfl
  | cons a _ ih =>
      have htail := ih (fun b hb c hc => hf b (.tail a hb) c (.tail a hc))
      rw [List.flatMap_cons, List.flatMap_cons, htail]
  | swap l htie =>
      have hswap := hf _ (by simp) _ (by simp) htie
      simp only [List.flatMap_cons]
      rw [← List.append_assoc, hswap, List.append_assoc]
  | trans hl _ ihl ihm =>
      have hmem := fun x => hl.perm.mem_iff (a := x)
      exact (ihl hf).trans
        (ihm (fun a ha b hb => hf a ((hmem a).mpr ha) b ((hmem b).mpr hb)))

/-- The order does not tell elements that tie apart. -/
theorem Tied.rel_iff (htrans : ∀ a b c, r a b → r b c → r a c) (h : Tied r a b) (c : α) :
    (r a c ↔ r b c) ∧ (r c a ↔ r c b) :=
  ⟨⟨htrans b a c h.2, htrans a b c h.1⟩,
    ⟨fun hc => htrans c a b hc h.1, fun hc => htrans c b a hc h.2⟩⟩

section Stable

variable [DecidableRel r]

theorem Retied.orderedInsert (htrans : ∀ a b c, r a b → r b c → r a c) (x : α)
    (h : Retied r l m) : Retied r (l.orderedInsert r x) (m.orderedInsert r x) := by
  induction h with
  | refl l => exact .refl _
  | @cons a l m h ih =>
      simp only [List.orderedInsert_cons]
      split
      · exact (h.cons a).cons x
      · exact ih.cons a
  | @swap a b l h =>
      have hx : r x a ↔ r x b := (h.rel_iff htrans x).2
      by_cases hxa : r x a
      · have hxb : r x b := hx.mp hxa
        simp only [List.orderedInsert_cons, if_pos hxa, if_pos hxb]
        exact .cons x (.swap l h)
      · have hxb : ¬ r x b := fun hxb => hxa (hx.mpr hxb)
        simp only [List.orderedInsert_cons, if_neg hxa, if_neg hxb]
        exact .swap _ h
  | trans _ _ ihl ihm => exact ihl.trans ihm

/-- Two insertions in either order. -/
theorem retied_insert_insert (htotal : ∀ a b, r a b ∨ r b a)
    (htrans : ∀ a b c, r a b → r b c → r a c) (a b : α) (l : List α) :
    Retied r ((l.orderedInsert r b).orderedInsert r a)
      ((l.orderedInsert r a).orderedInsert r b) := by
  -- where both belong, they stand as the order has it, or tie
  have hfront : ∀ l, Retied r (if r a b then a :: b :: l else b :: a :: l)
      (if r b a then b :: a :: l else a :: b :: l) := by
    intro l
    by_cases hab : r a b
    · by_cases hba : r b a
      · rw [if_pos hab, if_pos hba]
        exact .swap l ⟨hab, hba⟩
      · rw [if_pos hab, if_neg hba]
        exact .refl _
    · rw [if_neg hab, if_pos ((htotal a b).resolve_left hab)]
      exact .refl _
  induction l with
  | nil => exact hfront []
  | cons c l ih =>
      by_cases hac : r a c <;> by_cases hbc : r b c
      · -- both go before `c`
        simp only [List.orderedInsert_cons, if_pos hac, if_pos hbc]
        exact hfront (c :: l)
      · -- only `a` does, so it goes before `b` as well
        have hba : ¬ r b a := fun hba => hbc (htrans b a c hba hac)
        simp only [List.orderedInsert_cons, if_pos hac, if_neg hbc, if_neg hba]
        exact .refl _
      · have hab : ¬ r a b := fun hab => hac (htrans a b c hab hbc)
        simp only [List.orderedInsert_cons, if_neg hac, if_pos hbc, if_neg hab]
        exact .refl _
      · simp only [List.orderedInsert_cons, if_neg hac, if_neg hbc]
        exact ih.cons c

/-- **Orders of one collection sort to lists that differ in their ties.** -/
theorem retied_insertionSort (htotal : ∀ a b, r a b ∨ r b a)
    (htrans : ∀ a b c, r a b → r b c → r a c) (h : l.Perm m) :
    Retied r (l.insertionSort r) (m.insertionSort r) := by
  induction h with
  | nil => exact .refl _
  | cons x _ ih => exact ih.orderedInsert htrans x
  | swap x y l => exact retied_insert_insert htotal htrans y x _
  | trans _ _ ihl ihm => exact ihl.trans ihm

/-- Ties that come first are sorted to neighbours, in the order they had. -/
theorem insertionSort_tie (htrans : ∀ a b c, r a b → r b c → r a c) (h : Tied r a b)
    (l : List α) : ∃ s t, (a :: b :: l).insertionSort r = s ++ a :: b :: t
      ∧ (b :: a :: l).insertionSort r = s ++ b :: a :: t := by
  simp only [List.insertionSort_cons]
  -- both are put in where the first of them that is not below them stands
  induction l.insertionSort r with
  | nil =>
      refine ⟨[], [], ?_, ?_⟩
      · simp [h.1]
      · simp [h.2]
  | cons c l ih =>
      have hc : r a c ↔ r b c := (h.rel_iff htrans c).1
      by_cases hac : r a c
      · have hbc : r b c := hc.mp hac
        refine ⟨[], c :: l, ?_, ?_⟩
        · simp [hbc, h.1]
        · simp [hac, h.2]
      · have hbc : ¬ r b c := fun hbc => hac (hc.mpr hbc)
        obtain ⟨s, t, hab, hba⟩ := ih
        refine ⟨c :: s, t, ?_, ?_⟩
        · simp only [List.orderedInsert_cons, if_neg hac, if_neg hbc, hab, List.cons_append]
        · simp only [List.orderedInsert_cons, if_neg hac, if_neg hbc, hba, List.cons_append]

end Stable

end Sorting
