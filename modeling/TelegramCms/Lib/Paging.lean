import Mathlib.Data.List.Nodup
import Mathlib.Data.List.Perm.Basic
import Mathlib.Data.List.Sort
import Mathlib.Order.Basic

/-!
# Pages of a listing

A listing is read page by page, each page by a query of its own, sorted by a key that rows
may share. Rows that tie may come in another order in every query.

If the rows of one key always come to lie on one page, the pages make up the listing
whatever the orders are (`pages_perm`). If not, some orders put a row on two pages
(`exists_repeated`).
-/

namespace Paging

variable {α β : Type} [LinearOrder β] {key : α → β} {rows order : List α} {a : α}
  {size k n i : Nat}

/-- An answer to `ORDER BY key DESC`. -/
structure Ordered (key : α → β) (rows order : List α) : Prop where
  perm : order.Perm rows
  sorted : order.Pairwise (fun a b => key b ≤ key a)

/-- The `k`-th page of `size` rows. -/
def page (size k : Nat) (l : List α) : List α := (l.drop (k * size)).take size

/-- How many rows come before `a` in every order. -/
def before (key : α → β) (rows : List α) (a : α) : Nat := rows.countP (fun b => key a < key b)

/-- How many rows come no later than `a` in some order, `a` included. -/
def upTo (key : α → β) (rows : List α) (a : α) : Nat := rows.countP (fun b => key a ≤ key b)

/-- The rows that tie come to lie on one page. -/
def Unsplit (key : α → β) (size : Nat) (rows : List α) : Prop :=
  ∀ a ∈ rows, before key rows a / size = (upTo key rows a - 1) / size

instance : Decidable (Unsplit key size rows) :=
  inferInstanceAs (Decidable (∀ a ∈ rows, before key rows a / size = (upTo key rows a - 1) / size))

/-! ## The places of a row -/

/-- What comes strictly later has all of `a`'s key before it. -/
theorem upTo_le_before {b : α} (h : key b < key a) : upTo key rows a ≤ before key rows b :=
  List.countP_mono_left fun _ _ hc => decide_eq_true (lt_of_lt_of_le h (of_decide_eq_true hc))

theorem before_le_index (h : Ordered key rows order) (hi : i < order.length) :
    before key rows order[i] ≤ i := by
  have hsplit : before key rows order[i]
      = (order.take i).countP (fun b => key order[i] < key b)
        + (order.drop i).countP (fun b => key order[i] < key b) := by
    rw [before, ← h.perm.countP_eq, ← List.countP_append, List.take_append_drop]
  have hdrop : (order.drop i).countP (fun b => key order[i] < key b) = 0 := by
    rw [List.countP_eq_zero]
    intro b hb
    rw [decide_eq_true_eq, not_lt]
    rw [List.drop_eq_getElem_cons hi] at hb
    rcases List.mem_cons.mp hb with rfl | hb
    · exact le_refl _
    · have hsorted := h.sorted.drop (i := i)
      rw [List.drop_eq_getElem_cons hi] at hsorted
      exact (List.pairwise_cons.mp hsorted).1 b hb
  have htake := List.countP_le_length (p := fun b => decide (key order[i] < key b)) (l := order.take i)
  rw [List.length_take] at htake
  omega

theorem index_lt_upTo (h : Ordered key rows order) (hi : i < order.length) :
    i < upTo key rows order[i] := by
  have hall : (order.take (i + 1)).countP (fun b => key order[i] ≤ key b) = i + 1 := by
    rw [List.countP_eq_length.mpr ?_, List.length_take, Nat.min_eq_left hi]
    intro b hb
    obtain ⟨j, hj, rfl⟩ := List.mem_take_iff_getElem.mp hb
    refine decide_eq_true ?_
    rcases Nat.lt_or_eq_of_le (Nat.lt_succ_iff.mp (Nat.lt_of_lt_of_le hj (Nat.min_le_left _ _))) with
      hlt | rfl
    · exact List.pairwise_iff_getElem.mp h.sorted j i _ hi hlt
    · exact le_refl _
  have hle := (List.take_sublist (i + 1) order).countP_le (p := fun b => decide (key order[i] ≤ key b))
  rw [hall, h.perm.countP_eq] at hle
  exact hle

/-- A row between the bounds of `a` ties with it. -/
theorem key_eq_of_between (h : Ordered key rows order) (hi : i < order.length)
    (hb : before key rows a ≤ i) (hu : i < upTo key rows a) : key order[i] = key a := by
  rcases lt_trichotomy (key order[i]) (key a) with hlt | he | hgt
  · have hle := before_le_index h hi
    have hupTo : upTo key rows a ≤ before key rows order[i] := upTo_le_before hlt
    omega
  · exact he
  · have hle := index_lt_upTo h hi
    have hupTo : upTo key rows order[i] ≤ before key rows a := upTo_le_before hgt
    omega

/-! ## Nothing straddles a page boundary -/

/-- Cutting a page out is a filter, where the place of an element can be told from it. -/
theorem page_eq_filter {g : α → Nat} {l : List α} (hs : 0 < size)
    (hg : ∀ i (hi : i < l.length), g l[i] = i / size) :
    page size k l = l.filter (fun a => g a = k) := by
  -- the list is what comes before the page, the page, and what comes after it
  have hsplit : l = l.take (k * size) ++ (page size k l ++ (l.drop (k * size)).drop size) := by
    rw [page, List.take_append_drop, List.take_append_drop]
  have hfront : (l.take (k * size)).filter (fun a => g a = k) = [] := by
    rw [List.filter_eq_nil_iff]
    intro b hb
    obtain ⟨j, hj, rfl⟩ := List.mem_take_iff_getElem.mp hb
    rw [decide_eq_true_eq, hg]
    have hlt : j / size < k := (Nat.div_lt_iff_lt_mul hs).mpr (Nat.lt_of_lt_of_le hj (Nat.min_le_left _ _))
    omega
  have hpage : (page size k l).filter (fun a => g a = k) = page size k l := by
    rw [List.filter_eq_self]
    intro b hb
    obtain ⟨j, hj, rfl⟩ := List.mem_take_iff_getElem.mp hb
    rw [List.length_drop] at hj
    rw [List.getElem_drop, decide_eq_true_eq, hg]
    have hj : j < size := by omega
    rw [Nat.mul_comm, Nat.mul_add_div hs, Nat.div_eq_of_lt hj, Nat.add_zero]
  have hback : ((l.drop (k * size)).drop size).filter (fun a => g a = k) = [] := by
    rw [List.filter_eq_nil_iff]
    intro b hb
    obtain ⟨j, hj, rfl⟩ := List.mem_drop_iff_getElem.mp hb
    rw [List.getElem_drop, decide_eq_true_eq, hg]
    have hlt : k + 1 ≤ (k * size + (size + j)) / size := by
      rw [Nat.le_div_iff_mul_le hs, Nat.add_mul]
      omega
    omega
  conv_rhs => rw [hsplit, List.filter_append, List.filter_append, hfront, hpage, hback]
  simp

/-- The classes of a list make up the list. -/
theorem flatMap_filter_perm {g : α → Nat} {l : List α} :
    ((List.range n).flatMap (fun k => l.filter (fun a => g a = k))).Perm
      (l.filter (fun a => g a < n)) := by
  induction n with
  | zero => simp
  | succ n ih =>
      rw [List.range_succ, List.flatMap_append, List.flatMap_singleton]
      have hsplit := List.filter_append_perm (fun a => decide (g a < n)) (l.filter (fun a => g a < n + 1))
      simp only [List.filter_filter] at hsplit
      refine ((ih.append_right _).trans ?_).trans hsplit
      refine .of_eq (congrArg₂ _ (List.filter_congr fun a _ => ?_) (List.filter_congr fun a _ => ?_))
      · rw [← Bool.decide_and, decide_eq_decide]
        omega
      · rw [← decide_not, ← Bool.decide_and, decide_eq_decide]
        omega

/-- **The pages make up the listing, in whatever orders they were read.** -/
theorem pages_perm (hs : 0 < size) (hu : Unsplit key size rows) {orders : Nat → List α}
    (ho : ∀ k, Ordered key rows (orders k)) (hn : rows.length ≤ n * size) :
    ((List.range n).flatMap (fun k => page size k (orders k))).Perm rows := by
  have hplace : ∀ k i (hi : i < (orders k).length), before key rows (orders k)[i] / size = i / size := by
    intro k i hi
    have hlow := Nat.div_le_div_right (c := size) (before_le_index (ho k) hi)
    have hhigh := Nat.div_le_div_right (c := size) (Nat.le_sub_one_of_lt (index_lt_upTo (ho k) hi))
    rw [← hu _ ((ho k).perm.subset (List.getElem_mem hi))] at hhigh
    exact Nat.le_antisymm hlow hhigh
  have hpages : ∀ k, (page size k (orders k)).Perm (rows.filter (fun a => before key rows a / size = k)) := by
    intro k
    rw [page_eq_filter hs (g := fun a => before key rows a / size) (hplace k)]
    exact (ho k).perm.filter _
  refine (List.Perm.flatMap_left _ fun k _ => hpages k).trans (flatMap_filter_perm.trans ?_)
  -- every row has its place before the end
  refine .of_eq (List.filter_eq_self.mpr fun a ha => decide_eq_true ?_)
  obtain ⟨i, hi, rfl⟩ := List.getElem_of_mem ((ho 0).perm.symm.subset ha)
  rw [hplace 0 i hi, Nat.div_lt_iff_lt_mul hs]
  rw [(ho 0).perm.length_eq] at hi
  omega

/-! ## A page boundary in the midst of ties -/

theorem mem_page {l : List α} {x : α} (hs : 0 < size) (hi : l[i]? = some x)
    (hk : i / size = k) : x ∈ page size k l := by
  obtain ⟨hlt, rfl⟩ := List.getElem?_eq_some_iff.mp hi
  have hlow : k * size ≤ i := by rw [← hk]; exact Nat.div_mul_le_self i size
  have hhigh : i < k * size + size := by rw [← hk]; exact Nat.lt_div_mul_add hs
  rw [page, List.mem_take_iff_getElem]
  refine ⟨i - k * size, ?_, ?_⟩
  · rw [List.length_drop]
    omega
  · rw [List.getElem_drop]
    congr 1
    omega

/-- Neighbours that tie may change places. -/
theorem Ordered.swap {l m : List α} {x y : α} (h : Ordered key rows (l ++ x :: y :: m))
    (he : key x = key y) : Ordered key rows (l ++ y :: x :: m) where
  perm := ((List.Perm.swap x y m).append_left l).trans h.perm
  sorted := by
    -- the keys come in the same order
    have hkeys : (l ++ y :: x :: m).map key = (l ++ x :: y :: m).map key := by simp [he]
    have hsorted := h.sorted
    rw [← List.pairwise_map (R := fun b c => c ≤ b)] at hsorted ⊢
    rw [hkeys]
    exact hsorted

theorem exists_ordered (key : α → β) (rows : List α) : ∃ order, Ordered key rows order := by
  refine ⟨rows.insertionSort (fun a b => key b ≤ key a), List.perm_insertionSort _ _, ?_⟩
  have : Std.Total (fun a b : α => key b ≤ key a) := ⟨fun a b => le_total _ _⟩
  have : IsTrans α (fun a b => key b ≤ key a) := ⟨fun a b c hab hbc => le_trans hbc hab⟩
  exact List.pairwise_insertionSort _ _

/-- If some rows that tie do not come to lie on one page, a boundary runs between them. -/
theorem exists_boundary (hs : 0 < size) (hu : ¬ Unsplit key size rows) :
    ∃ a k, before key rows a < (k + 1) * size ∧ (k + 1) * size < upTo key rows a := by
  simp only [Unsplit, not_forall] at hu
  obtain ⟨a, ha, hne⟩ := hu
  obtain ⟨order, ho⟩ := exists_ordered key rows
  obtain ⟨i, hi, rfl⟩ := List.getElem_of_mem (ho.perm.symm.subset ha)
  have hlast := Nat.le_sub_one_of_lt (index_lt_upTo ho hi)
  have hle := Nat.div_le_div_right (c := size) ((before_le_index ho hi).trans hlast)
  have hlt := Nat.lt_of_le_of_ne hle hne
  obtain ⟨k, hk⟩ := Nat.exists_eq_add_one_of_ne_zero (Nat.ne_of_gt (Nat.zero_lt_of_lt hlt))
  refine ⟨order[i], k, (Nat.div_lt_iff_lt_mul hs).mp (Nat.lt_of_lt_of_eq hlt hk), ?_⟩
  have hmul := Nat.div_mul_le_self (upTo key rows order[i] - 1) size
  rw [hk] at hmul
  exact Nat.lt_of_le_of_lt hmul
    (Nat.sub_lt (Nat.zero_lt_of_lt (index_lt_upTo ho hi)) Nat.one_pos)

/-- Rows that tie stand on both sides of the place `j`. -/
theorem exists_tie_at {j : Nat} (hb : before key rows a < j) (hu : j < upTo key rows a) :
    ∃ front x y back, Ordered key rows (front ++ x :: y :: back) ∧ key x = key y
      ∧ front.length + 1 = j := by
  obtain ⟨order, ho⟩ := exists_ordered key rows
  have hlen : upTo key rows a ≤ order.length := by
    rw [ho.perm.length_eq]
    exact List.countP_le_length
  have hi : j - 1 < order.length := by omega
  have hj : j < order.length := by omega
  have hx := key_eq_of_between (a := a) ho hi (by omega) (by omega)
  have hy := key_eq_of_between (a := a) ho hj (by omega) (by omega)
  refine ⟨order.take (j - 1), order[j - 1], order[j], order.drop (j + 1), ?_, hx.trans hy.symm, ?_⟩
  · have hdrop := List.drop_eq_getElem_cons hi
    rw [Nat.sub_add_cancel (by omega)] at hdrop
    rw [← List.drop_eq_getElem_cons hj, ← hdrop, List.take_append_drop]
    exact ho
  · rw [List.length_take]
    omega

/-- **If rows that tie lie on both sides of a page boundary, some orders put a row on two
pages.** -/
theorem exists_repeated (hs : 0 < size) (hu : ¬ Unsplit key size rows) :
    ∃ orders : Nat → List α, (∀ k, Ordered key rows (orders k))
      ∧ ∃ k x, (k + 1) * size < rows.length ∧ x ∈ page size k (orders k)
        ∧ x ∈ page size (k + 1) (orders (k + 1)) := by
  obtain ⟨a, k, hb, hup⟩ := exists_boundary hs hu
  obtain ⟨front, x, y, back, ho, he, hlen⟩ := exists_tie_at hb hup
  -- from the next page on the two rows at the boundary have changed places
  refine ⟨fun j => if j = k then front ++ x :: y :: back else front ++ y :: x :: back,
    fun j => ?_, k, x, ?_, ?_, ?_⟩
  · dsimp only
    split
    · exact ho
    · exact ho.swap he
  · rw [← hlen, ← ho.perm.length_eq]
    simp
  · dsimp only
    rw [if_pos rfl]
    refine mem_page hs (i := front.length) (by simp) ?_
    have hmul : front.length = k * size + (size - 1) := by
      rw [Nat.add_mul] at hlen
      omega
    rw [hmul, Nat.mul_comm, Nat.mul_add_div hs, Nat.div_eq_of_lt (Nat.sub_lt hs Nat.one_pos),
      Nat.add_zero]
  · dsimp only
    rw [if_neg (Nat.succ_ne_self k)]
    refine mem_page hs (i := front.length + 1) ?_ ?_
    · rw [List.getElem?_append_right (Nat.le_succ _)]
      simp
    · rw [hlen, Nat.mul_div_cancel _ hs]

/-! ## How many pages there are -/

theorem page_ne_nil_iff (hs : 0 < size) {l : List α} : page size k l ≠ [] ↔ k * size < l.length := by
  rw [page, ← List.length_pos_iff, List.length_take, List.length_drop]
  omega

/-- The number of pages that are not empty. -/
def pageCount (size length : Nat) : Nat := (length + (size - 1)) / size

theorem lt_pageCount_iff (hs : 0 < size) {length : Nat} :
    k < pageCount size length ↔ k * size < length := by
  rw [pageCount, ← Nat.succ_le_iff, Nat.le_div_iff_mul_le hs, Nat.succ_mul]
  omega

end Paging
