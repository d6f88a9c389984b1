import Mathlib.Data.List.Chain
import Mathlib.Data.List.DropRight
import Mathlib.Tactic.Common

/-!
# Words joined by a separator

Of a list, `keep` says which elements are to stay. The maximal runs of these are its words,
and `squeeze` writes one separator for each run of all the others, as a loop would that
remembers whether it has just written one. Trimmed, the result is the words joined by the
separator (`trim_squeeze`), in canonical form, which another pass does not change.
-/

namespace Words

variable {α : Type}

/-- One separator for each run of what is not kept, none if one has just been written. -/
def squeeze (keep : α → Bool) (sep : α) : Bool → List α → List α
  | _, [] => []
  | prev, c :: s =>
    if keep c then c :: squeeze keep sep false s
    else if prev then squeeze keep sep true s
    else sep :: squeeze keep sep true s

/-- The maximal runs of what is kept. -/
def words (keep : α → Bool) (s : List α) : List (List α) :=
  (s.splitOnP (fun c => !keep c)).filter (fun w => !w.isEmpty)

def join (sep : α) (ws : List (List α)) : List α := [sep].intercalate ws

/-- Nothing but what is kept and, in between, single separators. -/
structure Canonical (keep : α → Bool) (sep : α) (s : List α) : Prop where
  ne_nil : s ≠ []
  chars : ∀ c ∈ s, keep c = true ∨ c = sep
  first : s.head? ≠ some sep
  last : s.getLast? ≠ some sep
  single : s.IsChain (fun a b => a = sep → b ≠ sep)

/-! ## Joining -/

section Join

variable {sep : α}

theorem join_cons (w : List α) {ws : List (List α)} (h : ws ≠ []) :
    join sep (w :: ws) = w ++ sep :: join sep ws := by
  rw [join, List.intercalate_cons_of_ne_nil h, List.append_assoc]
  rfl

theorem join_singleton (w : List α) : join sep [w] = w := List.intercalate_singleton

theorem join_ne_nil {ws : List (List α)} (h : ws ≠ []) (hne : ∀ w ∈ ws, w ≠ []) :
    join sep ws ≠ [] := by
  cases ws with
  | nil => exact absurd rfl h
  | cons w ws =>
    have hw := hne w List.mem_cons_self
    by_cases hws : ws = []
    · rw [hws, join_singleton]
      exact hw
    · rw [join_cons w hws]
      exact List.append_ne_nil_of_left_ne_nil hw _

/-- Where the separators are: after so much as some first words take up, but not all. -/
theorem getElem?_join {ws : List (List α)} (hsep : ∀ w ∈ ws, sep ∉ w) (n : Nat) :
    (join sep ws)[n]? = some sep
      ↔ ∃ ws', ws' <+: ws ∧ ws' ≠ [] ∧ ws' ≠ ws ∧ (join sep ws').length = n := by
  induction ws generalizing n with
  | nil =>
    constructor
    · intro h
      cases h
    · rintro ⟨ws', hpre, hne, -, -⟩
      exact absurd (List.prefix_nil.mp hpre) hne
  | cons w ws ih =>
    have hw := hsep w List.mem_cons_self
    have ih := ih (fun v hv => hsep v (List.mem_cons_of_mem _ hv))
    -- a first group of words is `w`, or `w` and a first group of the others
    have hsplit : (∃ ws', ws' <+: w :: ws ∧ ws' ≠ [] ∧ ws' ≠ w :: ws ∧ (join sep ws').length = n)
        ↔ ws ≠ [] ∧ (w.length = n ∨ ∃ ws', ws' <+: ws ∧ ws' ≠ [] ∧ ws' ≠ ws
          ∧ w.length + 1 + (join sep ws').length = n) := by
      constructor
      · rintro ⟨ws', hpre, hne, hne', hlen⟩
        cases ws' with
        | nil => exact absurd rfl hne
        | cons v vs =>
          obtain ⟨rfl, hrest⟩ := List.cons_prefix_cons.mp hpre
          have hvs : vs ≠ ws := fun h => hne' (by rw [h])
          refine ⟨?_, ?_⟩
          · rintro rfl
            exact hvs (List.prefix_nil.mp hrest)
          · by_cases hnil : vs = []
            · rw [hnil, join_singleton] at hlen
              exact Or.inl hlen
            · rw [join_cons v hnil, List.length_append, List.length_cons] at hlen
              exact Or.inr ⟨vs, hrest, hnil, hvs, by omega⟩
      · rintro ⟨hne, hlen | ⟨vs, hpre, hnil, hvs, hlen⟩⟩
        · refine ⟨[w], List.prefix_append [w] ws, List.cons_ne_nil _ _, ?_, ?_⟩
          · intro h
            exact hne (List.cons.inj h).2.symm
          · rw [join_singleton]
            exact hlen
        · refine ⟨w :: vs, List.cons_prefix_cons.mpr ⟨rfl, hpre⟩, List.cons_ne_nil _ _, ?_, ?_⟩
          · intro h
            exact hvs (List.cons.inj h).2
          · rw [join_cons w hnil, List.length_append, List.length_cons]
            omega
    rw [hsplit]
    by_cases hnil : ws = []
    · rw [hnil, join_singleton]
      exact iff_of_false (fun h => hw (List.mem_of_getElem? h)) (fun h => h.1 rfl)
    · rw [join_cons w hnil, and_iff_right hnil]
      rcases Nat.lt_trichotomy n w.length with hlt | rfl | hgt
      · rw [List.getElem?_append_left hlt]
        refine iff_of_false (fun h => hw (List.mem_of_getElem? h)) ?_
        rintro (h | ⟨vs, -, -, -, h⟩) <;> omega
      · rw [List.getElem?_append_right (Nat.le_refl _), Nat.sub_self]
        exact iff_of_true rfl (Or.inl rfl)
      · obtain ⟨m, rfl⟩ := Nat.exists_eq_add_of_lt hgt
        have hm : w.length + m + 1 - w.length = m + 1 := by omega
        rw [List.getElem?_append_right (by omega), hm, List.getElem?_cons_succ, ih m]
        constructor
        · rintro ⟨vs, hpre, hne, hne', hlen⟩
          exact Or.inr ⟨vs, hpre, hne, hne', by omega⟩
        · rintro (h | ⟨vs, hpre, hne, hne', hlen⟩)
          · omega
          · exact ⟨vs, hpre, hne, hne', by omega⟩

end Join

/-! ## Squeezing -/

section Squeeze

variable {keep : α → Bool} {sep : α} {prev : Bool} {c : α} {s : List α}

theorem squeeze_keep (h : keep c = true) :
    squeeze keep sep prev (c :: s) = c :: squeeze keep sep false s := by
  rw [squeeze, if_pos h]

theorem squeeze_skip (h : keep c = false) :
    squeeze keep sep prev (c :: s)
      = (if prev then [] else [sep]) ++ squeeze keep sep true s := by
  rw [squeeze, if_neg (by simp [h])]
  cases prev <;> rfl

/-- Up to an element that is kept the one pass does not depend on what comes after it. -/
theorem squeeze_append (h : keep c = true) (x y : List α) :
    squeeze keep sep prev (x ++ c :: y)
      = squeeze keep sep prev (x ++ [c]) ++ squeeze keep sep false y := by
  induction x generalizing prev with
  | nil =>
    rw [List.nil_append, List.nil_append, squeeze_keep h, squeeze_keep h]
    rfl
  | cons a x ih =>
    rw [List.cons_append, List.cons_append]
    cases ha : keep a with
    | true => rw [squeeze_keep ha, squeeze_keep ha, ih, List.cons_append]
    | false => rw [squeeze_skip ha, squeeze_skip ha, ih, List.append_assoc]

/-- It ends in the last element that is kept. -/
theorem getLast?_squeeze (h : keep c = true) (x : List α) :
    (squeeze keep sep prev (x ++ [c])).getLast? = some c := by
  rw [show x ++ [c] = x ++ c :: [] from rfl]
  induction x generalizing prev with
  | nil =>
    rw [List.nil_append, squeeze_keep h]
    rfl
  | cons a x ih =>
    rw [List.cons_append]
    cases ha : keep a with
    | true => rw [squeeze_keep ha, List.getLast?_cons, ih, Option.getD_some]
    | false => rw [squeeze_skip ha, List.getLast?_append, ih, Option.some_or]

theorem mem_squeeze {a : α} (h : a ∈ squeeze keep sep prev s) : keep a = true ∨ a = sep := by
  induction s generalizing prev with
  | nil => cases h
  | cons c s ih =>
    cases hc : keep c with
    | true =>
      rw [squeeze_keep hc] at h
      rcases List.mem_cons.mp h with rfl | h
      · exact Or.inl hc
      · exact ih h
    | false =>
      rw [squeeze_skip hc] at h
      rcases List.mem_append.mp h with h | h
      · cases prev with
        | true => cases h
        | false => exact Or.inr (List.mem_singleton.mp h)
      · exact ih h

/-- Right after a separator there is none. -/
theorem head?_squeeze (hsep : keep sep = false) : (squeeze keep sep true s).head? ≠ some sep := by
  induction s with
  | nil =>
    intro h
    cases h
  | cons c s ih =>
    cases hc : keep c with
    | true =>
      rw [squeeze_keep hc]
      intro h
      rw [Option.some.inj h, hsep] at hc
      cases hc
    | false =>
      rw [squeeze_skip hc]
      exact ih

theorem isChain_initial {R : α → α → Prop} {t : List α} (h : t <+: s) (hs : s.IsChain R) :
    t.IsChain R := by
  obtain ⟨r, rfl⟩ := h
  exact hs.left_of_append

theorem isChain_squeeze (hsep : keep sep = false) :
    (squeeze keep sep prev s).IsChain (fun a b => a = sep → b ≠ sep) := by
  induction s generalizing prev with
  | nil => exact List.isChain_nil
  | cons c s ih =>
    cases hc : keep c with
    | true =>
      rw [squeeze_keep hc, List.isChain_cons]
      refine ⟨?_, ih⟩
      rintro y - rfl
      rw [hsep] at hc
      cases hc
    | false =>
      rw [squeeze_skip hc]
      cases prev with
      | true => exact ih
      | false =>
        refine List.isChain_cons.mpr ⟨?_, ih⟩
        rintro y hy - rfl
        exact head?_squeeze hsep hy

/-- What is canonical has nothing to squeeze. -/
theorem squeeze_of_canonical (hsep : keep sep = false) (hchars : ∀ c ∈ s, keep c = true ∨ c = sep)
    (hsingle : s.IsChain (fun a b => a = sep → b ≠ sep))
    (hprev : prev = true → s.head? ≠ some sep) : squeeze keep sep prev s = s := by
  induction s generalizing prev with
  | nil => rfl
  | cons c s ih =>
    have hrest : ∀ a ∈ s, keep a = true ∨ a = sep := fun a ha => hchars a (List.mem_cons_of_mem _ ha)
    obtain ⟨hnext, hsingle⟩ := List.isChain_cons.mp hsingle
    rcases hchars c List.mem_cons_self with hc | rfl
    · rw [squeeze_keep hc, ih hrest hsingle (fun h => absurd h (by decide))]
    · have hprev' : prev = false := by
        cases prev with
        | true => exact absurd rfl (hprev rfl)
        | false => rfl
      rw [squeeze_skip hsep, hprev', ih hrest hsingle (fun _ h => hnext c h rfl rfl)]
      rfl

/-- What is not kept, be it one or many, leaves one separator at most. -/
theorem squeeze_skip_append {x y : List α} (hne : x ≠ []) (h : ∀ c ∈ x, keep c = false) :
    squeeze keep sep prev (x ++ y)
      = (if prev then [] else [sep]) ++ squeeze keep sep true y := by
  induction x generalizing prev with
  | nil => exact absurd rfl hne
  | cons c x ih =>
    obtain ⟨hc, hx⟩ := List.forall_mem_cons.mp h
    rw [List.cons_append, squeeze_skip hc]
    by_cases hnil : x = []
    · rw [hnil, List.nil_append]
    · rw [ih hnil hx, if_pos rfl, List.nil_append]

/-- Cut off, a canonical list is canonical unless the cut is right behind a separator. -/
theorem Canonical.take {n : Nat} (h : Canonical keep sep s) (hn : n ≠ 0) :
    Canonical keep sep (s.take n) ↔ s[n - 1]? ≠ some sep := by
  have hlast : (s.take n).getLast? = s[n - 1]?.or s.getLast? := by
    rw [List.getLast?_take, if_neg hn]
  constructor
  · intro ht hsep
    apply ht.last
    rw [hlast, hsep]
    rfl
  · intro hsep
    have hpre : s.take n <+: s := List.take_prefix n s
    have hne : s.take n ≠ [] := by
      rw [Ne, List.take_eq_nil_iff, not_or]
      exact ⟨hn, h.ne_nil⟩
    refine ⟨hne, fun c hc => h.chars c (hpre.subset hc), ?_, ?_, isChain_initial hpre h.single⟩
    · rw [List.head?_take, if_neg hn]
      exact h.first
    · rw [hlast]
      cases hs : s[n - 1]? with
      | none => exact h.last
      | some c =>
        rw [hs] at hsep
        exact hsep

end Squeeze

/-! ## Trimming -/

section Trim

variable [DecidableEq α]

/-- Drop separators from the end. -/
def rtrim (sep : α) (s : List α) : List α := s.rdropWhile (fun c => decide (c = sep))

/-- Drop separators from both ends. -/
def trim (sep : α) (s : List α) : List α := rtrim sep (s.dropWhile (fun c => decide (c = sep)))

variable {keep : α → Bool} {sep : α} {prev : Bool} {c : α} {s t : List α}

theorem rtrim_cons : rtrim sep (c :: s)
    = if rtrim sep s = [] then if c = sep then [] else [c] else c :: rtrim sep s := by
  rw [rtrim, rtrim, List.rdropWhile, List.rdropWhile, List.reverse_cons, List.dropWhile_append]
  by_cases h : s.reverse.dropWhile (fun c => decide (c = sep)) = []
  · by_cases hc : c = sep <;> simp [h, hc]
  · simp [h]

theorem rtrim_cons_of_ne (h : c ≠ sep) : rtrim sep (c :: s) = c :: rtrim sep s := by
  rw [rtrim_cons, if_neg h]
  split
  · rename_i hnil
    rw [hnil]
  · rfl

theorem rtrim_cons_congr (h : rtrim sep s = rtrim sep t) :
    rtrim sep (c :: s) = rtrim sep (c :: t) := by
  rw [rtrim_cons, rtrim_cons, h]

/-- Nothing is dropped from what ends in no separator. -/
theorem rtrim_append {m : List α} (h : m.getLast? = some c) (hc : c ≠ sep) :
    rtrim sep (m ++ s) = m ++ rtrim sep s := by
  induction m with
  | nil => cases h
  | cons a m ih =>
    cases m with
    | nil =>
      obtain rfl : a = c := Option.some.inj h
      exact rtrim_cons_of_ne hc
    | cons b m =>
      have ih := ih (by rw [← h]; rfl)
      rw [List.cons_append, rtrim_cons, ih, if_neg (by simp)]
      rfl

theorem getLast?_rtrim : (rtrim sep s).getLast? ≠ some sep := by
  intro h
  have hne : rtrim sep s ≠ [] := by
    intro hnil
    rw [hnil] at h
    cases h
  rw [List.getLast?_eq_some_getLast hne] at h
  have hlast := List.rdropWhile_last_not (fun c => decide (c = sep)) s hne
  exact hlast (decide_eq_true (Option.some.inj h))

theorem dropWhile_of_head? (h : s.head? ≠ some sep) :
    s.dropWhile (fun c => decide (c = sep)) = s := by
  cases s with
  | nil => rfl
  | cons c s =>
    rw [List.dropWhile_cons, if_neg]
    intro hc
    exact h (congrArg some (of_decide_eq_true hc))

theorem trim_of_ends (hfirst : s.head? ≠ some sep) (hlast : s.getLast? ≠ some sep) :
    trim sep s = s := by
  rw [trim, dropWhile_of_head? hfirst, rtrim, List.rdropWhile_eq_self_iff]
  intro hne hc
  rw [List.getLast?_eq_some_getLast hne] at hlast
  exact hlast (congrArg some (of_decide_eq_true hc))

/-- The one separator that may be in front goes. -/
theorem trim_squeeze_false (hsep : keep sep = false) :
    trim sep (squeeze keep sep false s) = rtrim sep (squeeze keep sep true s) := by
  rw [trim]
  cases s with
  | nil => rfl
  | cons c s =>
    cases hc : keep c with
    | true =>
      rw [squeeze_keep hc, squeeze_keep hc, dropWhile_of_head?]
      intro h
      rw [Option.some.inj h, hsep] at hc
      cases hc
    | false =>
      rw [squeeze_skip hc, squeeze_skip hc]
      rw [if_neg (by decide), if_pos rfl, List.nil_append, List.singleton_append,
        List.dropWhile_cons, if_pos (decide_eq_true rfl), dropWhile_of_head? (head?_squeeze hsep)]

end Trim

/-! ## The words -/

section Words

variable {keep : α → Bool} {sep : α} {c : α} {s : List α}

theorem splitOnP_keep (h : keep c = true) {w : List α} {ws : List (List α)}
    (hs : s.splitOnP (fun c => !keep c) = w :: ws) :
    (c :: s).splitOnP (fun c => !keep c) = (c :: w) :: ws := by
  rw [List.splitOnP_cons_eq_if_modifyHead, if_neg (by simp [h]), hs, List.modifyHead_cons]

theorem splitOnP_skip (h : keep c = false) :
    (c :: s).splitOnP (fun c => !keep c) = [] :: s.splitOnP (fun c => !keep c) := by
  rw [List.splitOnP_cons_eq_if_modifyHead, if_pos (by simp [h])]

/-- What a list is split at is in none of the pieces. -/
theorem not_of_mem_splitOnP {p : α → Bool} {w : List α} (h : w ∈ s.splitOnP p) :
    ∀ c ∈ w, p c = false := by
  induction s generalizing w with
  | nil =>
    rw [List.splitOnP_nil, List.mem_singleton] at h
    simp [h]
  | cons x xs ih =>
    rw [List.splitOnP_cons_eq_if_modifyHead] at h
    split at h
    · rcases List.mem_cons.mp h with rfl | h
      · simp
      · exact ih h
    · rename_i hx
      cases hs : xs.splitOnP p with
      | nil => exact absurd hs (List.splitOnP_ne_nil _ _)
      | cons v vs =>
        rw [hs, List.modifyHead_cons] at h
        rw [hs] at ih
        rcases List.mem_cons.mp h with rfl | h
        · exact List.forall_mem_cons.mpr ⟨by simpa using hx, ih List.mem_cons_self⟩
        · exact ih (List.mem_cons_of_mem _ h)

theorem word {w : List α} (h : w ∈ words keep s) : w ≠ [] ∧ ∀ c ∈ w, keep c = true := by
  obtain ⟨hmem, hne⟩ := List.mem_filter.mp h
  exact ⟨by simpa using hne, fun c hc => by simpa using not_of_mem_splitOnP hmem c hc⟩

theorem sep_not_mem (hsep : keep sep = false) {w : List α} (h : w ∈ words keep s) : sep ∉ w := by
  intro hmem
  have := (word h).2 sep hmem
  rw [hsep] at this
  cases this

theorem join_words_eq_nil : join sep (words keep s) = [] ↔ words keep s = [] := by
  constructor
  · intro h
    by_contra hne
    exact join_ne_nil hne (fun w hw => (word hw).1) h
  · intro h
    rw [h]
    rfl

/-- A list without words has nothing in it that is kept. -/
theorem words_eq_nil : words keep s = [] ↔ ∀ c ∈ s, keep c = false := by
  induction s with
  | nil => simp [words]
  | cons c s ih =>
    cases hc : keep c with
    | false =>
      have hskip : words keep (c :: s) = words keep s := by
        rw [words, splitOnP_skip hc]
        rfl
      rw [hskip, ih, List.forall_mem_cons, and_iff_right hc]
    | true =>
      refine iff_of_false ?_ (fun h => ?_)
      · cases hs : s.splitOnP (fun c => !keep c) with
        | nil => exact absurd hs (List.splitOnP_ne_nil _ _)
        | cons v vs =>
          rw [words, splitOnP_keep hc hs]
          simp
      · have := h c List.mem_cons_self
        rw [hc] at this
        cases this

variable [DecidableEq α]

/-- Squeezed, and trimmed at the end, a list is its words joined; and after something that is
kept, the rest of the word that stands there comes first. -/
theorem rtrim_squeeze (hsep : keep sep = false) :
    rtrim sep (squeeze keep sep true s) = join sep (words keep s) ∧
      ∀ w ws, s.splitOnP (fun c => !keep c) = w :: ws →
        rtrim sep (squeeze keep sep false s) = w ++
          if ws.filter (fun w => !w.isEmpty) = [] then []
          else sep :: join sep (ws.filter (fun w => !w.isEmpty)) := by
  induction s with
  | nil =>
    refine ⟨rfl, ?_⟩
    intro w ws h
    obtain ⟨rfl, rfl⟩ := List.cons.inj h
    rfl
  | cons c s ih =>
    cases hc : keep c with
    | false =>
      -- a character that is not kept ends the word, if there was one
      rw [squeeze_skip hc, squeeze_skip hc, if_pos rfl, if_neg (by decide), List.nil_append,
        List.singleton_append, words, splitOnP_skip hc]
      refine ⟨ih.1, ?_⟩
      intro w ws h
      obtain ⟨rfl, rfl⟩ := List.cons.inj h
      rw [rtrim_cons, ih.1, if_pos rfl]
      simp only [join_words_eq_nil, List.nil_append]
      rfl
    | true =>
      -- a character that is kept goes to the first word of the rest
      have hne : c ≠ sep := by
        rintro rfl
        rw [hsep] at hc
        cases hc
      cases hs : s.splitOnP (fun c => !keep c) with
      | nil => exact absurd hs (List.splitOnP_ne_nil _ _)
      | cons v vs =>
        have ih := ih.2 v vs hs
        rw [squeeze_keep hc, squeeze_keep hc, rtrim_cons_of_ne hne, ih, words,
          splitOnP_keep hc hs]
        refine ⟨?_, ?_⟩
        · have hfilter : ((c :: v) :: vs).filter (fun w => !w.isEmpty)
              = (c :: v) :: vs.filter (fun w => !w.isEmpty) := List.filter_cons_of_pos rfl
          rw [hfilter]
          split
          · rename_i hnil
            rw [hnil, join_singleton, List.append_nil]
          · rename_i hnil
            rw [join_cons _ hnil]
            rfl
        · intro w ws h
          obtain ⟨rfl, rfl⟩ := List.cons.inj h
          rfl

/-- Squeezed and trimmed, a list is its words joined. -/
theorem trim_squeeze (hsep : keep sep = false) :
    trim sep (squeeze keep sep false s) = join sep (words keep s) := by
  rw [trim_squeeze_false hsep]
  exact (rtrim_squeeze hsep).1

theorem trim_squeeze_eq_nil (hsep : keep sep = false) :
    trim sep (squeeze keep sep false s) = [] ↔ ∀ c ∈ s, keep c = false := by
  rw [trim_squeeze hsep, join_words_eq_nil, words_eq_nil]

/-! ## Canonical form -/

theorem canonical_trim_squeeze (hsep : keep sep = false)
    (hne : trim sep (squeeze keep sep false s) ≠ []) :
    Canonical keep sep (trim sep (squeeze keep sep false s)) := by
  rw [trim_squeeze_false hsep] at hne ⊢
  have hpre : rtrim sep (squeeze keep sep true s) <+: squeeze keep sep true s :=
    List.rdropWhile_prefix _ _
  refine ⟨hne, ?_, ?_, getLast?_rtrim, isChain_initial hpre (isChain_squeeze hsep)⟩
  · exact fun c hc => mem_squeeze (hpre.subset hc)
  · intro h
    obtain ⟨t, ht⟩ := hpre
    apply head?_squeeze (s := s) hsep
    rw [← ht, List.head?_append_of_ne_nil _ hne]
    exact h

/-- The canonical form of what is canonical is itself. -/
theorem Canonical.trim_squeeze (hsep : keep sep = false) (h : Canonical keep sep s) :
    trim sep (squeeze keep sep false s) = s := by
  rw [squeeze_of_canonical hsep h.chars h.single (fun hp => absurd hp (by decide)),
    trim_of_ends h.first h.last]

end Words

end Words
