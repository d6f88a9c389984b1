import Mathlib.Data.List.DropRight
import Mathlib.Tactic.Common
import TelegramCms.Lib.Words

/-!
# Python strings

A `str` is its list of code points. Only what the modelled programs call is here:
the whitespace test behind `split` and `strip`, and Python's `or`, which passes over
the empty string as well as over `None`.

Then facts about them: words that were split and joined again need no `strip`, fields joined
by a separator that they do not contain can be read back, and what another notion of blank
than Python's strips.
-/

/-- A Python string. -/
abbrev Text := List Char

/-- `s in l` -/
instance (s : Text) (l : List Text) : Decidable (s ∈ l) := List.instDecidableMemOfLawfulBEq s l

namespace Py

/-- `str.isspace` of one character, the class `\s` of `re` as well. -/
def isSpace (c : Char) : Bool :=
  let n := c.toNat
  (9 ≤ n && n ≤ 13) || (28 ≤ n && n ≤ 32) || n == 0x85 || n == 0xA0 || n == 0x1680
    || (0x2000 ≤ n && n ≤ 0x200A) || n == 0x2028 || n == 0x2029 || n == 0x202F
    || n == 0x205F || n == 0x3000

/-- `s.rstrip()` -/
def rstrip (s : Text) : Text := s.rdropWhile isSpace

/-- `s.strip()` -/
def strip (s : Text) : Text := rstrip (s.dropWhile isSpace)

/-- `s.split()`: the maximal runs of non-space characters. -/
def split (s : Text) : List Text := (s.splitOnP isSpace).filter (fun w => !w.isEmpty)

/-- `sep.join(parts)` -/
def join (sep : Text) (parts : List Text) : Text := sep.intercalate parts

/-- `a or b` where `a` may be `None`: `b` unless `a` is a non-empty string. -/
def orElse (a b : Option Text) : Option Text :=
  match a with
  | some (c :: cs) => some (c :: cs)
  | _ => b

/-! ## Words -/

/-- A word that `split` can yield. -/
def IsWord (w : Text) : Prop := w ≠ [] ∧ ∀ c ∈ w, isSpace c = false

theorem isWord_of_mem_split {s w : Text} (h : w ∈ split s) : IsWord w := by
  obtain ⟨hs, hne⟩ := List.mem_filter.mp h
  exact ⟨by simpa using hne, Words.not_of_mem_splitOnP hs⟩

/-- Blanks at either end are all that `strip` takes away. -/
theorem strip_eq_self {s : Text} (hd : ∀ c ∈ s.head?, isSpace c = false)
    (hl : ∀ c ∈ s.getLast?, isSpace c = false) : strip s = s := by
  have hdrop : s.dropWhile isSpace = s := by
    cases s with
    | nil => rfl
    | cons c cs => simp [hd c rfl]
  rw [strip, hdrop, rstrip, List.rdropWhile_eq_self_iff]
  intro hne hlast
  exact absurd hlast (by simp [hl _ (List.getLast?_eq_getLast_of_ne_nil hne)])

theorem rstrip_isPrefix (s : Text) : rstrip s <+: s := List.rdropWhile_prefix isSpace s

theorem strip_infix (s : Text) : strip s <:+: s :=
  (rstrip_isPrefix _).isInfix.trans (List.dropWhile_suffix isSpace).isInfix

theorem rstrip_getLast? {s : Text} : ∀ c ∈ (rstrip s).getLast?, isSpace c = false := by
  intro c hc
  have hne : s.rdropWhile isSpace ≠ [] := by
    intro he
    rw [rstrip, he] at hc
    exact absurd hc (by simp)
  have hlast := List.rdropWhile_last_not isSpace s hne
  rw [rstrip, List.getLast?_eq_getLast_of_ne_nil hne] at hc
  rw [← Option.some.inj hc]
  simpa using hlast

theorem strip_head? {s : Text} : ∀ c ∈ (strip s).head?, isSpace c = false := by
  intro c hc
  obtain ⟨t, ht⟩ := List.head?_eq_some_iff.mp hc
  obtain ⟨u, hu⟩ := rstrip_isPrefix (s.dropWhile isSpace)
  have hhead := List.head?_dropWhile_not isSpace s
  rw [← hu, show rstrip (s.dropWhile isSpace) = c :: t from ht] at hhead
  simpa using hhead

/-- Leading blanks are taken from what precedes `s`, unless there is nothing else. -/
theorem dropWhile_around {p s q : Text}
    (hs : ∀ c ∈ s.head?, isSpace c = true → ∃ y ∈ p, isSpace y = false) :
    s = [] ∨ ∃ p', (p ++ s ++ q).dropWhile isSpace = p' ++ s ++ q := by
  cases s with
  | nil => exact .inl rfl
  | cons c t =>
      right
      rw [List.append_assoc, List.dropWhile_append]
      by_cases hp : (p.dropWhile isSpace).isEmpty = true
      · rw [if_pos hp]
        have hall : ∀ y ∈ p, isSpace y = true := by simpa using hp
        have hc : isSpace c = false := by
          rw [Bool.eq_false_iff]
          intro hsp
          obtain ⟨y, hy, hns⟩ := hs c rfl hsp
          rw [hall y hy] at hns
          exact absurd hns (by simp)
        exact ⟨[], by simp [hc]⟩
      · rw [if_neg hp]
        exact ⟨_, (List.append_assoc _ _ _).symm⟩

/-- `strip` keeps what has something other than blanks on either side, or none at its ends. -/
theorem infix_strip {p s q : Text}
    (hl : ∀ c ∈ s.head?, isSpace c = true → ∃ y ∈ p, isSpace y = false)
    (hr : ∀ c ∈ s.getLast?, isSpace c = true → ∃ y ∈ q, isSpace y = false) :
    s <:+: strip (p ++ s ++ q) := by
  rcases dropWhile_around (q := q) hl with rfl | ⟨p', hp'⟩
  · exact List.nil_infix
  have hrev : ∀ c ∈ s.reverse.head?, isSpace c = true → ∃ y ∈ q.reverse, isSpace y = false := by
    simpa using hr
  rcases dropWhile_around (q := p'.reverse) hrev with hs | ⟨q', hq'⟩
  · rw [List.reverse_eq_nil_iff.mp hs]
    exact List.nil_infix
  · have hrl : (p' ++ s ++ q).reverse = q.reverse ++ s.reverse ++ p'.reverse := by simp
    rw [strip, hp', rstrip, List.rdropWhile, hrl, hq']
    exact ⟨p', q'.reverse, by simp⟩

theorem join_head? {sep w : Text} {ws : List Text} (hw : w ≠ []) :
    (join sep (w :: ws)).head? = w.head? := by
  cases ws with
  | nil => rw [join, List.intercalate_singleton]
  | cons v vs =>
    rw [join, List.intercalate_cons_cons, List.append_assoc, List.head?_append_of_ne_nil _ hw]

theorem join_getLast?_mem {sep : Text} {ws : List Text} (hw : ∀ w ∈ ws, w ≠ []) {c : Char}
    (hc : c ∈ (join sep ws).getLast?) : ∃ w ∈ ws, c ∈ w := by
  induction ws with
  | nil => simp [join] at hc
  | cons w ws ih =>
    cases ws with
    | nil =>
      rw [join, List.intercalate_singleton] at hc
      exact ⟨w, List.mem_singleton_self w, List.mem_of_getLast? hc⟩
    | cons v vs =>
      have hne : sep.intercalate (v :: vs) ≠ [] := by
        intro he
        have hh : (join sep (v :: vs)).head? = v.head? := join_head? (hw v (by simp))
        rw [join, he] at hh
        exact hw v (by simp) (List.head?_eq_none_iff.mp hh.symm)
      rw [join, List.intercalate_cons_cons, List.getLast?_append_of_ne_nil _ hne] at hc
      obtain ⟨u, hu, hcu⟩ := ih (fun u hu => hw u (List.mem_cons_of_mem _ hu)) hc
      exact ⟨u, List.mem_cons_of_mem _ hu, hcu⟩

theorem strip_join_split (sep s : Text) : strip (join sep (split s)) = join sep (split s) := by
  have hword : ∀ w ∈ split s, IsWord w := fun w => isWord_of_mem_split
  apply strip_eq_self
  · intro c hc
    cases hs : split s with
    | nil => rw [hs] at hc; simp [join] at hc
    | cons w ws =>
      rw [hs] at hc hword
      have hw := hword w List.mem_cons_self
      rw [join_head? hw.1] at hc
      exact hw.2 c (List.mem_of_head? hc)
  · intro c hc
    obtain ⟨w, hw, hcw⟩ := join_getLast?_mem (fun w hw => (hword w hw).1) hc
    exact (hword w hw).2 c hcw

/-! ## Fields -/

/-- What stands before and after the first separator. -/
theorem append_sep_inj {sep : Char} {x y u v : Text} (hx : sep ∉ x) (hy : sep ∉ y) :
    x ++ sep :: u = y ++ sep :: v ↔ x = y ∧ u = v := by
  constructor
  · intro h
    induction x generalizing y with
    | nil =>
      cases y with
      | nil => exact ⟨rfl, (List.cons.inj h).2⟩
      | cons c cs => exact absurd (List.cons.inj h).1 (fun hc => hy (hc ▸ List.mem_cons_self))
    | cons c cs ih =>
      cases y with
      | nil => exact absurd (List.cons.inj h).1 (fun hc => hx (hc ▸ List.mem_cons_self))
      | cons d ds =>
        obtain ⟨rfl, ht⟩ := List.cons.inj h
        obtain ⟨rfl, rfl⟩ := ih (fun hm => hx (List.mem_cons_of_mem _ hm))
          (fun hm => hy (List.mem_cons_of_mem _ hm)) ht
        exact ⟨rfl, rfl⟩
  · rintro ⟨rfl, rfl⟩
    rfl

theorem toDigits_inj {m n : Nat} : Nat.toDigits 10 m = Nat.toDigits 10 n ↔ m = n := by
  constructor
  · intro h
    have hd := congrArg (fun l => Nat.ofDigitChars 10 l 0) h
    simpa only [Nat.ofDigitChars_ten_toDigits] using hd
  · rintro rfl
    rfl

theorem notMem_toDigits {c : Char} (hc : c.isDigit = false) (n : Nat) : c ∉ Nat.toDigits 10 n := by
  intro h
  have hd := Nat.isDigit_of_mem_toDigits (by decide) (by decide) h
  exact absurd hd (by simp [hc])

/-! ## What stands before a separator -/

section Separator

variable {sep : Char} {s rest : Text}

theorem takeWhile_ne (h : sep ∉ s) : (s ++ sep :: rest).takeWhile (fun c => c ≠ sep) = s := by
  have hall : ∀ c ∈ s, decide (c ≠ sep) = true := fun c hc => decide_eq_true fun he => h (he ▸ hc)
  rw [List.takeWhile_append_of_pos hall]
  simp

theorem dropWhile_ne (h : sep ∉ s) :
    (s ++ sep :: rest).dropWhile (fun c => c ≠ sep) = sep :: rest := by
  have hall : ∀ c ∈ s, decide (c ≠ sep) = true := fun c hc => decide_eq_true fun he => h (he ▸ hc)
  rw [List.dropWhile_append_of_pos hall]
  simp

end Separator

/-! ## Two notions of blank -/

/-- `s` without the characters at either end that pass the test. -/
def trim (p : Char → Bool) (s : Text) : Text := (s.dropWhile p).rdropWhile p

section Trim

variable {p q : Char → Bool} {s a m b : Text}

theorem dropWhile_core (hm : m ≠ []) (hh : ∀ c ∈ m.head?, p c = false) :
    (a ++ m).dropWhile p = a.dropWhile p ++ m := by
  obtain ⟨c, t, rfl⟩ := List.exists_cons_of_ne_nil hm
  have hc : p c = false := hh c rfl
  rw [List.dropWhile_append]
  split
  · rename_i hnil
    rw [List.isEmpty_iff.mp hnil]
    simp [hc]
  · rfl

theorem rdropWhile_core (hm : m ≠ []) (hl : ∀ c ∈ m.getLast?, p c = false) :
    (m ++ b).rdropWhile p = m ++ b.rdropWhile p := by
  have h := dropWhile_core (a := b.reverse) (m := m.reverse) (p := p) (by simpa using hm)
    (by simpa using hl)
  rw [List.rdropWhile, List.reverse_append, h, List.reverse_append, List.reverse_reverse]
  rfl

/-- What a text with something in it is made of. -/
structure Core (p : Char → Bool) (s a m b : Text) : Prop where
  parts : s = a ++ m ++ b
  left : ∀ c ∈ a, p c = true
  right : ∀ c ∈ b, p c = true
  ne_nil : m ≠ []
  head : ∀ c ∈ m.head?, p c = false
  last : ∀ c ∈ m.getLast?, p c = false

theorem exists_core (h : ∃ c ∈ s, p c = false) : ∃ a m b, Core p s a m b := by
  have hhead : ∀ c ∈ (s.dropWhile p).head?, p c = false := by
    intro c hc
    have hnot := List.head?_dropWhile_not p s
    rw [Option.mem_def.mp hc] at hnot
    simpa using hnot
  have hne : (s.dropWhile p).rdropWhile p ≠ [] := by
    intro hnil
    have hall := List.rdropWhile_eq_nil_iff.mp hnil
    cases hd : s.dropWhile p with
    | nil =>
        obtain ⟨c, hc, hpc⟩ := h
        exact absurd (List.dropWhile_eq_nil_iff.mp hd c hc) (by simp [hpc])
    | cons c t =>
        have hpc := hall c (by rw [hd]; exact List.mem_cons_self)
        exact absurd hpc (by simp [hhead c (by rw [hd]; rfl)])
  refine ⟨s.takeWhile p, (s.dropWhile p).rdropWhile p, (s.dropWhile p).rtakeWhile p, ?_⟩
  refine ⟨?_, fun c hc => List.mem_takeWhile_imp hc, fun c hc => List.mem_rtakeWhile_imp hc, hne,
    fun c hc => hhead c ?_, fun c hc => ?_⟩
  · rw [List.append_assoc, List.rdropWhile_append_rtakeWhile, List.takeWhile_append_dropWhile]
  · obtain ⟨u, hu⟩ := List.rdropWhile_prefix p (s.dropWhile p)
    rw [← hu, List.head?_append_of_ne_nil _ hne]
    exact hc
  · have hlast := List.rdropWhile_last_not p _ hne
    rw [List.getLast?_eq_some_getLast hne] at hc
    rw [← Option.some.inj hc]
    simpa using hlast

theorem Core.trim (h : Core p s a m b) (hqp : ∀ c, p c = false → q c = false) :
    trim q s = a.dropWhile q ++ m ++ b.rdropWhile q := by
  have hh : ∀ c ∈ (m ++ b).head?, q c = false := by
    rw [List.head?_append_of_ne_nil _ h.ne_nil]
    exact fun c hc => hqp c (h.head c hc)
  have hl : ∀ c ∈ (a.dropWhile q ++ m).getLast?, q c = false := by
    rw [List.getLast?_append_of_ne_nil _ h.ne_nil]
    exact fun c hc => hqp c (h.last c hc)
  rw [Py.trim, h.parts, List.append_assoc, dropWhile_core (by simp [h.ne_nil]) hh,
    ← List.append_assoc, rdropWhile_core (by simp [h.ne_nil]) hl]

theorem Core.takeWhile (h : Core p s a m b) : s.takeWhile p = a := by
  have hm : (m ++ b).takeWhile p = [] := by
    obtain ⟨c, t, rfl⟩ := List.exists_cons_of_ne_nil h.ne_nil
    simp [h.head c rfl]
  rw [h.parts, List.append_assoc, List.takeWhile_append_of_pos h.left, hm, List.append_nil]

theorem Core.rtakeWhile (h : Core p s a m b) : s.rtakeWhile p = b := by
  have hm : (m.reverse ++ a.reverse).takeWhile p = [] := by
    obtain ⟨c, t, ht⟩ := List.exists_cons_of_ne_nil (List.reverse_ne_nil_iff.mpr h.ne_nil)
    have hc : p c = false := h.last c (by rw [List.getLast?_eq_head?_reverse, ht]; rfl)
    rw [ht]
    simp [hc]
  rw [List.rtakeWhile, h.parts, List.reverse_append, List.reverse_append,
    List.takeWhile_append_of_pos (by simpa using h.right), hm, List.append_nil, List.reverse_reverse]

theorem trim_eq_nil : trim p s = [] ↔ ∀ c ∈ s, p c = true := by
  rw [trim, List.rdropWhile_eq_nil_iff]
  constructor
  · intro h c hc
    rw [← List.takeWhile_append_dropWhile (p := p) (l := s)] at hc
    rcases List.mem_append.mp hc with hc | hc
    · exact List.mem_takeWhile_imp hc
    · exact h c hc
  · exact fun h c hc => h c ((List.dropWhile_suffix p).subset hc)

/-- A weaker test trims the same from a text with something in it if it takes all that the
stronger test takes at the ends. -/
theorem trim_eq_iff (hqp : ∀ c, p c = false → q c = false) (h : ∃ c ∈ s, p c = false) :
    trim p s = trim q s ↔ ∀ c ∈ s.takeWhile p ++ s.rtakeWhile p, q c = true := by
  obtain ⟨a, m, b, hc⟩ := exists_core h
  have ha : a.dropWhile p = [] := List.dropWhile_eq_nil_iff.mpr hc.left
  have hb : b.rdropWhile p = [] := List.rdropWhile_eq_nil_iff.mpr hc.right
  rw [hc.trim (fun _ h => h), hc.trim hqp, hc.takeWhile, hc.rtakeWhile, ha, hb, List.nil_append,
    List.append_nil]
  constructor
  · intro he
    -- the core is trimmed by neither, so nothing may be left around it
    have hlen := congrArg List.length he
    rw [List.length_append, List.length_append] at hlen
    have ha' : a.dropWhile q = [] := List.eq_nil_of_length_eq_zero (by omega)
    have hb' : b.rdropWhile q = [] := List.eq_nil_of_length_eq_zero (by omega)
    exact List.forall_mem_append.mpr
      ⟨List.dropWhile_eq_nil_iff.mp ha', List.rdropWhile_eq_nil_iff.mp hb'⟩
  · intro hall
    obtain ⟨hla, hlb⟩ := List.forall_mem_append.mp hall
    rw [List.dropWhile_eq_nil_iff.mpr hla, List.rdropWhile_eq_nil_iff.mpr hlb, List.nil_append,
      List.append_nil]

end Trim
end Py
