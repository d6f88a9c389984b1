import TelegramCms.Lib.PyStr

/-!
# Text tools

What scripts take text apart with: `grep` for a word at the beginning of a line, `cut` for a
field, and the substitution of what a command prints, which drops the newlines at its end.
-/

namespace TextTools

/-- The word characters of `grep`. -/
def isWordChar (c : Char) : Bool := c.isAlphanum || c == '_'

/-- The characters of a pattern without other operators match those of the text; a dot matches
any. -/
def dotMatch (same : Char → Char → Bool) : (pattern text : Text) → Bool
  | [], [] => true
  | p :: ps, c :: cs => (p == '.' || same p c) && dotMatch same ps cs
  | _, _ => false

/-- `\b` between these two. -/
def wordEdge (a b : Option Char) : Bool := a.any isWordChar != b.any isWordChar

/-- `grep -E "^${pattern}\b"` selects the line. -/
def beginsWithWord (pattern line : Text) : Bool :=
  dotMatch (· == ·) pattern (line.take pattern.length)
    && wordEdge (line.take pattern.length).getLast? (line.drop pattern.length).head?

/-- `cut -f`, where fields count from 0. The line has a tab before the field. -/
def cut : Nat → Text → Text
  | 0, line => line.takeWhile (· ≠ '\t')
  | n + 1, line => cut n ((line.dropWhile (· ≠ '\t')).drop 1)

/-- `$(…)` of a command that prints these lines. -/
def captured (lines : List Text) : Text := (Py.join ['\n'] lines).rdropWhile (· == '\n')

/-! ## Fields -/

theorem cut_zero {a rest : Text} (h : '\t' ∉ a) : cut 0 (a ++ '\t' :: rest) = a :=
  Py.takeWhile_ne h

theorem cut_last {a : Text} (h : '\t' ∉ a) : cut 0 a = a :=
  List.takeWhile_eq_self_iff.mpr fun _ hc => decide_eq_true fun he => h (he ▸ hc)

theorem cut_succ {n : Nat} {a rest : Text} (h : '\t' ∉ a) :
    cut (n + 1) (a ++ '\t' :: rest) = cut n rest := by
  rw [cut, Py.dropWhile_ne h]
  rfl

/-! ## Lines -/

theorem rdropWhile_newline {v : Text} (h : '\n' ∉ v) : v.rdropWhile (· == '\n') = v := by
  rw [List.rdropWhile_eq_self_iff]
  intro hne hl
  exact h (beq_iff_eq.mp hl ▸ List.getLast_mem hne)

/-- A line before others: the newline between them stays if anything follows. -/
theorem captured_cons {v : Text} {vs : List Text} (h : '\n' ∉ v) :
    captured (v :: vs) = if captured vs = [] then v else v ++ '\n' :: captured vs := by
  cases vs with
  | nil => simpa [captured, Py.join] using rdropWhile_newline h
  | cons w ws =>
      have hjoin : Py.join ['\n'] (v :: w :: ws) = (v ++ ['\n']) ++ Py.join ['\n'] (w :: ws) := by
        rw [Py.join, List.intercalate_cons_cons]
        rfl
      unfold captured
      rw [hjoin, List.rdropWhile, List.reverse_append, List.dropWhile_append]
      -- the lines that follow are all empty, or there is an end that stays
      by_cases hnil : (Py.join ['\n'] (w :: ws)).rdropWhile (· == '\n') = []
      · rw [if_pos hnil]
        have hrev : (Py.join ['\n'] (w :: ws)).reverse.dropWhile (· == '\n') = [] :=
          List.reverse_eq_nil_iff.mp hnil
        have hv : (v ++ ['\n']).rdropWhile (· == '\n') = v := by
          rw [List.rdropWhile_concat_pos _ _ _ rfl, rdropWhile_newline h]
        rw [hrev, if_pos List.isEmpty_nil]
        exact hv
      · rw [if_neg hnil]
        have hrev : (Py.join ['\n'] (w :: ws)).reverse.dropWhile (· == '\n') ≠ [] :=
          fun he => hnil (List.reverse_eq_nil_iff.mpr he)
        rw [if_neg (by simpa using hrev), List.reverse_append]
        simp [List.rdropWhile]

theorem captured_eq_nil {vs : List Text} (h : ∀ v ∈ vs, '\n' ∉ v) :
    captured vs = [] ↔ ∀ v ∈ vs, v = [] := by
  induction vs with
  | nil => simp [captured, Py.join]
  | cons v vs ih =>
      obtain ⟨hv, hvs⟩ := List.forall_mem_cons.mp h
      rw [captured_cons hv, List.forall_mem_cons, ← ih hvs]
      split
      · rename_i hnil
        simp [hnil]
      · rename_i hnil
        simp [hnil]

/-- What was printed is one line exactly if the lines after it are empty. -/
theorem captured_eq {x v : Text} {vs : List Text} (h : ∀ u ∈ v :: vs, '\n' ∉ u) (hx : '\n' ∉ x) :
    captured (v :: vs) = x ↔ v = x ∧ ∀ u ∈ vs, u = [] := by
  obtain ⟨hv, hvs⟩ := List.forall_mem_cons.mp h
  rw [captured_cons hv, ← captured_eq_nil hvs]
  split
  · rename_i hnil
    simp [hnil]
  · rename_i hnil
    refine iff_of_false (fun he => hx ?_) (fun hboth => hnil hboth.2)
    rw [← he]
    exact List.mem_append_right _ List.mem_cons_self

end TextTools
