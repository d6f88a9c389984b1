import Mathlib.Algebra.Group.Nat.Defs
import Mathlib.Tactic.Common

/-!
# `Sscanf` with numbers in decimal

The part of Go's `fmt.Sscanf` that reads literal text and `%d`. Each piece takes the input
that is left and gives back what it leaves; `none` is an error. Nothing asks that the input
be used up, and `%d` passes over blanks before the number.
-/

namespace Scanf

/-- `isSpace` of `fmt/scan.go` -/
def isSpace (c : Char) : Bool :=
  let n := c.toNat
  (9 ≤ n && n ≤ 13) || n == 0x20 || n == 0x85 || n == 0xA0 || n == 0x1680
    || (0x2000 ≤ n && n ≤ 0x200A) || n == 0x2028 || n == 0x2029 || n == 0x202F
    || n == 0x205F || n == 0x3000

/-- `SkipSpace`, with no line break allowed. -/
def skipSpace : List Char → Option (List Char)
  | [] => some []
  | c :: s => if c = '\n' then none else if isSpace c then skipSpace s else some (c :: s)

/-- `scanNumber`: at least one digit. -/
def scanNumber (s : List Char) : Option (Nat × List Char) :=
  if s.takeWhile Char.isDigit = [] then none
  else some (Nat.ofDigitChars 10 (s.takeWhile Char.isDigit) 0, s.dropWhile Char.isDigit)

/-- `%d` into an unsigned integer. -/
def scanUint (bits : Nat) (s : List Char) : Option (Nat × List Char) := do
  let s ← skipSpace s
  let (n, rest) ← scanNumber s
  if n < 2 ^ bits then some (n, rest) else none

/-- `accept(sign)` -/
def scanSign : List Char → Bool × List Char
  | '+' :: s => (false, s)
  | '-' :: s => (true, s)
  | s => (false, s)

/-- `strconv.ParseInt` into 64 bits, of a sign and digits. -/
def asInt64 : Bool → Nat → Option Int
  | false, n => if n < 9223372036854775808 then some n else none
  | true, n => if n ≤ 9223372036854775808 then some (-n) else none

/-- `%d` into a signed integer of 64 bits. -/
def scanInt (s : List Char) : Option (Int × List Char) := do
  let s ← skipSpace s
  let (n, rest) ← scanNumber (scanSign s).2
  let i ← asInt64 (scanSign s).1 n
  return (i, rest)

/-- Text of the format itself. -/
def literal (w s : List Char) : Option (List Char) :=
  if w <+: s then some (s.drop w.length) else none

/-! ## Reading back what was printed -/

theorem literal_append (w s : List Char) : literal w (w ++ s) = some s := by
  rw [literal, if_pos (List.prefix_append w s), List.drop_left]

theorem isDigit_toNat {c : Char} (h : c.isDigit) : 48 ≤ c.toNat ∧ c.toNat ≤ 57 := by
  simp only [Char.isDigit, Bool.and_eq_true, decide_eq_true_eq] at h
  exact ⟨UInt32.le_iff_toNat_le.mp h.1, UInt32.le_iff_toNat_le.mp h.2⟩

theorem isSpace_of_isDigit {c : Char} (h : c.isDigit) : isSpace c = false := by
  have := isDigit_toNat h
  simp only [isSpace, Bool.or_eq_false_iff, Bool.and_eq_false_iff, decide_eq_false_iff_not,
    beq_eq_false_iff_ne]
  omega

theorem skipSpace_of_isDigit {c : Char} {s : List Char} (h : c.isDigit) :
    skipSpace (c :: s) = some (c :: s) := by
  have hne : c ≠ '\n' := by
    rintro rfl
    exact absurd h (by decide)
  rw [skipSpace, if_neg hne, isSpace_of_isDigit h]
  rfl

theorem scanSign_of_isDigit {c : Char} {s : List Char} (h : c.isDigit) :
    scanSign (c :: s) = (false, c :: s) := by
  have hplus : c ≠ '+' := by
    rintro rfl
    exact absurd h (by decide)
  have hminus : c ≠ '-' := by
    rintro rfl
    exact absurd h (by decide)
  simp [scanSign, hplus, hminus]

/-- A number as printed begins with a digit. -/
theorem toDigits_eq_cons (n : Nat) : ∃ d ds, Nat.toDigits 10 n = d :: ds ∧ d.isDigit := by
  cases h : Nat.toDigits 10 n with
  | nil => exact absurd h Nat.toDigits_ne_nil
  | cons d ds =>
    refine ⟨d, ds, rfl, Nat.isDigit_of_mem_toDigits (b := 10) (n := n) (by decide) (by decide) ?_⟩
    rw [h]
    exact List.mem_cons_self

/-- A number as printed is read back as far as it goes. -/
theorem scanNumber_toDigits (n : Nat) {rest : List Char}
    (h : ∀ c ∈ rest.head?, c.isDigit = false) :
    scanNumber (Nat.toDigits 10 n ++ rest) = some (n, rest) := by
  have hds : ∀ c ∈ Nat.toDigits 10 n, c.isDigit :=
    fun c hc => Nat.isDigit_of_mem_toDigits (by decide) (by decide) hc
  have htake : rest.takeWhile Char.isDigit = [] ∧ rest.dropWhile Char.isDigit = rest := by
    cases rest with
    | nil => exact ⟨rfl, rfl⟩
    | cons c rest =>
      have hc : c.isDigit = false := h c rfl
      simp [hc]
  rw [scanNumber, List.takeWhile_append_of_pos hds, List.dropWhile_append_of_pos hds, htake.1,
    htake.2, List.append_nil, if_neg Nat.toDigits_ne_nil, Nat.ofDigitChars_ten_toDigits]

theorem scanUint_toDigits {bits n : Nat} (hn : n < 2 ^ bits) (rest : List Char)
    (h : ∀ c ∈ rest.head?, c.isDigit = false) :
    scanUint bits (Nat.toDigits 10 n ++ rest) = some (n, rest) := by
  obtain ⟨d, ds, hd, hdigit⟩ := toDigits_eq_cons n
  have hnum := scanNumber_toDigits n h
  rw [hd, List.cons_append] at hnum ⊢
  simp only [scanUint, skipSpace_of_isDigit hdigit, Option.bind_eq_bind, Option.bind_some, hnum,
    if_pos hn]

theorem scanInt_toDigits {n : Nat} (hn : n < 9223372036854775808) (rest : List Char)
    (h : ∀ c ∈ rest.head?, c.isDigit = false) :
    scanInt (Nat.toDigits 10 n ++ rest) = some ((n : Int), rest) := by
  obtain ⟨d, ds, hd, hdigit⟩ := toDigits_eq_cons n
  have hnum := scanNumber_toDigits n h
  rw [hd, List.cons_append] at hnum ⊢
  have hval : asInt64 false n = some (n : Int) := if_pos hn
  simp only [scanInt, skipSpace_of_isDigit hdigit, scanSign_of_isDigit hdigit,
    Option.bind_eq_bind, Option.bind_some, hnum, hval]
  rfl

end Scanf
