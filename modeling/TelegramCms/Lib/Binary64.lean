import Mathlib.Data.Nat.Log
import Mathlib.Tactic.Common

/-!
# Integers as binary64 numbers

The integer that is nearest to a given one among those that a significand of 53 bits can
hold, ties to even. The range of the exponent is left out, which no integer of 64 bits comes
near.
-/

namespace Binary64

/-- The weight of the last of the 53 bits. -/
def unit (m : Nat) : Nat := 1 <<< (Nat.log 2 m - 52)

def roundNat (m : Nat) : Nat :=
  let q := m / unit m
  let r := m % unit m
  if 2 * r < unit m ∨ 2 * r = unit m ∧ q % 2 = 0 then q * unit m else (q + 1) * unit m

/-- `float64(n)` -/
def ofInt (n : Int) : Int := if n < 0 then -(roundNat n.natAbs : Int) else roundNat n.natAbs

theorem unit_pos (m : Nat) : 0 < unit m := by
  rw [unit, Nat.one_shiftLeft]
  exact Nat.two_pow_pos _

theorem unit_dvd_roundNat (m : Nat) : unit m ∣ roundNat m := by
  rw [roundNat]
  split
  · exact Nat.dvd_mul_left _ _
  · exact Nat.dvd_mul_left _ _

/-- A number is its own rounding if and only if the bits beyond the 53 are zero. -/
theorem roundNat_eq_self {m : Nat} : roundNat m = m ↔ unit m ∣ m := by
  have hpos := unit_pos m
  have hdiv := Nat.div_add_mod' m (unit m)
  constructor
  · intro h
    have hdvd := unit_dvd_roundNat m
    rwa [h] at hdvd
  · intro h
    have hr : m % unit m = 0 := Nat.mod_eq_zero_of_dvd h
    rw [roundNat, hr, if_pos (Or.inl (by omega))]
    omega

theorem unit_of_lt {m : Nat} (h : m < 9007199254740992) : unit m = 1 := by
  have hlog : Nat.log 2 m < 53 := by
    rcases Nat.eq_zero_or_pos m with rfl | hm
    · exact Nat.zero_lt_succ _
    · exact (Nat.log_lt_iff_lt_pow (by decide) (by omega)).mpr (h.trans_eq (by decide))
  rw [unit, Nat.sub_eq_zero_of_le (by omega)]
  rfl

/-- Up to 2^53 nothing is lost. -/
theorem roundNat_of_le {m : Nat} (h : m ≤ 9007199254740992) : roundNat m = m := by
  rw [roundNat_eq_self]
  rcases Nat.lt_or_eq_of_le h with h | rfl
  · rw [unit_of_lt h]
    exact Nat.one_dvd m
  · decide +kernel

theorem ofInt_eq_self {n : Int} : ofInt n = n ↔ unit n.natAbs ∣ n.natAbs := by
  rw [← roundNat_eq_self, ofInt]
  split <;> omega

theorem ofInt_of_le {n : Int} (h : n.natAbs ≤ 9007199254740992) : ofInt n = n :=
  ofInt_eq_self.mpr (roundNat_eq_self.mp (roundNat_of_le h))

/-- The first integer that is lost. -/
example : ofInt 9007199254740993 = 9007199254740992 := by decide +kernel

end Binary64
