import Mathlib.Tactic.Common

/-!
# Instants and durations in Go

An instant is the number of nanoseconds since the epoch, a duration a number of
nanoseconds in 64 bits. The difference of two instants is clamped to what a duration can
hold; the conversions to and from milliseconds are plain machine arithmetic, which wraps.
-/

namespace GoTime

abbrev Duration := Int64

/-- `t.Sub(u)` -/
def sub (t u : Int) : Duration := Int64.ofIntClamp (t - u)

/-- `t.UnixMilli()` -/
def unixMilli (t : Int) : Int64 := Int64.ofInt (t / 1000000)

/-- `d.Milliseconds()` -/
def milliseconds (d : Duration) : Int64 := d / 1000000

/-- `time.Duration(ms) * time.Millisecond` -/
def ofMilliseconds (ms : Int64) : Duration := ms * 1000000

/-! ## What they come to -/

/-- A difference that is not negative, up to the longest duration. -/
theorem toInt_sub {t u : Int} (h : u ≤ t) :
    (sub t u).toInt = min (t - u) 9223372036854775807 := by
  have hmin : Int64.minValue.toInt ≤ t - u := by
    have : Int64.minValue.toInt ≤ 0 := by decide
    omega
  by_cases hle : t - u ≤ 9223372036854775807
  · rw [sub, Int64.toInt_ofIntClamp hmin hle, Int.min_eq_left hle]
  · have hmax : ¬ t - u ≤ Int64.maxValue.toInt := hle
    rw [sub, Int64.ofIntClamp, dif_pos hmin, dif_neg hmax, Int.min_eq_right (by omega)]
    rfl

theorem toInt_milliseconds {d : Duration} (h : 0 ≤ d.toInt) :
    (milliseconds d).toInt = d.toInt / 1000000 := by
  rw [milliseconds, Int64.toInt_div_of_ne_right _ _ (by decide)]
  exact Int.tdiv_eq_ediv_of_nonneg h

theorem toInt_unixMilli {t : Int} (hlo : -9223372036854775808 ≤ t / 1000000)
    (hhi : t / 1000000 < 9223372036854775808) : (unixMilli t).toInt = t / 1000000 :=
  Int64.toInt_ofInt_of_le hlo hhi

/-- A product that fits. -/
theorem toInt_ofMilliseconds {ms : Int64} (h : 0 ≤ ms.toInt) (hle : ms.toInt ≤ 9223372036854) :
    (ofMilliseconds ms).toInt = ms.toInt * 1000000 := by
  rw [ofMilliseconds, Int64.toInt_mul]
  have hms : (1000000 : Int64).toInt = 1000000 := by decide
  rw [hms]
  apply Int.bmod_eq_of_le <;> omega

/-- A product that is out of range by less than as much again comes out negative. -/
theorem ofMilliseconds_neg {ms : Int64} (h : 9223372036854 < ms.toInt)
    (hle : ms.toInt ≤ 18446744073709) : (ofMilliseconds ms).toInt < 0 := by
  rw [ofMilliseconds, Int64.toInt_mul]
  have hms : (1000000 : Int64).toInt = 1000000 := by decide
  have hwrap : (ms.toInt * 1000000).bmod (2 ^ 64) = ms.toInt * 1000000 - 18446744073709551616 := by
    rw [Int.bmod_eq_iff (by decide)]
    refine ⟨by omega, by omega, ?_⟩
    exact ⟨-1, by omega⟩
  rw [hms, hwrap]
  omega

end GoTime
