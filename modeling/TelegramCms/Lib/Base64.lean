import Mathlib.Tactic.Common

/-!
# Base64 without padding

The decoder is the lenient one of Go's standard library: line breaks are passed over
wherever they stand, and the bits of the last character that no byte needs may be anything.
A text is `Valid` when it is one that an encoder may write; what the decoder makes of it is
`decode_isSome`.
-/

namespace Base64

/-- The six bits that a character stands for. -/
def value? (c : Char) : Option Nat :=
  if 'A' ≤ c ∧ c ≤ 'Z' then some (c.toNat - 65)
  else if 'a' ≤ c ∧ c ≤ 'z' then some (c.toNat - 71)
  else if '0' ≤ c ∧ c ≤ '9' then some (c.toNat + 4)
  else if c = '+' then some 62
  else if c = '/' then some 63
  else none

/-- The character for six bits. -/
def digit (v : Nat) : Char :=
  if v < 26 then Char.ofNat (v + 65)
  else if v < 52 then Char.ofNat (v + 71)
  else if v < 62 then Char.ofNat (v - 4)
  else if v = 62 then '+'
  else '/'

/-- Four characters make three bytes; a last group of two makes one, and of three, two. -/
def bytes? : List Nat → Option (List UInt8)
  | [] => some []
  | [_] => none
  | [a, b] => some [.ofNat (a * 4 + b / 16)]
  | [a, b, c] => some [.ofNat (a * 4 + b / 16), .ofNat (b % 16 * 16 + c / 4)]
  | a :: b :: c :: d :: vs =>
    (bytes? vs).map (fun bs =>
      .ofNat (a * 4 + b / 16) :: .ofNat (b % 16 * 16 + c / 4) :: .ofNat (c % 4 * 64 + d) :: bs)

/-- `base64.RawStdEncoding.DecodeString` -/
def decode (s : List Char) : Option (List UInt8) := do
  let vs ← (s.filter (fun c => c ≠ '\r' ∧ c ≠ '\n')).mapM value?
  bytes? vs

/-- The groups of six bits that bytes come to. -/
def values : List UInt8 → List Nat
  | [] => []
  | [x] => [x.toNat / 4, x.toNat % 4 * 16]
  | [x, y] => [x.toNat / 4, x.toNat % 4 * 16 + y.toNat / 16, y.toNat % 16 * 4]
  | x :: y :: z :: bs =>
    x.toNat / 4 :: (x.toNat % 4 * 16 + y.toNat / 16) :: (y.toNat % 16 * 4 + z.toNat / 64)
      :: z.toNat % 64 :: values bs

/-- `base64.RawStdEncoding.EncodeToString` -/
def encode (bs : List UInt8) : List Char := (values bs).map digit

/-- The alphabet only, and no last group of a single character. -/
structure Valid (s : List Char) : Prop where
  alphabet : ∀ c ∈ s, (value? c).isSome
  groups : s.length % 4 ≠ 1

instance (s : List Char) : Decidable (Valid s) :=
  decidable_of_iff (s.all (fun c => (value? c).isSome) = true ∧ s.length % 4 ≠ 1)
    ⟨fun h => ⟨List.all_eq_true.mp h.1, h.2⟩, fun h => ⟨List.all_eq_true.mpr h.1, h.2⟩⟩

/-! ## Round trip -/

theorem value?_digit {v : Nat} (h : v < 64) : value? (digit v) = some v := by
  revert v
  decide

theorem values_lt (bs : List UInt8) : ∀ v ∈ values bs, v < 64 := by
  fun_induction values bs with
  | case1 => simp
  | case2 x =>
    have := x.toNat_lt
    simp only [List.mem_cons, List.not_mem_nil, or_false, forall_eq_or_imp, forall_eq]
    omega
  | case3 x y =>
    have := x.toNat_lt
    have := y.toNat_lt
    simp only [List.mem_cons, List.not_mem_nil, or_false, forall_eq_or_imp, forall_eq]
    omega
  | case4 x y z bs ih =>
    have := x.toNat_lt
    have := y.toNat_lt
    have := z.toNat_lt
    simp only [List.mem_cons, forall_eq_or_imp]
    exact ⟨by omega, by omega, by omega, by omega, ih⟩

/-- A byte from a number that is its own. -/
theorem ofNat_eq {n : Nat} {x : UInt8} (h : n = x.toNat) : UInt8.ofNat n = x := by
  rw [h, UInt8.ofNat_toNat]

theorem bytes?_values (bs : List UInt8) : bytes? (values bs) = some bs := by
  fun_induction values bs with
  | case1 => rfl
  | case2 x =>
    rw [bytes?, ofNat_eq]
    omega
  | case3 x y =>
    have := y.toNat_lt
    rw [bytes?, ofNat_eq (x := x) (by omega), ofNat_eq (x := y) (by omega)]
  | case4 x y z bs ih =>
    have := y.toNat_lt
    have := z.toNat_lt
    rw [bytes?, ih, ofNat_eq (x := x) (by omega), ofNat_eq (x := y) (by omega),
      ofNat_eq (x := z) (by omega)]
    rfl

theorem mapM_value?_digit {vs : List Nat} (h : ∀ v ∈ vs, v < 64) :
    (vs.map digit).mapM value? = some vs := by
  induction vs with
  | nil => rfl
  | cons v vs ih =>
    rw [List.map_cons, List.mapM_cons, value?_digit (h v List.mem_cons_self),
      ih (fun v hv => h v (List.mem_cons_of_mem _ hv))]
    rfl

theorem length_values (bs : List UInt8) : (values bs).length = (4 * bs.length + 2) / 3 := by
  fun_induction values bs with
  | case1 => rfl
  | case2 => exact (by decide : 2 = (4 * 1 + 2) / 3)
  | case3 => exact (by decide : 3 = (4 * 2 + 2) / 3)
  | case4 x y z bs ih =>
    simp only [List.length_cons]
    omega

theorem length_encode (bs : List UInt8) : (encode bs).length = (4 * bs.length + 2) / 3 := by
  rw [encode, List.length_map, length_values]

/-! ## Valid texts -/

theorem ne_break {c : Char} (h : (value? c).isSome) : c ≠ '\r' ∧ c ≠ '\n' := by
  constructor
  · rintro rfl
    revert h
    decide
  · rintro rfl
    revert h
    decide

theorem ne_dollar {c : Char} (h : (value? c).isSome) : c ≠ '$' := by
  rintro rfl
  revert h
  decide

theorem Valid.not_mem_dollar {s : List Char} (h : Valid s) : '$' ∉ s :=
  fun hc => ne_dollar (h.alphabet _ hc) rfl

theorem filter_breaks {s : List Char} (h : ∀ c ∈ s, (value? c).isSome) :
    s.filter (fun c => c ≠ '\r' ∧ c ≠ '\n') = s :=
  List.filter_eq_self.mpr (fun c hc => by simpa using ne_break (h c hc))

theorem valid_encode (bs : List UInt8) : Valid (encode bs) where
  alphabet := by
    intro c hc
    obtain ⟨v, hv, rfl⟩ := List.mem_map.mp hc
    rw [value?_digit (values_lt bs v hv)]
    rfl
  groups := by
    rw [length_encode]
    omega

theorem decode_encode (bs : List UInt8) : decode (encode bs) = some bs := by
  rw [decode, filter_breaks (valid_encode bs).alphabet, encode, mapM_value?_digit (values_lt bs)]
  exact bytes?_values bs

theorem isSome_bytes? (vs : List Nat) (h : vs.length % 4 ≠ 1) : (bytes? vs).isSome := by
  fun_induction bytes? vs with
  | case1 => rfl
  | case2 => exact absurd rfl h
  | case3 => rfl
  | case4 => rfl
  | case5 a b c d vs ih =>
    rw [Option.isSome_map]
    apply ih
    rw [List.length_cons, List.length_cons, List.length_cons, List.length_cons] at h
    omega

theorem mapM_value? {s : List Char} (h : ∀ c ∈ s, (value? c).isSome) :
    ∃ vs, s.mapM value? = some vs ∧ vs.length = s.length := by
  induction s with
  | nil => exact ⟨[], rfl, rfl⟩
  | cons c s ih =>
    obtain ⟨v, hv⟩ := Option.isSome_iff_exists.mp (h c List.mem_cons_self)
    obtain ⟨vs, hvs, hlen⟩ := ih (fun c hc => h c (List.mem_cons_of_mem _ hc))
    refine ⟨v :: vs, ?_, by rw [List.length_cons, List.length_cons, hlen]⟩
    rw [List.mapM_cons, hv, hvs]
    rfl

/-- What is valid can be decoded. -/
theorem decode_isSome {s : List Char} (h : Valid s) : (decode s).isSome := by
  obtain ⟨vs, hvs, hlen⟩ := mapM_value? h.alphabet
  rw [decode, filter_breaks h.alphabet, hvs]
  exact isSome_bytes? vs (by rw [hlen]; exact h.groups)

theorem decode_nil : decode [] = some [] := rfl

end Base64
