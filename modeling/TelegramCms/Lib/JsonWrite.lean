import TelegramCms.Lib.Json

/-!
# Writing JSON documents

Writers differ in how they spell the characters of a string and in the blanks between the
parts of a document; a `Style` is both, with the proof that `Json.units` reads what it
spells. `value_write` then holds for every style: a document that was written is read back,
whatever follows it, by a reader that takes its depth.

Numbers are written as integers; a document with any other number in it is not `Plain`.
-/

namespace Json

/-! ## Characters -/

/-- The code units `us` are those of `c`. -/
def Joins (us : List Nat) (c : Char) : Prop :=
  ∀ vs, joinUnits (us ++ vs) = c :: joinUnits vs

/-- In a string, `s` stands for the character `c`. -/
def Spells (s : List Char) (c : Char) : Prop :=
  ∃ us, Joins us c ∧ ∀ r, units (s ++ r) = (units r).map (fun x => (us ++ x.1, x.2))

theorem isSurrogate_toNat (c : Char) : isSurrogate c.toNat = false := by
  have h := c.valid
  rw [isSurrogate, Bool.and_eq_false_iff, decide_eq_false_iff_not, decide_eq_false_iff_not]
  change c.toNat < 0xD800 ∨ 0xDFFF < c.toNat ∧ c.toNat < 0x110000 at h
  omega

theorem joins_toNat (c : Char) : Joins [c.toNat] c := by
  intro vs
  have hc := isSurrogate_toNat c
  cases vs with
  | nil => simp [joinUnits, hc]
  | cons m vs =>
      have hpair : ¬ (0xD800 ≤ c.toNat ∧ c.toNat < 0xDC00 ∧ 0xDC00 ≤ m ∧ m < 0xE000) := by
        rw [isSurrogate, Bool.and_eq_false_iff, decide_eq_false_iff_not,
          decide_eq_false_iff_not] at hc
        omega
      simp only [List.cons_append, List.nil_append, joinUnits, if_neg hpair, hc, Char.ofNat_toNat,
        Bool.false_eq_true, if_false]

/-- The surrogates of a character beyond the first plane. -/
def surrogates (n : Nat) : Nat × Nat :=
  (0xD800 + (n - 0x10000) / 0x400, 0xDC00 + (n - 0x10000) % 0x400)

theorem toNat_lt (c : Char) : c.toNat < 0x110000 := by
  have h := c.valid
  change c.toNat < 0xD800 ∨ 0xDFFF < c.toNat ∧ c.toNat < 0x110000 at h
  omega

theorem joins_surrogates {c : Char} (h : 0x10000 ≤ c.toNat) :
    Joins [(surrogates c.toNat).1, (surrogates c.toNat).2] c := by
  intro vs
  have hlt := toNat_lt c
  have hpair : 0xD800 ≤ 0xD800 + (c.toNat - 0x10000) / 0x400
      ∧ 0xD800 + (c.toNat - 0x10000) / 0x400 < 0xDC00
      ∧ 0xDC00 ≤ 0xDC00 + (c.toNat - 0x10000) % 0x400
      ∧ 0xDC00 + (c.toNat - 0x10000) % 0x400 < 0xE000 := by
    omega
  have hn : 0x10000 + (0xD800 + (c.toNat - 0x10000) / 0x400 - 0xD800) * 0x400
      + (0xDC00 + (c.toNat - 0x10000) % 0x400 - 0xDC00) = c.toNat := by
    omega
  simp only [surrogates, List.cons_append, List.nil_append, joinUnits, if_pos hpair, hn,
    Char.ofNat_toNat]

theorem spells_raw {c : Char} (hq : c.toNat ≠ 34) (hb : c.toNat ≠ 92) (hc : 32 ≤ c.toNat) :
    Spells [c] c := by
  refine ⟨[c.toNat], joins_toNat c, ?_⟩
  intro r
  rw [List.cons_append, List.nil_append, units.eq_def]
  simp only [if_neg hq, if_neg hb, if_neg (show ¬ c.toNat < 32 by omega)]
  rfl

theorem spells_unescape {c e : Char} (h : unescape e = some c.toNat) : Spells ['\\', e] c := by
  refine ⟨[c.toNat], joins_toNat c, ?_⟩
  intro r
  have hu : e ≠ 'u' := by
    rintro rfl
    exact Option.some_ne_none _ h.symm
  rw [List.cons_append, List.cons_append, List.nil_append, units.eq_def]
  simp only [if_neg (show '\\'.toNat ≠ 34 by decide), if_pos (show '\\'.toNat = 92 by decide),
    if_neg hu, h, Option.bind_some]
  rfl

/-- Four hexadecimal digits. -/
def hexDigits (n : Nat) : List Char :=
  [Nat.digitChar (n / 4096), Nat.digitChar (n / 256 % 16), Nat.digitChar (n / 16 % 16),
    Nat.digitChar (n % 16)]

theorem hexDigit_digitChar {d : Nat} (h : d < 16) : hexDigit (Nat.digitChar d) = some d := by
  have hall : ∀ d < 16, hexDigit (Nat.digitChar d) = some d := by decide
  exact hall d h

theorem hex4_hexDigits {n : Nat} (h : n < 65536) :
    hex4 (Nat.digitChar (n / 4096)) (Nat.digitChar (n / 256 % 16)) (Nat.digitChar (n / 16 % 16))
      (Nat.digitChar (n % 16)) = some n := by
  rw [hex4, hexDigit_digitChar (by omega), hexDigit_digitChar (by omega),
    hexDigit_digitChar (by omega), hexDigit_digitChar (by omega)]
  simp only [Option.bind_eq_bind, Option.bind_some, Option.pure_def, Option.some.injEq]
  omega

theorem units_hexDigits {n : Nat} (h : n < 65536) (r : List Char) :
    units ('\\' :: 'u' :: (hexDigits n ++ r)) = (units r).map (fun x => (n :: x.1, x.2)) := by
  rw [units.eq_def]
  simp only [if_neg (show '\\'.toNat ≠ 34 by decide), if_pos (show '\\'.toNat = 92 by decide),
    if_true, hexDigits, List.cons_append, List.nil_append, hex4_hexDigits h, Option.bind_some]

theorem spells_hexDigits {c : Char} (h : c.toNat < 65536) :
    Spells ('\\' :: 'u' :: hexDigits c.toNat) c := by
  refine ⟨[c.toNat], joins_toNat c, ?_⟩
  intro r
  exact units_hexDigits h r

theorem spells_surrogates {c : Char} (h : 65536 ≤ c.toNat) :
    Spells ('\\' :: 'u' :: (hexDigits (surrogates c.toNat).1
      ++ '\\' :: 'u' :: hexDigits (surrogates c.toNat).2)) c := by
  have hlt := toNat_lt c
  refine ⟨_, joins_surrogates h, ?_⟩
  intro r
  have hhi : (surrogates c.toNat).1 < 65536 := by rw [surrogates]; omega
  have hlo : (surrogates c.toNat).2 < 65536 := by rw [surrogates]; omega
  simp only [List.cons_append, List.append_assoc]
  rw [units_hexDigits hhi, units_hexDigits hlo, Option.map_map]
  rfl

/-! ## Styles -/

structure Style where
  /-- How a character is spelt in a string. -/
  spell : Char → List Char
  /-- What follows a comma and a colon. -/
  gap : List Char
  spells : ∀ c, Spells (spell c) c
  gap_blank : gap.all isBlank = true

/-- The rest of a string after its opening quote. -/
def Style.body (st : Style) : List Char → List Char
  | [] => ['"']
  | c :: s => st.spell c ++ st.body s

theorem Style.units_body (st : Style) (s r : List Char) :
    ∃ us, units (st.body s ++ r) = some (us, r) ∧ joinUnits us = s := by
  induction s with
  | nil =>
      refine ⟨[], ?_, rfl⟩
      rw [Style.body, List.cons_append, units.eq_def]
      exact if_pos (by decide)
  | cons c s ih =>
      obtain ⟨us, hus, hjoin⟩ := ih
      obtain ⟨cs, hcs, hspell⟩ := st.spells c
      refine ⟨cs ++ us, ?_, ?_⟩
      · rw [Style.body, List.append_assoc, hspell, hus]
        rfl
      · rw [hcs us, hjoin]

/-! ## Documents -/

section Write

variable (st : Style)

def writeInt (n : Int) : List Char :=
  if n < 0 then '-' :: Nat.toDigits 10 n.natAbs else Nat.toDigits 10 n.natAbs

mutual

def write : Json → List Char
  | .null => "null".toList
  | .bool true => "true".toList
  | .bool false => "false".toList
  | .int n => writeInt n
  | .real literal => literal
  | .str s => '"' :: st.body s
  | .arr items => '[' :: writeItems items
  | .obj members => '\x7b' :: writeMembers members

/-- The rest of an array after its opening bracket. -/
def writeItems : List Json → List Char
  | [] => [']']
  | j :: js => write j ++ writeMoreItems js

/-- The rest of an array after an item. -/
def writeMoreItems : List Json → List Char
  | [] => [']']
  | j :: js => ',' :: (st.gap ++ write j ++ writeMoreItems js)

/-- The rest of an object after its opening brace. -/
def writeMembers : List (List Char × Json) → List Char
  | [] => ['\x7d']
  | m :: ms => writeMember m ++ writeMoreMembers ms

def writeMember : List Char × Json → List Char
  | (key, j) => '"' :: (st.body key ++ ':' :: (st.gap ++ write j))

/-- The rest of an object after a member. -/
def writeMoreMembers : List (List Char × Json) → List Char
  | [] => ['\x7d']
  | m :: ms => ',' :: (st.gap ++ writeMember m ++ writeMoreMembers ms)

end

end Write

/-! ## Numbers are read back -/

/-- A number ends here. -/
def Closes (r : List Char) : Prop :=
  ∀ c ∈ r.head?, c.isDigit = false ∧ c ≠ '.' ∧ c ≠ 'e' ∧ c ≠ 'E'

theorem decimal_toDigits (n : Nat) : decimal (Nat.toDigits 10 n) = n := by
  have hfold : decimal (Nat.toDigits 10 n) = Nat.ofDigitChars 10 (Nat.toDigits 10 n) 0 := by
    simp only [decimal, Nat.ofDigitChars, Nat.mul_comm]
    rfl
  rw [hfold, Nat.ofDigitChars_ten_toDigits]

/-- The first digit of a number is no zero, unless it is the only one. -/
theorem toDigits_head (n : Nat) (hn : 0 < n) :
    ∃ d ds, Nat.toDigits 10 n = d :: ds ∧ d.isDigit ∧ d ≠ '0' := by
  induction n using Nat.strongRecOn with
  | _ n ih =>
    by_cases h : n < 10
    · refine ⟨n.digitChar, [], Nat.toDigits_of_lt_base h, ?_⟩
      have hall : ∀ n < 10, 0 < n → n.digitChar.isDigit ∧ n.digitChar ≠ '0' := by decide
      exact hall n h hn
    · obtain ⟨d, ds, hd, hdigit⟩ := ih (n / 10) (by omega) (by omega)
      refine ⟨d, ds ++ [(n % 10).digitChar], ?_, hdigit⟩
      rw [Nat.toDigits_of_base_le (by decide) (by omega), hd, List.cons_append]

theorem digits_toDigits (n : Nat) {r : List Char} (h : Closes r) :
    digits (Nat.toDigits 10 n ++ r) = some (Nat.toDigits 10 n, r) := by
  have hds : ∀ c ∈ Nat.toDigits 10 n, c.isDigit :=
    fun c hc => Nat.isDigit_of_mem_toDigits (by decide) (by decide) hc
  have hr : r.takeWhile Char.isDigit = [] := by
    cases r with
    | nil => rfl
    | cons c r =>
        have hc := (h c rfl).1
        simp [hc]
  have htake : (Nat.toDigits 10 n ++ r).takeWhile Char.isDigit = Nat.toDigits 10 n := by
    rw [List.takeWhile_append_of_pos hds, hr, List.append_nil]
  simp only [digits, htake, if_neg Nat.toDigits_ne_nil, List.drop_left]

theorem integral_toDigits (n : Nat) {r : List Char} (h : Closes r) :
    integral (Nat.toDigits 10 n ++ r) = some (Nat.toDigits 10 n, r) := by
  have hdigits := digits_toDigits n h
  rcases Nat.eq_zero_or_pos n with rfl | hn
  · rfl
  · obtain ⟨d, ds, hd, -, hzero⟩ := toDigits_head n hn
    rw [hd, List.cons_append] at hdigits ⊢
    rw [integral.eq_def]
    split
    · rename_i heq
      exact absurd (List.cons.inj heq).1 hzero
    · exact hdigits

theorem unsigned_toDigits (negative : Bool) (n : Nat) {r : List Char} (h : Closes r) :
    unsigned negative (Nat.toDigits 10 n ++ r) = some (.int (if negative then -n else n), r) := by
  have hfraction : fraction r = some ([], r) := by
    cases r with
    | nil => rfl
    | cons c r =>
        rw [fraction.eq_def]
        split
        · rename_i heq
          exact absurd (List.cons.inj heq).1 (h c rfl).2.1
        · rfl
  have hexponent : exponent r = some ([], r) := by
    cases r with
    | nil => rfl
    | cons c r =>
        have hc : ¬ (c = 'e' ∨ c = 'E') := not_or.mpr (h c rfl).2.2
        rw [exponent.eq_def]
        exact if_neg hc
  rw [unsigned, integral_toDigits n h]
  simp only [Option.bind_eq_bind, Option.bind_some, hfraction, hexponent, and_self, if_true,
    decimal_toDigits]
  rfl

theorem number_writeInt (n : Int) {r : List Char} (h : Closes r) :
    number (writeInt n ++ r) = some (.int n, r) := by
  rw [writeInt]
  split
  · rename_i hn
    have hneg : -(n.natAbs : Int) = n := by omega
    rw [List.cons_append, number, unsigned_toDigits true _ h, if_pos rfl, hneg]
  · rename_i hn
    have hpos : (n.natAbs : Int) = n := by omega
    have hread := unsigned_toDigits false n.natAbs h
    rw [if_neg (by decide), hpos] at hread
    rw [number.eq_def]
    split
    · rename_i heq
      have hdigit := Nat.isDigit_of_mem_toDigits (b := 10) (n := n.natAbs) (c := '-')
        (by decide) (by decide)
      cases hd : Nat.toDigits 10 n.natAbs with
      | nil => exact absurd hd Nat.toDigits_ne_nil
      | cons d ds =>
          rw [hd, List.cons_append] at heq
          rw [hd, (List.cons.inj heq).1] at hdigit
          exact absurd (hdigit List.mem_cons_self) (by decide)
    · exact hread

/-- A value that begins like a number is one. -/
theorem value_number {fuel depth : Nat} {c : Char} {r : List Char} (h : c = '-' ∨ c.isDigit) :
    value (fuel + 1) depth (c :: r) = number (c :: r) := by
  have hc : c.toNat = 45 ∨ 48 ≤ c.toNat ∧ c.toNat ≤ 57 := by
    rcases h with rfl | h
    · exact Or.inl (by decide)
    · simp only [Char.isDigit, Bool.and_eq_true, decide_eq_true_eq] at h
      exact Or.inr ⟨UInt32.le_iff_toNat_le.mp h.1, UInt32.le_iff_toNat_le.mp h.2⟩
  rw [value.eq_def]
  dsimp only
  split <;> first | omega | rfl

theorem writeInt_head (n : Int) : ∃ c s, writeInt n = c :: s ∧ (c = '-' ∨ c.isDigit) := by
  rw [writeInt]
  split
  · exact ⟨'-', _, rfl, Or.inl rfl⟩
  · cases hd : Nat.toDigits 10 n.natAbs with
    | nil => exact absurd hd Nat.toDigits_ne_nil
    | cons d ds =>
        refine ⟨d, ds, rfl, Or.inr ?_⟩
        refine Nat.isDigit_of_mem_toDigits (b := 10) (n := n.natAbs) (by decide) (by decide) ?_
        rw [hd]
        exact List.mem_cons_self

theorem value_writeInt (n : Int) {fuel depth : Nat} {r : List Char} (h : Closes r) :
    value (fuel + 1) depth (writeInt n ++ r) = some (.int n, r) := by
  have hread := number_writeInt n h
  obtain ⟨c, s, hcs, hc⟩ := writeInt_head n
  rw [hcs, List.cons_append] at hread ⊢
  rw [value_number hc, hread]

/-! ## Documents are read back -/

/-- A document with no numbers but integers, and at most so many levels of nesting. -/
inductive Plain : Nat → Json → Prop where
  | null {depth : Nat} : Plain depth .null
  | bool {depth : Nat} (b : Bool) : Plain depth (.bool b)
  | int {depth : Nat} (n : Int) : Plain depth (.int n)
  | str {depth : Nat} (s : List Char) : Plain depth (.str s)
  | arr {depth : Nat} {items : List Json} :
      (∀ j ∈ items, Plain depth j) → Plain (depth + 1) (.arr items)
  | obj {depth : Nat} {members : List (List Char × Json)} :
      (∀ m ∈ members, Plain depth m.2) → Plain (depth + 1) (.obj members)

section ReadBack

variable (st : Style)

theorem skip_cons {c : Char} (hc : isBlank c = false) (r : List Char) : skip (c :: r) = c :: r := by
  simp [skip, hc]

theorem skip_gap (r : List Char) : skip (st.gap ++ r) = skip r := by
  have hgap := List.all_eq_true.mp st.gap_blank
  rw [skip, List.dropWhile_append_of_pos hgap]
  rfl

/-- What a written document begins with is no blank and no closing bracket. -/
theorem write_head {depth : Nat} {j : Json} (h : Plain depth j) :
    ∃ c s, write st j = c :: s ∧ isBlank c = false ∧ c.toNat ≠ 93 := by
  cases h with
  | null => exact ⟨'n', _, rfl, by decide, by decide⟩
  | bool b => cases b <;> exact ⟨_, _, rfl, by decide, by decide⟩
  | int n =>
      obtain ⟨c, s, hcs, hc⟩ := writeInt_head n
      refine ⟨c, s, hcs, ?_⟩
      have hrange : c.toNat = 45 ∨ 48 ≤ c.toNat ∧ c.toNat ≤ 57 := by
        rcases hc with rfl | hc
        · exact Or.inl (by decide)
        · simp only [Char.isDigit, Bool.and_eq_true, decide_eq_true_eq] at hc
          exact Or.inr ⟨UInt32.le_iff_toNat_le.mp hc.1, UInt32.le_iff_toNat_le.mp hc.2⟩
      refine ⟨?_, by omega⟩
      have hspace : c ≠ ' ' := by
        rintro rfl
        exact absurd hrange (by decide)
      simp only [isBlank, Bool.or_eq_false_iff, decide_eq_false_iff_not]
      refine ⟨⟨⟨hspace, ?_⟩, ?_⟩, ?_⟩ <;> omega
  | str s => exact ⟨'"', _, rfl, by decide, by decide⟩
  | arr _ => exact ⟨'[', _, rfl, by decide, by decide⟩
  | obj _ => exact ⟨'\x7b', _, rfl, by decide, by decide⟩

theorem skip_write {depth : Nat} {j : Json} (h : Plain depth j) (r : List Char) :
    skip (write st j ++ r) = write st j ++ r := by
  obtain ⟨c, s, hcs, hblank, -⟩ := write_head st h
  rw [hcs, List.cons_append, skip_cons hblank]

theorem closes_cons {c : Char} (h : c = ',' ∨ c = ']' ∨ c = '\x7d') (r : List Char) :
    Closes (c :: r) := by
  intro d hd
  obtain rfl : c = d := Option.some.inj hd
  rcases h with rfl | rfl | rfl <;> decide

/-- `j` is read back at a depth, whatever follows it, with fuel for the whole text. -/
def ReadsBack (depth : Nat) (j : Json) : Prop :=
  ∀ fuel r, Closes r → 2 * (write st j ++ r).length + 1 ≤ fuel →
    value fuel depth (write st j ++ r) = some (j, r)

variable {st} {depth : Nat}

theorem items_write {js : List Json} {j : Json} (hplain : ∀ k ∈ j :: js, Plain depth k)
    (hread : ∀ k ∈ j :: js, ReadsBack st depth k) (fuel : Nat) (r : List Char)
    (hfuel : 2 * (write st j ++ (writeMoreItems st js ++ r)).length + 2 ≤ fuel) :
    items fuel depth (write st j ++ (writeMoreItems st js ++ r)) = some (j :: js, r) := by
  induction js generalizing j fuel with
  | nil =>
      cases fuel with
      | zero => omega
      | succ fuel =>
          rw [writeMoreItems, List.cons_append, List.nil_append] at hfuel ⊢
          have hj := hread j List.mem_cons_self fuel (']' :: r)
            (closes_cons (Or.inr (Or.inl rfl)) r) (by omega)
          rw [items, hj]
          rfl
  | cons k js ih =>
      cases fuel with
      | zero => omega
      | succ fuel =>
          rw [writeMoreItems, List.cons_append] at hfuel ⊢
          have hj := hread j List.mem_cons_self fuel
            (',' :: (st.gap ++ write st k ++ writeMoreItems st js ++ r))
            (closes_cons (Or.inl rfl) _) (by omega)
          have hk := hplain k (List.mem_cons_of_mem _ List.mem_cons_self)
          have hskip : skip (st.gap ++ write st k ++ writeMoreItems st js ++ r)
              = write st k ++ (writeMoreItems st js ++ r) := by
            rw [List.append_assoc, List.append_assoc, skip_gap, skip_write st hk]
          have hrest : items fuel depth (write st k ++ (writeMoreItems st js ++ r))
              = some (k :: js, r) := ih
            (fun x hx => hplain x (List.mem_cons_of_mem _ hx))
            (fun x hx => hread x (List.mem_cons_of_mem _ hx)) fuel
            (by simp only [List.length_append, List.length_cons] at hfuel ⊢; omega)
          rw [items, hj]
          dsimp only
          rw [skip_cons (by decide)]
          dsimp only
          rw [if_neg (by decide), if_pos rfl, hskip, hrest]
          rfl

theorem members_write {ms : List (List Char × Json)} {m : List Char × Json}
    (hplain : ∀ x ∈ m :: ms, Plain depth x.2) (hread : ∀ x ∈ m :: ms, ReadsBack st depth x.2)
    (fuel : Nat) (r : List Char)
    (hfuel : 2 * (writeMember st m ++ (writeMoreMembers st ms ++ r)).length + 2 ≤ fuel) :
    members fuel depth (writeMember st m ++ (writeMoreMembers st ms ++ r)) = some (m :: ms, r) := by
  induction ms generalizing m fuel with
  | nil =>
      obtain ⟨key, j⟩ := m
      cases fuel with
      | zero => omega
      | succ fuel =>
          simp only [writeMember, writeMoreMembers, List.cons_append, List.append_assoc,
            List.nil_append, List.length_cons, List.length_append] at hfuel ⊢
          -- the key, then the value, and a brace ends the object
          obtain ⟨us, hus, hkey⟩ :=
            st.units_body key (':' :: (st.gap ++ (write st j ++ '\x7d' :: r)))
          have hj := hread (key, j) List.mem_cons_self fuel ('\x7d' :: r)
            (closes_cons (Or.inr (Or.inr rfl)) r)
            (by simp only [List.length_append, List.length_cons]; omega)
          rw [members, if_neg (by decide), hus]
          dsimp only at hj ⊢
          rw [skip_cons (by decide)]
          dsimp only
          rw [if_neg (by decide), skip_gap, skip_write st (hplain (key, j) List.mem_cons_self), hj]
          dsimp only
          rw [skip_cons (by decide)]
          dsimp only
          rw [if_pos (by decide), hkey]
  | cons m' ms ih =>
      obtain ⟨key, j⟩ := m
      cases fuel with
      | zero => omega
      | succ fuel =>
          -- the members after this one are read with the fuel that is left
          have hrest := @ih m' (fun x hx => hplain x (List.mem_cons_of_mem _ hx))
            (fun x hx => hread x (List.mem_cons_of_mem _ hx)) fuel
          simp only [writeMember, writeMoreMembers, List.cons_append, List.append_assoc,
            List.length_cons, List.length_append] at hfuel ⊢ hrest
          obtain ⟨us, hus, hkey⟩ := st.units_body key (':' :: (st.gap ++ (write st j
            ++ ',' :: (st.gap ++ (writeMember st m' ++ (writeMoreMembers st ms ++ r))))))
          have hj := hread (key, j) List.mem_cons_self fuel
            (',' :: (st.gap ++ (writeMember st m' ++ (writeMoreMembers st ms ++ r))))
            (closes_cons (Or.inl rfl) _)
            (by simp only [List.length_append, List.length_cons]; omega)
          have hskip : skip (st.gap ++ (writeMember st m' ++ (writeMoreMembers st ms ++ r)))
              = writeMember st m' ++ (writeMoreMembers st ms ++ r) := by
            rw [skip_gap, writeMember.eq_def, List.cons_append, skip_cons (by decide)]
          -- the reader goes over the key, the colon, the value and the comma
          rw [members, if_neg (by decide), hus]
          dsimp only at hj ⊢
          rw [skip_cons (by decide)]
          dsimp only
          rw [if_neg (by decide), skip_gap, skip_write st (hplain (key, j) List.mem_cons_self), hj]
          dsimp only
          rw [skip_cons (by decide)]
          dsimp only
          rw [if_neg (by decide), if_pos rfl, hskip, hrest (by omega), hkey]
          rfl

theorem value_quote (fuel depth : Nat) (r : List Char) :
    value (fuel + 1) depth ('"' :: r) = (units r).map (fun x => (.str (joinUnits x.1), x.2)) :=
  rfl

theorem value_bracket {fuel depth : Nat} {c : Char} {r r' : List Char} (hr : skip r = c :: r')
    (hc : c.toNat ≠ 93) :
    value (fuel + 1) (depth + 1) ('[' :: r)
      = (items fuel depth (c :: r')).map (fun x => (.arr x.1, x.2)) := by
  rw [value.eq_def]
  change (match skip r with | [] => none | c' :: r' => _) = _
  rw [hr]
  exact if_neg hc

theorem value_brace {fuel depth : Nat} {c : Char} {r r' : List Char} (hr : skip r = c :: r')
    (hc : c.toNat ≠ 125) :
    value (fuel + 1) (depth + 1) ('\x7b' :: r)
      = (members fuel depth (c :: r')).map (fun x => (.obj x.1, x.2)) := by
  rw [value.eq_def]
  change (match skip r with | [] => none | c' :: r' => _) = _
  rw [hr]
  exact if_neg hc

/-- **A written document is read back**, by induction on the document: its parts are read back
one level of nesting further down. -/
theorem value_write {j : Json} (h : Plain depth j) : ReadsBack st depth j := by
  induction h with
  | null =>
      intro fuel r _ hfuel
      obtain ⟨fuel, rfl⟩ : ∃ n, fuel = n + 1 := ⟨fuel - 1, by omega⟩
      rfl
  | bool b =>
      intro fuel r _ hfuel
      obtain ⟨fuel, rfl⟩ : ∃ n, fuel = n + 1 := ⟨fuel - 1, by omega⟩
      cases b <;> rfl
  | int n =>
      intro fuel r hr hfuel
      obtain ⟨fuel, rfl⟩ : ∃ n, fuel = n + 1 := ⟨fuel - 1, by omega⟩
      exact value_writeInt n hr
  | str s =>
      intro fuel r _ hfuel
      obtain ⟨fuel, rfl⟩ : ∃ n, fuel = n + 1 := ⟨fuel - 1, by omega⟩
      obtain ⟨us, hus, hs⟩ := st.units_body s r
      rw [write, List.cons_append, value_quote, hus, Option.map_some, hs]
  | @arr depth js hplain ih =>
      intro fuel r hr hfuel
      obtain ⟨fuel, rfl⟩ : ∃ n, fuel = n + 1 := ⟨fuel - 1, by omega⟩
      cases js with
      | nil => rfl
      | cons j js =>
          have hj := hplain j List.mem_cons_self
          simp only [write, writeItems, List.cons_append, List.append_assoc, List.length_cons]
            at hfuel ⊢
          -- the items are one level further down, so by induction they are read back
          have hread := items_write hplain ih fuel r (by omega)
          obtain ⟨c, s, hcs, -, hc⟩ := write_head st hj
          have hskip := skip_write st hj (writeMoreItems st js ++ r)
          rw [hcs, List.cons_append] at hskip hread ⊢
          rw [value_bracket hskip hc, hread]
          rfl
  | @obj depth ms hplain ih =>
      intro fuel r hr hfuel
      obtain ⟨fuel, rfl⟩ : ∃ n, fuel = n + 1 := ⟨fuel - 1, by omega⟩
      cases ms with
      | nil => rfl
      | cons m ms =>
          simp only [write, writeMembers, List.cons_append, List.append_assoc, List.length_cons]
            at hfuel ⊢
          -- and so are the members
          have hread := members_write hplain ih fuel r (by omega)
          obtain ⟨key, j⟩ := m
          rw [writeMember, List.cons_append] at hread ⊢
          rw [value_brace (skip_cons (by decide) _) (by decide), hread]
          rfl

/-- A reader that is handed a written document and nothing else finds it. -/
theorem read_write {j : Json} (h : Plain depth j) : read depth (write st j) = .value j [] := by
  obtain ⟨c, s, hcs, hblank, -⟩ := write_head st h
  have hreads : ReadsBack st depth j := value_write h
  have hread := hreads (2 * (write st j).length + 1) []
    (fun c hc => absurd hc (by simp)) (Nat.le_of_eq (by rw [List.append_nil]))
  rw [List.append_nil] at hread
  rw [read, hcs, skip_cons hblank]
  dsimp only
  rw [← hcs, hread]

theorem Plain.mono {j : Json} (h : Plain depth j) {d : Nat} (hd : depth ≤ d) : Plain d j := by
  induction h generalizing d with
  | null => exact .null
  | bool b => exact .bool b
  | int n => exact .int n
  | str s => exact .str s
  | arr _ ih =>
      obtain ⟨d, rfl⟩ : ∃ n, d = n + 1 := ⟨d - 1, by omega⟩
      exact .arr fun j hj => ih j hj (by omega)
  | obj _ ih =>
      obtain ⟨d, rfl⟩ : ∃ n, d = n + 1 := ⟨d - 1, by omega⟩
      exact .obj fun m hm => ih m hm (by omega)

theorem length_write_le_moreItems {j : Json} {js : List Json} (h : j ∈ js) :
    (write st j).length ≤ (writeMoreItems st js).length := by
  induction js with
  | nil => exact absurd h (by simp)
  | cons k js ih =>
      rw [writeMoreItems, List.length_cons, List.length_append, List.length_append]
      rcases List.mem_cons.mp h with rfl | h
      · omega
      · have := ih h
        omega

theorem length_write_le_moreMembers {m : List Char × Json} {ms : List (List Char × Json)}
    (h : m ∈ ms) : (writeMember st m).length ≤ (writeMoreMembers st ms).length := by
  induction ms with
  | nil => exact absurd h (by simp)
  | cons k ms ih =>
      rw [writeMoreMembers, List.length_cons, List.length_append, List.length_append]
      rcases List.mem_cons.mp h with rfl | h
      · omega
      · have := ih h
        omega

/-- Every level of nesting takes a character. -/
theorem plain_length {j : Json} (h : Plain depth j) : Plain (write st j).length j := by
  induction h with
  | null => exact .null
  | bool b => exact .bool b
  | int n => exact .int n
  | str s => exact .str s
  | @arr _ js _ ih =>
      refine .arr fun j hj => (ih j hj).mono ?_
      cases js with
      | nil => exact absurd hj (by simp)
      | cons k js =>
          rw [writeItems, List.length_append]
          rcases List.mem_cons.mp hj with rfl | hj
          · omega
          · have hle : (write st j).length ≤ (writeMoreItems st js).length :=
              length_write_le_moreItems hj
            omega
  | @obj _ ms _ ih =>
      refine .obj fun m hm => (ih m hm).mono ?_
      have hmember : (write st m.2).length ≤ (writeMember st m).length := by
        obtain ⟨key, j⟩ := m
        rw [writeMember, List.length_cons, List.length_append, List.length_cons,
          List.length_append]
        dsimp only
        omega
      cases ms with
      | nil => exact absurd hm (by simp)
      | cons k ms =>
          rw [writeMembers, List.length_append]
          rcases List.mem_cons.mp hm with rfl | hm
          · omega
          · have hle : (writeMember st m).length ≤ (writeMoreMembers st ms).length :=
              length_write_le_moreMembers hm
            omega

/-- **Writing a document and reading the text as one gives the document.** -/
theorem document_write {j : Json} (h : Plain depth j) : document (write st j) = some j := by
  have hplain : Plain (write st j).length j := plain_length h
  rw [document, read_write hplain]
  rfl

end ReadBack

/-! ## Two writers -/

/-- The letter of the escape that both writers have for a character. -/
def shortEscape (c : Char) : Option Char :=
  match c.toNat with
  | 34 => some '"'
  | 92 => some '\\'
  | 8 => some 'b'
  | 12 => some 'f'
  | 10 => some 'n'
  | 13 => some 'r'
  | 9 => some 't'
  | _ => none

theorem unescape_shortEscape {c e : Char} (h : shortEscape c = some e) :
    unescape e = some c.toNat := by
  rw [shortEscape] at h
  split at h <;> cases h <;> (rename_i hc; rw [hc]; rfl)

theorem shortEscape_none {c : Char} (h : shortEscape c = none) :
    c.toNat ≠ 34 ∧ c.toNat ≠ 92 := by
  rw [shortEscape] at h
  split at h <;> cases h
  exact ⟨by assumption, by assumption⟩

/-- `appendString` of Go's `encoding/json`, with HTML escaped. -/
def goSpell (c : Char) : List Char :=
  match shortEscape c with
  | some e => ['\\', e]
  | none =>
    if c.toNat < 32 ∨ c = '<' ∨ c = '>' ∨ c = '&' ∨ c.toNat = 0x2028 ∨ c.toNat = 0x2029 then
      '\\' :: 'u' :: hexDigits c.toNat
    else [c]

/-- `ESCAPE_ASCII` of Python's `json`. -/
def pySpell (c : Char) : List Char :=
  match shortEscape c with
  | some e => ['\\', e]
  | none =>
    if 32 ≤ c.toNat ∧ c.toNat ≤ 126 then [c]
    else if c.toNat < 65536 then '\\' :: 'u' :: hexDigits c.toNat
    else
      '\\' :: 'u' :: (hexDigits (surrogates c.toNat).1
        ++ '\\' :: 'u' :: hexDigits (surrogates c.toNat).2)

theorem spells_goSpell (c : Char) : Spells (goSpell c) c := by
  rw [goSpell]
  split
  · rename_i e he
    exact spells_unescape (unescape_shortEscape he)
  · rename_i hnone
    obtain ⟨hq, hb⟩ := shortEscape_none hnone
    split
    · rename_i hc
      refine spells_hexDigits ?_
      rcases hc with hc | rfl | rfl | rfl | hc | hc <;> first | omega | decide
    · rename_i hc
      exact spells_raw hq hb (by omega)

theorem spells_pySpell (c : Char) : Spells (pySpell c) c := by
  rw [pySpell]
  split
  · rename_i e he
    exact spells_unescape (unescape_shortEscape he)
  · rename_i hnone
    obtain ⟨hq, hb⟩ := shortEscape_none hnone
    split
    · rename_i hc
      exact spells_raw hq hb hc.1
    · split
      · exact spells_hexDigits (by omega)
      · exact spells_surrogates (by omega)

/-- `json.Marshal` -/
def goStyle : Style := ⟨goSpell, [], spells_goSpell, by decide⟩

/-- `json.dumps` -/
def pyStyle : Style := ⟨pySpell, [' '], spells_pySpell, by decide⟩

example : write goStyle (.obj [("a".toList, .arr [.int (-7)]), ("s".toList, .str ['<', '\n', 'ü'])])
    = "\x7b\"a\":[-7],\"s\":\"\\u003c\\nü\"\x7d".toList := by decide +kernel

example : write pyStyle (.obj [("a".toList, .arr [.int 7, .null]), ("s".toList, .str ['🚨', 'ü'])])
    = "\x7b\"a\": [7, null], \"s\": \"\\ud83d\\udea8\\u00fc\"\x7d".toList := by
  decide +kernel

end Json
