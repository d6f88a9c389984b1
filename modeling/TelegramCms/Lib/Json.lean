import Mathlib.Data.List.Basic
import Mathlib.Tactic.Common

/-!
# JSON documents

A document as a reader of it sees it: numbers are split into those written as integers
and all others, of which nothing but the spelling is kept; the members of an object stay
in the order they were written, doubled keys included. A reader that fills a map takes
the last member with a key (`Json.last`).

`Json.read` reads the first value of a text, up to a nesting depth, and hands back what
follows it. It recurses on a fuel, of which every call takes one; `value_fuel` shows that
twice the length of the text is enough.
-/

inductive Json where
  | null
  | bool (b : Bool)
  | int (n : Int)
  /-- A number with a fraction or an exponent. -/
  | real (literal : List Char)
  | str (s : List Char)
  | arr (items : List Json)
  | obj (members : List (List Char × Json))

namespace Json

/-- The value of the last member with the key. -/
def last (members : List (List Char × Json)) (key : List Char) : Option Json :=
  (members.reverse.find? (fun m => m.1 = key)).map Prod.snd

/-! ## Reading a text -/

def isBlank (c : Char) : Bool := c = ' ' || c.toNat = 9 || c.toNat = 10 || c.toNat = 13

def skip (s : List Char) : List Char := s.dropWhile isBlank

def hexDigit (c : Char) : Option Nat :=
  if c.isDigit then some (c.toNat - 48)
  else if 97 ≤ c.toNat ∧ c.toNat ≤ 102 then some (c.toNat - 87)
  else if 65 ≤ c.toNat ∧ c.toNat ≤ 70 then some (c.toNat - 55)
  else none

def hex4 (a b c d : Char) : Option Nat := do
  let a ← hexDigit a
  let b ← hexDigit b
  let c ← hexDigit c
  let d ← hexDigit d
  return ((a * 16 + b) * 16 + c) * 16 + d

/-- The character an escape of two characters stands for. -/
def unescape (c : Char) : Option Nat :=
  match c.toNat with
  | 34 | 92 | 47 => some c.toNat
  | 98 => some 8
  | 102 => some 12
  | 110 => some 10
  | 114 => some 13
  | 116 => some 9
  | _ => none

/-- The rest of a string after its opening quote, as code points and, for an escaped
surrogate, code units. -/
def units : List Char → Option (List Nat × List Char)
  | [] => none
  | c :: r =>
    if c.toNat = 34 then some ([], r)
    else if c.toNat = 92 then
      match r with
      | [] => none
      | e :: r =>
        if e = 'u' then
          match r with
          | a :: b :: c :: d :: r =>
            (hex4 a b c d).bind fun n => (units r).map fun x => (n :: x.1, x.2)
          | _ => none
        else (unescape e).bind fun n => (units r).map fun x => (n :: x.1, x.2)
    else if c.toNat < 32 then none
    else (units r).map fun x => (c.toNat :: x.1, x.2)

def isSurrogate (n : Nat) : Bool := 0xD800 ≤ n && n < 0xE000

/-- Surrogates are joined in pairs; one that is left over becomes U+FFFD. -/
def joinUnits : List Nat → List Char
  | [] => []
  | [n] => [if isSurrogate n then Char.ofNat 0xFFFD else Char.ofNat n]
  | n :: m :: r =>
    if 0xD800 ≤ n ∧ n < 0xDC00 ∧ 0xDC00 ≤ m ∧ m < 0xE000 then
      Char.ofNat (0x10000 + (n - 0xD800) * 0x400 + (m - 0xDC00)) :: joinUnits r
    else (if isSurrogate n then Char.ofNat 0xFFFD else Char.ofNat n) :: joinUnits (m :: r)

/-- `1` or more digits. -/
def digits (s : List Char) : Option (List Char × List Char) :=
  let d := s.takeWhile Char.isDigit
  if d = [] then none else some (d, s.drop d.length)

def decimal (ds : List Char) : Nat := ds.foldl (fun n c => n * 10 + (c.toNat - 48)) 0

def fraction : List Char → Option (List Char × List Char)
  | '.' :: r => (digits r).map fun x => ('.' :: x.1, x.2)
  | s => some ([], s)

def exponent : List Char → Option (List Char × List Char)
  | [] => some ([], [])
  | c :: r =>
    if c = 'e' ∨ c = 'E' then
      match r with
      | '+' :: r => (digits r).map fun x => (c :: '+' :: x.1, x.2)
      | '-' :: r => (digits r).map fun x => (c :: '-' :: x.1, x.2)
      | r => (digits r).map fun x => (c :: x.1, x.2)
    else some ([], c :: r)

/-- The digits before the point: no digit follows a leading zero. -/
def integral : List Char → Option (List Char × List Char)
  | '0' :: r => some (['0'], r)
  | s => digits s

/-- A number without its sign. -/
def unsigned (negative : Bool) (s : List Char) : Option (Json × List Char) := do
  let (whole, s) ← integral s
  let (frac, s) ← fraction s
  let (exp, s) ← exponent s
  let sign := if negative then ['-'] else []
  if frac = [] ∧ exp = [] then
    return (.int (if negative then - decimal whole else decimal whole), s)
  else return (.real (sign ++ whole ++ frac ++ exp), s)

def number : List Char → Option (Json × List Char)
  | '-' :: r => unsigned true r
  | s => unsigned false s

/-- A value that is spelt in one way. -/
def word (w : String) (j : Json) (s : List Char) : Option (Json × List Char) :=
  if w.toList.isPrefixOf s then some (j, s.drop w.toList.length) else none

mutual

/-- The value a text begins with. -/
def value (fuel depth : Nat) (s : List Char) : Option (Json × List Char) :=
  match fuel with
  | 0 => none
  | fuel + 1 =>
    match s with
    | [] => none
    | c :: r =>
      match c.toNat with
      | 34 => (units r).map fun x => (.str (joinUnits x.1), x.2)
      | 91 => -- an opening bracket
        match depth with
        | 0 => none
        | depth + 1 =>
          match skip r with
          | [] => none
          | c' :: r' =>
            if c'.toNat = 93 then some (.arr [], r')
            else (items fuel depth (c' :: r')).map fun x => (.arr x.1, x.2)
      | 123 => -- an opening brace
        match depth with
        | 0 => none
        | depth + 1 =>
          match skip r with
          | [] => none
          | c' :: r' =>
            if c'.toNat = 125 then some (.obj [], r')
            else (members fuel depth (c' :: r')).map fun x => (.obj x.1, x.2)
      | 116 => word "true" (.bool true) (c :: r)
      | 102 => word "false" (.bool false) (c :: r)
      | 110 => word "null" .null (c :: r)
      | _ => number (c :: r)

/-- One item or more, up to the closing bracket. -/
def items (fuel depth : Nat) (s : List Char) : Option (List Json × List Char) :=
  match fuel with
  | 0 => none
  | fuel + 1 =>
    match value fuel depth s with
    | none => none
    | some (j, r) =>
      match skip r with
      | [] => none
      | c :: r =>
        if c.toNat = 93 then some ([j], r)
        else if c = ',' then (items fuel depth (skip r)).map fun x => (j :: x.1, x.2)
        else none

/-- One member or more, up to the closing brace. -/
def members (fuel depth : Nat) (s : List Char) :
    Option (List (List Char × Json) × List Char) :=
  match fuel with
  | 0 => none
  | fuel + 1 =>
    match s with
    | [] => none
    | q :: r =>
      if q.toNat ≠ 34 then none
      else
        match units r with
        | none => none
        | some (key, r) =>
          match skip r with
          | [] => none
          | colon :: r =>
            if colon ≠ ':' then none
            else
              match value fuel depth (skip r) with
              | none => none
              | some (j, r) =>
                match skip r with
                | [] => none
                | c :: r =>
                  if c.toNat = 125 then some ([(joinUnits key, j)], r)
                  else if c = ',' then
                    (members fuel depth (skip r)).map fun x => ((joinUnits key, j) :: x.1, x.2)
                  else none

end

/-! ### The fuel is enough

Every part of a value takes at least one character, so what follows a value is shorter than
the text it was read from. -/

theorem skip_length (s : List Char) : (skip s).length ≤ s.length :=
  (List.dropWhile_suffix isBlank).length_le

theorem skip_cons_length {s r : List Char} {c : Char} (h : skip s = c :: r) :
    r.length < s.length := by
  have hle := skip_length s
  rw [h, List.length_cons] at hle
  exact hle

theorem units_length {s : List Char} {x : List Nat × List Char} (h : units s = some x) :
    x.2.length < s.length := by
  fun_induction units s generalizing x with
  | case1 => exact absurd h (by simp)
  | case2 c r hc =>
      rw [← Option.some.inj h]
      exact Nat.lt_succ_self _
  | case3 => exact absurd h (by simp)
  | case4 c hc a b d e r hq ih =>
      obtain ⟨n, hn, h⟩ := Option.bind_eq_some_iff.mp h
      obtain ⟨y, hy, rfl⟩ := Option.map_eq_some_iff.mp h
      have := ih hy
      simp only [List.length_cons]
      omega
  | case5 => exact absurd h (by simp)
  | case6 c hc hq e r he ih =>
      obtain ⟨n, hn, h⟩ := Option.bind_eq_some_iff.mp h
      obtain ⟨y, hy, rfl⟩ := Option.map_eq_some_iff.mp h
      have := ih hy
      simp only [List.length_cons]
      omega
  | case7 => exact absurd h (by simp)
  | case8 c r hc hq hlt ih =>
      obtain ⟨y, hy, rfl⟩ := Option.map_eq_some_iff.mp h
      have := ih hy
      simp only [List.length_cons]
      omega

theorem digits_length {s : List Char} {x : List Char × List Char} (h : digits s = some x) :
    x.2.length < s.length := by
  unfold digits at h
  dsimp only at h
  split at h
  · exact absurd h (by simp)
  · rename_i hne
    rw [← Option.some.inj h]
    have hpos := List.length_pos_iff.mpr hne
    have hle := (List.takeWhile_prefix (l := s) Char.isDigit).length_le
    simp only [List.length_drop]
    omega

theorem fraction_length {s : List Char} {x : List Char × List Char} (h : fraction s = some x) :
    x.2.length ≤ s.length := by
  unfold fraction at h
  split at h
  · obtain ⟨y, hy, rfl⟩ := Option.map_eq_some_iff.mp h
    have := digits_length hy
    simp only [List.length_cons]
    omega
  · obtain rfl := Option.some.inj h
    exact Nat.le_refl _

theorem exponent_length {s : List Char} {x : List Char × List Char} (h : exponent s = some x) :
    x.2.length ≤ s.length := by
  unfold exponent at h
  split at h
  · obtain rfl := Option.some.inj h
    exact Nat.le_refl _
  · split at h
    · split at h <;>
        (obtain ⟨y, hy, rfl⟩ := Option.map_eq_some_iff.mp h
         have := digits_length hy
         simp only [List.length_cons] at *
         omega)
    · obtain rfl := Option.some.inj h
      exact Nat.le_refl _

theorem integral_length {s : List Char} {x : List Char × List Char} (h : integral s = some x) :
    x.2.length < s.length := by
  unfold integral at h
  split at h
  · rw [← Option.some.inj h]
    exact Nat.lt_succ_self _
  · exact digits_length h

theorem unsigned_length {b : Bool} {s : List Char} {x : Json × List Char}
    (h : unsigned b s = some x) : x.2.length < s.length := by
  obtain ⟨⟨whole, s₁⟩, h₁, h⟩ := Option.bind_eq_some_iff.mp h
  obtain ⟨⟨frac, s₂⟩, h₂, h⟩ := Option.bind_eq_some_iff.mp h
  obtain ⟨⟨exp, s₃⟩, h₃, h⟩ := Option.bind_eq_some_iff.mp h
  have h1 := integral_length h₁
  have h2 := fraction_length h₂
  have h3 := exponent_length h₃
  have hx : x.2 = s₃ := by
    dsimp only at h
    split at h <;> rw [← Option.some.inj h]
  rw [hx]
  dsimp only at h1 h2 h3
  omega

theorem number_length {s : List Char} {x : Json × List Char} (h : number s = some x) :
    x.2.length < s.length := by
  unfold number at h
  split at h
  · have := unsigned_length h
    simp only [List.length_cons]
    omega
  · exact unsigned_length h

theorem word_length {w : String} {j : Json} {s : List Char} {x : Json × List Char}
    (hw : w.toList ≠ []) (h : word w j s = some x) : x.2.length < s.length := by
  unfold word at h
  split at h
  · rename_i hp
    have hle := (List.isPrefixOf_iff_prefix.mp hp).length_le
    have hpos := List.length_pos_iff.mpr hw
    rw [← Option.some.inj h]
    simp only [List.length_drop]
    omega
  · exact absurd h (by simp)

/-- A reader takes at least one character. -/
def Shrinks {α : Type} (read : Nat → List Char → Option (α × List Char)) : Prop :=
  ∀ depth s x, read depth s = some x → x.2.length < s.length

theorem value_shrinks {fuel : Nat} (hitems : Shrinks (items fuel))
    (hmembers : Shrinks (members fuel)) : Shrinks (value (fuel + 1)) := by
  intro depth s x h
  unfold value at h
  split at h
  · exact absurd h (by simp)
  · rename_i c r
    split at h
    -- a string
    · obtain ⟨y, hy, rfl⟩ := Option.map_eq_some_iff.mp h
      have := units_length hy
      simp only [List.length_cons]
      omega
    · split at h
      · exact absurd h (by simp)
      · split at h
        · exact absurd h (by simp)
        · rename_i c' r' hr
          have hskip := skip_cons_length hr
          split at h
          · rw [← Option.some.inj h]
            simp only [List.length_cons]
            omega
          -- the items of a list
          · obtain ⟨y, hy, rfl⟩ := Option.map_eq_some_iff.mp h
            have := hitems _ _ _ hy
            simp only [List.length_cons] at *
            omega
    · split at h
      · exact absurd h (by simp)
      · split at h
        · exact absurd h (by simp)
        · rename_i c' r' hr
          have hskip := skip_cons_length hr
          split at h
          · rw [← Option.some.inj h]
            simp only [List.length_cons]
            omega
          -- the members of an object
          · obtain ⟨y, hy, rfl⟩ := Option.map_eq_some_iff.mp h
            have := hmembers _ _ _ hy
            simp only [List.length_cons] at *
            omega
    · exact word_length (by decide) h
    · exact word_length (by decide) h
    · exact word_length (by decide) h
    · exact number_length h

theorem items_shrinks {fuel : Nat} (hvalue : Shrinks (value fuel))
    (hitems : Shrinks (items fuel)) : Shrinks (items (fuel + 1)) := by
  intro depth s x h
  unfold items at h
  split at h
  · exact absurd h (by simp)
  · rename_i j r hj
    have hr := hvalue _ _ _ hj
    split at h
    · exact absurd h (by simp)
    · rename_i c r' hr'
      have hskip := skip_cons_length hr'
      dsimp only at hr
      split at h
      · rw [← Option.some.inj h]
        dsimp only
        omega
      · split at h
        · obtain ⟨y, hy, rfl⟩ := Option.map_eq_some_iff.mp h
          have h1 := hitems _ _ _ hy
          have h2 := skip_length r'
          dsimp only
          omega
        · exact absurd h (by simp)

theorem members_shrinks {fuel : Nat} (hvalue : Shrinks (value fuel))
    (hmembers : Shrinks (members fuel)) : Shrinks (members (fuel + 1)) := by
  intro depth s x h
  unfold members at h
  split at h
  · exact absurd h (by simp)
  · rename_i q r
    split at h
    · exact absurd h (by simp)
    · split at h
      · exact absurd h (by simp)
      · rename_i key r₁ hu
        have hkey := units_length hu
        split at h
        · exact absurd h (by simp)
        · rename_i colon r₂ hr₂
          have hcolon := skip_cons_length hr₂
          split at h
          · exact absurd h (by simp)
          · split at h
            · exact absurd h (by simp)
            · rename_i j r₃ hj
              have hj := hvalue _ _ _ hj
              have hblank := skip_length r₂
              split at h
              · exact absurd h (by simp)
              · rename_i c r₄ hr₄
                have hc := skip_cons_length hr₄
                rw [List.length_cons]
                dsimp only at hkey hj
                split at h
                · rw [← Option.some.inj h]
                  dsimp only
                  omega
                · split at h
                  · obtain ⟨y, hy, rfl⟩ := Option.map_eq_some_iff.mp h
                    have hmore := hmembers _ _ _ hy
                    have hblank' := skip_length r₄
                    dsimp only
                    omega
                  · exact absurd h (by simp)

theorem readers_shrink (fuel : Nat) :
    Shrinks (value fuel) ∧ Shrinks (items fuel) ∧ Shrinks (members fuel) := by
  induction fuel with
  | zero =>
      refine ⟨?_, ?_, ?_⟩ <;> intro depth s x h
      · exact absurd h (by simp [value])
      · exact absurd h (by simp [items])
      · exact absurd h (by simp [members])
  | succ fuel ih =>
      obtain ⟨hvalue, hitems, hmembers⟩ := ih
      exact ⟨value_shrinks hitems hmembers, items_shrinks hvalue hitems,
        members_shrinks hvalue hmembers⟩

/-- One more than `fuel` makes no difference to the texts that need at most `fuel`, which is
twice the length and `extra`. -/
def Settled {α : Type} (extra : Nat) (read : Nat → Nat → List Char → Option (α × List Char))
    (fuel : Nat) : Prop :=
  ∀ depth s, 2 * s.length + extra ≤ fuel → read (fuel + 1) depth s = read fuel depth s

theorem value_settled {fuel : Nat} (hitems : Settled 2 items fuel)
    (hmembers : Settled 2 members fuel) : Settled 1 value (fuel + 1) := by
  intro depth s h
  rw [value.eq_def (fuel + 1 + 1) depth s, value.eq_def (fuel + 1) depth s]
  cases s with
  | nil => rfl
  | cons c r =>
      rw [List.length_cons] at h
      dsimp only
      cases depth with
      | zero => rfl
      | succ depth =>
          dsimp only
          cases hr : skip r with
          | nil => rfl
          | cons c' r' =>
              have hlen : 2 * (c' :: r').length + 2 ≤ fuel := by
                have hskip := skip_length r
                rw [hr] at hskip
                omega
              dsimp only
              rw [hitems depth (c' :: r') hlen, hmembers depth (c' :: r') hlen]

theorem items_settled {fuel : Nat} (hvalue : Settled 1 value fuel)
    (hitems : Settled 2 items fuel) : Settled 2 items (fuel + 1) := by
  intro depth s h
  rw [items, items, hvalue depth s (by omega)]
  cases hj : value fuel depth s with
  | none => rfl
  | some x =>
      have hlt := (readers_shrink fuel).1 _ _ _ hj
      dsimp only
      cases hr : skip x.2 with
      | nil => rfl
      | cons c r =>
          have hskip := skip_cons_length hr
          have hblank := skip_length r
          dsimp only
          rw [hitems depth (skip r) (by omega)]

theorem members_settled {fuel : Nat} (hvalue : Settled 1 value fuel)
    (hmembers : Settled 2 members fuel) : Settled 2 members (fuel + 1) := by
  intro depth s h
  rw [members.eq_def (fuel + 1 + 1) depth s, members.eq_def (fuel + 1) depth s]
  cases s with
  | nil => rfl
  | cons q r =>
      rw [List.length_cons] at h
      dsimp only
      cases hu : units r with
      | none => rfl
      | some k =>
          have hk := units_length hu
          dsimp only
          cases hr : skip k.2 with
          | nil => rfl
          | cons colon r₂ =>
              have hcolon := skip_cons_length hr
              have hblank := skip_length r₂
              dsimp only
              rw [hvalue depth (skip r₂) (by omega)]
              cases hj : value fuel depth (skip r₂) with
              | none => rfl
              | some x =>
                  have hlt := (readers_shrink fuel).1 _ _ _ hj
                  dsimp only
                  cases hr' : skip x.2 with
                  | nil => rfl
                  | cons c r₄ =>
                      have hc := skip_cons_length hr'
                      have hblank' := skip_length r₄
                      dsimp only
                      rw [hmembers depth (skip r₄) (by omega)]

theorem readers_settled (fuel : Nat) :
    Settled 1 value fuel ∧ Settled 2 items fuel ∧ Settled 2 members fuel := by
  induction fuel with
  | zero =>
      refine ⟨?_, ?_, ?_⟩ <;> intro depth s h <;> exact absurd h (by omega)
  | succ fuel ih =>
      obtain ⟨hvalue, hitems, hmembers⟩ := ih
      exact ⟨value_settled hitems hmembers, items_settled hvalue hitems,
        members_settled hvalue hmembers⟩

/-- No text is taken for malformed for want of fuel. -/
theorem value_fuel {n m depth : Nat} {s : List Char} (hn : 2 * s.length + 1 ≤ n) (hnm : n ≤ m) :
    value m depth s = value n depth s := by
  induction m with
  | zero =>
      obtain rfl : n = 0 := by omega
      rfl
  | succ m ih =>
      by_cases h : n = m + 1
      · rw [h]
      · rw [(readers_settled m).1 depth s (by omega), ih (by omega)]

/-- What a reader of one value finds. -/
inductive Read where
  /-- Nothing but blanks. -/
  | empty
  | malformed
  | value (j : Json) (rest : List Char)

/-- Read the first value of a text, with at most `depth` levels of nesting. -/
def read (depth : Nat) (s : List Char) : Read :=
  match skip s with
  | [] => .empty
  | c :: r =>
    match value (2 * (c :: r).length + 1) depth (c :: r) with
    | none => .malformed
    | some (j, rest) => .value j rest

/-- What a text that is one JSON document, blanks aside, stands for. -/
def document (s : List Char) : Option Json :=
  match read s.length s with
  | .value j rest => if skip rest = [] then some j else none
  | _ => none

end Json
