import Mathlib.Data.List.Infix
import Mathlib.Tactic.Common

/-!
# Escaped text

Text that is sent as HTML has some of its characters written as references, `&amp;` for
`&`. `decode` reads the references of a string, once; `EscapedOnce plain sent` says that
this gives back `plain`, and that nothing in `sent` could be taken for markup.

A text under way is a list of `Glyph`s, each a character that is to be shown and the
string that is sent for it. Whether it is escaped once depends on its glyphs one by one
(`escapedOnce_iff`), also after it was cut at some length (`escapedOnce_take_iff`).
-/

namespace Html

/-! ## References -/

def number (ds : List Char) : Nat := ds.foldl (fun n d => 10 * n + (d.toNat - 48)) 0

/-- The character that a reference with this name stands for. -/
def charOf (name : List Char) : Option Char :=
  match name with
  | ['a', 'm', 'p'] => some '&'
  | ['l', 't'] => some '<'
  | ['g', 't'] => some '>'
  | ['q', 'u', 'o', 't'] => some (Char.ofNat 34)
  | '#' :: d :: ds =>
    if (d :: ds).all Char.isDigit then some (Char.ofNat (number (d :: ds))) else none
  | _ => none

/-- The reference at the head of a string: its character and its length. -/
def ref? : List Char → Option (Char × Nat)
  | '&' :: cs =>
    let name := cs.takeWhile (· != ';')
    if name.length < cs.length then (charOf name).map (·, name.length + 2) else none
  | _ => none

/-- Read the references in a string, the first `skip` characters of which are read. -/
def decodeFrom (skip : Nat) : List Char → List Char
  | [] => []
  | c :: cs =>
    match skip with
    | n + 1 => decodeFrom n cs
    | 0 =>
      match ref? (c :: cs) with
      | some (d, n) => d :: decodeFrom (n - 1) cs
      | none => c :: decodeFrom 0 cs

def decode (s : List Char) : List Char := decodeFrom 0 s

/-- The string begins with a `<`, or with a `&` that begins no reference. -/
def Bare : List Char → Prop
  | '<' :: _ => True
  | '&' :: cs => ref? ('&' :: cs) = none
  | _ => False

instance : DecidablePred Bare := fun s => by
  unfold Bare
  split <;> infer_instance

def NoBare (s : List Char) : Prop := ∀ t ∈ s.tails, ¬ Bare t

instance : DecidablePred NoBare := fun s =>
  inferInstanceAs (Decidable (∀ t ∈ s.tails, ¬ Bare t))

/-- Decoding `sent` once gives back `plain`, and nothing in it is taken for markup. -/
def EscapedOnce (plain sent : List Char) : Prop := decode sent = plain ∧ NoBare sent

instance (plain sent : List Char) : Decidable (EscapedOnce plain sent) :=
  inferInstanceAs (Decidable (decode sent = plain ∧ NoBare sent))

/-- The text can be sent as it is. -/
def Harmless (s : List Char) : Prop := ∀ c ∈ s, c ≠ '&' ∧ c ≠ '<'

instance : DecidablePred Harmless := fun s =>
  inferInstanceAs (Decidable (∀ c ∈ s, c ≠ '&' ∧ c ≠ '<'))

section Ref

variable {name rest cs s : List Char} {c : Char} {n : Nat}

theorem name_plain (h : charOf name = some c) : ∀ x ∈ name, x ≠ '&' ∧ x ≠ '<' ∧ x ≠ ';' := by
  unfold charOf at h
  split at h
  case h_5 =>
    split at h
    · rename_i hd
      intro x hx
      rcases List.mem_cons.mp hx with rfl | hx
      · decide
      · have hdig := List.all_eq_true.mp hd x hx
        refine ⟨?_, ?_, ?_⟩ <;> rintro rfl <;> exact absurd hdig (by decide)
    · exact absurd h (by simp)
  case h_6 => exact absurd h (by simp)
  all_goals simp

theorem name_ne_nil (h : charOf name = some c) : name ≠ [] := by
  rintro rfl
  exact absurd h (by simp [charOf])

theorem takeWhile_name (h : ∀ x ∈ name, x ≠ ';') :
    (name ++ ';' :: rest).takeWhile (· != ';') = name := by
  rw [List.takeWhile_append_of_pos (fun x hx => by simpa using h x hx)]
  simp

theorem ref?_name (h : charOf name = some c) :
    ref? ('&' :: (name ++ ';' :: rest)) = some (c, name.length + 2) := by
  rw [ref?, takeWhile_name fun x hx => (name_plain h x hx).2.2]
  simp [h]

theorem ref?_eq_some (h : ref? s = some (c, n)) :
    ∃ name rest, charOf name = some c ∧ s = '&' :: (name ++ ';' :: rest) ∧ n = name.length + 2 := by
  unfold ref? at h
  split at h
  · rename_i cs
    dsimp only at h
    split at h
    · rename_i hlt
      obtain ⟨d, hd, hx⟩ := Option.map_eq_some_iff.mp h
      obtain ⟨rfl, rfl⟩ := Prod.mk.inj hx
      -- the name stops at a semicolon, since it stops before the end
      have hsplit := List.takeWhile_append_dropWhile (p := (· != ';')) (l := cs)
      cases hdrop : cs.dropWhile (· != ';') with
      | nil =>
          rw [hdrop, List.append_nil] at hsplit
          rw [hsplit] at hlt
          exact absurd hlt (Nat.lt_irrefl _)
      | cons x rest =>
          have hx : (x != ';') = false := by
            have := List.head?_dropWhile_not (· != ';') cs
            simpa [hdrop] using this
          obtain rfl : x = ';' := by simpa using hx
          exact ⟨_, rest, hd, by rw [← hdrop, hsplit], rfl⟩
    · exact absurd h (by simp)
  · exact absurd h (by simp)

/-- Without a semicolon there is no reference. -/
theorem ref?_of_not_mem (h : ';' ∉ cs) : ref? ('&' :: cs) = none := by
  cases hr : ref? ('&' :: cs) with
  | none => rfl
  | some x =>
      obtain ⟨name, rest, -, hs, -⟩ := ref?_eq_some (c := x.1) (n := x.2) hr
      obtain ⟨-, rfl⟩ := List.cons.inj hs
      exact absurd (by simp) h

/-! ## Decoding -/

@[simp] theorem decode_nil : decode [] = [] := rfl

theorem decodeFrom_append : ∀ l : List Char, decodeFrom l.length (l ++ rest) = decode rest
  | [] => rfl
  | _ :: l => by rw [List.length_cons, List.cons_append, decodeFrom]; exact decodeFrom_append l

theorem decode_cons_of_none (h : ref? (c :: cs) = none) : decode (c :: cs) = c :: decode cs := by
  rw [decode, decodeFrom]
  simp only [h]
  rfl

theorem decode_cons_of_ne (h : c ≠ '&') : decode (c :: cs) = c :: decode cs := by
  refine decode_cons_of_none ?_
  unfold ref?
  split
  · rename_i heq
    exact absurd (List.cons.inj heq).1 h
  · rfl

theorem decode_ref (h : charOf name = some c) :
    decode ('&' :: (name ++ ';' :: rest)) = c :: decode rest := by
  have hlen : name.length + 2 - 1 = (name ++ [';']).length := by simp
  have happ : name ++ ';' :: rest = (name ++ [';']) ++ rest := by simp
  rw [decode, decodeFrom]
  simp only [ref?_name h]
  rw [hlen, happ, decodeFrom_append]

theorem noBare_nil : NoBare [] := by simp [NoBare, Bare]

theorem noBare_cons : NoBare (c :: cs) ↔ ¬ Bare (c :: cs) ∧ NoBare cs := by
  simp [NoBare]

theorem not_bare_cons (h : c ≠ '&' ∧ c ≠ '<') : ¬ Bare (c :: cs) := by
  unfold Bare
  split
  · rename_i heq; exact fun _ => h.2 (List.cons.inj heq).1
  · rename_i heq; exact fun _ => h.1 (List.cons.inj heq).1
  · exact id

theorem noBare_append (h : Harmless s) : NoBare (s ++ cs) ↔ NoBare cs := by
  induction s with
  | nil => rfl
  | cons c s ih =>
      have hs : Harmless s := fun x hx => h x (List.mem_cons_of_mem _ hx)
      rw [List.cons_append, noBare_cons, ih hs]
      exact and_iff_right (not_bare_cons (h c List.mem_cons_self))

theorem NoBare.of_append (h : NoBare (s ++ cs)) : NoBare cs :=
  fun t ht =>
    h t ((List.mem_tails _ _).mpr (((List.mem_tails _ _).mp ht).trans (List.suffix_append _ _)))

end Ref

/-! ## Glyphs -/

/-- A character that is to be shown, and what is sent for it. -/
inductive Glyph where
  | raw (c : Char)
  | ref (c : Char) (name : List Char) (h : charOf name = some c)
  /-- A reference whose name is lost. -/
  | broken (c : Char)

def Glyph.shown : Glyph → Char
  | .raw c | .ref c .. | .broken c => c

def Glyph.sent : Glyph → List Char
  | .raw c => [c]
  | .ref _ name _ => '&' :: (name ++ [';'])
  | .broken _ => ['&', ';']

def Glyph.Sound : Glyph → Prop
  | .raw c => c ≠ '&' ∧ c ≠ '<'
  | .ref .. => True
  | .broken _ => False

def shown (g : List Glyph) : List Char := g.map Glyph.shown

def sent (g : List Glyph) : List Char := g.flatMap Glyph.sent

def Sound (g : List Glyph) : Prop := ∀ x ∈ g, x.Sound

section Glyphs

variable {x : Glyph} {g g' : List Glyph} {s rest : List Char} {n : Nat}

@[simp] theorem sent_nil : sent [] = [] := rfl

@[simp] theorem sent_cons : sent (x :: g) = x.sent ++ sent g := rfl

@[simp] theorem sent_append : sent (g ++ g') = sent g ++ sent g' := List.flatMap_append

@[simp] theorem shown_append : shown (g ++ g') = shown g ++ shown g' := List.map_append

@[simp] theorem length_shown : (shown g).length = g.length := List.length_map _

@[simp] theorem sent_raw (s : List Char) : sent (s.map Glyph.raw) = s := by
  induction s with
  | nil => rfl
  | cons c s ih => rw [List.map_cons, sent_cons, ih]; rfl

@[simp] theorem shown_raw (s : List Char) : shown (s.map Glyph.raw) = s := by
  rw [shown, List.map_map]
  exact List.map_id s

theorem sound_cons : Sound (x :: g) ↔ x.Sound ∧ Sound g := List.forall_mem_cons

theorem sound_append : Sound (g ++ g') ↔ Sound g ∧ Sound g' := List.forall_mem_append

theorem sound_raw : Sound (s.map Glyph.raw) ↔ Harmless s := List.forall_mem_map

theorem Glyph.sent_pos (x : Glyph) : 1 ≤ x.sent.length := by
  cases x <;> simp [Glyph.sent]

theorem length_le_sent (g : List Glyph) : g.length ≤ (sent g).length := by
  induction g with
  | nil => rfl
  | cons x g ih =>
      have := x.sent_pos
      rw [sent_cons, List.length_append, List.length_cons]
      omega

/-- **Sound glyphs are read back as the characters they are to show.** -/
theorem escapedOnce_of_sound (h : Sound g) : EscapedOnce (shown g) (sent g) := by
  induction g with
  | nil => exact ⟨rfl, noBare_nil⟩
  | cons x g ih =>
      obtain ⟨hx, hg⟩ := sound_cons.mp h
      obtain ⟨hdec, hbare⟩ := ih hg
      cases x with
      | raw c =>
          refine ⟨?_, noBare_cons.mpr ⟨not_bare_cons hx, hbare⟩⟩
          exact (decode_cons_of_ne hx.1).trans (congrArg (c :: ·) hdec)
      | ref c name hname =>
          have hsent : sent (.ref c name hname :: g) = '&' :: (name ++ ';' :: sent g) := by
            simp [Glyph.sent]
          rw [EscapedOnce, hsent]
          refine ⟨(decode_ref hname).trans (congrArg (c :: ·) hdec), noBare_cons.mpr ⟨?_, ?_⟩⟩
          · rw [Bare, ref?_name hname]; simp
          · refine (noBare_append fun y hy => ?_).mpr
              (noBare_cons.mpr ⟨not_bare_cons (by decide), hbare⟩)
            obtain ⟨h1, h2, -⟩ := name_plain hname y hy
            exact ⟨h1, h2⟩
      | broken c => exact hx.elim

/-- What begins without a `&` was sent by characters that stand for themselves. -/
theorem sent_eq_append (hs : ∀ c ∈ s, c ≠ '&') (h : sent g = s ++ rest) :
    ∃ g', g = s.map Glyph.raw ++ g' ∧ sent g' = rest := by
  induction s generalizing g with
  | nil => exact ⟨g, rfl, h⟩
  | cons c s ih =>
      have hc := hs c List.mem_cons_self
      cases g with
      | nil => exact absurd h (by simp)
      | cons x g =>
          cases x with
          | raw d =>
              have hcons : d :: sent g = c :: (s ++ rest) := h
              obtain ⟨rfl, htail⟩ := List.cons.inj hcons
              obtain ⟨g', rfl, hg'⟩ := ih (fun c hc => hs c (List.mem_cons_of_mem _ hc)) htail
              exact ⟨g', rfl, hg'⟩
          | ref d name hname => exact absurd (List.cons.inj h).1.symm hc
          | broken d => exact absurd (List.cons.inj h).1.symm hc

/-- Reading never yields more characters than there are glyphs, and as many only if all of
them are sound. -/
theorem decode_length : ∀ (m : Nat) (g : List Glyph), g.length = m → NoBare (sent g) →
    (decode (sent g)).length ≤ m ∧ ((decode (sent g)).length = m → Sound g) := by
  intro m
  induction m using Nat.strong_induction_on with
  | _ m ih =>
      intro g hm hbare
      cases g with
      | nil => exact ⟨by simp, fun _ => by simp [Sound]⟩
      | cons x g =>
          obtain rfl : g.length + 1 = m := hm
          cases x with
          | broken c =>
              exact absurd rfl (noBare_cons.mp hbare).1
          | ref c name hname =>
              have hsent : sent (.ref c name hname :: g) = '&' :: (name ++ ';' :: sent g) := by
                simp [Glyph.sent]
              rw [hsent] at hbare ⊢
              have hbare' : NoBare (sent g) := by
                refine NoBare.of_append (s := '&' :: (name ++ [';'])) ?_
                simpa using hbare
              obtain ⟨hle, heq⟩ := ih g.length (by omega) g rfl hbare'
              rw [decode_ref hname, List.length_cons]
              exact ⟨by omega, fun h => sound_cons.mpr ⟨trivial, heq (by omega)⟩⟩
          | raw c =>
              have hbare : NoBare (c :: sent g) := hbare
              obtain ⟨hc, hbare'⟩ := noBare_cons.mp hbare
              by_cases hamp : c = '&'
              · -- the glyph begins a reference that takes in others
                subst hamp
                have hne : ref? ('&' :: sent g) ≠ none := hc
                obtain ⟨⟨d, n⟩, hr⟩ := Option.ne_none_iff_exists'.mp hne
                obtain ⟨name, rest, hname, hs, -⟩ := ref?_eq_some hr
                obtain ⟨-, hs⟩ := List.cons.inj hs
                have hsplit : sent g = (name ++ [';']) ++ rest := by rw [hs]; simp
                have hplain : ∀ y ∈ name ++ [';'], y ≠ '&' := by
                  intro y hy
                  rcases List.mem_append.mp hy with hy | hy
                  · exact (name_plain hname y hy).1
                  · rw [List.mem_singleton.mp hy]; decide
                obtain ⟨g', rfl, hg'⟩ := sent_eq_append hplain hsplit
                rw [hsplit] at hbare'
                obtain ⟨hle, -⟩ := ih g'.length (by simp; omega) g' rfl (hg' ▸ hbare'.of_append)
                have hlen : (decode (sent (.raw '&' :: ((name ++ [';']).map Glyph.raw ++ g')))).length
                    = (decode (sent g')).length + 1 := by
                  have hfull : sent (.raw '&' :: ((name ++ [';']).map Glyph.raw ++ g'))
                      = '&' :: (name ++ ';' :: sent g') := by simp [Glyph.sent]
                  rw [hfull, decode_ref hname, List.length_cons]
                have hpos : 1 ≤ name.length :=
                  List.length_pos_iff.mpr (name_ne_nil hname)
                rw [hlen]
                simp only [List.length_append, List.length_map, List.length_cons, List.length_nil]
                exact ⟨by omega, fun h => absurd h (by omega)⟩
              · obtain ⟨hle, heq⟩ := ih g.length (by omega) g rfl hbare'
                have hdec : decode (sent (.raw c :: g)) = c :: decode (sent g) :=
                  decode_cons_of_ne hamp
                have hlt : c ≠ '<' := by
                  rintro rfl
                  exact hc trivial
                rw [hdec, List.length_cons]
                exact ⟨by omega, fun h => sound_cons.mpr ⟨⟨hamp, hlt⟩, heq (by omega)⟩⟩

/-- **A text is escaped once exactly if every glyph of it is.** -/
theorem escapedOnce_iff : EscapedOnce (shown g) (sent g) ↔ Sound g := by
  constructor
  · rintro ⟨hdec, hbare⟩
    refine (decode_length g.length g rfl hbare).2 ?_
    rw [hdec, length_shown]
  · exact escapedOnce_of_sound

/-- Text that is sent as it is must have nothing to escape. -/
theorem escapedOnce_self_iff : EscapedOnce s s ↔ Harmless s := by
  have h := escapedOnce_iff (g := s.map Glyph.raw)
  rwa [shown_raw, sent_raw, sound_raw] at h

/-! ## Cutting -/

/-- What is left of a text that is cut at length `n`: some of its glyphs, of just this
length unless it is all of them, or some of its glyphs and the beginning of a reference. -/
theorem sent_take (g : List Glyph) (n : Nat) :
    (∃ k ≤ g.length, (sent g).take n = sent (g.take k)
        ∧ (k = g.length ∨ (sent (g.take k)).length = n))
    ∨ ∃ k p, (sent g).take n = sent (g.take k) ++ '&' :: p ∧ ';' ∉ p := by
  induction g generalizing n with
  | nil => exact .inl ⟨0, by simp, by simp, .inl rfl⟩
  | cons x g ih =>
      by_cases hx : x.sent.length ≤ n
      · have htake : (sent (x :: g)).take n = x.sent ++ (sent g).take (n - x.sent.length) := by
          rw [sent_cons, List.take_append, List.take_of_length_le hx]
        rcases ih (n - x.sent.length) with ⟨k, hk, he, hlen⟩ | ⟨k, p, he, hp⟩
        · refine .inl ⟨k + 1, by simpa using hk, by rw [htake, he]; simp, ?_⟩
          rcases hlen with rfl | hlen
          · exact .inl rfl
          · refine .inr ?_
            rw [List.take_succ_cons, sent_cons, List.length_append, hlen]
            omega
        · exact .inr ⟨k + 1, p, by rw [htake, he]; simp, hp⟩
      · -- the cut is inside the first glyph
        have hlt : n < x.sent.length := by omega
        have htake : (sent (x :: g)).take n = x.sent.take n := by
          rw [sent_cons, List.take_append_of_le_length (Nat.le_of_lt hlt)]
        cases n with
        | zero => exact .inl ⟨0, by simp, by simp, .inr (by simp)⟩
        | succ n =>
            refine .inr ⟨0, ?_⟩
            rw [htake]
            cases x with
            | raw c => exact absurd hlt (by simp [Glyph.sent])
            | ref c name hname =>
                refine ⟨name.take n, ?_, fun hmem => ?_⟩
                · have hn : n ≤ name.length := by
                    simp only [Glyph.sent, List.length_cons, List.length_append, List.length_nil] at hlt
                    omega
                  simp [Glyph.sent, List.take_append_of_le_length hn]
                · exact (name_plain hname _ (List.mem_of_mem_take hmem)).2.2 rfl
            | broken c =>
                have hn : n = 0 := by
                  simp only [Glyph.sent, List.length_cons, List.length_nil] at hlt
                  omega
                subst hn
                exact ⟨[], by simp [Glyph.sent], by simp⟩

theorem sent_eq_shown (h : (sent g).length = g.length) : sent g = shown g := by
  induction g with
  | nil => rfl
  | cons x g ih =>
      have hg := length_le_sent g
      have hx := x.sent_pos
      rw [sent_cons, List.length_append, List.length_cons] at h
      have hih := ih (by omega)
      have hone : x.sent.length = 1 := by omega
      cases x with
      | raw c => exact congrArg (c :: ·) hih
      | ref c name hname => exact absurd hone (by simp [Glyph.sent])
      | broken c => exact absurd hone (by simp [Glyph.sent])

/-- **A text that is cut at length `n` is escaped once exactly if all of it is and it is not
longer, or if there is nothing to escape before the cut.** -/
theorem escapedOnce_take_iff : EscapedOnce ((shown g).take n) ((sent g).take n)
    ↔ ((sent g).length ≤ n ∧ Sound g)
      ∨ ((sent g).take n = (shown g).take n ∧ Harmless ((shown g).take n)) := by
  constructor
  · rintro ⟨hdec, hbare⟩
    rcases sent_take g n with ⟨k, hk, he, hlen⟩ | ⟨k, p, he, hp⟩
    · rw [he] at hdec hbare
      have hgk : (g.take k).length = k := List.length_take_of_le hk
      obtain ⟨hle, hsound⟩ := decode_length k (g.take k) hgk hbare
      have hcount : (decode (sent (g.take k))).length = min n g.length := by
        rw [hdec, List.length_take, length_shown]
      have hkn : k ≤ n := by
        have h1 := length_le_sent (g.take k)
        have h2 : (sent (g.take k)).length ≤ n := by rw [← he]; exact List.length_take_le _ _
        omega
      have hs : Sound (g.take k) := hsound (by omega)
      rcases hlen with rfl | hlen
      · rw [List.take_length] at hs he
        refine .inl ⟨?_, hs⟩
        rw [← he]
        exact List.length_take_le _ _
      · by_cases hlt : g.length ≤ n
        · obtain rfl : k = g.length := by omega
          rw [List.take_length] at hs hlen
          exact .inl ⟨by omega, hs⟩
        · obtain rfl : k = n := by omega
          have heq : sent (g.take k) = shown (g.take k) := sent_eq_shown (by omega)
          have hshown : shown (g.take k) = (shown g).take k := List.map_take
          refine .inr ⟨by rw [he, heq, hshown], ?_⟩
          rw [← hshown, ← escapedOnce_self_iff]
          have hall := escapedOnce_of_sound hs
          rwa [heq] at hall
    · -- the beginning of a reference is a bare ampersand
      rw [he] at hbare
      exact absurd (ref?_of_not_mem hp) (noBare_cons.mp hbare.of_append).1
  · rintro (⟨hlen, hs⟩ | ⟨he, hh⟩)
    · have hshown : (shown g).length ≤ n := by
        rw [length_shown]
        exact Nat.le_trans (length_le_sent g) hlen
      rw [List.take_of_length_le hlen, List.take_of_length_le hshown]
      exact escapedOnce_of_sound hs
    · rw [he]
      exact escapedOnce_self_iff.mpr hh

end Glyphs

/-! ## Escapers -/

/-- The characters that an escaper writes as references, `&` and `<` among them. -/
structure Escaper where
  name : Char → Option (List Char)
  charOf_name : ∀ c n, name c = some n → charOf n = some c
  special : ∀ c, name c = none → c ≠ '&' ∧ c ≠ '<'

def Escaper.glyph (e : Escaper) (c : Char) : Glyph :=
  match h : e.name c with
  | some n => .ref c n (e.charOf_name c n h)
  | none => .raw c

/-- Write each character of a text as the escaper does. -/
def Escaper.escape (e : Escaper) (s : List Char) : List Char := sent (s.map e.glyph)

section Escaper

variable {e : Escaper} {c : Char} {s : List Char}

theorem Escaper.shown_glyph : (e.glyph c).shown = c := by
  unfold Escaper.glyph
  split <;> rfl

theorem Escaper.sound_glyph : (e.glyph c).Sound := by
  unfold Escaper.glyph
  split
  · trivial
  · rename_i h
    exact e.special c h

theorem Escaper.shown_map (s : List Char) : shown (s.map e.glyph) = s := by
  rw [shown, List.map_map]
  conv_rhs => rw [← List.map_id s]
  exact List.map_congr_left fun c _ => e.shown_glyph

theorem Escaper.sound_map (s : List Char) : Sound (s.map e.glyph) := by
  intro x hx
  obtain ⟨c, -, rfl⟩ := List.mem_map.mp hx
  exact e.sound_glyph

/-- **What an escaper writes is escaped once.** -/
theorem Escaper.escapedOnce (s : List Char) : EscapedOnce s (e.escape s) := by
  have h := escapedOnce_of_sound (e.sound_map s)
  rwa [e.shown_map] at h

/-- Text that is escaped although it is the sent form of another comes out as that. -/
theorem Escaper.escapedOnce_escape_iff {plain : List Char} :
    EscapedOnce plain (e.escape s) ↔ s = plain := by
  obtain ⟨hdec, hbare⟩ := e.escapedOnce s
  rw [EscapedOnce, hdec]
  exact and_iff_left hbare

end Escaper

end Html
