import TelegramCms.Model.Content

/-!
# What tag stripping leaves

The three patterns are applied one after the other, so taking out the matches of one brings
characters together that stood apart. No match of an earlier pattern comes of it: a match
is as long as it can be, so what follows a hashtag or a mention is no word character, and
what follows a link is a space.

`applyWatermark_stripped`: the result holds no match of any pattern, no run of three
newlines and no space at either end, and stripping it again changes nothing.
-/

namespace TelegramCms

/-! ## The patterns -/

/-- The strings that `#\w+` matches, and `@\w+`. -/
def TagMatch (env : Env) (mark : Char) (m : Text) : Prop :=
  ∃ w, m = mark :: w ∧ w ≠ [] ∧ ∀ c ∈ w, env.isWord c = true

def linkPrefixes : List Text := ["https://t.me/".toList, "http://t.me/".toList]

/-- The strings that `https?://t\.me/\S+` matches. -/
def LinkMatch (m : Text) : Prop :=
  ∃ lit ∈ linkPrefixes, ∃ w, m = lit ++ w ∧ w ≠ [] ∧ ∀ c ∈ w, Py.isSpace c = false

/-- No match of a pattern, no run of three newlines, no space at either end. -/
structure Stripped (env : Env) (s : Text) : Prop where
  hashtag : ∀ m, m <:+: s → ¬ TagMatch env '#' m
  mention : ∀ m, m <:+: s → ¬ TagMatch env '@' m
  link : ∀ m, m <:+: s → ¬ LinkMatch m
  newlines : ¬ "\n\n\n".toList <:+: s
  head : ∀ c ∈ s.head?, Py.isSpace c = false
  last : ∀ c ∈ s.getLast?, Py.isSpace c = false

/-- No space is in the class `\w`. -/
def SpaceNotWord (env : Env) : Prop := ∀ c, Py.isSpace c = true → env.isWord c = false

/-! ## Hashtags and mentions -/

/-- No word character follows the mark. -/
def NoTag (env : Env) (mark : Char) (s : Text) : Prop :=
  ∀ c, env.isWord c = true → ¬ [mark, c] <:+: s

section Tag

variable {env : Env} {mark m c : Char} {s : Text} {inTag : Bool}

/-- No mark stands before a character of a word: in other words, no part of the text matches. -/
theorem noTag_iff : NoTag env mark s ↔ ∀ m, m <:+: s → ¬ TagMatch env mark m := by
  constructor
  · rintro h _ hm ⟨w, rfl, hne, hw⟩
    obtain ⟨c, w, rfl⟩ := List.exists_cons_of_ne_nil hne
    have hpre : [mark, c] <+: mark :: c :: w := ⟨w, rfl⟩
    exact h c (hw c List.mem_cons_self) (hpre.isInfix.trans hm)
  · intro h c hc hin
    exact h _ hin ⟨[c], rfl, by simp, by simpa using hc⟩

theorem noTag_nil : NoTag env mark [] := fun _ _ h => absurd (List.infix_nil.mp h) (by simp)

/-- A text has no tag if none starts at its head and none in the rest. -/
theorem noTag_cons :
    NoTag env mark (c :: s) ↔ ¬ (c = mark ∧ s.head?.any env.isWord = true) ∧ NoTag env mark s := by
  unfold NoTag
  constructor
  · intro h
    refine ⟨?_, fun x hx hin => h x hx (List.infix_cons hin)⟩
    rintro ⟨rfl, hs⟩
    obtain ⟨x, hx, hword⟩ := (Option.any_eq_true _ _).mp hs
    obtain ⟨t, rfl⟩ := List.head?_eq_some_iff.mp hx
    exact h x hword (List.IsPrefix.isInfix ⟨t, rfl⟩)
  · rintro ⟨hc, hs⟩ x hx hin
    rcases List.infix_cons_iff.mp hin with hpre | hin
    · obtain ⟨rfl, t, rfl⟩ := List.cons_prefix_cons.mp hpre
      exact hc ⟨rfl, by simpa using hx⟩
    · exact hs x hx hin

/-- A tag is taken out to its end. -/
theorem head_subTag_inTag : (subTag env mark true s).head?.any env.isWord = false := by
  induction s with
  | nil => rfl
  | cons c s ih =>
      rw [subTag]
      split
      · exact ih
      · rename_i hc
        split
        · exact ih
        · simpa using hc

/-- What is left of a text that begins with no character of a word begins with none. -/
theorem head_subTag (hs : s.head?.any env.isWord = false) :
    (subTag env mark inTag s).head?.any env.isWord = false := by
  cases inTag with
  | true => exact head_subTag_inTag
  | false =>
      cases s with
      | nil => rfl
      | cons c s =>
          rw [subTag, Bool.false_and, if_neg (by simp)]
          split
          · exact head_subTag_inTag
          · exact hs

/-- **The pass leaves no tag**: what comes after one that was cut out is no character of a word. -/
theorem noTag_subTag : NoTag env mark (subTag env mark inTag s) := by
  induction s generalizing inTag with
  | nil => exact noTag_nil
  | cons c s ih =>
      rw [subTag]
      split
      · exact ih
      · split
        · exact ih
        · rename_i hkeep
          refine noTag_cons.mpr ⟨?_, ih⟩
          rintro ⟨rfl, hword⟩
          refine absurd hword ?_
          rw [head_subTag (by simpa using hkeep)]
          simp

/-- A pattern leaves no match of another one that was not there before. -/
theorem NoTag.subTag (h : NoTag env m s) : NoTag env m (subTag env mark inTag s) := by
  induction s generalizing inTag with
  | nil => exact noTag_nil
  | cons c s ih =>
      obtain ⟨hc, hs⟩ := noTag_cons.mp h
      rw [TelegramCms.subTag]
      split
      · exact ih hs
      · split
        · exact ih hs
        · refine noTag_cons.mpr ⟨?_, ih hs⟩
          rintro ⟨rfl, hword⟩
          refine absurd hword ?_
          rw [head_subTag (by simpa using hc)]
          simp

theorem subTag_eq_self (h : NoTag env mark s) : subTag env mark false s = s := by
  induction s with
  | nil => rfl
  | cons c s ih =>
      obtain ⟨hc, hs⟩ := noTag_cons.mp h
      rw [subTag, Bool.false_and, if_neg (by simp), if_neg (by simpa using hc), ih hs]

end Tag

/-! ## Links -/

/-- No link starts anywhere. -/
def NoLink (s : Text) : Prop := ∀ t, t <:+ s → startsTmeLink t = false

section Link

variable {env : Env} {mark c : Char} {s p : Text} {inLink : Bool}

theorem not_isSpace_linkPrefixes : ∀ lit ∈ linkPrefixes, ∀ c ∈ lit, Py.isSpace c = false := by
  have hall : linkPrefixes.all (fun lit => lit.all (fun c => !Py.isSpace c)) = true := by decide
  intro lit hlit c hc
  simpa using List.all_eq_true.mp (List.all_eq_true.mp hall lit hlit) c hc

theorem linkPrefixes_head : ∀ lit ∈ linkPrefixes, lit.head? = some 'h' := by decide

/-- A link has no blank. -/
theorem LinkMatch.not_isSpace (h : LinkMatch p) : ∀ c ∈ p, Py.isSpace c = false := by
  obtain ⟨lit, hlit, w, rfl, -, hw⟩ := h
  intro c hc
  rcases List.mem_append.mp hc with hc | hc
  · exact not_isSpace_linkPrefixes lit hlit c hc
  · exact hw c hc

/-- A link starts here: one of the two prefixes and a visible character after it. -/
theorem startsTmeLink_iff : startsTmeLink s = true ↔ ∃ m, m <+: s ∧ LinkMatch m := by
  rw [startsTmeLink, List.any_eq_true]
  constructor
  · rintro ⟨lit, hlit, hs⟩
    obtain ⟨hpre, hnext⟩ := Bool.and_eq_true_iff.mp hs
    obtain ⟨t, rfl⟩ := List.isPrefixOf_iff_prefix.mp hpre
    obtain ⟨x, hx, hsp⟩ := (Option.any_eq_true _ _).mp hnext
    rw [List.drop_left] at hx
    obtain ⟨t, rfl⟩ := List.head?_eq_some_iff.mp hx
    exact ⟨lit ++ [x], ⟨t, by simp⟩, lit, hlit, [x], rfl, by simp, by simpa using hsp⟩
  · rintro ⟨_, ⟨t, rfl⟩, lit, hlit, w, rfl, hne, hw⟩
    refine ⟨lit, hlit, ?_⟩
    obtain ⟨x, w, rfl⟩ := List.exists_cons_of_ne_nil hne
    rw [List.append_assoc, List.drop_left]
    simp [hw x List.mem_cons_self]

theorem startsTmeLink_head (h : startsTmeLink s = true) : s.head? = some 'h' := by
  obtain ⟨_, ⟨t, rfl⟩, lit, hlit, w, rfl, -, -⟩ := startsTmeLink_iff.mp h
  have hh := linkPrefixes_head lit hlit
  obtain ⟨lit', rfl⟩ := List.head?_eq_some_iff.mp hh
  rfl

/-- No part of the text is a link. -/
theorem noLink_iff : NoLink s ↔ ∀ m, m <:+: s → ¬ LinkMatch m := by
  constructor
  · intro h m hm hlink
    obtain ⟨a, b, rfl⟩ := hm
    have hstart := h (m ++ b) ⟨a, by simp⟩
    rw [startsTmeLink_iff.mpr ⟨m, ⟨b, rfl⟩, hlink⟩] at hstart
    exact absurd hstart (by simp)
  · intro h t ht
    rw [Bool.eq_false_iff]
    intro hstart
    obtain ⟨m, hm, hlink⟩ := startsTmeLink_iff.mp hstart
    exact h m (hm.isInfix.trans ht.isInfix) hlink

theorem noLink_cons : NoLink (c :: s) ↔ startsTmeLink (c :: s) = false ∧ NoLink s := by
  constructor
  · intro h
    exact ⟨h _ List.suffix_rfl, fun t ht => h t (List.suffix_cons_iff.mpr (.inr ht))⟩
  · rintro ⟨hc, hs⟩ t ht
    rcases List.suffix_cons_iff.mp ht with rfl | ht
    · exact hc
    · exact hs t ht

theorem noLink_nil : NoLink [] := by
  intro t ht
  rw [List.suffix_nil.mp ht]
  decide

/-- Behind a link comes a space. -/
theorem head_subTmeLink_inLink : ∀ c ∈ (subTmeLink true s).head?, Py.isSpace c = true := by
  induction s with
  | nil => intro c hc; exact absurd hc (by simp [subTmeLink])
  | cons c s ih =>
      rw [subTmeLink]
      split
      · exact ih
      · rename_i hc
        split
        · exact ih
        · intro d hd
          obtain rfl := Option.some.inj hd
          simpa using hc

/-- What is left up to the next space was there before. -/
theorem prefix_subTmeLink (hp : ∀ c ∈ p, Py.isSpace c = false)
    (h : p <+: subTmeLink false s) : p <+: s := by
  induction p generalizing s with
  | nil => exact List.nil_prefix
  | cons x p ih =>
      cases s with
      | nil => exact h
      | cons c s =>
          rw [subTmeLink, Bool.false_and, if_neg (by simp)] at h
          split at h
          · -- a link, and then a space
            obtain ⟨t, ht⟩ := h
            have hx := head_subTmeLink_inLink (s := s) x (by rw [← ht]; rfl)
            rw [hp x List.mem_cons_self] at hx
            exact absurd hx (by simp)
          · obtain ⟨rfl, htail⟩ := List.cons_prefix_cons.mp h
            exact List.cons_prefix_cons.mpr
              ⟨rfl, ih (fun c hc => hp c (List.mem_cons_of_mem _ hc)) htail⟩

/-- A character that is kept starts a link only if it did before. -/
theorem not_startsTmeLink {f : Text → Text}
    (hf : ∀ p, (∀ c ∈ p, Py.isSpace c = false) → p <+: f s → p <+: s)
    (h : startsTmeLink (c :: s) = false) : startsTmeLink (c :: f s) = false := by
  rw [Bool.eq_false_iff] at h ⊢
  intro hstart
  obtain ⟨m, hm, hlink⟩ := startsTmeLink_iff.mp hstart
  refine h (startsTmeLink_iff.mpr ⟨m, ?_, hlink⟩)
  cases m with
  | nil => exact List.nil_prefix
  | cons x m =>
      obtain ⟨rfl, htail⟩ := List.cons_prefix_cons.mp hm
      refine List.cons_prefix_cons.mpr ⟨rfl, hf m (fun c hc => ?_) htail⟩
      exact hlink.not_isSpace c (List.mem_cons_of_mem _ hc)

/-- A mark that is kept stands before a word character only if it did before. -/
theorem head_word_of_prefix {f : Text → Text} (hsp : SpaceNotWord env)
    (hf : ∀ p, (∀ c ∈ p, Py.isSpace c = false) → p <+: f s → p <+: s)
    (h : (f s).head?.any env.isWord = true) : s.head?.any env.isWord = true := by
  obtain ⟨x, hx, hword⟩ := (Option.any_eq_true _ _).mp h
  have hnsp : Py.isSpace x = false := by
    rw [Bool.eq_false_iff]
    intro hs
    rw [hsp x hs] at hword
    exact absurd hword (by simp)
  obtain ⟨t, ht⟩ := List.head?_eq_some_iff.mp hx
  obtain ⟨u, rfl⟩ := hf [x] (by simpa using hnsp) ⟨t, ht.symm⟩
  simpa using hword

/-- **The pass leaves no link**: what comes after one that was cut out is a blank, or nothing. -/
theorem noLink_subTmeLink : NoLink (subTmeLink inLink s) := by
  induction s generalizing inLink with
  | nil => exact noLink_nil
  | cons c s ih =>
      rw [subTmeLink]
      split
      · exact ih
      · split
        · exact ih
        · rename_i hkeep
          refine noLink_cons.mpr ⟨?_, ih⟩
          exact not_startsTmeLink (f := subTmeLink false) (fun p hp => prefix_subTmeLink hp)
            (by simpa using hkeep)

/-- It makes no tag either: a blank is no character of a word. -/
theorem NoTag.subTmeLink (hsp : SpaceNotWord env) (h : NoTag env mark s) :
    NoTag env mark (subTmeLink inLink s) := by
  induction s generalizing inLink with
  | nil => exact noTag_nil
  | cons c s ih =>
      obtain ⟨hc, hs⟩ := noTag_cons.mp h
      rw [TelegramCms.subTmeLink]
      split
      · exact ih hs
      · split
        · exact ih hs
        · refine noTag_cons.mpr ⟨fun hword => hc ⟨hword.1, ?_⟩, ih hs⟩
          exact head_word_of_prefix (f := TelegramCms.subTmeLink false) hsp
            (fun p hp => prefix_subTmeLink hp) hword.2

theorem subTmeLink_eq_self (h : NoLink s) : subTmeLink false s = s := by
  induction s with
  | nil => rfl
  | cons c s ih =>
      obtain ⟨hc, hs⟩ := noLink_cons.mp h
      rw [subTmeLink, Bool.false_and, if_neg (by simp), hc, if_neg (by simp), ih hs]

end Link

/-! ## Blank lines and ends -/

/-- Three newlines in a row. -/
def blankLines : Text := "\n\n\n".toList

section Blank

variable {env : Env} {mark c : Char} {s p l r : Text} {n : Nat}

/-- A string without `c` stands on one side of a `c`. -/
theorem split_append_cons {a b : Text} (hc : c ∉ p) (h : a ++ p ++ b = l ++ c :: r) :
    (∃ u, l = a ++ p ++ u ∧ b = u ++ c :: r) ∨ ∃ u, r = u ++ p ++ b := by
  rw [List.append_assoc] at h
  rcases List.append_eq_append_iff.mp h with ⟨a', rfl, htail⟩ | ⟨c', rfl, htail⟩
  · -- the string begins in `l`
    rcases List.append_eq_append_iff.mp htail with ⟨u, rfl, hu⟩ | ⟨u, rfl, hu⟩
    · exact .inl ⟨u, by rw [List.append_assoc], hu⟩
    · cases u with
      | nil => exact .inl ⟨[], by simp, by simpa using hu.symm⟩
      | cons x u =>
          obtain ⟨rfl, -⟩ := List.cons.inj hu
          exact absurd (List.mem_append_right a' List.mem_cons_self) hc
  · cases c' with
    | nil =>
        cases p with
        | nil => exact .inl ⟨[], by simp, by simpa using htail.symm⟩
        | cons x p =>
            obtain ⟨rfl, -⟩ := List.cons.inj htail
            exact absurd List.mem_cons_self hc
    | cons x c' =>
        obtain ⟨-, rfl⟩ := List.cons.inj htail
        exact .inr ⟨c', (List.append_assoc c' p b).symm⟩

/-- A part that has no such character is on one side of it. -/
theorem infix_append_cons (hc : c ∉ p) (h : p <:+: l ++ c :: r) : p <:+: l ∨ p <:+: r := by
  obtain ⟨a, b, hab⟩ := h
  rcases split_append_cons hc hab with ⟨u, rfl, -⟩ | ⟨u, rfl⟩
  · exact .inl ⟨a, u, rfl⟩
  · exact .inr ⟨u, b, rfl⟩

/-- What is visible from the start of a collapsed text was there before. -/
theorem prefix_collapseNewlines (hp : ∀ c ∈ p, Py.isSpace c = false)
    (h : p <+: collapseNewlines 0 s) : p <+: s := by
  induction p generalizing s with
  | nil => exact List.nil_prefix
  | cons x p ih =>
      have hx := hp x List.mem_cons_self
      cases s with
      | nil => exact h
      | cons c s =>
          rw [collapseNewlines] at h
          by_cases hc : c = '\n'
          · rw [if_pos hc, if_neg (by decide)] at h
            obtain ⟨rfl, -⟩ := List.cons_prefix_cons.mp h
            rw [hc] at hx
            exact absurd hx (by decide)
          · rw [if_neg hc] at h
            obtain ⟨rfl, htail⟩ := List.cons_prefix_cons.mp h
            exact List.cons_prefix_cons.mpr
              ⟨rfl, ih (fun c hc => hp c (List.mem_cons_of_mem _ hc)) htail⟩

/-- To collapse newlines makes no tag, -/
theorem NoTag.collapseNewlines (hsp : SpaceNotWord env) (hm : mark ≠ '\n') (h : NoTag env mark s) :
    NoTag env mark (collapseNewlines n s) := by
  induction s generalizing n with
  | nil => exact noTag_nil
  | cons c s ih =>
      obtain ⟨hc, hs⟩ := noTag_cons.mp h
      rw [TelegramCms.collapseNewlines]
      split
      · rename_i hnl
        split
        · exact ih hs
        · exact noTag_cons.mpr ⟨fun hword => hm (hword.1.symm.trans hnl), ih hs⟩
      · refine noTag_cons.mpr ⟨fun hword => hc ⟨hword.1, ?_⟩, ih hs⟩
        exact head_word_of_prefix (f := TelegramCms.collapseNewlines 0) hsp
          (fun p hp => prefix_collapseNewlines hp) hword.2

/-- and no link. -/
theorem NoLink.collapseNewlines (h : NoLink s) : NoLink (collapseNewlines n s) := by
  induction s generalizing n with
  | nil => exact noLink_nil
  | cons c s ih =>
      obtain ⟨hc, hs⟩ := noLink_cons.mp h
      rw [TelegramCms.collapseNewlines]
      split
      · rename_i hnl
        split
        · exact ih hs
        · refine noLink_cons.mpr ⟨?_, ih hs⟩
          rw [Bool.eq_false_iff, hnl]
          intro hstart
          exact absurd (startsTmeLink_head hstart) (by simp)
      · refine noLink_cons.mpr ⟨?_, ih hs⟩
        exact not_startsTmeLink (f := TelegramCms.collapseNewlines 0)
          (fun p hp => prefix_collapseNewlines hp) hc

/-- Two newlines are kept, counting those that were copied before. -/
theorem not_blankLines_collapseNewlines (hn : n ≤ 2) :
    ¬ blankLines <:+: List.replicate n '\n' ++ collapseNewlines n s := by
  induction s generalizing n with
  | nil =>
      intro h
      have hlen := h.length_le
      rw [collapseNewlines, List.append_nil, List.length_replicate] at hlen
      exact absurd hlen (by rw [show blankLines.length = 3 from rfl]; omega)
  | cons c s ih =>
      rw [collapseNewlines]
      by_cases hc : c = '\n'
      · rw [if_pos hc]
        by_cases h2 : 2 ≤ n
        · rw [if_pos h2]
          exact ih hn
        · rw [if_neg h2, hc, List.append_cons, ← List.replicate_succ']
          exact ih (by omega)
      · rw [if_neg hc]
        intro h
        have hmem : c ∉ blankLines := by simp [blankLines, hc]
        rcases infix_append_cons hmem h with h | h
        · have hlen := h.length_le
          rw [List.length_replicate] at hlen
          exact absurd hlen (by rw [show blankLines.length = 3 from rfl]; omega)
        · exact ih (Nat.zero_le 2) h

/-- And it takes nothing from a text without blank lines in a row. -/
theorem collapseNewlines_eq_self (hn : n ≤ 2)
    (h : ¬ blankLines <:+: List.replicate n '\n' ++ s) : collapseNewlines n s = s := by
  induction s generalizing n with
  | nil => rfl
  | cons c s ih =>
      rw [collapseNewlines]
      by_cases hc : c = '\n'
      · rw [if_pos hc]
        by_cases h2 : 2 ≤ n
        · obtain rfl : n = 2 := by omega
          exact absurd ⟨[], s, by rw [hc]; rfl⟩ h
        · rw [if_neg h2, ih (by omega)]
          rwa [hc, List.append_cons, ← List.replicate_succ'] at h
      · rw [if_neg hc, ih (Nat.zero_le 2)]
        exact fun hin => h (hin.trans ⟨List.replicate n '\n' ++ [c], [], by simp⟩)

end Blank

/-! ## The whole -/

section Whole

variable {env : Env} {s : Text}

/-- **The passes together**: each leaves what the ones before it have done. -/
theorem stripTags_stripped (hsp : SpaceNotWord env) (t : Text) : Stripped env (stripTags env t) := by
  have hin := Py.strip_infix (collapseNewlines 0
    (subTmeLink false (subTag env '@' false (subTag env '#' false t))))
  have htag : ∀ mark, NoTag env mark (subTag env '@' false (subTag env '#' false t)) → mark ≠ '\n' →
      ∀ m, m <:+: stripTags env t → ¬ TagMatch env mark m := fun mark h hm m hmin =>
    noTag_iff.mp ((h.subTmeLink hsp).collapseNewlines hsp hm) m (hmin.trans hin)
  exact {
    hashtag := htag '#' noTag_subTag.subTag (by decide)
    mention := htag '@' noTag_subTag (by decide)
    link := fun m hm => noLink_iff.mp noLink_subTmeLink.collapseNewlines m (hm.trans hin)
    newlines := fun h => not_blankLines_collapseNewlines (Nat.zero_le 2) (h.trans hin)
    head := Py.strip_head?
    last := Py.rstrip_getLast? }

/-- What has no matches is only cleaned of blank lines and of blanks at its ends. -/
theorem stripTags_of_unmatched (h1 : NoTag env '#' s) (h2 : NoTag env '@' s) (h3 : NoLink s) :
    stripTags env s = Py.strip (collapseNewlines 0 s) := by
  rw [stripTags, subTag_eq_self h1, subTag_eq_self h2, subTmeLink_eq_self h3]

/-- None of them takes anything from a text that is stripped. -/
theorem Stripped.stripTags_eq_self (h : Stripped env s) : stripTags env s = s := by
  rw [stripTags_of_unmatched (noTag_iff.mpr h.hashtag) (noTag_iff.mpr h.mention)
    (noLink_iff.mpr h.link), collapseNewlines_eq_self (Nat.zero_le 2) h.newlines,
    Py.strip_eq_self h.head h.last]

/--
**Stripping is complete and idempotent**, and a watermark stands at the end.

Each of the three passes leaves its own pattern without a match, and the later ones make no match
of an earlier one: where something is cut out, what stood on its two sides does not join to a tag
or a link.
-/
theorem applyWatermark_stripped (hsp : SpaceNotWord env) (t : Text) :
    Stripped env (applyWatermark env t none true)
      ∧ applyWatermark env (applyWatermark env t none true) none true = applyWatermark env t none true
      ∧ ∀ w ≠ [], applyWatermark env t (some w) true
          = Py.rstrip (applyWatermark env t none true) ++ "\n\n".toList ++ w := by
  refine ⟨stripTags_stripped hsp t, (stripTags_stripped hsp t).stripTags_eq_self, fun w hw => ?_⟩
  cases w with
  | nil => exact absurd rfl hw
  | cons c w => rfl

theorem sampleEnv_spaceNotWord (settings : Settings) : SpaceNotWord (sampleEnv settings) := by
  intro c hc
  simp only [Py.isSpace, Bool.or_eq_true, Bool.and_eq_true, decide_eq_true_eq, beq_iff_eq] at hc
  change (((decide (c.val ≥ 'A'.val ∧ c.val ≤ 'Z'.val)
    || (decide (c.val ≥ 'a'.val) && decide (c.val ≤ 'z'.val)))
    || (decide (c.val ≥ '0'.val) && decide (c.val ≤ '9'.val))) || c == '_') = false
  simp only [Bool.or_eq_false_iff, Bool.and_eq_false_iff, decide_eq_false_iff_not, not_and_or,
    beq_eq_false_iff_ne, ge_iff_le, UInt32.le_iff_toNat_le]
  have hval : c.val.toNat = c.toNat := rfl
  have hends : 'A'.val.toNat = 65 ∧ 'Z'.val.toNat = 90 ∧ 'a'.val.toNat = 97 ∧ 'z'.val.toNat = 122
      ∧ '0'.val.toNat = 48 ∧ '9'.val.toNat = 57 := by decide
  refine ⟨⟨by omega, by omega⟩, fun h => ?_⟩
  rw [h] at hc
  exact absurd hc (by decide)

theorem applyWatermark_stripped_tags :
    Stripped (sampleEnv {})
        (applyWatermark (sampleEnv {}) "##a #@b\n\n\nhttps://t.me/c d ".toList none true)
      ∧ applyWatermark (sampleEnv {}) "##a #@b\n\n\nhttps://t.me/c d ".toList none true
        = "# #\n\n d".toList := by
  have hs := applyWatermark_stripped (sampleEnv_spaceNotWord {})
    "##a #@b\n\n\nhttps://t.me/c d ".toList
  exact ⟨hs.1, by decide⟩

end Whole

end TelegramCms
