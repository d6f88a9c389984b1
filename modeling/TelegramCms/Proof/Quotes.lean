import TelegramCms.Proof.Escaping
import TelegramCms.Proof.Stripping

/-!
# Stripping tags from escaped text

Templates escape what they print, and the tag patterns run on the result. `&#39;` and
`&#34;` hold what looks like a hashtag, so an apostrophe or a quotation mark comes out as
`&;`.

`commutes_iff`: stripping and escaping commute exactly on the texts whose apostrophes and
quotation marks are all taken out with a link.
-/

namespace TelegramCms

/-- The text ends inside what would be a link, if no space follows. -/
def EndsInLink (s : Text) : Prop :=
  ∃ u v, s = u ++ v ∧ (∃ lit ∈ linkPrefixes, lit <+: v) ∧ ∀ c ∈ v, Py.isSpace c = false

/-- Stripping and escaping commute on the text; and if no pattern matches in it, nothing but
blank lines and blanks at its ends is lost. -/
structure Commutes (env : Env) (r : Text) : Prop where
  strip : applyWatermark env (markupEscape.escape r) none true
    = markupEscape.escape (applyWatermark env r none true)
  intact : NoTag env '#' r → NoTag env '@' r → NoLink r →
    applyWatermark env (markupEscape.escape r) none true
      = markupEscape.escape (Py.strip (collapseNewlines 0 r))

/-- Each apostrophe and quotation mark stands in a link, once the hashtags and mentions are
taken out of what precedes it. -/
def QuotesInLinks (env : Env) (r : Text) : Prop :=
  ∀ a c b, r = a ++ c :: b → IsQuote c →
    EndsInLink (subTag env '@' false (subTag env '#' false a))

/-! ## Links -/

section Link

variable {c : Char} {s p q : Text} {inLink : Bool}

theorem isQuote_not_isSpace (hc : IsQuote c) : Py.isSpace c = false :=
  special_not_isSpace (.inr (.inr (.inr hc)))

theorem isQuote_not_mem_linkPrefixes (hc : IsQuote c) : ∀ lit ∈ linkPrefixes, c ∉ lit := by
  rcases hc with rfl | rfl <;> decide

theorem not_endsInLink_nil : ¬ EndsInLink [] := by
  rintro ⟨u, v, he, ⟨lit, hlit, hpre⟩, -⟩
  obtain ⟨-, rfl⟩ := List.append_eq_nil_iff.mp he.symm
  rw [List.prefix_nil.mp hpre] at hlit
  exact absurd hlit (by decide)

theorem endsInLink_cons : EndsInLink (c :: s)
    ↔ ((∃ lit ∈ linkPrefixes, lit <+: c :: s) ∧ ∀ x ∈ c :: s, Py.isSpace x = false)
      ∨ EndsInLink s := by
  constructor
  · rintro ⟨u, v, he, hlit, hv⟩
    cases u with
    | nil =>
        obtain rfl : c :: s = v := he
        exact .inl ⟨hlit, hv⟩
    | cons x u =>
        obtain ⟨-, rfl⟩ := List.cons.inj he
        exact .inr ⟨u, v, rfl, hlit, hv⟩
  · rintro (⟨hlit, hs⟩ | ⟨u, v, rfl, hlit, hv⟩)
    · exact ⟨[], c :: s, rfl, hlit, hs⟩
    · exact ⟨c :: u, v, rfl, hlit, hv⟩

/-- Whether a link starts can be seen before the first quote. -/
theorem startsTmeLink_quote (hc : IsQuote c) (hp : ∀ x ∈ p, Py.isSpace x = false) :
    startsTmeLink (p ++ c :: q) = true ↔ ∃ lit ∈ linkPrefixes, lit <+: p := by
  rw [startsTmeLink_iff]
  constructor
  · rintro ⟨_, hpre, lit, hlit, w, rfl, -, -⟩
    refine ⟨lit, hlit, ?_⟩
    rcases List.prefix_or_prefix_of_prefix ((List.prefix_append lit w).trans hpre)
        (List.prefix_append p (c :: q)) with h | ⟨t, rfl⟩
    · exact h
    · -- the prefix has no quote in it
      cases t with
      | nil => rw [List.append_nil]
      | cons x t =>
          have hpre' := (List.prefix_append (p ++ x :: t) w).trans hpre
          obtain ⟨rfl, -⟩ := List.cons_prefix_cons.mp ((List.prefix_append_right_inj p).mp hpre')
          exact absurd (List.mem_append_right p List.mem_cons_self)
            (isQuote_not_mem_linkPrefixes hc _ hlit)
  · rintro ⟨lit, hlit, w, rfl⟩
    refine ⟨lit ++ (w ++ [c]), ⟨q, by simp⟩, lit, hlit, w ++ [c], rfl, by simp, ?_⟩
    intro x hx
    rcases List.mem_append.mp hx with hx | hx
    · exact hp x (List.mem_append_right lit hx)
    · rw [List.mem_singleton.mp hx]
      exact isQuote_not_isSpace hc

theorem forall_split_cons {x : Char} {P : Text → Char → Text → Prop} :
    (∀ p c q, x :: s = p ++ c :: q → P p c q)
      ↔ P [] x s ∧ ∀ p c q, s = p ++ c :: q → P (x :: p) c q := by
  constructor
  · intro h
    exact ⟨h [] x s rfl, fun p c q hs => h (x :: p) c q (congrArg (x :: ·) hs)⟩
  · rintro ⟨h1, h2⟩ p c q hs
    cases p with
    | nil =>
        obtain ⟨rfl, rfl⟩ := List.cons.inj hs
        exact h1
    | cons y p =>
        obtain ⟨rfl, htail⟩ := List.cons.inj hs
        exact h2 p c q htail

/-- A scan that was in a link or not is in one after `p`. -/
def InLinkAfter (inLink : Bool) (p : Text) : Prop :=
  (inLink = true ∧ ∀ x ∈ p, Py.isSpace x = false) ∨ EndsInLink p

theorem inLinkAfter_false : InLinkAfter false p ↔ EndsInLink p := by
  simp [InLinkAfter]

/-- Of a link nothing is left over but more of the link. -/
theorem InLinkAfter.tail (h : InLinkAfter inLink (c :: p)) : InLinkAfter true p := by
  rcases h with ⟨-, hns⟩ | hend
  · exact .inl ⟨rfl, fun y hy => hns y (List.mem_cons_of_mem _ hy)⟩
  · rcases endsInLink_cons.mp hend with ⟨-, hns⟩ | hend
    · exact .inl ⟨rfl, fun y hy => hns y (List.mem_cons_of_mem _ hy)⟩
    · exact .inr hend

/-- A character of the link. -/
theorem inLinkAfter_cons_in (hlink : inLink = true) (hx : Py.isSpace c = false) :
    InLinkAfter inLink (c :: p) ↔ InLinkAfter true p := by
  constructor
  · exact InLinkAfter.tail
  · rintro (⟨-, hns⟩ | hend)
    · exact .inl ⟨hlink, List.forall_mem_cons.mpr ⟨hx, hns⟩⟩
    · exact .inr (endsInLink_cons.mpr (.inr hend))

/-- The first character of a link. -/
theorem inLinkAfter_cons_start {x : Char} (hc : IsQuote c)
    (hstart : startsTmeLink (x :: (p ++ c :: q)) = true) :
    InLinkAfter inLink (x :: p) ↔ InLinkAfter true p := by
  constructor
  · exact InLinkAfter.tail
  · rintro (⟨-, hns⟩ | hend)
    · obtain rfl := Option.some.inj (startsTmeLink_head hstart)
      have hall : ∀ y ∈ 'h' :: p, Py.isSpace y = false :=
        List.forall_mem_cons.mpr ⟨by decide, hns⟩
      have hlit := (startsTmeLink_quote (p := 'h' :: p) hc hall).mp hstart
      exact .inr (endsInLink_cons.mpr (.inl ⟨hlit, hall⟩))
    · exact .inr (endsInLink_cons.mpr (.inr hend))

/-- A character outside of links. -/
theorem inLinkAfter_cons_kept {x : Char} (hc : IsQuote c)
    (hin : ¬ (inLink && !Py.isSpace x) = true)
    (hstart : ¬ startsTmeLink (x :: (p ++ c :: q)) = true) :
    InLinkAfter inLink (x :: p) ↔ InLinkAfter false p := by
  rw [inLinkAfter_false]
  constructor
  · rintro (⟨hlink, hns⟩ | hend)
    · exact absurd (by simp [hlink, hns x List.mem_cons_self]) hin
    · rcases endsInLink_cons.mp hend with ⟨hlit, hall⟩ | hend
      · exact absurd ((startsTmeLink_quote (p := x :: p) hc hall).mpr hlit) hstart
      · exact hend
  · exact fun hend => .inr (endsInLink_cons.mpr (.inr hend))

/-- **The quotes that links take along.** -/
theorem subTmeLink_quotes : (∀ c ∈ subTmeLink inLink s, ¬ IsQuote c)
    ↔ ∀ p c q, s = p ++ c :: q → IsQuote c → InLinkAfter inLink p := by
  induction s generalizing inLink with
  | nil => simp [subTmeLink]
  | cons x s ih =>
      rw [forall_split_cons (P := fun p c _ => IsQuote c → InLinkAfter inLink p), subTmeLink]
      by_cases hin : (inLink && !Py.isSpace x) = true
      · -- inside a link
        obtain ⟨hlink, hx⟩ := Bool.and_eq_true_iff.mp hin
        have hx : Py.isSpace x = false := by simpa using hx
        rw [if_pos hin, ih, and_iff_right fun _ => .inl ⟨hlink, by simp⟩]
        simp only [inLinkAfter_cons_in hlink hx]
      · rw [if_neg hin]
        by_cases hstart : startsTmeLink (x :: s) = true
        · -- a link starts
          have hx : ¬ IsQuote x := by
            obtain rfl := Option.some.inj (startsTmeLink_head hstart)
            decide
          rw [if_pos hstart, ih, and_iff_right fun hq => absurd hq hx]
          refine forall_congr' fun p => forall_congr' fun c => forall_congr' fun q =>
            forall_congr' fun hs => forall_congr' fun hc => ?_
          rw [hs] at hstart
          exact (inLinkAfter_cons_start hc hstart).symm
        · -- the character is kept
          have hx : InLinkAfter inLink [] → ¬ IsQuote x := by
            rintro (⟨hlink, -⟩ | hend) hq
            · exact hin (by simp [hlink, isQuote_not_isSpace hq])
            · exact not_endsInLink_nil hend
          rw [if_neg hstart, List.forall_mem_cons, ih]
          refine and_congr ⟨fun hno hq => absurd hq hno, fun h hq => hx (h hq) hq⟩ ?_
          refine forall_congr' fun p => forall_congr' fun c => forall_congr' fun q =>
            forall_congr' fun hs => forall_congr' fun hc => ?_
          rw [hs] at hstart
          exact (inLinkAfter_cons_kept hc hin hstart).symm

end Link

/-! ## Hashtags and mentions -/

section Tag

variable {env : Env} {mark : Char} {s r t : Text} {inTag : Bool}

theorem AsciiWords.quote (hw : AsciiWords env) {c : Char} (hc : IsQuote c) :
    env.isWord c = false := hw.special (.inr (.inr (.inr hc)))

/-- What precedes a quote decides alone what becomes of the character before it. -/
theorem head_before_quote (hw : AsciiWords env) {a d : Text} {c : Char} (hc : IsQuote c) :
    (a ++ c :: d).head?.any env.isWord = a.head?.any env.isWord := by
  cases a with
  | nil => exact hw.quote hc
  | cons x a => rfl

/-- **A pattern passes over a quote**, and over what precedes it as if nothing followed. -/
theorem subTag_quotes (hw : AsciiWords env) (hm : ¬ IsQuote mark) {P : Text → Prop} :
    (∀ p c q, subTag env mark inTag s = p ++ c :: q → IsQuote c → P p)
      ↔ ∀ a c d, s = a ++ c :: d → IsQuote c → P (subTag env mark inTag a) := by
  induction s generalizing inTag P with
  | nil => simp [subTag]
  | cons x s ih =>
      rw [forall_split_cons (P := fun a c _ => IsQuote c → P (subTag env mark inTag a))]
      by_cases hin : (inTag && env.isWord x) = true
      -- inside a tag, which no quotation mark goes on
      · have hx : ¬ IsQuote x := by
          intro hq
          rw [hw.quote hq, Bool.and_false] at hin
          exact absurd hin (by simp)
        have hcons : ∀ t, subTag env mark inTag (x :: t) = subTag env mark true t := by
          intro t
          rw [subTag, if_pos hin]
        rw [hcons, ih]
        simp only [hcons]
        exact (and_iff_right fun hq => absurd hq hx).symm
      · by_cases hmark : (x == mark && s.head?.any env.isWord) = true
        -- a tag starts here
        · obtain ⟨hx, -⟩ := Bool.and_eq_true_iff.mp hmark
          obtain rfl : x = mark := by simpa using hx
          have hcons : ∀ t, (x == x && t.head?.any env.isWord) = true →
              subTag env x inTag (x :: t) = subTag env x true t := by
            intro t ht
            rw [subTag, if_neg hin, if_pos ht]
          rw [hcons s hmark, ih, and_iff_right fun hq => absurd hq hm]
          refine forall_congr' fun a => forall_congr' fun c => forall_congr' fun d =>
            forall_congr' fun hs => forall_congr' fun hc => ?_
          rw [hs, head_before_quote hw hc] at hmark
          rw [hcons a hmark]
        -- the character is kept
        · have hcons : ∀ t, ¬ (x == mark && t.head?.any env.isWord) = true →
              subTag env mark inTag (x :: t) = x :: subTag env mark false t := by
            intro t ht
            rw [subTag, if_neg hin, if_neg ht]
          rw [hcons s hmark, forall_split_cons (P := fun p c _ => IsQuote c → P p),
            ih (P := fun p => P (x :: p))]
          refine and_congr Iff.rfl ?_
          refine forall_congr' fun a => forall_congr' fun c => forall_congr' fun d =>
            forall_congr' fun hs => forall_congr' fun hc => ?_
          rw [hs, head_before_quote hw hc] at hmark
          rw [hcons a hmark]

/-! ## Blank lines and ends -/

theorem mem_collapseNewlines {c : Char} (hc : c ≠ '\n') {n : Nat} :
    c ∈ collapseNewlines n s ↔ c ∈ s := by
  induction s generalizing n with
  | nil => rfl
  | cons x s ih =>
      rw [collapseNewlines]
      split
      · rename_i hx
        split
        · rw [ih, List.mem_cons, hx, or_iff_right hc]
        · rw [List.mem_cons, ih, List.mem_cons]
      · rw [List.mem_cons, ih, List.mem_cons]

theorem mem_strip {c : Char} (hc : Py.isSpace c = false) : c ∈ Py.strip s ↔ c ∈ s := by
  rw [Py.strip, mem_rstrip hc]
  constructor
  · exact fun h => List.dropWhile_sublist _ |>.mem h
  · intro h
    rw [← List.takeWhile_append_dropWhile (p := Py.isSpace) (l := s)] at h
    rcases List.mem_append.mp h with h | h
    · exact absurd (List.mem_takeWhile_imp h) (by simp [hc])
    · exact h

/-! ## The whole -/

theorem quotes_stripTags (hw : AsciiWords env) :
    (∀ c ∈ stripTags env r, ¬ IsQuote c) ↔ QuotesInLinks env r := by
  have hkeep : (∀ c ∈ stripTags env r, ¬ IsQuote c)
      ↔ ∀ c ∈ subTmeLink false (subTag env '@' false (subTag env '#' false r)), ¬ IsQuote c := by
    refine forall_congr' fun c => ?_
    by_cases hc : IsQuote c
    · have hnl : c ≠ '\n' := by
        rintro rfl
        exact absurd hc (by decide)
      rw [stripTags, mem_strip (isQuote_not_isSpace hc), mem_collapseNewlines hnl]
    · exact iff_of_true (fun _ => hc) (fun _ => hc)
  rw [hkeep, subTmeLink_quotes]
  simp only [inLinkAfter_false]
  rw [subTag_quotes hw (by decide), subTag_quotes hw (by decide), QuotesInLinks]

theorem sentOf_eq_iff : sentOf true t = sentOf false t ↔ ∀ c ∈ t, ¬ IsQuote c := by
  have hiff := Html.escapedOnce_iff (g := t.map (printed true))
  rw [shown_map_printed, sound_map_printed] at hiff
  constructor
  · intro h
    refine hiff.mp ?_ rfl
    have honce := markupEscape.escapedOnce t
    rwa [escape_eq_sentOf, ← h] at honce
  · intro h
    rw [sentOf, sentOf]
    congr 1
    refine List.map_congr_left fun c hc => ?_
    rw [printed, printed, if_neg fun hq => h c hc hq.2, if_neg fun hq => h c hc hq.2]

/--
**Stripping and escaping commute exactly on the texts whose apostrophes and quotation
marks are all taken out with a link.**

Escaping writes all but these two the same way whether it comes first or last, and no pattern
can tell (`stripTags_sentOf`). So the two orders give one text exactly if none of them is left
after stripping, and no pattern but that of a link can take one.
-/
theorem commutes_iff (hw : AsciiWords env) (r : Text) : Commutes env r ↔ QuotesInLinks env r := by
  have hstrip : applyWatermark env (markupEscape.escape r) none true = sentOf true (stripTags env r) := by
    rw [escape_eq_sentOf]
    exact stripTags_sentOf hw
  have hescape : markupEscape.escape (applyWatermark env r none true)
      = sentOf false (stripTags env r) := escape_eq_sentOf _
  rw [← quotes_stripTags hw, ← sentOf_eq_iff, ← hstrip, ← hescape]
  constructor
  · exact fun h => h.strip
  · intro h
    refine ⟨h, fun h1 h2 h3 => ?_⟩
    rw [h, ← stripTags_of_unmatched h1 h2 h3]
    rfl

theorem sampleEnv_words : AsciiWords (sampleEnv {}) where
  word := List.all_eq_true.mp (by decide)
  other := by simp [sampleEnv, apostrophe, quotationMark]

/-- A text without quotes. -/
theorem commutes_plain : Commutes (sampleEnv {}) "a < b #c\n\n\nAT&T".toList :=
  (commutes_iff sampleEnv_words _).mpr (by
    have hall : "a < b #c\n\n\nAT&T".toList.all (fun c => !decide (IsQuote c)) = true := by decide
    intro a c b hr hc
    have hno := List.all_eq_true.mp hall c (by rw [hr]; simp)
    simp [hc] at hno)

/-- An apostrophe comes out as `&;`. -/
theorem commutes_apostrophe : ¬ ∀ (env : Env), AsciiWords env → ∀ r, Commutes env r := by
  intro hall
  exact absurd (hall _ sampleEnv_words ['i', 't', apostrophe, 's']).strip (by decide)

end Tag

end TelegramCms
