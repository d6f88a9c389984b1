import TelegramCms.Model.Cards
import TelegramCms.Proof.Origins

/-!
# Escaped once

Jinja2 escapes what a template prints, and the draft card quotes its body. Nothing else
escapes anything: a watermark, a reply of the LLM, a raw text and the text of an error go
out as they are, and a rendered text is quoted a second time on its card.
-/

namespace TelegramCms

open Transition World

/-! ## The escaping of templates -/

def apostrophe : Char := Char.ofNat 39

def quotationMark : Char := Char.ofNat 34

/-- `markupsafe.escape`, which Jinja2 calls. -/
def markupEscape : Html.Escaper where
  name c :=
    if c = '&' then some ['a', 'm', 'p']
    else if c = '<' then some ['l', 't']
    else if c = '>' then some ['g', 't']
    else if c = apostrophe then some ['#', '3', '9']
    else if c = quotationMark then some ['#', '3', '4']
    else none
  charOf_name := by
    intro c n h
    split at h
    · rename_i hc; obtain rfl := Option.some.inj h; rw [hc]; rfl
    · split at h
      · rename_i hc; obtain rfl := Option.some.inj h; rw [hc]; rfl
      · split at h
        · rename_i hc; obtain rfl := Option.some.inj h; rw [hc]; rfl
        · split at h
          · rename_i hc; obtain rfl := Option.some.inj h; rw [hc]; rfl
          · split at h
            · rename_i hc; obtain rfl := Option.some.inj h; rw [hc]; rfl
            · exact absurd h (by simp)
  special := by
    intro c h
    split at h
    · exact absurd h (by simp)
    · split at h
      · exact absurd h (by simp)
      · exact ⟨‹_›, ‹_›⟩

def IsQuote (c : Char) : Prop := c = apostrophe ∨ c = quotationMark

instance : DecidablePred IsQuote := fun c =>
  inferInstanceAs (Decidable (c = apostrophe ∨ c = quotationMark))

/-- A character that `markupEscape` writes as a reference. -/
def Special (c : Char) : Prop := c = '&' ∨ c = '<' ∨ c = '>' ∨ IsQuote c

instance : DecidablePred Special := fun c =>
  inferInstanceAs (Decidable (c = '&' ∨ c = '<' ∨ c = '>' ∨ IsQuote c))

/-- A printed character, before or after the tag patterns were applied to it. The pattern
`#\w+` takes `#39` out of `&#39;`. -/
def printed (cleaned : Bool) (c : Char) : Html.Glyph :=
  if cleaned = true ∧ IsQuote c then .broken c else markupEscape.glyph c

section Printed

variable {b : Bool} {c : Char} {s t : Text}

theorem printed_ordinary (h : ¬ Special c) : printed b c = .raw c := by
  have hname : markupEscape.name c = none := by
    simp only [Special, IsQuote, not_or] at h
    simp [markupEscape, h]
  rw [printed, if_neg fun hq => h (.inr (.inr (.inr hq.2))), Html.Escaper.glyph]
  split
  · rename_i hn
    rw [hname] at hn
    exact absurd hn (by simp)
  · rfl

/-- What is sent for the special characters. -/
def references : List Text :=
  ["&amp;", "&lt;", "&gt;", "&#39;", "&#34;", "&;"].map String.toList

theorem printed_special (h : Special c) : (printed b c).sent ∈ references := by
  rcases h with rfl | rfl | rfl | rfl | rfl <;> cases b <;> decide

/-- The references of `markupsafe`, and what the pattern of a hashtag leaves of the two with a
number. -/
theorem mem_references {r : Text} : r ∈ references ↔ r = "&amp;".toList ∨ r = "&lt;".toList
    ∨ r = "&gt;".toList ∨ r = "&#39;".toList ∨ r = "&#34;".toList ∨ r = "&;".toList := by
  simp only [references, List.map_cons, List.map_nil, List.mem_cons, List.not_mem_nil, or_false]

theorem reference_ends {r : Text} (h : r ∈ references) : ∃ name, r = '&' :: (name ++ [';']) := by
  rcases mem_references.mp h with rfl | rfl | rfl | rfl | rfl | rfl
  · exact ⟨['a', 'm', 'p'], rfl⟩
  · exact ⟨['l', 't'], rfl⟩
  · exact ⟨['g', 't'], rfl⟩
  · exact ⟨['#', '3', '9'], rfl⟩
  · exact ⟨['#', '3', '4'], rfl⟩
  · exact ⟨[], rfl⟩

/-- Whatever is sent, the character is shown. -/
theorem shown_printed (b : Bool) (c : Char) : (printed b c).shown = c := by
  unfold printed
  split
  · rfl
  · exact markupEscape.shown_glyph

/-- It is escaped once, unless it is a quotation mark whose reference was spoilt. -/
theorem sound_printed : (printed b c).Sound ↔ (b = true → ¬ IsQuote c) := by
  unfold printed
  split
  · rename_i h
    exact ⟨False.elim, fun hq => hq h.1 h.2⟩
  · rename_i h
    exact ⟨fun _ hb hq => h ⟨hb, hq⟩, fun _ => markupEscape.sound_glyph⟩

/-- What is sent for a text. -/
def sentOf (b : Bool) (s : Text) : Text := Html.sent (s.map (printed b))

@[simp] theorem sentOf_nil : sentOf b [] = [] := rfl

@[simp] theorem sentOf_cons : sentOf b (c :: s) = (printed b c).sent ++ sentOf b s := rfl

theorem sentOf_append : sentOf b (s ++ t) = sentOf b s ++ sentOf b t := by
  simp [sentOf]

theorem sentOf_ordinary (h : ¬ Special c) : sentOf b (c :: s) = c :: sentOf b s := by
  rw [sentOf_cons, printed_ordinary h]
  rfl

/-- `markupsafe.escape` sends a reference for each special character. -/
theorem escape_eq_sentOf (s : Text) : markupEscape.escape s = sentOf false s := by
  have hg : markupEscape.glyph = printed false := by
    funext c
    rw [printed, if_neg (by simp)]
  rw [Html.Escaper.escape, hg, sentOf]

theorem shown_map_printed : Html.shown (s.map (printed b)) = s := by
  rw [Html.shown, List.map_map]
  conv_rhs => rw [← List.map_id s]
  exact List.map_congr_left fun c _ => shown_printed b c

/-- A text is escaped once if none of its quotation marks was spoilt. -/
theorem sound_map_printed : Html.Sound (s.map (printed b)) ↔ (b = true → ∀ c ∈ s, ¬ IsQuote c) := by
  rw [Html.Sound, List.forall_mem_map]
  simp only [sound_printed]
  exact ⟨fun h hb c hc => h c hc hb, fun h c hc hb => h hb c hc⟩

/-! ## The stages that work on rendered text -/

/-- No special character is a blank. -/
theorem special_not_isSpace (h : Special c) : Py.isSpace c = false := by
  rcases h with rfl | rfl | rfl | rfl | rfl <;> decide

theorem dropWhile_sentOf : (sentOf b s).dropWhile Py.isSpace = sentOf b (s.dropWhile Py.isSpace) := by
  induction s with
  | nil => rfl
  | cons c s ih =>
      by_cases hc : Special c
      · have hs := special_not_isSpace hc
        obtain ⟨name, he⟩ := reference_ends (printed_special (b := b) hc)
        rw [List.dropWhile_cons_of_neg (by simp [hs]), sentOf_cons, he, List.cons_append,
          List.dropWhile_cons_of_neg (by decide)]
      · rw [sentOf_ordinary hc]
        by_cases hs : Py.isSpace c = true
        · rw [List.dropWhile_cons_of_pos hs, List.dropWhile_cons_of_pos hs, ih]
        · rw [List.dropWhile_cons_of_neg hs, List.dropWhile_cons_of_neg hs, sentOf_ordinary hc]

theorem rstrip_sentOf : Py.rstrip (sentOf b s) = sentOf b (Py.rstrip s) := by
  unfold Py.rstrip
  induction s using List.reverseRecOn with
  | nil => rfl
  | append_singleton s c ih =>
      rw [sentOf_append]
      by_cases hs : Py.isSpace c = true
      · have hc : ¬ Special c := fun h => absurd hs (by simp [special_not_isSpace h])
        rw [List.rdropWhile_concat_pos _ _ _ hs, sentOf_ordinary hc, sentOf_nil,
          List.rdropWhile_concat_pos _ _ _ hs, ih]
      · rw [List.rdropWhile_concat_neg _ _ _ hs, sentOf_append]
        by_cases hc : Special c
        · obtain ⟨name, he⟩ := reference_ends (printed_special (b := b) hc)
          have hlast : sentOf b s ++ sentOf b [c] = (sentOf b s ++ '&' :: name) ++ [';'] := by
            rw [sentOf_cons, sentOf_nil, he]
            simp
          rw [hlast, List.rdropWhile_concat_neg _ _ _ (by decide)]
        · rw [sentOf_ordinary hc, sentOf_nil, List.rdropWhile_concat_neg _ _ _ hs]

theorem strip_sentOf : Py.strip (sentOf b s) = sentOf b (Py.strip s) := by
  rw [Py.strip, dropWhile_sentOf, rstrip_sentOf, Py.strip]

end Printed

/-- The class `\w` on the characters that escaping brings in or replaces. -/
structure AsciiWords (env : Env) : Prop where
  word : ∀ c ∈ "349".toList, env.isWord c = true
  other : ∀ c ∈ ['&', ';', '#', '<', '>', apostrophe, quotationMark], env.isWord c = false

section Stages

variable {env : Env} {b : Bool} {c : Char} {s : Text}

/-- No special character is one of a word. -/
theorem AsciiWords.special (hw : AsciiWords env) (h : Special c) : env.isWord c = false := by
  refine hw.other c ?_
  rcases h with rfl | rfl | rfl | rfl | rfl <;> simp

/-- A word character follows exactly if one did before the escaping. -/
theorem head_sentOf {f : Char → Bool} (hf : ∀ c, Special c → f c = f '&') :
    (sentOf b s).head?.any f = s.head?.any f := by
  cases s with
  | nil => rfl
  | cons c s =>
      by_cases hc : Special c
      · obtain ⟨name, he⟩ := reference_ends (printed_special (b := b) hc)
        rw [sentOf_cons, he]
        exact (hf c hc).symm
      · rw [sentOf_ordinary hc]
        rfl

theorem head_word (hw : AsciiWords env) : (sentOf b s).head?.any env.isWord = s.head?.any env.isWord :=
  head_sentOf fun _ hc => (hw.special hc).trans (hw.special (.inl rfl)).symm

/-- The pattern `#\w+` leaves nothing of a numeric reference between `&` and `;`. -/
theorem subTag_special (hw : AsciiWords env) (h : Special c) (inTag : Bool) (rest : Text) :
    subTag env '#' inTag ((printed false c).sent ++ rest)
      = (printed true c).sent ++ subTag env '#' false rest := by
  have hamp := hw.other '&' (by simp)
  have hsemi := hw.other ';' (by simp)
  have hhash := hw.other '#' (by simp)
  have h3 := hw.word '3' (by decide)
  have h4 := hw.word '4' (by decide)
  have h9 := hw.word '9' (by decide)
  rcases h with rfl | rfl | rfl | rfl | rfl
  · show subTag env '#' inTag ('&' :: 'a' :: 'm' :: 'p' :: ';' :: rest)
      = '&' :: 'a' :: 'm' :: 'p' :: ';' :: subTag env '#' false rest
    simp [subTag, hamp]
  · show subTag env '#' inTag ('&' :: 'l' :: 't' :: ';' :: rest)
      = '&' :: 'l' :: 't' :: ';' :: subTag env '#' false rest
    simp [subTag, hamp]
  · show subTag env '#' inTag ('&' :: 'g' :: 't' :: ';' :: rest)
      = '&' :: 'g' :: 't' :: ';' :: subTag env '#' false rest
    simp [subTag, hamp]
  · show subTag env '#' inTag ('&' :: '#' :: '3' :: '9' :: ';' :: rest)
      = '&' :: ';' :: subTag env '#' false rest
    simp [subTag, hamp, hhash, hsemi, h3, h9]
  · show subTag env '#' inTag ('&' :: '#' :: '3' :: '4' :: ';' :: rest)
      = '&' :: ';' :: subTag env '#' false rest
    simp [subTag, hamp, hhash, hsemi, h3, h4]

/-- A pattern passes over an escaped text as over the text itself, given what it makes of
the references. -/
theorem subTag_escaped {mark : Char} {b' : Bool} (hw : AsciiWords env)
    (hmark : ∀ c, Special c → (c == mark) = false)
    (href : ∀ c inTag rest, Special c → subTag env mark inTag ((printed b c).sent ++ rest)
      = (printed b' c).sent ++ subTag env mark false rest) (inTag : Bool) :
    subTag env mark inTag (sentOf b s) = sentOf b' (subTag env mark inTag s) := by
  induction s generalizing inTag with
  | nil => rfl
  | cons c s ih =>
      by_cases hc : Special c
      · rw [sentOf_cons, href c inTag _ hc, ih, subTag, hw.special hc, hmark c hc, Bool.and_false,
          if_neg (by simp), Bool.false_and, if_neg (by simp), sentOf_cons]
      · rw [sentOf_ordinary hc, subTag, subTag, head_word hw]
        split
        · exact ih true
        · split
          · exact ih true
          · rw [ih, sentOf_ordinary hc]

/-- The pattern of a hashtag finds one in the reference of a quotation mark, and takes it out. -/
theorem subTag_sentOf (hw : AsciiWords env) (inTag : Bool) :
    subTag env '#' inTag (sentOf false s) = sentOf true (subTag env '#' inTag s) := by
  have hmark : ∀ c, Special c → (c == '#') = false := by
    intro c hc
    rcases hc with rfl | rfl | rfl | rfl | rfl <;> decide
  exact subTag_escaped hw hmark (fun _ inTag rest hc => subTag_special hw hc inTag rest) inTag

/-- The other patterns leave references alone. -/
theorem subMention_reference (hw : AsciiWords env) {r : Text} (hr : r ∈ references) (inTag : Bool)
    (rest : Text) : subTag env '@' inTag (r ++ rest) = r ++ subTag env '@' false rest := by
  have hamp := hw.other '&' (by simp)
  rcases mem_references.mp hr with rfl | rfl | rfl | rfl | rfl | rfl <;> simp [subTag, hamp]

/-- The pattern of a mention finds nothing in a reference. -/
theorem subMention_sentOf (hw : AsciiWords env) (inTag : Bool) :
    subTag env '@' inTag (sentOf true s) = sentOf true (subTag env '@' inTag s) := by
  have hmark : ∀ c, Special c → (c == '@') = false := by
    intro c hc
    rcases hc with rfl | rfl | rfl | rfl | rfl <;> decide
  refine subTag_escaped hw hmark (fun c inTag rest hc => ?_) inTag
  exact subMention_reference hw (printed_special hc) inTag rest

/-- A literal without special characters begins the escaped text if it begins the text. -/
theorem literal_sentOf {lit : Text} (hl : ∀ c ∈ lit, ¬ Special c) :
    lit.isPrefixOf (sentOf b s) = lit.isPrefixOf s
      ∧ (lit.isPrefixOf s = true → (sentOf b s).drop lit.length = sentOf b (s.drop lit.length)) := by
  induction lit generalizing s with
  | nil => simp
  | cons x lit ih =>
      have hx := hl x List.mem_cons_self
      cases s with
      | nil => simp [List.isPrefixOf]
      | cons c s =>
          by_cases hc : Special c
          · obtain ⟨name, he⟩ := reference_ends (printed_special (b := b) hc)
            have hxc : (x == c) = false := beq_false_of_ne fun h => hx (h ▸ hc)
            have hxa : (x == '&') = false := beq_false_of_ne fun h => hx (.inl h)
            rw [sentOf_cons, he]
            simp only [List.cons_append, List.isPrefixOf, hxc, hxa, Bool.false_and]
            exact ⟨trivial, fun h => absurd h (by simp)⟩
          · obtain ⟨h1, h2⟩ := ih (s := s) fun c hc => hl c (List.mem_cons_of_mem _ hc)
            rw [sentOf_ordinary hc]
            simp only [List.isPrefixOf, h1, Bool.and_eq_true, List.length_cons, List.drop_succ_cons]
            exact ⟨trivial, fun h => h2 h.2⟩

/-- A link begins with no special character. -/
theorem startsTmeLink_sentOf : startsTmeLink (sentOf b s) = startsTmeLink s := by
  have hlink : ∀ lit : Text, (∀ c ∈ lit, ¬ Special c) →
      (lit.isPrefixOf (sentOf b s)
        && ((sentOf b s).drop lit.length).head?.any (fun c => !Py.isSpace c))
      = (lit.isPrefixOf s && (s.drop lit.length).head?.any (fun c => !Py.isSpace c)) := by
    intro lit hlit
    obtain ⟨h1, h2⟩ := literal_sentOf (b := b) (s := s) hlit
    rw [h1]
    cases hp : lit.isPrefixOf s with
    | false => rfl
    | true =>
        rw [h2 hp, head_sentOf fun c hc => ?_]
        rw [special_not_isSpace hc]
        decide
  have hplain : ∀ lit ∈ ["https://t.me/".toList, "http://t.me/".toList], ∀ c ∈ lit, ¬ Special c := by
    simp [Special, IsQuote, apostrophe, quotationMark]
  simp only [startsTmeLink, List.any_cons, List.any_nil]
  rw [hlink _ (hplain _ (by simp)), hlink _ (hplain _ (by simp))]

/-- A reference has no blank, so a link goes on over it. -/
theorem subTmeLink_reference {r : Text} (hr : r ∈ references) (inLink : Bool) (rest : Text) :
    subTmeLink inLink (r ++ rest)
      = if inLink then subTmeLink true rest else r ++ subTmeLink false rest := by
  rcases mem_references.mp hr with rfl | rfl | rfl | rfl | rfl | rfl <;>
    cases inLink <;> simp [subTmeLink, startsTmeLink, Py.isSpace]

/-- The pattern of a link does not see whether a text is escaped. -/
theorem subTmeLink_sentOf (inLink : Bool) :
    subTmeLink inLink (sentOf b s) = sentOf b (subTmeLink inLink s) := by
  induction s generalizing inLink with
  | nil => rfl
  | cons c s ih =>
      by_cases hc : Special c
      · have hh : c ≠ 'h' := by
          rcases hc with rfl | rfl | rfl | rfl | rfl <;> decide
        have hstart : startsTmeLink (c :: s) = false := by
          simp [startsTmeLink, hh.symm]
        rw [sentOf_cons, subTmeLink_reference (printed_special hc), subTmeLink,
          special_not_isSpace hc, hstart]
        cases inLink with
        | true => exact ih true
        | false => rw [if_neg (by simp), ih, if_neg (by simp), if_neg (by simp), sentOf_cons]
      · have hstart : startsTmeLink (c :: sentOf b s) = startsTmeLink (c :: s) := by
          rw [← sentOf_ordinary hc, startsTmeLink_sentOf]
        rw [sentOf_ordinary hc, subTmeLink, subTmeLink, hstart]
        split
        · exact ih true
        · split
          · exact ih true
          · rw [ih, sentOf_ordinary hc]

theorem collapseNewlines_reference {r : Text} (hr : r ∈ references) (seen : Nat) (rest : Text) :
    collapseNewlines seen (r ++ rest) = r ++ collapseNewlines 0 rest := by
  rcases mem_references.mp hr with rfl | rfl | rfl | rfl | rfl | rfl <;> simp [collapseNewlines]

/-- Nor do blank lines. -/
theorem collapseNewlines_sentOf (seen : Nat) :
    collapseNewlines seen (sentOf b s) = sentOf b (collapseNewlines seen s) := by
  induction s generalizing seen with
  | nil => rfl
  | cons c s ih =>
      by_cases hc : Special c
      · have hnl : c ≠ '\n' := by
          rcases hc with rfl | rfl | rfl | rfl | rfl <;> decide
        rw [sentOf_cons, collapseNewlines_reference (printed_special hc), ih, collapseNewlines,
          if_neg hnl, sentOf_cons]
      · rw [sentOf_ordinary hc, collapseNewlines, collapseNewlines]
        split
        · split
          · exact ih seen
          · rw [ih, sentOf_ordinary hc]
        · rw [ih, sentOf_ordinary hc]

/-- **Stripping source tags from an escaped text breaks its numeric references, and is the
same as stripping them from the text otherwise.** -/
theorem stripTags_sentOf (hw : AsciiWords env) :
    stripTags env (sentOf false s) = sentOf true (stripTags env s) := by
  rw [stripTags, subTag_sentOf hw, subMention_sentOf hw, subTmeLink_sentOf, collapseNewlines_sentOf,
    strip_sentOf, stripTags]

theorem mem_rstrip (hc : Py.isSpace c = false) : c ∈ Py.rstrip s ↔ c ∈ s := by
  unfold Py.rstrip
  induction s using List.reverseRecOn with
  | nil => rfl
  | append_singleton s x ih =>
      by_cases hx : Py.isSpace x = true
      · have hne : c ≠ x := fun h => absurd hx (by simp [← h, hc])
        rw [List.rdropWhile_concat_pos _ _ _ hx, ih]
        simp [hne]
      · rw [List.rdropWhile_concat_neg _ _ _ hx]

/-- What the watermark stage makes of an escaped text: the text as the stage would leave it
had it not been escaped, escaped, and then the watermark as it is. -/
theorem applyWatermark_layout (hw : AsciiWords env) (mark : Option Text) (cleaned : Bool) :
    ∃ rest tail, applyWatermark env (sentOf false s) mark cleaned = sentOf cleaned rest ++ tail
      ∧ applyWatermark env s mark cleaned = rest ++ tail
      ∧ (Html.Harmless tail ↔ Html.Harmless (mark.getD []))
      ∧ ((∀ c ∈ rest, ¬ IsQuote c)
        ↔ ∀ c ∈ (if cleaned = true then stripTags env s else s), ¬ IsQuote c) := by
  have hclean : (if cleaned = true then stripTags env (sentOf false s) else sentOf false s)
      = sentOf cleaned (if cleaned = true then stripTags env s else s) := by
    cases cleaned with
    | true => exact stripTags_sentOf hw
    | false => rfl
  unfold applyWatermark
  rw [hclean]
  generalize (if cleaned = true then stripTags env s else s) = result
  have hquote : ∀ c, IsQuote c → Py.isSpace c = false := fun c hq =>
    special_not_isSpace (.inr (.inr (.inr hq)))
  -- without a watermark, or with an empty one, nothing is put below
  rcases mark with _ | _ | ⟨c, cs⟩
  · exact ⟨result, [], by simp, by simp, Iff.rfl, Iff.rfl⟩
  · exact ⟨result, [], by simp, by simp, Iff.rfl, Iff.rfl⟩
  · refine ⟨Py.rstrip result, "\n\n".toList ++ (c :: cs), ?_, by simp, ?_, ?_⟩
    · show Py.rstrip (sentOf cleaned result) ++ "\n\n".toList ++ (c :: cs) = _
      rw [rstrip_sentOf, List.append_assoc]
    · simp [Html.Harmless]
    · constructor
      · exact fun h x hx hq => h x ((mem_rstrip (hquote x hq)).mpr hx) hq
      · exact fun h x hx hq => h x ((mem_rstrip (hquote x hq)).mp hx) hq

end Stages

/-! ## Sources -/

/-- What `body` renders is the escaped form of `plain`, the text it would print without
autoescaping. The template's own text has nothing to escape. -/
def Autoescapes (env : Env) (plain : Text → Text → Text → Text → Text) (body : Text) : Prop :=
  ∀ text sourceLabel tags out, env.render body text sourceLabel tags = .ok out →
    out = markupEscape.escape (plain body text sourceLabel tags)

def watermark (channel : SourceChannel) : Option Text :=
  if channel.watermarkEnabled then channel.watermarkText else none

namespace Source

def Autoescapes (env : Env) (plain : Text → Text → Text → Text → Text) : Source → Prop
  | .rendered body .. => TelegramCms.Autoescapes env plain body
  | _ => True

/-- The plain text that is meant to be shown. -/
def meant (env : Env) (plain : Text → Text → Text → Text → Text) : Source → Text
  | .raw text | .reply text => text
  | .rendered body text sourceLabel tags channel ai =>
    applyWatermark env (ai.text (Py.strip (plain body text sourceLabel tags))) (watermark channel)
      channel.stripSourceTags

/-- Nothing that goes out unescaped needs it, and no pattern breaks what is escaped. -/
def Safe (env : Env) (plain : Text → Text → Text → Text → Text) : Source → Prop
  | .raw text | .reply text => Html.Harmless text
  | .rendered body text sourceLabel tags channel ai =>
    match ai with
    | .transformed r =>
      Html.Harmless (applyWatermark env r.text (watermark channel) channel.stripSourceTags)
    | _ =>
      Html.Harmless ((watermark channel).getD [])
        ∧ (channel.stripSourceTags = true →
          ∀ c ∈ stripTags env (Py.strip (plain body text sourceLabel tags)), ¬ IsQuote c)

variable {env : Env} {plain : Text → Text → Text → Text → Text} {s : Source} {text : Text}

/-- A text is an escaped part and a part that is not, and is safe if both parts are. -/
theorem layout (hw : AsciiWords env) (ha : s.Autoescapes env plain) (ht : s.text env = .ok text) :
    ∃ cleaned rest tail, text = sentOf cleaned rest ++ tail ∧ s.meant env plain = rest ++ tail
      ∧ (s.Safe env plain ↔ (cleaned = true → ∀ c ∈ rest, ¬ IsQuote c) ∧ Html.Harmless tail) := by
  -- raw text and replies are sent as they come
  have hasis : ∀ t, text = t → s.meant env plain = t → (s.Safe env plain ↔ Html.Harmless t) →
      ∃ cleaned rest tail, text = sentOf cleaned rest ++ tail ∧ s.meant env plain = rest ++ tail
        ∧ (s.Safe env plain ↔ (cleaned = true → ∀ c ∈ rest, ¬ IsQuote c) ∧ Html.Harmless tail) :=
    fun t ht hm hs => ⟨false, [], t, ht, hm, by simpa using hs⟩
  cases s with
  | raw t => exact hasis t (Except.ok.inj ht).symm rfl Iff.rfl
  | reply t => exact hasis t (Except.ok.inj ht).symm rfl Iff.rfl
  | rendered body raw sourceLabel tags channel ai =>
      obtain ⟨out, hout, rfl⟩ : ∃ out, env.render body raw sourceLabel tags = .ok out
          ∧ applyWatermark env (ai.text (Py.strip out)) (watermark channel) channel.stripSourceTags
            = text := by
        rw [Source.text, renderTemplate] at ht
        cases hr : env.render body raw sourceLabel tags with
        | error e => rw [hr] at ht; exact absurd ht (by simp [Except.map])
        | ok out =>
            rw [hr] at ht
            exact ⟨out, rfl, Except.ok.inj ht⟩
      have hout := ha raw sourceLabel tags out hout
      -- what the template escapes goes through stripping, and the watermark below it does not
      have hrendered : ∀ (hai : ∀ n, ai.text n = n), ∃ cleaned rest tail,
          applyWatermark env (ai.text (Py.strip out)) (watermark channel) channel.stripSourceTags
              = sentOf cleaned rest ++ tail
            ∧ (Source.rendered body raw sourceLabel tags channel ai).meant env plain = rest ++ tail
            ∧ ((Html.Harmless ((watermark channel).getD [])
                  ∧ (channel.stripSourceTags = true →
                    ∀ c ∈ stripTags env (Py.strip (plain body raw sourceLabel tags)), ¬ IsQuote c))
                ↔ (cleaned = true → ∀ c ∈ rest, ¬ IsQuote c) ∧ Html.Harmless tail) := by
        intro hai
        obtain ⟨rest, tail, h1, h2, h3, h4⟩ := applyWatermark_layout
          (s := Py.strip (plain body raw sourceLabel tags)) hw (watermark channel)
          channel.stripSourceTags
        refine ⟨channel.stripSourceTags, rest, tail, ?_, ?_, ?_⟩
        · rw [hai, hout, escape_eq_sentOf, strip_sentOf, h1]
        · rw [meant, hai, h2]
        · rw [h3, h4, and_comm]
          refine and_congr_left fun _ => imp_congr_right fun hc => ?_
          rw [if_pos hc]
      cases ai with
      -- the reply takes the place of what was rendered
      | transformed r => exact hasis _ rfl rfl Iff.rfl
      | off => exact hrendered fun _ => rfl
      | failed e => exact hrendered fun _ => rfl

end Source

/-! ## Sinks -/

/-- When a text made from `s` is escaped once: where it is published, on the body of its
card, and in the list of the queue. -/
structure OnceIff (env : Env) (plain : Text → Text → Text → Text → Text) (s : Source)
    (text : Text) : Prop where
  published : Html.EscapedOnce (s.meant env plain) text ↔ s.Safe env plain
  /-- Escaping changes nothing that the card shows. -/
  card : Html.EscapedOnce (cardPreview (s.meant env plain)) (hdQuote.escape (cardPreview text))
    ↔ cardPreview text = cardPreview (s.meant env plain)
  /-- The text is not cut, or there is nothing to escape before the cut. -/
  queue : Html.EscapedOnce (queuePreview (s.meant env plain)) (queuePreview text)
    ↔ (text.length ≤ 80 ∧ s.Safe env plain)
      ∨ (queuePreview text = queuePreview (s.meant env plain)
        ∧ Html.Harmless (queuePreview (s.meant env plain)))

section Sinks

variable {env : Env} {plain : Text → Text → Text → Text → Text} {s : Source} {text : Text}

def blankNewline (c : Char) : Char := if c = '\n' then ' ' else c

/-- `/queue` puts a blank for each newline and cuts at 80. -/
theorem queuePreview_eq (body : Text) : queuePreview body = (body.map blankNewline).take 80 :=
  List.map_take

/-- Newlines are not special, so that this can be done before. -/
theorem sentOf_map_blankNewline {b : Bool} {t : Text} :
    (sentOf b t).map blankNewline = sentOf b (t.map blankNewline) := by
  induction t with
  | nil => rfl
  | cons c t ih =>
      rw [sentOf_cons, List.map_append, ih, List.map_cons, sentOf_cons]
      congr 1
      by_cases hc : Special c
      · have hnl : blankNewline c = c := by
          rcases hc with rfl | rfl | rfl | rfl | rfl <;> rfl
        rw [hnl]
        rcases mem_references.mp (printed_special (b := b) hc) with h | h | h | h | h | h <;>
          rw [h] <;> rfl
      · have hnl : ¬ Special (blankNewline c) := by
          unfold blankNewline
          split
          · decide
          · exact hc
        rw [printed_ordinary hc, printed_ordinary hnl]
        rfl

/-- What cannot tell a space from a newline does not see the replacement. -/
theorem blankNewline_iff {P : Char → Prop} (hP : P ' ' ↔ P '\n') (c : Char) :
    P (blankNewline c) ↔ P c := by
  unfold blankNewline
  split
  · rename_i h
    rw [h]
    exact hP
  · exact Iff.rfl

theorem isQuote_blankNewline {c : Char} : IsQuote (blankNewline c) ↔ IsQuote c :=
  blankNewline_iff (by decide) c

theorem harmless_blankNewline {t : Text} :
    Html.Harmless (t.map blankNewline) ↔ Html.Harmless t := by
  rw [Html.Harmless, List.forall_mem_map]
  refine forall₂_congr fun c _ => ?_
  exact blankNewline_iff (P := fun c => c ≠ '&' ∧ c ≠ '<') (by decide) c

/-- **What becomes of a source that was rendered**, in each of the four places. -/
theorem onceIff_of_text (hw : AsciiWords env) (ha : s.Autoescapes env plain)
    (ht : s.text env = .ok text) : OnceIff env plain s text := by
  obtain ⟨cleaned, rest, tail, rfl, hm, hsafe⟩ := s.layout hw ha ht
  have hsound : ∀ rest tail : Text, Html.Sound (rest.map (printed cleaned) ++ tail.map Html.Glyph.raw)
      ↔ (cleaned = true → ∀ c ∈ rest, ¬ IsQuote c) ∧ Html.Harmless tail := by
    intro rest tail
    rw [Html.sound_append, sound_map_printed, Html.sound_raw]
  have hsent : ∀ rest tail : Text, Html.sent (rest.map (printed cleaned) ++ tail.map Html.Glyph.raw)
      = sentOf cleaned rest ++ tail := by
    intro rest tail
    rw [Html.sent_append, Html.sent_raw, sentOf]
  have hshown : ∀ rest tail : Text,
      Html.shown (rest.map (printed cleaned) ++ tail.map Html.Glyph.raw) = rest ++ tail := by
    intro rest tail
    rw [Html.shown_append, Html.shown_raw, shown_map_printed]
  refine ⟨?_, ?_, ?_⟩
  · rw [hm, hsafe, ← hshown, ← hsent, ← hsound]
    exact Html.escapedOnce_iff
  · exact hdQuote.escapedOnce_escape_iff
  -- the cut of `/queue` is made after its newlines are blanks, which moves nothing
  · have hblank := Html.escapedOnce_take_iff (n := 80)
      (g := (rest.map blankNewline).map (printed cleaned)
        ++ (tail.map blankNewline).map Html.Glyph.raw)
    rw [hsent, hshown, hsound, ← sentOf_map_blankNewline, ← List.map_append, ← List.map_append,
      ← hm, ← queuePreview_eq, ← queuePreview_eq, harmless_blankNewline, List.length_map,
      List.forall_mem_map] at hblank
    simp only [isQuote_blankNewline] at hblank
    rwa [← hsafe] at hblank

/-- The text that the bot shows editors is in one of two columns, or stands for none. -/
theorem bodyText_cases (row : Post) :
    row.normalizedText = some (bodyText row) ∨ row.rawText.getD [] = bodyText row
      ∨ bodyText row = "(empty)".toList := by
  unfold bodyText
  rcases row.normalizedText with _ | _ | ⟨c, cs⟩
  · rcases row.rawText with _ | _ | ⟨c, cs⟩ <;> simp [Py.orElse]
  · rcases row.rawText with _ | _ | ⟨c, cs⟩ <;> simp [Py.orElse]
  · simp [Py.orElse]

/-- What the bot shows editors of a post has a source, the placeholder for no text apart. -/
theorem body_source {p : Nat} {tr : List (World × Action)} {w : World} {row : Post}
    (hw : Sourced env p tr w) (hrow : w.row p = some row) :
    ∃ s : Source, (s.From env tr p ∨ s = .raw "(empty)".toList) ∧ s.text env = .ok (bodyText row) := by
  rcases bodyText_cases row with ht | ht | ht
  · obtain ⟨s, hs, htext⟩ := hw.normalized row _ hrow ht
    exact ⟨s, .inl hs, htext⟩
  · exact ⟨_, .inl (hw.raw row hrow), by rw [ht]; rfl⟩
  · exact ⟨_, .inr rfl, by rw [ht]; rfl⟩

/--
**Where the four texts that the bot sends are escaped once**: what it publishes, exactly
if its source is safe to send; the body of a card, exactly if escaping changes nothing that
the card shows; the error of an alert, exactly if it has nothing to escape; and a line of
the queue, exactly if its text is safe and not cut, or has nothing to escape before the
cut.

Every text in a row has a source among what came in (`sourced_trace`). The rest is about one
text and what is meant by it, and does not speak of runs any more (`onceIff_of_text`).
-/
theorem escaped_once_iff {w₀ w : World} {tr : List (World × Action)} (hw : AsciiWords env)
    (h0 : Init w₀) (h : Trace (step env) w₀ tr w) :
    (∀ d ∈ w.deliveries, ∃ s : Source, s.From env tr d.post ∧ s.text env = .ok d.text
      ∧ (s.Autoescapes env plain →
        (Html.EscapedOnce (s.meant env plain) d.text ↔ s.Safe env plain)))
    ∧ (∀ p row, w.row p = some row → ∃ s : Source,
      (s.From env tr p ∨ s = .raw "(empty)".toList) ∧ s.text env = .ok (bodyText row)
      ∧ (s.Autoescapes env plain →
        (Html.EscapedOnce (cardPreview (s.meant env plain)) (cardBody row)
          ↔ cardPreview (bodyText row) = cardPreview (s.meant env plain))
        ∧ (Html.EscapedOnce (queuePreview (s.meant env plain)) (queuePreview (bodyText row))
          ↔ ((bodyText row).length ≤ 80 ∧ s.Safe env plain)
            ∨ (queuePreview (bodyText row) = queuePreview (s.meant env plain)
              ∧ Html.Harmless (queuePreview (s.meant env plain))))))
    ∧ ∀ error, Html.EscapedOnce (alertError error) (alertError error)
      ↔ Html.Harmless (alertError error) := by
  refine ⟨fun d hd => ?_, fun p row hrow => ?_, fun error => Html.escapedOnce_self_iff⟩
  · obtain ⟨s, hs, ht⟩ := delivered_source h0 h hd
    exact ⟨s, hs, ht, fun ha => (onceIff_of_text hw ha ht).published⟩
  · obtain ⟨s, hs, ht⟩ := body_source (sourced_trace h0 h) hrow
    exact ⟨s, hs, ht, fun ha => ⟨(onceIff_of_text hw ha ht).card, (onceIff_of_text hw ha ht).queue⟩⟩

end Sinks

/-! ## A text with an ampersand -/

/-- What the default template prints. -/
def defaultPlain (_ text sourceLabel tags : Text) : Text :=
  (if tags.isEmpty then [] else tags ++ ['\n']) ++ text ++ "\n\n— ".toList ++ sourceLabel

/-- Jinja2 with the default template. -/
def escapingEnv : Env :=
  { sampleEnv {} with
    render := fun body text sourceLabel tags =>
      .ok (markupEscape.escape (defaultPlain body text sourceLabel tags)) }

theorem escapingEnv_words : AsciiWords escapingEnv where
  word := List.all_eq_true.mp (by decide)
  other := by simp [escapingEnv, sampleEnv, apostrophe, quotationMark]

theorem escapingEnv_autoescapes (body : Text) : Autoescapes escapingEnv defaultPlain body :=
  fun _ _ _ _ h => (Except.ok.inj h).symm

theorem escapingEnv_source (s : Source) : s.Autoescapes escapingEnv defaultPlain := by
  cases s with
  | rendered body => exact escapingEnv_autoescapes body
  | _ => trivial

/-- A message with the text `text` is normalized. -/
def normalizesText (text : String) : List Action :=
  .arrive 1 1 (some text.toList) :: .advance 0 (.media none) :: goes 0 3 ++ normalizes 1 1 0

theorem escaped_once_iff_hi :
    ∃ w row, (sample sampleChannel).after escapingEnv (normalizesText "hi") = some w
      ∧ w.row 1 = some row ∧ ∃ s : Source, s.text escapingEnv = .ok (bodyText row)
        ∧ (Html.EscapedOnce (cardPreview (s.meant escapingEnv defaultPlain)) (cardBody row)
          ↔ cardPreview (bodyText row) = cardPreview (s.meant escapingEnv defaultPlain)) := by
  have hrun : (((sample sampleChannel).after escapingEnv (normalizesText "hi")).bind (fun w =>
      w.row 1)).isSome = true := by decide +kernel
  obtain ⟨row, hrow⟩ := Option.isSome_iff_exists.mp hrun
  obtain ⟨w, hw, hrow⟩ := Option.bind_eq_some_iff.mp hrow
  obtain ⟨-, hbody, -⟩ := @escaped_once_iff escapingEnv defaultPlain _ _ _ escapingEnv_words
    (sample_init _) (path_after hw)
  obtain ⟨s, -, ht, hiff⟩ := hbody 1 row hrow
  exact ⟨w, row, hw, hrow, s, ht, (hiff (escapingEnv_source s)).1⟩

/-- The ampersand comes out of the template as `&amp;`, and of the card as `&amp;amp;`. An
alert sends it as it is. -/
theorem ampersand_twice :
    ∃ tr w row, Init (sample sampleChannel) ∧ Trace (step escapingEnv) (sample sampleChannel) tr w
      ∧ w.row 1 = some row ∧ row.rawText = some "AT&T".toList
      ∧ Autoescapes escapingEnv defaultPlain defaultTemplateBody
      ∧ row.normalizedText = some (markupEscape.escape
        (defaultPlain defaultTemplateBody "AT&T".toList "News".toList []))
      ∧ ¬ Html.EscapedOnce (cardPreview
        (defaultPlain defaultTemplateBody "AT&T".toList "News".toList [])) (cardBody row)
      ∧ ¬ Html.EscapedOnce (alertError "AT&T".toList) (alertError "AT&T".toList) := by
  have hrun : ((sample sampleChannel).after escapingEnv (normalizesText "AT&T")).bind (fun w =>
      (w.row 1).map (fun row => (row.rawText, row.normalizedText))) =
      some (some "AT&T".toList, some (markupEscape.escape
        (defaultPlain defaultTemplateBody "AT&T".toList "News".toList []))) := by
    decide +kernel
  obtain ⟨w, hw, hrow⟩ := Option.bind_eq_some_iff.mp hrun
  obtain ⟨row, hrow, he⟩ := Option.map_eq_some_iff.mp hrow
  obtain ⟨hraw, hnorm⟩ := Prod.mk.inj he
  refine ⟨_, w, row, sample_init _, path_after hw, hrow, hraw, escapingEnv_autoescapes _, hnorm, ?_,
    by decide +kernel⟩
  have hbody : bodyText row = markupEscape.escape
      (defaultPlain defaultTemplateBody "AT&T".toList "News".toList []) := by
    rw [bodyText, hnorm, hraw]
    decide +kernel
  rw [cardBody, hdQuote.escapedOnce_escape_iff, hbody]
  decide +kernel

end TelegramCms
