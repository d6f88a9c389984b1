import TelegramCms.Proof.Quotes
import TelegramCms.Proof.Tags

/-!
# The stamps of the system itself

The template stamps a post with the hashtags of its tags and the label of its source, and
the tag patterns run on the rendered text, where a stamp looks like any tag of the source.

`stamps_kept`: a stamp is kept where no match of a pattern reaches it, and if the watermark
repeats it. A hashtag that begins with a word character is a match itself, so nothing but
the watermark brings it into the text.
-/

namespace TelegramCms

/-! ## Out of reach of the patterns -/

/-- The text ends in a tag that a word character would carry on. -/
def EndsInTag (env : Env) (mark : Char) (s : Text) : Prop :=
  ∃ u w, s = u ++ mark :: w ∧ ∀ c ∈ w, env.isWord c = true

/-- No hashtag, or mention, reaches into what stands between `a` and `b`. -/
structure OutsideTags (env : Env) (mark : Char) (a s b : Text) : Prop where
  inside : NoTag env mark (s ++ b.take 1)
  before : s.head?.any env.isWord = true → ¬ EndsInTag env mark a

/-- No link does. -/
structure OutsideLinks (a s b : Text) : Prop where
  inside : ∀ t, t <:+ s → t ≠ [] → startsTmeLink (t ++ b) = false
  before : s.head?.any (fun c => !Py.isSpace c) = true → ∀ u v, a = u ++ v → v ≠ [] →
    startsTmeLink (v ++ (s ++ b)) = true → ∃ c ∈ v, Py.isSpace c = true

section Outside

variable {env : Env} {mark : Char} {a s b r : Text} {inTag inLink : Bool}

theorem endsInTag_cons {x : Char} (h : EndsInTag env mark s) : EndsInTag env mark (x :: s) := by
  obtain ⟨u, w, rfl, hw⟩ := h
  exact ⟨x :: u, w, rfl, hw⟩

/-- A tag ends where no word character follows. -/
theorem subTag_restart (h : inTag = true → r.head?.any env.isWord = false) :
    subTag env mark inTag r = subTag env mark false r := by
  cases inTag with
  | false => rfl
  | true =>
      cases r with
      | nil => rfl
      | cons c r =>
          have hc : env.isWord c = false := h rfl
          rw [subTag, subTag, hc]
          rfl

/-- A tag that ends before `r` is taken out as if nothing followed. -/
theorem subTag_append (h : r.head?.any env.isWord = true →
      ¬ EndsInTag env mark a ∧ ¬ (inTag = true ∧ ∀ c ∈ a, env.isWord c = true)) :
    subTag env mark inTag (a ++ r) = subTag env mark inTag a ++ subTag env mark false r := by
  induction a generalizing inTag with
  | nil =>
      refine subTag_restart fun hin => ?_
      rw [Bool.eq_false_iff]
      exact fun hw => (h hw).2 ⟨hin, by simp⟩
  | cons x a ih =>
      have htag : ∀ hw : r.head?.any env.isWord = true, ¬ EndsInTag env mark a := fun hw hend =>
        (h hw).1 (endsInTag_cons hend)
      rw [List.cons_append, subTag, subTag]
      by_cases hin : (inTag && env.isWord x) = true
      · rw [if_pos hin, if_pos hin]
        obtain ⟨hit, hx⟩ := Bool.and_eq_true_iff.mp hin
        refine ih fun hw => ⟨htag hw, ?_⟩
        rintro ⟨-, hall⟩
        exact (h hw).2 ⟨hit, List.forall_mem_cons.mpr ⟨hx, hall⟩⟩
      · rw [if_neg hin, if_neg hin]
        -- at the end of `a` the mark would see what follows
        have hnext : (x == mark && (a ++ r).head?.any env.isWord)
            = (x == mark && a.head?.any env.isWord) := by
          cases a with
          | cons y a => rfl
          | nil =>
              cases hm : x == mark with
              | false => rfl
              | true =>
                  have hx : x = mark := by simpa using hm
                  have hnone : r.head?.any env.isWord = false := Bool.eq_false_iff.mpr fun hw =>
                    (h hw).1 ⟨[], [], by rw [hx]; rfl, by simp⟩
                  rw [List.nil_append, Bool.true_and, Bool.true_and, hnone]
                  rfl
        rw [hnext]
        by_cases hmark : (x == mark && a.head?.any env.isWord) = true
        · rw [if_pos hmark, if_pos hmark]
          have hx : x = mark := by simpa using (Bool.and_eq_true_iff.mp hmark).1
          refine ih fun hw => ⟨htag hw, ?_⟩
          rintro ⟨-, hall⟩
          exact (h hw).1 ⟨[], a, by rw [hx]; rfl, hall⟩
        · rw [if_neg hmark, if_neg hmark, List.cons_append]
          rw [ih fun hw => ⟨htag hw, fun hf => absurd hf.1 (by simp)⟩]

theorem subTag_inside (h : NoTag env mark (s ++ b.take 1)) :
    subTag env mark false (s ++ b) = s ++ subTag env mark false b := by
  induction s with
  | nil => rfl
  | cons c s ih =>
      obtain ⟨hc, hs⟩ := noTag_cons.mp h
      have hnext : (s ++ b).head? = (s ++ b.take 1).head? := by
        cases s with
        | nil => cases b <;> rfl
        | cons y s => rfl
      rw [List.cons_append, subTag, Bool.false_and, if_neg (by simp), hnext,
        if_neg (by simpa using hc), ih hs, List.cons_append]

/-- **A pattern passes over what it does not reach.** -/
theorem OutsideTags.subTag_eq (h : OutsideTags env mark a s b) :
    s = [] ∨ subTag env mark false (a ++ s ++ b)
      = subTag env mark false a ++ s ++ subTag env mark false b := by
  cases s with
  | nil => exact .inl rfl
  | cons c s =>
      refine .inr ?_
      rw [List.append_assoc, subTag_append, subTag_inside h.inside, List.append_assoc]
      exact fun hw => ⟨h.before hw, fun hf => absurd hf.1 (by simp)⟩

/-- Whether a link starts can be seen before the next space. -/
theorem startsTmeLink_append (h : r.head?.any (fun c => !Py.isSpace c) = true →
    startsTmeLink (a ++ r) = true → ∃ c ∈ a, Py.isSpace c = true) :
    startsTmeLink (a ++ r) = startsTmeLink a := by
  rw [Bool.eq_iff_iff]
  constructor
  · intro hstart
    obtain ⟨m, hm, hlink⟩ := startsTmeLink_iff.mp hstart
    refine startsTmeLink_iff.mpr ⟨m, ?_, hlink⟩
    rcases List.prefix_or_prefix_of_prefix hm (List.prefix_append a r) with hpre | ⟨t, rfl⟩
    · exact hpre
    · cases t with
      | nil => rw [List.append_nil]
      | cons y t =>
          -- the match goes on after `a`, so there is no space in `a`
          obtain ⟨z, rfl⟩ := (List.prefix_append_right_inj a).mp hm
          have hy := hlink.not_isSpace y (List.mem_append_right a List.mem_cons_self)
          obtain ⟨c, hc, hsp⟩ := h (by simp [hy]) hstart
          rw [hlink.not_isSpace c (List.mem_append_left _ hc)] at hsp
          exact absurd hsp (by simp)
  · intro hstart
    obtain ⟨m, hm, hlink⟩ := startsTmeLink_iff.mp hstart
    exact startsTmeLink_iff.mpr ⟨m, hm.trans (List.prefix_append a r), hlink⟩

/-- A link ends where a space follows. -/
theorem subTmeLink_restart (h : inLink = true → r.head?.any (fun c => !Py.isSpace c) = false) :
    subTmeLink inLink r = subTmeLink false r := by
  cases inLink with
  | false => rfl
  | true =>
      cases r with
      | nil => rfl
      | cons c r =>
          have hc : (!Py.isSpace c) = false := h rfl
          rw [subTmeLink, subTmeLink, hc]
          rfl

/-- A link that ends before `r` is taken out as if nothing followed. -/
theorem subTmeLink_append (h : r.head?.any (fun c => !Py.isSpace c) = true →
      (∀ u v, a = u ++ v → v ≠ [] → startsTmeLink (v ++ r) = true → ∃ c ∈ v, Py.isSpace c = true)
        ∧ (inLink = true → ∃ c ∈ a, Py.isSpace c = true)) :
    subTmeLink inLink (a ++ r) = subTmeLink inLink a ++ subTmeLink false r := by
  induction a generalizing inLink with
  | nil =>
      refine subTmeLink_restart fun hin => ?_
      rw [Bool.eq_false_iff]
      intro hr
      obtain ⟨y, hy, -⟩ := (h hr).2 hin
      exact absurd hy (by simp)
  | cons x a ih =>
      -- a match that would reach into `r` has a blank before it
      have hlater : ∀ hr : r.head?.any (fun c => !Py.isSpace c) = true, ∀ u v, a = u ++ v → v ≠ [] →
          startsTmeLink (v ++ r) = true → ∃ c ∈ v, Py.isSpace c = true := by
        rintro hr u v rfl hv hstart
        exact (h hr).1 (x :: u) v rfl hv hstart
      have hstart : startsTmeLink (x :: (a ++ r)) = startsTmeLink (x :: a) :=
        startsTmeLink_append (a := x :: a) fun hr hs => (h hr).1 [] (x :: a) rfl (by simp) hs
      rw [List.cons_append, subTmeLink, subTmeLink, hstart]
      by_cases hin : (inLink && !Py.isSpace x) = true
      · rw [if_pos hin, if_pos hin]
        obtain ⟨hil, hx⟩ := Bool.and_eq_true_iff.mp hin
        -- the match goes on, and ends before `r`
        refine ih fun hr => ⟨hlater hr, fun _ => ?_⟩
        obtain ⟨c, hc, hsp⟩ := (h hr).2 hil
        rcases List.mem_cons.mp hc with rfl | hc
        · rw [hsp] at hx
          exact absurd hx (by simp)
        · exact ⟨c, hc, hsp⟩
      · rw [if_neg hin, if_neg hin]
        by_cases hs : startsTmeLink (x :: a) = true
        · rw [if_pos hs, if_pos hs]
          -- a match starts here, and ends before `r`
          refine ih fun hr => ⟨hlater hr, fun _ => ?_⟩
          obtain ⟨c, hc, hsp⟩ := (h hr).1 [] (x :: a) rfl (by simp) (hstart.trans hs)
          rcases List.mem_cons.mp hc with rfl | hc
          · obtain rfl := Option.some.inj (startsTmeLink_head hs)
            exact absurd hsp (by decide)
          · exact ⟨c, hc, hsp⟩
        · rw [if_neg hs, if_neg hs, List.cons_append]
          rw [ih fun hr => ⟨hlater hr, fun hf => absurd hf (by simp)⟩]

theorem subTmeLink_inside (h : ∀ t, t <:+ s → t ≠ [] → startsTmeLink (t ++ b) = false) :
    subTmeLink false (s ++ b) = s ++ subTmeLink false b := by
  induction s with
  | nil => rfl
  | cons c s ih =>
      have hc : startsTmeLink (c :: (s ++ b)) = false := h (c :: s) List.suffix_rfl (by simp)
      rw [List.cons_append, subTmeLink, Bool.false_and, if_neg (by simp), hc, if_neg (by simp),
        ih fun t ht => h t (List.suffix_cons_iff.mpr (.inr ht)), List.cons_append]

theorem OutsideLinks.subTmeLink_eq (h : OutsideLinks a s b) :
    s = [] ∨ subTmeLink false (a ++ s ++ b) = subTmeLink false a ++ s ++ subTmeLink false b := by
  cases s with
  | nil => exact .inl rfl
  | cons c s =>
      refine .inr ?_
      rw [List.append_assoc, subTmeLink_append, subTmeLink_inside h.inside, List.append_assoc]
      exact fun hr => ⟨h.before hr, fun hf => absurd hf (by simp)⟩

end Outside

/-! ## What is left standing -/

/-- Neither the cleaning of blank lines nor the trimming reaches what stands between `a` and
`b`. -/
structure OutsideBlanks (a s b : Text) : Prop where
  newlines : ¬ blankLines <:+: s
  first : s.head? ≠ some '\n'
  left : ∀ c ∈ s.head?, Py.isSpace c = true → ∃ y ∈ a, Py.isSpace y = false
  right : ∀ c ∈ s.getLast?, Py.isSpace c = true → ∃ y ∈ b, Py.isSpace y = false

/-- `s` has a place in the text that no match reaches, pattern after pattern, and no cleaning. -/
structure StandsClear (env : Env) (s a b : Text) : Prop where
  hashtags : OutsideTags env '#' a s b
  mentions : OutsideTags env '@' (subTag env '#' false a) s (subTag env '#' false b)
  links : OutsideLinks (subTag env '@' false (subTag env '#' false a)) s
    (subTag env '@' false (subTag env '#' false b))
  blanks : OutsideBlanks (subTmeLink false (subTag env '@' false (subTag env '#' false a))) s
    (subTmeLink false (subTag env '@' false (subTag env '#' false b)))

section Clear

variable {env : Env} {a s b : Text} {n : Nat}

theorem collapseNewlines_append (a b : Text) (n : Nat) :
    ∃ k, collapseNewlines n (a ++ b) = collapseNewlines n a ++ collapseNewlines k b := by
  induction a generalizing n with
  | nil => exact ⟨n, rfl⟩
  | cons x a ih =>
      rw [List.cons_append, collapseNewlines, collapseNewlines]
      split
      · split
        · exact ih n
        · obtain ⟨k, hk⟩ := ih (n + 1)
          exact ⟨k, congrArg (x :: ·) hk⟩
      · obtain ⟨k, hk⟩ := ih 0
        exact ⟨k, congrArg (x :: ·) hk⟩

theorem exists_mem_collapseNewlines (h : ∃ y ∈ s, Py.isSpace y = false) :
    ∃ y ∈ collapseNewlines n s, Py.isSpace y = false := by
  obtain ⟨y, hy, hns⟩ := h
  have hnl : y ≠ '\n' := by
    rintro rfl
    exact absurd hns (by decide)
  exact ⟨y, (mem_collapseNewlines hnl).mpr hy, hns⟩

/-- Cleaning leaves it standing. -/
theorem OutsideBlanks.infix_strip (h : OutsideBlanks a s b) :
    s <:+: Py.strip (collapseNewlines 0 (a ++ s ++ b)) := by
  cases hs : s with
  | nil => exact List.nil_infix
  | cons c t =>
      rw [hs] at h
      have hc : c ≠ '\n' := fun hc => h.first (by rw [hc]; rfl)
      obtain ⟨k, hk⟩ := collapseNewlines_append a ((c :: t) ++ b) 0
      -- its first character is no newline, so the count begins anew
      have hfresh : collapseNewlines k ((c :: t) ++ b) = collapseNewlines 0 ((c :: t) ++ b) := by
        rw [List.cons_append, collapseNewlines, collapseNewlines, if_neg hc, if_neg hc]
      obtain ⟨k', hk'⟩ := collapseNewlines_append (c :: t) b 0
      have hself : collapseNewlines 0 (c :: t) = c :: t :=
        collapseNewlines_eq_self (Nat.zero_le 2) h.newlines
      rw [List.append_assoc, hk, hfresh, hk', hself, ← List.append_assoc]
      exact Py.infix_strip (fun c hc hsp => exists_mem_collapseNewlines (h.left c hc hsp))
        (fun c hc hsp => exists_mem_collapseNewlines (h.right c hc hsp))

/-- **What stands clear is still there after stripping.** -/
theorem StandsClear.infix_stripTags (h : StandsClear env s a b) :
    s <:+: stripTags env (a ++ s ++ b) := by
  rcases h.hashtags.subTag_eq with rfl | h1
  · exact List.nil_infix
  rcases h.mentions.subTag_eq with rfl | h2
  · exact List.nil_infix
  rcases h.links.subTmeLink_eq with rfl | h3
  · exact List.nil_infix
  rw [stripTags, h1, h2, h3]
  exact h.blanks.infix_strip

end Clear

/-! ## The stamps of a post -/

/-- What the text is stamped with, as the template prints it. -/
def stamps (env : Env) (tags : Table Nat Tag Tag.id) (ctx : RenderCtx) : List Text :=
  (sourceLabel ctx.channel :: hashtags env (resolveTagLabels tags ctx.tagIds)).map markupEscape.escape

/-- The text that `normalize` writes has all its stamps. -/
def StampsKept (env : Env) (tags : Table Nat Tag Tag.id) (ctx : RenderCtx) (ai : AiOutcome) : Prop :=
  ∀ s ∈ stamps env tags ctx, s <:+: finalText env ctx ai

/-- The stamp has a place in the text where nothing reaches it, or is in the watermark. -/
def StampSafe (env : Env) (ctx : RenderCtx) (ai : AiOutcome) (s : Text) : Prop :=
  s <:+: watermarkOf ctx.channel
    ∨ ∃ a b, ai.text ctx.normalized = a ++ s ++ b ∧ StandsClear env s a b

/-- No pattern matches in the text. -/
structure Unmatched (env : Env) (s : Text) : Prop where
  hashtag : NoTag env '#' s
  mention : NoTag env '@' s
  link : NoLink s

section Kept

variable {env : Env} {s x a b : Text} {ctx : RenderCtx} {ai : AiOutcome}

theorem Unmatched.of_part (h : Unmatched env x) (hs : s <:+: x) : Unmatched env s where
  hashtag := fun c hc hin => h.hashtag c hc (hin.trans hs)
  mention := fun c hc hin => h.mention c hc (hin.trans hs)
  link := noLink_iff.mpr fun m hm => noLink_iff.mp h.link m (hm.trans hs)

theorem unmatched_stripTags (hsp : SpaceNotWord env) : Unmatched env (stripTags env x) := by
  have h := stripTags_stripped hsp x
  exact ⟨noTag_iff.mpr h.hashtag, noTag_iff.mpr h.mention, noLink_iff.mpr h.link⟩

/-- The text that is written: what stripping leaves, and below it the watermark. -/
theorem finalText_eq (env : Env) (ai : AiOutcome)
    (hstrip : ctx.channel.stripSourceTags = true) :
    (finalText env ctx ai = stripTags env (ai.text ctx.normalized) ∧ watermarkOf ctx.channel = [])
      ∨ finalText env ctx ai = Py.rstrip (stripTags env (ai.text ctx.normalized))
          ++ '\n' :: '\n' :: watermarkOf ctx.channel := by
  rw [finalText_watermarked, watermarked_eq, if_pos hstrip]
  split
  · rename_i hw
    exact .inl ⟨rfl, hw⟩
  · exact .inr rfl

theorem rstrip_stripTags : Py.rstrip (stripTags env x) = stripTags env x := by
  unfold stripTags
  exact List.rdropWhile_idempotent _ _

/-- A safe stamp is kept. -/
theorem StampSafe.infix_finalText (hstrip : ctx.channel.stripSourceTags = true)
    (h : StampSafe env ctx ai s) : s <:+: finalText env ctx ai := by
  rcases h with hmark | ⟨a, b, hx, hclear⟩
  · rcases finalText_eq env ai hstrip with ⟨-, hw⟩ | hf
    · rw [hw] at hmark
      rw [List.infix_nil.mp hmark]
      exact List.nil_infix
    · rw [hf]
      refine hmark.trans ⟨Py.rstrip (stripTags env (ai.text ctx.normalized)) ++ ['\n', '\n'], [], ?_⟩
      simp
  · have hin : s <:+: stripTags env (ai.text ctx.normalized) := by
      rw [hx]
      exact hclear.infix_stripTags
    rcases finalText_eq env ai hstrip with ⟨hf, -⟩ | hf
    · rw [hf]
      exact hin
    · rw [hf, rstrip_stripTags]
      exact hin.trans (List.prefix_append _ _).isInfix

/-- A stamp in which a pattern matches is kept by nothing but the watermark. -/
theorem mem_watermark_of_matched (hsp : SpaceNotWord env)
    (hstrip : ctx.channel.stripSourceTags = true) (hnl : '\n' ∉ s) (hs : ¬ Unmatched env s)
    (h : s <:+: finalText env ctx ai) : s <:+: watermarkOf ctx.channel := by
  have hno : ¬ s <:+: stripTags env (ai.text ctx.normalized) := fun hin =>
    hs ((unmatched_stripTags hsp).of_part hin)
  rcases finalText_eq env ai hstrip with ⟨hf, -⟩ | hf
  · rw [hf] at h
    exact absurd h hno
  · rw [hf, rstrip_stripTags] at h
    rcases infix_append_cons hnl h with h | h
    · exact absurd h hno
    · rcases infix_append_cons (l := []) hnl h with h | h
      · rw [List.infix_nil.mp h]
        exact List.nil_infix
      · exact h

/-! ### Stamps that are printed apart -/

/-- The stamp is printed between spaces, or at an end of the text. -/
structure PrintedApart (x s : Text) (a b : Text) : Prop where
  place : x = a ++ s ++ b
  before : ∀ c ∈ a.getLast?, Py.isSpace c = true
  after : ∀ c ∈ b.head?, Py.isSpace c = true

/-- A stamp of one line, with no blanks at its ends. -/
structure OneLine (s : Text) : Prop where
  newline : '\n' ∉ s
  head : ∀ c ∈ s.head?, Py.isSpace c = false
  last : ∀ c ∈ s.getLast?, Py.isSpace c = false

theorem ne_of_isSpace {c d : Char} (hc : Py.isSpace c = true) (hd : Py.isSpace d = false) :
    c ≠ d := by
  rintro rfl
  rw [hc] at hd
  exact absurd hd (by simp)

theorem getLast?_subTag (hsp : SpaceNotWord env) {mark : Char} (hm : Py.isSpace mark = false)
    (h : ∀ c ∈ a.getLast?, Py.isSpace c = true) :
    ∀ c ∈ (subTag env mark false a).getLast?, Py.isSpace c = true := by
  induction a using List.reverseRecOn with
  | nil => simp [subTag]
  | append_singleton a c _ =>
      have hc : Py.isSpace c = true := h c (by simp)
      have hmark : (c == mark) = false := beq_false_of_ne (ne_of_isSpace hc hm)
      rw [subTag_append (by simp [hsp c hc]), subTag, Bool.false_and, if_neg (by simp), hmark,
        Bool.false_and, if_neg (by simp), subTag]
      simpa using hc

theorem head?_subTag {mark : Char} (hsp : SpaceNotWord env) (hm : Py.isSpace mark = false)
    (h : ∀ c ∈ b.head?, Py.isSpace c = true) :
    ∀ c ∈ (subTag env mark false b).head?, Py.isSpace c = true := by
  cases b with
  | nil => simp [subTag]
  | cons c b =>
      have hc : Py.isSpace c = true := h c rfl
      have hmark : (c == mark) = false := beq_false_of_ne (ne_of_isSpace hc hm)
      rw [subTag, hsp c hc, Bool.and_false, if_neg (by simp), hmark, Bool.false_and,
        if_neg (by simp)]
      simpa using hc

theorem outsideTags_apart (hsp : SpaceNotWord env) {mark : Char} (hm : Py.isSpace mark = false)
    (hs : NoTag env mark s) (ha : ∀ c ∈ a.getLast?, Py.isSpace c = true)
    (hb : ∀ c ∈ b.head?, Py.isSpace c = true) : OutsideTags env mark a s b where
  inside := by
    cases b with
    | nil => simpa using hs
    | cons c b =>
        intro x hx hin
        have hc : Py.isSpace c = true := hb c rfl
        have hcx : c ≠ x := by
          rintro rfl
          rw [hsp c hc] at hx
          exact absurd hx (by simp)
        have hmem : c ∉ [mark, x] := by simp [ne_of_isSpace hc hm, hcx]
        rcases infix_append_cons hmem hin with h | h
        · exact hs x hx h
        · exact absurd h.length_le (by simp)
  before := by
    rintro - ⟨u, w, rfl, hw⟩
    rw [List.getLast?_append_of_ne_nil u (by simp), List.getLast?_cons] at ha
    have hlast := ha _ rfl
    cases hg : w.getLast? with
    | none =>
        rw [hg] at hlast
        exact ne_of_isSpace hlast hm rfl
    | some c =>
        rw [hg] at hlast
        have hword := hw c (List.mem_of_getLast? hg)
        rw [hsp c hlast] at hword
        exact absurd hword (by simp)

theorem outsideLinks_apart (hs : NoLink s) (ha : ∀ c ∈ a.getLast?, Py.isSpace c = true)
    (hb : ∀ c ∈ b.head?, Py.isSpace c = true) : OutsideLinks a s b where
  inside := by
    intro t ht _
    rw [startsTmeLink_append]
    · exact hs t ht
    · intro hns
      obtain ⟨c, hc, hcs⟩ := (Option.any_eq_true _ _).mp hns
      rw [hb c hc] at hcs
      exact absurd hcs (by simp)
  before := by
    rintro - u v rfl hv -
    rw [List.getLast?_append_of_ne_nil u hv] at ha
    exact ⟨v.getLast hv, List.getLast_mem hv, ha _ (List.getLast?_eq_getLast_of_ne_nil hv)⟩

/-- A stamp that is printed apart stands clear if no pattern matches in it. -/
theorem PrintedApart.standsClear (hsp : SpaceNotWord env) (h : PrintedApart x s a b)
    (hs : Unmatched env s) (hline : OneLine s) : StandsClear env s a b := by
  have hhash : Py.isSpace '#' = false := by decide
  have hat : Py.isSpace '@' = false := by decide
  have ha := getLast?_subTag hsp hhash h.before
  have hb := head?_subTag hsp hhash h.after
  exact {
    hashtags := outsideTags_apart hsp hhash hs.hashtag h.before h.after
    mentions := outsideTags_apart hsp hat hs.mention ha hb
    links := outsideLinks_apart hs.link (getLast?_subTag hsp hat ha) (head?_subTag hsp hat hb)
    blanks := {
      newlines := fun hin => hline.newline (hin.subset (by decide))
      first := fun hf => hline.newline (List.mem_of_head? hf)
      left := fun c hc hc' => absurd hc' (by simp [hline.head c hc])
      right := fun c hc hc' => absurd hc' (by simp [hline.last c hc]) } }

/--
**Stamps are kept where no match of a pattern reaches them, and in the watermark. A stamp
in which a pattern matches is kept in the watermark only; and where the template prints its
stamps apart, nothing else keeps them.**

What is stripped has no match left, so no part of it has one, and a stamp that has one must come
from the watermark, which is added after. A stamp between spaces cannot be reached from outside,
since neither a tag nor a link goes on over a space.
-/
theorem stamps_kept (hsp : SpaceNotWord env) (tags : Table Nat Tag Tag.id)
    (hstrip : ctx.channel.stripSourceTags = true) (ai : AiOutcome) :
    ((∀ s ∈ stamps env tags ctx, StampSafe env ctx ai s) → StampsKept env tags ctx ai)
      ∧ (StampsKept env tags ctx ai → ∀ s ∈ stamps env tags ctx, '\n' ∉ s →
        Unmatched env s ∨ s <:+: watermarkOf ctx.channel)
      ∧ ((∀ s ∈ stamps env tags ctx,
          OneLine s ∧ ∃ a b, PrintedApart (ai.text ctx.normalized) s a b) →
        (StampsKept env tags ctx ai ↔ ∀ s ∈ stamps env tags ctx, StampSafe env ctx ai s)) := by
  have hsafe : (∀ s ∈ stamps env tags ctx, StampSafe env ctx ai s) → StampsKept env tags ctx ai :=
    fun h s hs => (h s hs).infix_finalText hstrip
  have hmatched : StampsKept env tags ctx ai → ∀ s ∈ stamps env tags ctx, '\n' ∉ s →
      Unmatched env s ∨ s <:+: watermarkOf ctx.channel := by
    intro h s hs hnl
    by_cases hm : Unmatched env s
    · exact .inl hm
    · exact .inr (mem_watermark_of_matched hsp hstrip hnl hm (h s hs))
  refine ⟨hsafe, hmatched, fun hapart => ⟨fun h s hs => ?_, hsafe⟩⟩
  obtain ⟨hline, a, b, hp⟩ := hapart s hs
  rcases hmatched h s hs hline.newline with hm | hm
  · exact .inr ⟨a, b, hp.place, hp.standsClear hsp hm hline⟩
  · exact .inl hm

end Kept

/-! ### A channel that strips -/

/-- A template prints its tags and its source label. -/
def PrintsStamps (env : Env) (body : Text) : Prop :=
  ∀ text sourceLabel tags out, env.render body text sourceLabel tags = .ok out →
    markupEscape.escape tags <:+: out ∧ markupEscape.escape sourceLabel <:+: out

theorem escapingEnv_printsStamps (body : Text) : PrintsStamps escapingEnv body := by
  intro text label tags out h
  obtain rfl := Except.ok.inj h
  simp only [escape_eq_sentOf, defaultPlain, sentOf_append]
  refine ⟨?_, ⟨_, [], by rw [List.append_nil]⟩⟩
  cases tags with
  | nil => exact List.nil_infix
  | cons c tags => exact ⟨[], _, by simp [sentOf_append]; rfl⟩

def strippingChannel : SourceChannel :=
  { autoChannel with stripSourceTags := true, defaultTagIds := [1] }

theorem escapingEnv_spaceNotWord : SpaceNotWord escapingEnv := sampleEnv_spaceNotWord {}

/-- The patterns take the hashtag of the first for one of the source, and that of the second for
none. -/
def stampedTags : Table Nat Tag Tag.id :=
  (Table.empty.insert { id := 1, label := "News".toList }).insert { id := 2, label := "★".toList }

def stampingChannel : SourceChannel :=
  { strippingChannel with
    watermarkEnabled := true
    watermarkText := some "#news daily".toList
    defaultTagIds := [1, 2] }

def stampedPost : RenderCtx := ⟨stampingChannel, "#news #★\nhi\n\n— News".toList, [1, 2]⟩

/-- The first tag is kept in the watermark, the second and the label where they are. -/
theorem stamps_kept_news :
    normalizeText escapingEnv stampedTags defaultTemplateBody "hi".toList (sourceLabel stampingChannel)
        (normalizeTagIds stampingChannel) = .ok stampedPost.normalized
      ∧ StampsKept escapingEnv stampedTags stampedPost .off := by
  refine ⟨by decide +kernel, (stamps_kept escapingEnv_spaceNotWord stampedTags rfl .off).1 ?_⟩
  intro s hs
  have hstamps : stamps escapingEnv stampedTags stampedPost
      = ["News".toList, "#news".toList, "#★".toList] := by decide +kernel
  have hspace : ∀ o : Option Char, o.all Py.isSpace = true → ∀ c ∈ o, Py.isSpace c = true :=
    fun o ho => (Option.all_eq_true _ o).mp ho
  have hword : ∀ o : Option Char, o.all (fun c => !Py.isSpace c) = true →
      ∀ c ∈ o, Py.isSpace c = false := by
    intro o ho c hc
    simpa using (Option.all_eq_true _ o).mp ho c hc
  have hlink : ∀ t : Text, (∀ u ∈ t.tails, startsTmeLink u = false) → NoLink t :=
    fun t ht u hu => ht u ((List.mem_tails _ _).mpr hu)
  have habsent : ∀ (mark : Char) (t : Text), mark ∉ t → NoTag escapingEnv mark t :=
    fun mark t hm c _ hin => hm (hin.subset List.mem_cons_self)
  rw [hstamps, List.mem_cons, List.mem_pair] at hs
  rcases hs with rfl | rfl | rfl
  · have hno : Unmatched escapingEnv "News".toList :=
      ⟨habsent _ _ (by decide), habsent _ _ (by decide), hlink _ (by decide)⟩
    have hline : OneLine "News".toList := ⟨by decide, hword _ (by decide), hword _ (by decide)⟩
    have hapart : PrintedApart stampedPost.normalized "News".toList
        "#news #★\nhi\n\n— ".toList [] := ⟨rfl, hspace _ (by decide), hspace _ (by decide)⟩
    exact .inr ⟨_, _, rfl, hapart.standsClear escapingEnv_spaceNotWord hno hline⟩
  · exact .inl ⟨[], " daily".toList, rfl⟩
  · have hstar : NoTag escapingEnv '#' "#★".toList := by
      intro c hc hin
      obtain rfl : c = '★' := by simpa using hin.eq_of_length rfl
      exact absurd hc (by decide)
    have hno : Unmatched escapingEnv "#★".toList :=
      ⟨hstar, habsent _ _ (by decide), hlink _ (by decide)⟩
    have hline : OneLine "#★".toList := ⟨by decide, hword _ (by decide), hword _ (by decide)⟩
    have hapart : PrintedApart stampedPost.normalized "#★".toList "#news ".toList
        "\nhi\n\n— News".toList := ⟨rfl, hspace _ (by decide), hspace _ (by decide)⟩
    exact .inr ⟨_, _, rfl, hapart.standsClear escapingEnv_spaceNotWord hno hline⟩

/-- The hashtag of a default tag is stripped. -/
theorem stamp_stripped :
    ¬ ∀ (env : Env) (tags : Table Nat Tag Tag.id) (channel : SourceChannel)
      (body rawText normalized : Text) (ai : AiOutcome),
      AsciiWords env → SpaceNotWord env → PrintsStamps env body → channel.policy = .auto →
      channel.stripSourceTags = true →
      normalizeText env tags body rawText (sourceLabel channel) (normalizeTagIds channel)
        = .ok normalized →
      StampsKept env tags ⟨channel, normalized, normalizeTagIds channel⟩ ai := by
  intro hall
  have h := hall escapingEnv (Table.empty.insert { id := 1, label := "News".toList }) strippingChannel
    defaultTemplateBody "hi".toList "#news\nhi\n\n— News".toList .off escapingEnv_words
    escapingEnv_spaceNotWord (escapingEnv_printsStamps _) rfl rfl (by decide +kernel)
    "#news".toList (by decide +kernel)
  exact absurd h (by decide +kernel)

end TelegramCms
