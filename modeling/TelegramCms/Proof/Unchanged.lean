import TelegramCms.Proof.Stamps

/-!
# What the watermark stage hands on unchanged

Without a watermark a text passes `apply_watermark` unchanged if there is nothing to strip
from it. With one it has to end with the watermark already, and the watermark that stood there
has to vanish: stripping or trimming takes the old one away, and the new one is put in its place
(`applyWatermark_eq_self_iff`).
-/

namespace TelegramCms

/-- What the three patterns leave. -/
def unmatched (env : Env) (s : Text) : Text :=
  subTmeLink false (subTag env '@' false (subTag env '#' false s))

/-- The text without its blanks. -/
def visible (s : Text) : Text := s.filter (fun c => !Py.isSpace c)

section Visible

variable {env : Env} {s t b w : Text} {n : Nat}

theorem visible_eq_nil : visible s = [] ↔ ∀ c ∈ s, Py.isSpace c = true := by
  simp [visible, List.filter_eq_nil_iff]

theorem visible_append : visible (s ++ t) = visible s ++ visible t := List.filter_append _ _

theorem visible_rstrip : visible (Py.rstrip s) = visible s := by
  have hall : visible (s.rtakeWhile Py.isSpace) = [] := visible_eq_nil.mpr fun c hc =>
    List.mem_rtakeWhile_imp hc
  have hsplit : Py.rstrip s ++ s.rtakeWhile Py.isSpace = s := List.rdropWhile_append_rtakeWhile
  have h := congrArg visible hsplit
  rwa [visible_append, hall, List.append_nil] at h

theorem visible_strip : visible (Py.strip s) = visible s := by
  have hall : visible (s.takeWhile Py.isSpace) = [] := visible_eq_nil.mpr fun c hc =>
    List.mem_takeWhile_imp hc
  have h := congrArg visible (List.takeWhile_append_dropWhile (p := Py.isSpace) (l := s))
  rw [visible_append, hall, List.nil_append] at h
  rw [Py.strip, visible_rstrip, h]

theorem visible_collapseNewlines : visible (collapseNewlines n s) = visible s := by
  induction s generalizing n with
  | nil => rfl
  | cons c s ih =>
      rw [collapseNewlines]
      split
      · rename_i hc
        have hdrop : ∀ u, visible (c :: u) = visible u := fun u => by
          rw [hc]
          rfl
        split
        · rw [ih, hdrop]
        · rw [hdrop, hdrop, ih]
      · have hcons : ∀ u, visible (c :: u) = visible [c] ++ visible u := fun u =>
          visible_append (s := [c])
        rw [hcons (collapseNewlines 0 s), hcons s, ih]

/-- What is seen of a stripped text is what is seen of it without its matches. -/
theorem visible_stripTags : visible (stripTags env s) = visible (unmatched env s) := by
  rw [stripTags, visible_strip, visible_collapseNewlines, unmatched]

theorem strip_eq_nil_of_visible (h : visible s = []) : Py.strip s = [] := by
  have hdrop : s.dropWhile Py.isSpace = [] := List.dropWhile_eq_nil_iff.mpr (visible_eq_nil.mp h)
  rw [Py.strip, hdrop]
  rfl

/-- A text that vanishes consists of matches and blanks. -/
theorem stripTags_eq_nil : stripTags env s = [] ↔ visible (unmatched env s) = [] := by
  rw [← visible_stripTags]
  constructor
  · intro h
    rw [h]
    rfl
  · intro h
    rw [visible_stripTags] at h
    exact strip_eq_nil_of_visible (by rw [visible_collapseNewlines]; exact h)

theorem rstrip_append_blanks (h : visible w = []) : Py.rstrip (s ++ w) = Py.rstrip s := by
  have hall : ∀ c ∈ w.reverse, Py.isSpace c = true := fun c hc =>
    visible_eq_nil.mp h c (List.mem_reverse.mp hc)
  rw [Py.rstrip, Py.rstrip, List.rdropWhile, List.rdropWhile, List.reverse_append,
    List.dropWhile_append_of_pos hall]

/-- Blanks at the end do not count for what is left after trimming. -/
theorem strip_append_blanks (h : visible w = []) : Py.strip (s ++ w) = Py.strip s := by
  rw [Py.strip, List.dropWhile_append]
  split
  · rename_i hs
    have hs : s.dropWhile Py.isSpace = [] := List.isEmpty_iff.mp hs
    rw [Py.strip, hs]
    exact rstrip_append_blanks (s := []) (visible_eq_nil.mpr fun c hc =>
      visible_eq_nil.mp h c ((List.dropWhile_sublist _).mem hc))
  · exact rstrip_append_blanks h

theorem rstrip_eq_self (h : ∀ c ∈ s.getLast?, Py.isSpace c = false) : Py.rstrip s = s := by
  rw [Py.rstrip, List.rdropWhile_eq_self_iff]
  intro hne hlast
  rw [h _ (List.getLast?_eq_some_getLast hne)] at hlast
  exact absurd hlast (by simp)

end Visible

/-! ## A text and the watermark below it -/

section Below

variable {env : Env} {s t b w : Text}

theorem below_visible : visible ('\n' :: '\n' :: w) = visible w := by
  have hblank : visible ['\n', '\n'] = [] := by decide
  have h := visible_append (s := ['\n', '\n']) (t := w)
  rwa [hblank, List.nil_append] at h

/-- The patterns do not reach over a line break. -/
theorem unmatched_append (hsp : SpaceNotWord env) :
    unmatched env (b ++ '\n' :: '\n' :: w) = unmatched env b ++ '\n' :: '\n' :: unmatched env w := by
  have hword : env.isWord '\n' = false := hsp '\n' (by decide)
  have htag : ∀ {mark : Char} (u v : Text), mark ≠ '\n' →
      subTag env mark false (u ++ '\n' :: '\n' :: v)
        = subTag env mark false u ++ '\n' :: '\n' :: subTag env mark false v := by
    intro mark u v hm
    have hne : ('\n' == mark) = false := beq_false_of_ne (Ne.symm hm)
    rw [subTag_append (by simp [hword])]
    simp [subTag, hne]
  have hlink : ∀ v : Text, startsTmeLink ('\n' :: v) = false := by
    intro v
    rw [Bool.eq_false_iff]
    exact fun h => absurd (startsTmeLink_head h) (by simp)
  have hnl : Py.isSpace '\n' = true := by decide
  rw [unmatched, htag _ _ (by decide), htag _ _ (by decide), subTmeLink_append (by simp [hnl])]
  simp [subTmeLink, hlink, unmatched]

/-- A text without matches loses none. -/
theorem Stripped.unmatched_eq_self (h : Stripped env s) : unmatched env s = s := by
  rw [unmatched, subTag_eq_self (noTag_iff.mpr h.hashtag), subTag_eq_self (noTag_iff.mpr h.mention),
    subTmeLink_eq_self (noLink_iff.mpr h.link)]

/-- Stripping takes away exactly what is below the blank line. -/
theorem stripTags_below_iff (hsp : SpaceNotWord env) :
    stripTags env (b ++ '\n' :: '\n' :: w) = b ↔ Stripped env b ∧ stripTags env w = [] := by
  constructor
  · intro h
    have hb : Stripped env b := h ▸ stripTags_stripped hsp _
    refine ⟨hb, stripTags_eq_nil.mpr ?_⟩
    -- what is visible of `w` would be visible in `b`
    have hvis := congrArg visible h
    rw [visible_stripTags, unmatched_append hsp, hb.unmatched_eq_self, visible_append,
      List.append_right_eq_self, below_visible] at hvis
    exact hvis
  · rintro ⟨hb, hw⟩
    obtain ⟨k, hk⟩ := collapseNewlines_append b ('\n' :: '\n' :: unmatched env w) 0
    have hall : visible (collapseNewlines k ('\n' :: '\n' :: unmatched env w)) = [] := by
      rw [visible_collapseNewlines, below_visible]
      exact stripTags_eq_nil.mp hw
    show Py.strip (collapseNewlines 0 (unmatched env (b ++ '\n' :: '\n' :: w))) = b
    rw [unmatched_append hsp, hb.unmatched_eq_self, hk, strip_append_blanks hall,
      collapseNewlines_eq_self (Nat.zero_le 2) hb.newlines, Py.strip_eq_self hb.head hb.last]

/-- Trimming takes off a watermark that is blank, and nothing more if the text above it ends in no
blank. -/
theorem rstrip_below_iff : Py.rstrip (b ++ '\n' :: '\n' :: w) = b
    ↔ (∀ c ∈ b.getLast?, Py.isSpace c = false) ∧ ∀ c ∈ w, Py.isSpace c = true := by
  rw [← visible_eq_nil]
  constructor
  · intro h
    have hvis := congrArg visible h
    rw [visible_rstrip, visible_append, List.append_right_eq_self, below_visible] at hvis
    exact ⟨h ▸ Py.rstrip_getLast?, hvis⟩
  · rintro ⟨hb, hw⟩
    rw [rstrip_append_blanks (below_visible.trans hw), rstrip_eq_self hb]

end Below

/-! ## The stage -/

/-- There is nothing to strip from the text, and no watermark to put below it, or an old one
stands there that vanishes. -/
def Unchanged (env : Env) (channel : SourceChannel) (t : Text) : Prop :=
  if watermarkOf channel = [] then channel.stripSourceTags = true → Stripped env t
  else ∃ b, t = b ++ '\n' :: '\n' :: watermarkOf channel ∧
    if channel.stripSourceTags then Stripped env b ∧ stripTags env (watermarkOf channel) = []
    else (∀ c ∈ b.getLast?, Py.isSpace c = false) ∧ ∀ c ∈ watermarkOf channel, Py.isSpace c = true

/-- There is a watermark, or stripping leaves something of the text. -/
def LeavesText (env : Env) (channel : SourceChannel) (t : Text) : Prop :=
  watermarkOf channel ≠ [] ∨ (if channel.stripSourceTags then stripTags env t else t) ≠ []

/-- The text `u` is `t`, stripped if the channel strips, with the watermark below it if the channel
has one. -/
def Branded (env : Env) (channel : SourceChannel) (t u : Text) : Prop :=
  let s := if channel.stripSourceTags then stripTags env t else t
  u = if watermarkOf channel = [] then s else Py.rstrip s ++ '\n' :: '\n' :: watermarkOf channel

section Stage

variable {env : Env} {channel : SourceChannel} {t u : Text}

/-- In the words of the source: it is what `apply_watermark` makes of the text. -/
theorem branded_iff : Branded env channel t u ↔ u = watermarked env channel t := by
  rw [watermarked_eq]
  rfl

/-- Stripping leaves a text as it is exactly if it is stripped already. -/
theorem stripTags_eq_self_iff (hsp : SpaceNotWord env) : stripTags env t = t ↔ Stripped env t :=
  ⟨fun h => h ▸ stripTags_stripped hsp t, Stripped.stripTags_eq_self⟩

/-- **The stage leaves a text as it is exactly if there is nothing to do.** -/
theorem applyWatermark_eq_self_iff (hsp : SpaceNotWord env) :
    watermarked env channel t = t ↔ Unchanged env channel t := by
  rw [watermarked_eq, Unchanged]
  cases channel.stripSourceTags with
  | false =>
      split
      · simp
      · simp only [Bool.false_eq_true, if_false]
        constructor
        · intro h
          exact ⟨Py.rstrip t, h.symm, rstrip_below_iff.mp (congrArg Py.rstrip h)⟩
        · rintro ⟨b, rfl, hb⟩
          rw [rstrip_below_iff.mpr hb]
  | true =>
      split
      · simpa using stripTags_eq_self_iff hsp
      · simp only [if_true, rstrip_stripTags]
        constructor
        · intro h
          exact ⟨stripTags env t, h.symm, (stripTags_below_iff hsp).mp (congrArg (stripTags env) h)⟩
        · rintro ⟨b, rfl, hb⟩
          rw [(stripTags_below_iff hsp).mpr hb]

/-- The stage leaves a text wherever a watermark or what is not stripped is one. -/
theorem watermarked_ne_nil : watermarked env channel t ≠ [] ↔ LeavesText env channel t := by
  rw [watermarked_eq, LeavesText]
  split
  · rename_i h
    simp [h]
  · rename_i h
    simp [h]

end Stage

end TelegramCms
