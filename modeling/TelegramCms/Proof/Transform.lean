import TelegramCms.Model.Transform

/-!
# What counts as a blank reply

Go trims the reply and then looks whether anything is left. Python looks first: a reply of
nothing but blanks is accepted and trimmed to the empty text. And Python takes four control
characters for blanks that Go does not.
-/

namespace TelegramCms

/-- The characters that are blank to Python alone, U+001C to U+001F. -/
def isSeparator (c : Char) : Bool := 28 ≤ c.toNat && c.toNat ≤ 31

/-- There is something in it, and Python strips no separator. -/
def Readable (content : Text) : Prop :=
  (∃ c ∈ content, Py.isSpace c = false)
    ∧ ∀ c ∈ content.takeWhile Py.isSpace ++ content.rtakeWhile Py.isSpace, isSeparator c = false

/-- The condition: the reply has no content, or content that is readable. -/
def ChatReply.Clear (r : ChatReply) : Prop :=
  ∀ content ∈ r.content, content ≠ [] → Readable content

/-- `normalize` goes on with the text it has, as where no LLM is asked. -/
def FallsBack (e : PyError) : Prop :=
  ∀ (env : Env) (v : View) (post : Post) (ctx : RenderCtx),
    ∃ ai, normalizeTransformed v post ctx (transformReply (.error e))
        = some (v.goto (.commit post ctx ai))
      ∧ finalText env ctx ai = finalText env ctx .off
      ∧ (normalizedPost env post ctx ai).aiTransformedText = post.aiTransformedText

/-- The property: both accept the reply, with one text that is not empty, or neither does, and
then `normalize` falls back. -/
def Mirrors : Except PyError TransformResult → Except Text TransformResult → Prop
  | .ok p, .ok g => p.text = g.text ∧ p.text ≠ []
  | .error e, .error _ => FallsBack e
  | _, _ => False

theorem fallsBack (e : PyError) : FallsBack e := fun _ _ _ _ => ⟨.failed e, rfl, rfl, rfl⟩

/-! ## Blanks -/

/-- Python strips what Go trims, and U+001C to U+001F. -/
theorem isSpace_eq (c : Char) : Py.isSpace c = (Go.isSpace c || isSeparator c) := by
  rw [Bool.eq_iff_iff]
  simp only [Py.isSpace, Go.isSpace, isSeparator, Bool.or_eq_true, Bool.and_eq_true,
    decide_eq_true_eq, beq_iff_eq]
  omega

theorem goSpace_of_separator {c : Char} (h : isSeparator c = true) : Go.isSpace c = false := by
  rw [Bool.eq_false_iff]
  simp only [Go.isSpace, isSeparator, Bool.or_eq_true, Bool.and_eq_true, decide_eq_true_eq,
    beq_iff_eq, ne_eq] at h ⊢
  omega

theorem not_goSpace {c : Char} (h : Py.isSpace c = false) : Go.isSpace c = false := by
  rw [isSpace_eq, Bool.or_eq_false_iff] at h
  exact h.1

section Content

variable {content : Text}

theorem strip_eq_nil : Py.strip content = [] ↔ ∀ c ∈ content, Py.isSpace c = true :=
  Py.trim_eq_nil

theorem strip_ne_nil : Py.strip content ≠ [] ↔ ∃ c ∈ content, Py.isSpace c = false := by
  rw [Ne, strip_eq_nil]
  simp

/-- Of the blanks at the ends, Go trims those that are no separators. -/
theorem strip_eq_trimSpace (h : ∃ c ∈ content, Py.isSpace c = false) :
    Py.strip content = Go.trimSpace content
      ↔ ∀ c ∈ content.takeWhile Py.isSpace ++ content.rtakeWhile Py.isSpace, isSeparator c = false := by
  have hends : ∀ c ∈ content.takeWhile Py.isSpace ++ content.rtakeWhile Py.isSpace,
      Py.isSpace c = true := by
    intro c hc
    rcases List.mem_append.mp hc with hc | hc
    · exact List.mem_takeWhile_imp hc
    · exact List.mem_rtakeWhile_imp hc
  refine (Py.trim_eq_iff (fun c => not_goSpace) h).trans (forall₂_congr fun c hc => ?_)
  have hspace := hends c hc
  rw [isSpace_eq] at hspace
  cases hsep : isSeparator c with
  | true => simp [goSpace_of_separator hsep]
  | false => simpa [hsep] using hspace

/-- Go accepts the content, Python accepts what is not empty; they agree on what is readable. -/
theorem readable_iff :
    Readable content
      ↔ Py.strip content = Go.trimSpace content ∧ Py.strip content ≠ [] := by
  rw [strip_ne_nil, Readable, and_comm]
  exact and_congr_left fun h => (strip_eq_trimSpace h).symm

end Content

/-! ## The two functions -/

section Replies

variable {settings : AiSettings} {mode : AIMode} {model : Option Text} {rawText text : Text}
  {r : ChatReply} {latencyMs latency : Int}

/-- A reply is clear if its content, unless it is empty, is readable. -/
theorem clear_iff :
    r.Clear ↔ (r.content.getD [] ≠ [] → Readable (r.content.getD [])) := by
  unfold ChatReply.Clear
  cases r.content with
  | none => simp
  | some content => simp

/-- Python: a reply without content is an error, -/
theorem transformText_empty (hmode : mode ≠ .off) (hkey : settings.apiKey ≠ [])
    (h : r.content.getD [] = []) :
    transformText settings mode model rawText (.ok r) latencyMs
      = .error (aiTransformError emptyResponse) := by
  rw [transformText, if_neg hmode, if_neg hkey]
  split
  · rfl
  · rfl
  · rename_i hne hc
    rw [hc] at h
    exact absurd h hne

/-- and any other is stripped and accepted. -/
theorem transformText_content (model : Option Text) (rawText : Text) (latencyMs : Int)
    (hmode : mode ≠ .off) (hkey : settings.apiKey ≠ [])
    (h : r.content.getD [] ≠ []) :
    ∃ p, transformText settings mode model rawText (.ok r) latencyMs = .ok p
      ∧ p.text = Py.strip (r.content.getD []) := by
  rw [transformText, if_neg hmode, if_neg hkey]
  split
  · rename_i hc
    exact absurd (by rw [hc]; rfl) h
  · rename_i hc
    exact absurd (by rw [hc]; rfl) h
  · rename_i hc
    exact ⟨_, rfl, by rw [hc]; rfl⟩

/-- Go: a reply of which trimming leaves nothing is an error, -/
theorem goTransformText_blank (hmode : mode ≠ .off) (hkey : settings.apiKey ≠ [])
    (h : Go.trimSpace (r.content.getD []) = []) :
    Go.transformText settings mode text (.ok r) latency = .error emptyResponse := by
  rw [Go.transformText, if_neg hmode, if_neg hkey]
  exact if_pos (.inr h)

/-- and any other is trimmed and accepted. -/
theorem goTransformText_content (text : Text) (latency : Int)
    (hmode : mode ≠ .off) (hkey : settings.apiKey ≠ [])
    (h : Go.trimSpace (r.content.getD []) ≠ []) :
    ∃ g, Go.transformText settings mode text (.ok r) latency = .ok g
      ∧ g.text = Go.trimSpace (r.content.getD []) := by
  have hchoices : r.choices.length ≠ 0 := by
    intro hnil
    rw [ChatReply.content, List.eq_nil_of_length_eq_zero hnil] at h
    exact h rfl
  rw [Go.transformText, if_neg hmode, if_neg hkey]
  dsimp only
  rw [if_neg (not_or.mpr ⟨hchoices, h⟩)]
  exact ⟨_, rfl, rfl⟩

/--
**Python and Go accept the reply with one text that is not empty, or neither accepts it and
`normalize` falls back, if and only if the reply has no content, or content that is not
blank and from whose ends Python strips none of U+001C to U+001F.**

Go refuses a reply that is blank and Python one that is empty, and the two trim by different
tables of blanks. So the cases are those of the content: none, blank to Go, and any other, where
both accept and it is left to compare the trimmed texts.
-/
theorem mirrors_iff (hmode : mode ≠ .off) (hkey : settings.apiKey ≠ []) :
    Mirrors (transformText settings mode model rawText (.ok r) latencyMs)
        (Go.transformText settings mode text (.ok r) latency)
      ↔ r.Clear := by
  rw [clear_iff]
  by_cases hempty : r.content.getD [] = []
  · have hblank : Go.trimSpace (r.content.getD []) = [] := by rw [hempty]; rfl
    rw [transformText_empty hmode hkey hempty, goTransformText_blank hmode hkey hblank]
    exact iff_of_true (fallsBack _) (fun hne => absurd hempty hne)
  · obtain ⟨p, hp, hptext⟩ := transformText_content model rawText latencyMs
      hmode hkey hempty
    rw [hp, imp_iff_right hempty, readable_iff, ← hptext]
    by_cases htrim : Go.trimSpace (r.content.getD []) = []
    · -- Python accepts what Go rejects
      rw [goTransformText_blank hmode hkey htrim, htrim]
      exact iff_of_false id fun h => h.2 h.1
    · obtain ⟨g, hg, hgtext⟩ := goTransformText_content text latency hmode hkey htrim
      rw [hg, ← hgtext]
      exact Iff.rfl

def sampleSettings : AiSettings where
  apiKey := "sk-sample".toList
  model := "gpt-4o-mini".toList

def sampleReply (content : Text) : ChatReply where
  choices := [some content]

theorem mirrors_iff_padded :
    Mirrors (transformText sampleSettings .summarize none "text".toList
          (.ok (sampleReply " - one point\n".toList)) 250)
        (Go.transformText sampleSettings .summarize "text".toList
          (.ok (sampleReply " - one point\n".toList)) 250) :=
  (mirrors_iff (by decide) (by decide)).mpr
    (clear_iff.mpr fun _ => readable_iff.mpr ⟨by rfl, by decide⟩)

/-- A reply of one space: Python accepts it as the empty text, Go does not accept it. -/
theorem blank_accepted :
    transformText sampleSettings .summarize none "text".toList (.ok (sampleReply " ".toList)) 250
        = .ok ⟨[], "gpt-4o-mini".toList, 0, 0, 250⟩
      ∧ Go.transformText sampleSettings .summarize "text".toList (.ok (sampleReply " ".toList)) 250
        = .error emptyResponse
      ∧ ¬ Mirrors (transformText sampleSettings .summarize none "text".toList
            (.ok (sampleReply " ".toList)) 250)
          (Go.transformText sampleSettings .summarize "text".toList
            (.ok (sampleReply " ".toList)) 250) := by
  have hpy : transformText sampleSettings .summarize none "text".toList
      (.ok (sampleReply " ".toList)) 250 = .ok ⟨[], "gpt-4o-mini".toList, 0, 0, 250⟩ := by rfl
  have hgo : Go.transformText sampleSettings .summarize "text".toList
      (.ok (sampleReply " ".toList)) 250 = .error emptyResponse := by rfl
  refine ⟨hpy, hgo, ?_⟩
  rw [hpy, hgo]
  exact id

end Replies

end TelegramCms
