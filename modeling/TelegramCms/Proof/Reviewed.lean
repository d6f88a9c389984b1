import TelegramCms.Proof.Snapshots
import TelegramCms.Proof.Unchanged

/-!
# What is published and what was reviewed

A `normalize` run writes `normalized_text`, the text the draft card and the web queue
show. `_publish_core` sends the first non-empty one of `ai_transformed_text`,
`normalized_text` and `raw_text`, as they are in the row that it loads
(`delivered_text`).

So the column that decides is `ai_transformed_text`, which holds the reply of the LLM
before the watermark stage, or what an earlier run left there. `reviewed_iff` says when
that makes no difference: the reply that is sent is this run's, and the watermark stage hands
it on unchanged.
-/

namespace TelegramCms

open Transition

/-! ## The text that goes out -/

namespace World

variable {env : Env} {w w₀ : World}

/-- In one of these steps run `i` loaded a row of post `p` whose text is `t`. -/
def TextLoaded (tr : List (World × Action)) (i p : Nat) (t : Text) : Prop :=
  ∃ u row, (u, .advance i .ok) ∈ tr ∧ u.row p = some row ∧ t = publishText row

/-- **What is delivered is the text of a row that the delivering run loaded.** -/
theorem delivered_text {tr : List (World × Action)} (h0 : Init w₀)
    (hp : Trace (step env) w₀ tr w) {d : Delivery} (hd : d ∈ w.deliveries) :
    TextLoaded tr d.run d.post d.text := by
  obtain ⟨u, row, hu, hrow, hx⟩ := delivered_cargo h0 hp hd
  exact ⟨u, row, hu, hrow, (Prod.mk.inj hx).1⟩

end World

/-! ## The text that was reviewed -/

variable {env : Env}

/-- What goes out is the text this run wrote, watermark included. -/
structure Reviewed (env : Env) (ctx : RenderCtx) (ai : AiOutcome) (row : Post) : Prop where
  written : row.normalizedText = some (finalText env ctx ai)
  sent : publishText row = finalText env ctx ai
  watermark : ctx.channel.watermarkEnabled = true →
    ∀ w, ctx.channel.watermarkText = some w → w <:+ publishText row

/-- The row has an AI text from before, and this run does not replace it: it has no reply, or the
post was loaded with this very reply, and another run has put another one in its place. -/
def EarlierReply (post row : Post) (ai : AiOutcome) : Prop :=
  row.aiTransformedText.getD [] ≠ [] ∧ ∀ r, ai = .transformed r →
    some r.text = post.aiTransformedText ∧ some r.text ≠ row.aiTransformedText

/-- This run has a reply, and no other run has taken it out of the row since the post was
loaded with it. -/
def HasReply (post row : Post) (ai : AiOutcome) : Prop :=
  ∃ r, ai = .transformed r ∧ r.text ≠ []
    ∧ (some r.text = post.aiTransformedText → some r.text = row.aiTransformedText)

/-- With a reply, the watermark stage has nothing to do; without one, it leaves some text, or
there is no `raw_text` to fall through to. -/
structure NothingLost (env : Env) (post row : Post) (ctx : RenderCtx) (ai : AiOutcome) : Prop where
  reply : HasReply post row ai → Unchanged env ctx.channel (ai.text ctx.normalized)
  noReply : ¬ HasReply post row ai →
    LeavesText env ctx.channel (ai.text ctx.normalized) ∨ row.rawText.getD [] = []

/-- No other run has changed `normalized_text` since this one loaded the post, or the text that was
loaded is not what the watermark stage makes of this run's: a session does not write a column that
seems unchanged to it. -/
def IsWritten (env : Env) (post row : Post) (ctx : RenderCtx) (ai : AiOutcome) : Prop :=
  row.normalizedText = post.normalizedText
    ∨ ∀ t, post.normalizedText = some t → ¬ Branded env ctx.channel (ai.text ctx.normalized) t

/-- The AI text the row ends up with: the reply of this run, unless the session holds it
from before, or what is there. -/
def aiText (post row : Post) : AiOutcome → Option Text
  | .transformed r =>
    if some r.text = post.aiTransformedText then row.aiTransformedText else some r.text
  | _ => row.aiTransformedText

theorem orElse_getD (a b : Option Text) :
    (Py.orElse a b).getD [] = if a.getD [] = [] then b.getD [] else a.getD [] := by
  cases a with
  | none => rfl
  | some t => cases t <;> rfl

theorem changed_getD_eq {α : Type} [DecidableEq α] (old new cur : α) :
    (changed old new).getD cur = if new = old then cur else new := by
  unfold changed
  split <;> rfl

/-- With the watermark switched on, the text a `normalize` run writes ends with it. -/
theorem finalText_watermark {ctx : RenderCtx} (ai : AiOutcome) {w : Text}
    (he : ctx.channel.watermarkEnabled = true) (hw : ctx.channel.watermarkText = some w) :
    w <:+ finalText env ctx ai := by
  rw [finalText, if_pos he, hw]
  cases w with
  | nil => exact List.nil_suffix
  | cons c cs => exact applyWatermark_suffix env (by simp) _ _

/-- The row a `normalize` commit leaves. -/
theorem normalizeCommit_row (env : Env) {v : View} {postId : Nat} (post : Post) {row : Post}
    (ctx : RenderCtx) (ai : AiOutcome) (h : v.db.posts.get postId = some row) :
    (normalizeCommit env v postId post ctx ai).db.posts.get postId
      = some ((flush post (normalizeResult env v post ctx ai)).apply row) := by
  rw [normalizeCommit, normalizeResult]
  dsimp only
  split
  · simp only [View.commit, Db.commit_some h, Db.write_row h]
  · simp only [View.commit, Db.commit_some h, Db.write_row h]

section Row

variable (env : Env) (v : View) (post row : Post) (ctx : RenderCtx) (ai : AiOutcome)

/-- A session that holds the text from before does not write it. -/
theorem apply_normalizedText :
    ((flush post (normalizeResult env v post ctx ai)).apply row).normalizedText
      = if some (finalText env ctx ai) = post.normalizedText then row.normalizedText
        else some (finalText env ctx ai) := by
  have hnew : (normalizeResult env v post ctx ai).normalizedText = some (finalText env ctx ai) := by
    rw [normalizeResult]; split <;> rfl
  rw [PostSet.apply_normalizedText, flush, hnew, changed_getD_eq]

/-- The column has the run's text unless another run's was mistaken for it. -/
theorem written_iff :
    ((flush post (normalizeResult env v post ctx ai)).apply row).normalizedText
        = some (finalText env ctx ai) ↔ IsWritten env post row ctx ai := by
  have hloaded : (∀ t, post.normalizedText = some t →
      ¬ Branded env ctx.channel (ai.text ctx.normalized) t)
      ↔ post.normalizedText ≠ some (finalText env ctx ai) := by
    constructor
    · exact fun hall he => hall _ he (branded_iff.mpr rfl)
    · intro hne t ht hb
      rw [ht, branded_iff.mp hb] at hne
      exact hne rfl
  rw [apply_normalizedText, IsWritten, hloaded]
  split
  · rename_i hf
    simp [hf]
  · rename_i hf
    simp [Ne.symm hf]

theorem apply_aiTransformedText :
    ((flush post (normalizeResult env v post ctx ai)).apply row).aiTransformedText
      = aiText post row ai := by
  have hnew : (normalizeResult env v post ctx ai).aiTransformedText
      = (normalizedPost env post ctx ai).aiTransformedText := by
    rw [normalizeResult]; split <;> rfl
  rw [PostSet.apply_aiTransformedText, flush, hnew]
  cases ai with
  | transformed r => exact changed_getD_eq _ _ _
  | off => rw [show (normalizedPost env post ctx .off).aiTransformedText
      = post.aiTransformedText from rfl, changed_self]; rfl
  | failed e => rw [show (normalizedPost env post ctx (.failed e)).aiTransformedText
      = post.aiTransformedText from rfl, changed_self]; rfl

/-- An AI text from before stays in the row. -/
theorem aiText_of_earlier (h : EarlierReply post row ai) :
    aiText post row ai = row.aiTransformedText := by
  cases ai with
  | transformed r => exact if_pos (h.2 r rfl).1
  | _ => rfl

theorem hasReply_transformed {r : TransformResult} : HasReply post row (.transformed r)
    ↔ r.text ≠ [] ∧ (some r.text = post.aiTransformedText → some r.text = row.aiTransformedText) := by
  simp [HasReply]

/-- Without one, the row ends up with this run's reply or with no AI text. -/
theorem aiText_of_not_earlier (h : ¬ EarlierReply post row ai) :
    (HasReply post row ai → (aiText post row ai).getD [] = ai.text ctx.normalized)
      ∧ ((aiText post row ai).getD [] = [] ↔ ¬ HasReply post row ai) := by
  have hempty : (∀ r, ai = .transformed r →
      some r.text = post.aiTransformedText ∧ some r.text ≠ row.aiTransformedText) →
      row.aiTransformedText.getD [] = [] := fun hr => by_contra fun hne => h ⟨hne, hr⟩
  cases ai with
  | transformed r =>
      rw [hasReply_transformed]
      by_cases hloaded : some r.text = post.aiTransformedText
      · have hai : aiText post row (.transformed r) = row.aiTransformedText := if_pos hloaded
        rw [hai]
        by_cases hrow : some r.text = row.aiTransformedText
        · simp [← hrow, AiOutcome.text]
        · -- the session does not write its reply, and the row has lost it
          have hnone := hempty fun r' hr' => by cases hr'; exact ⟨hloaded, hrow⟩
          have hno : ¬ (r.text ≠ [] ∧
              (some r.text = post.aiTransformedText → some r.text = row.aiTransformedText)) :=
            fun hr => hrow (hr.2 hloaded)
          exact ⟨fun hr => absurd hr hno, iff_of_true hnone hno⟩
      · have hai : aiText post row (.transformed r) = some r.text := if_neg hloaded
        simp [hai, hloaded, AiOutcome.text]
  | off => simpa [HasReply, aiText] using hempty (by simp)
  | failed e => simpa [HasReply, aiText] using hempty (by simp)

/-- The text sent for a row that has the run's text in `normalized_text`. -/
theorem publishText_iff {row' : Post} (hsp : SpaceNotWord env)
    (hn : row'.normalizedText = some (finalText env ctx ai))
    (hai : row'.aiTransformedText = aiText post row ai) (hraw : row'.rawText = row.rawText)
    (hearlier : ¬ EarlierReply post row ai) :
    publishText row' = finalText env ctx ai ↔ NothingLost env post row ctx ai := by
  have hfinal : finalText env ctx ai = watermarked env ctx.channel (ai.text ctx.normalized) := rfl
  obtain ⟨hreply, hnone⟩ := aiText_of_not_earlier post row ctx ai hearlier
  rw [publishText, orElse_getD, orElse_getD, hn, hai, hraw, Option.getD_some, hfinal]
  split
  · rename_i hempty
    have hno := hnone.mp hempty
    have hiff : NothingLost env post row ctx ai
        ↔ watermarked env ctx.channel (ai.text ctx.normalized) ≠ [] ∨ row.rawText.getD [] = [] := by
      rw [watermarked_ne_nil]
      exact ⟨fun hl => hl.noReply hno, fun hl => ⟨fun hr => absurd hr hno, fun _ => hl⟩⟩
    rw [hiff]
    by_cases hf : watermarked env ctx.channel (ai.text ctx.normalized) = []
    · rw [if_pos hf, hf]; simp
    · rw [if_neg hf]; simp [hf]
  · rename_i hne
    have hr : HasReply post row ai := by_contra fun hno => hne (hnone.mpr hno)
    have hiff : NothingLost env post row ctx ai
        ↔ watermarked env ctx.channel (ai.text ctx.normalized) = ai.text ctx.normalized := by
      rw [applyWatermark_eq_self_iff hsp]
      exact ⟨fun hl => hl.reply hr, fun hl => ⟨fun _ => hl, fun hno => absurd hr hno⟩⟩
    rw [hiff, hreply hr]
    exact eq_comm

/-- An AI text from before is what is sent. -/
theorem publishText_of_earlier {row' : Post} (hai : row'.aiTransformedText = aiText post row ai)
    (h : EarlierReply post row ai) : publishText row' = row.aiTransformedText.getD [] := by
  rw [publishText, orElse_getD, hai, aiText_of_earlier post row ai h, if_neg h.1]

end Row

/--
**What is published is what was reviewed.** The row is as it is when the run commits, the post as
the run loaded it.

If no AI text from before is sent, the two texts are one exactly if nothing is lost on the way
from one column to the other. An AI text from before is sent as it is, whatever this run writes;
it is the reviewed text only where it happens to be what the watermark stage makes of this run's.

`publishText` reads three columns, and the run writes two of them. `apply_normalizedText` and
`apply_aiTransformedText` say what its commit leaves there; the cases are those of `publishText`.
-/
theorem reviewed_iff {env : Env} (hsp : SpaceNotWord env) {v : View} {postId : Nat} {row : Post}
    (post : Post) (ctx : RenderCtx) (ai : AiOutcome) (h : v.db.posts.get postId = some row) :
    ∃ row', (normalizeCommit env v postId post ctx ai).db.posts.get postId = some row'
      ∧ (¬ EarlierReply post row ai →
        (Reviewed env ctx ai row'
          ↔ IsWritten env post row ctx ai ∧ NothingLost env post row ctx ai))
      ∧ (EarlierReply post row ai → publishText row' = row.aiTransformedText.getD []
        ∧ (Reviewed env ctx ai row' ↔ IsWritten env post row ctx ai
          ∧ Branded env ctx.channel (ai.text ctx.normalized) (row.aiTransformedText.getD []))) := by
  refine ⟨_, normalizeCommit_row env post ctx ai h, ?_⟩
  have hai := apply_aiTransformedText env v post row ctx ai
  have hwritten := written_iff env v post row ctx ai
  have hsent := fun hn => publishText_iff env post row ctx ai hsp hn hai rfl
  -- the watermark comes with the text
  have hreviewed : ∀ {row'}, row'.normalizedText = some (finalText env ctx ai) →
      publishText row' = finalText env ctx ai → Reviewed env ctx ai row' := by
    intro row' hn hs
    refine ⟨hn, hs, fun he w hm => ?_⟩
    rw [hs]
    exact finalText_watermark ai he hm
  constructor
  · intro hearlier
    constructor
    · intro hr
      exact ⟨hwritten.mp hr.written, (hsent hr.written hearlier).mp hr.sent⟩
    · rintro ⟨hn, hl⟩
      exact hreviewed (hwritten.mpr hn) ((hsent (hwritten.mpr hn) hearlier).mpr hl)
  · intro hearlier
    have hstale := publishText_of_earlier post row ai hai hearlier
    refine ⟨hstale, ?_, ?_⟩
    · intro hr
      exact ⟨hwritten.mp hr.written, branded_iff.mpr (hstale.symm.trans hr.sent)⟩
    · rintro ⟨hn, hb⟩
      exact hreviewed (hwritten.mpr hn) (hstale.trans (branded_iff.mp hb))

/-! ## A translated post with a watermark -/

def brandedChannel : SourceChannel :=
  { sampleChannel with
    aiEnabled := true, aiMode := .translate
    watermarkEnabled := true, watermarkText := some "@news".toList }

def brandedPost : Post where
  id := 1
  sourceChannelId := 1
  sourceMessageId := 1
  rawText := some "hi".toList
  receivedAt := 0

def brandedView : View where
  now := 0
  db := { channels := Table.empty.insert brandedChannel, posts := Table.empty.insert brandedPost }
  run := 0
  lockFree := true

def brandedCtx : RenderCtx := ⟨brandedChannel, "hi\n\n— News".toList, []⟩

/-- What the LLM answers. -/
def brandedReply : TransformResult := ⟨"salut".toList, "gpt".toList, 1, 1, 1⟩

def llmError : PyError := ⟨.other, "LLM returned an empty response".toList⟩

def brandedEnv : Env := sampleEnv { aiEnabled := true }

def translatedChannel : SourceChannel :=
  { sampleChannel with aiEnabled := true, aiMode := .translate, stripSourceTags := true }

def translatedCtx : RenderCtx := ⟨translatedChannel, "hi\n\n— News".toList, []⟩

theorem brandedEnv_spaceNotWord : SpaceNotWord brandedEnv := sampleEnv_spaceNotWord _

/-- The reply of the LLM is what is reviewed in a channel that only strips, and where the call
fails the rendered text is, watermark included. -/
theorem reviewed_iff_branded :
    (∃ row, (normalizeCommit brandedEnv brandedView 1 brandedPost translatedCtx
        (.transformed brandedReply)).db.posts.get 1 = some row
      ∧ Reviewed brandedEnv translatedCtx (.transformed brandedReply) row)
    ∧ ∃ row, (normalizeCommit brandedEnv brandedView 1 brandedPost brandedCtx
        (.failed llmError)).db.posts.get 1 = some row
      ∧ Reviewed brandedEnv brandedCtx (.failed llmError) row := by
  have hpost : brandedView.db.posts.get 1 = some brandedPost := by decide
  constructor
  · obtain ⟨row, hrow, hiff, -⟩ := reviewed_iff brandedEnv_spaceNotWord brandedPost translatedCtx
      (.transformed brandedReply) hpost
    have hstripped : Stripped brandedEnv brandedReply.text :=
      (stripTags_eq_self_iff brandedEnv_spaceNotWord).mp (by decide +kernel)
    refine ⟨row, hrow, (hiff fun hearlier => hearlier.1 (by decide)).mpr ⟨.inl rfl, ?_⟩⟩
    have hreply : HasReply brandedPost brandedPost (.transformed brandedReply) :=
      ⟨_, rfl, by decide, by decide⟩
    refine ⟨fun _ => ?_, fun hno => absurd hreply hno⟩
    rw [Unchanged, if_pos (by decide)]
    exact fun _ => hstripped
  · obtain ⟨row, hrow, hiff, -⟩ := reviewed_iff brandedEnv_spaceNotWord brandedPost brandedCtx
      (.failed llmError) hpost
    refine ⟨row, hrow, (hiff fun hearlier => hearlier.1 (by decide)).mpr ⟨.inl rfl, ?_⟩⟩
    refine ⟨?_, fun _ => .inl (.inl (by decide))⟩
    rintro ⟨r, hr, -⟩
    exact absurd hr (by simp)

/-- The reply goes out without the watermark that the reviewed text ends with. -/
theorem branded_sent_unreviewed :
    (normalizeContext brandedEnv brandedView brandedPost).next
        = .goto (.transform brandedPost brandedCtx)
      ∧ ((normalizeTransformed brandedView brandedPost brandedCtx
          (.transformed brandedReply)).map Effect.next)
        = some (.goto (.commit brandedPost brandedCtx (.transformed brandedReply)))
      ∧ ∃ row, (normalizeCommit brandedEnv brandedView 1 brandedPost brandedCtx
          (.transformed brandedReply)).db.posts.get 1 = some row
        ∧ row.normalizedText = some "salut\n\n@news".toList
        ∧ publishText row = "salut".toList
        ∧ ¬ Reviewed brandedEnv brandedCtx (.transformed brandedReply) row := by
  refine ⟨by decide, by decide, _, rfl, by decide, by decide, fun h => ?_⟩
  exact absurd h.sent (by decide)

end TelegramCms
