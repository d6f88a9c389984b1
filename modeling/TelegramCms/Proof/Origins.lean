import TelegramCms.Proof.Snapshots

/-!
# Where a text comes from

`text or normalized_text or raw_text` is what `publish` sends. The columns are written by
normalize runs, from what these loaded and from what the LLM answered.

`delivered_source`: a text that reached the destination channel is the raw text of the
post, a reply of the LLM as it came, or one that a normalize run of the post made in its
template and watermark stages.
-/

namespace TelegramCms

open Transition World

/-- What a text of a post is made from. -/
inductive Source where
  | raw (text : Text)
  | reply (text : Text)
  /-- The template with what it prints, the channel it was rendered for, and what the AI
  stage came to. -/
  | rendered (body text sourceLabel tags : Text) (channel : SourceChannel) (ai : AiOutcome)

/-- The text made from a source. -/
def Source.text (env : Env) : Source → Except PyError Text
  | .raw text | .reply text => .ok text
  | .rendered body text sourceLabel tags channel ai =>
    (renderTemplate env body text sourceLabel tags).map (fun normalized =>
      finalText env ⟨channel, normalized, normalizeTagIds channel⟩ ai)

/-- In the steps `tr` the post `p` was given this source. -/
inductive Source.From (env : Env) (tr : List (World × Action)) (p : Nat) : Source → Prop where
  | raw {u c m text} (ha : (u, .arrive c m text) ∈ tr) (hp : u.db.nextPostId = p) :
      From env tr p (.raw (text.getD []))
  | reply {u i job post ctx r} (ha : (u, .advance i (.transformed r)) ∈ tr)
      (hi : u.proc i = some (.normalize job (.transform post ctx))) (hp : job.postId = p) :
      From env tr p (.reply r.text)
  | rendered {u i job post row channel text ai} (ha : (u, .advance i .ok) ∈ tr)
      (hi : u.proc i = some (.normalize job (.context post))) (hp : job.postId = p)
      (hrow : u.row p = some row) (hch : u.db.channels.get row.sourceChannelId = some channel)
      (htext : From env tr p (.raw text))
      (hai : ∀ r, ai = .transformed r → From env tr p (.reply r.text)) :
      From env tr p (.rendered (templateBody u.db channel) text (sourceLabel channel)
        (formatTagString env (resolveTagLabels u.db.tags (normalizeTagIds channel))) channel ai)

theorem Source.From.mono {env : Env} {tr tr' : List (World × Action)} {p : Nat} {s : Source}
    (h : s.From env tr p) (hsub : tr ⊆ tr') : s.From env tr' p := by
  induction h with
  | raw ha hp => exact .raw (hsub ha) hp
  | reply ha hi hp => exact .reply (hsub ha) hi hp
  | rendered ha hi hp hrow hch _ _ ih ihai =>
      exact .rendered (hsub ha) hi hp hrow hch ih ihai

theorem Source.From.withAi {env : Env} {tr : List (World × Action)} {p : Nat}
    {body text label tags : Text} {channel : SourceChannel} {ai : AiOutcome}
    (h : (Source.rendered body text label tags channel .off).From env tr p)
    (hai : ∀ r, ai = .transformed r → (Source.reply r.text).From env tr p) :
    (Source.rendered body text label tags channel ai).From env tr p := by
  cases h with
  | rendered ha hi hp hrow hch htext _ => exact .rendered ha hi hp hrow hch htext hai

/-- The text is made from a source of the post. -/
def Made (env : Env) (tr : List (World × Action)) (p : Nat) (text : Text) : Prop :=
  ∃ s : Source, s.From env tr p ∧ s.text env = .ok text

theorem Made.mono {env : Env} {tr tr' : List (World × Action)} {p : Nat} {text : Text}
    (h : Made env tr p text) (hsub : tr ⊆ tr') : Made env tr' p text := by
  obtain ⟨s, hs, ht⟩ := h
  exact ⟨s, hs.mono hsub, ht⟩

/-! ## The columns of the row -/

/-- A text that is published is in one of three columns. -/
theorem publishText_cases (row : Post) :
    row.aiTransformedText = some (publishText row) ∨ row.normalizedText = some (publishText row)
      ∨ row.rawText.getD [] = publishText row := by
  unfold publishText
  rcases row.aiTransformedText with _ | _ | ⟨c, cs⟩
  · rcases row.normalizedText with _ | _ | ⟨c, cs⟩ <;> simp [Py.orElse]
  · rcases row.normalizedText with _ | _ | ⟨c, cs⟩ <;> simp [Py.orElse]
  · simp [Py.orElse]

/-- Only a normalize run writes the two columns of the text. -/
theorem set_texts {env : Env} {v : View} {q : Proc} {p : Nat} {set : PostSet}
    (hs : q.set env v = some (p, set)) :
    (set.normalizedText = none ∧ set.aiTransformedText = none)
    ∨ ∃ job post ctx ai, q = .normalize job (.commit post ctx ai) ∧ p = job.postId
        ∧ (∀ x, set.normalizedText = some x → x = some (finalText env ctx ai))
        ∧ ∀ x, set.aiTransformedText = some x → ∃ r, ai = .transformed r ∧ x = some r.text := by
  rcases set_content hs with ⟨job, post, ctx, ai, rfl, hq, rfl⟩ | ⟨refs, post, -, rfl⟩ | ⟨-, hn, ha, -⟩
  · have hn : (normalizeResult env v post ctx ai).normalizedText = some (finalText env ctx ai) := by
      rw [normalizeResult]; split <;> rfl
    have ha : (normalizeResult env v post ctx ai).aiTransformedText
        = (normalizedPost env post ctx ai).aiTransformedText := by
      rw [normalizeResult]; split <;> rfl
    refine .inr ⟨job, post, ctx, ai, rfl, hq, fun x hx => ?_, fun x hx => ?_⟩
    · exact (changed_eq_some hx).trans hn
    · rw [flush, ha] at hx
      cases ai with
      | transformed r => exact ⟨r, rfl, changed_eq_some hx⟩
      | off => exact absurd hx (by simp [normalizedPost, changed_self])
      | failed e => exact absurd hx (by simp [normalizedPost, changed_self])
  · exact .inl ⟨changed_self _, changed_self _⟩
  · exact .inl ⟨hn, ha⟩

/-- What a run holds once the template is rendered. -/
def NormalizePc.ctx? : NormalizePc → Option RenderCtx
  | .transform _ ctx | .commit _ ctx _ => some ctx
  | _ => none

namespace World

variable {env : Env} {w w' w₀ : World} {a : Action} {p : Nat} {tr : List (World × Action)}

/-- Everything a post or a normalize run of it holds has a source. -/
structure Sourced (env : Env) (p : Nat) (tr : List (World × Action)) (w : World) : Prop where
  numbered : Numbered w
  copied : Copied w
  raw : ∀ row, w.row p = some row → (Source.raw (row.rawText.getD [])).From env tr p
  normalized : ∀ row t, w.row p = some row → row.normalizedText = some t → Made env tr p t
  transformed : ∀ row t, w.row p = some row → row.aiTransformedText = some t → Made env tr p t
  rendering : ∀ i job pc ctx, w.proc i = some (.normalize job pc) → job.postId = p →
    pc.ctx? = some ctx → ∃ body text label tags,
    (Source.rendered body text label tags ctx.channel .off).From env tr p
      ∧ renderTemplate env body text label tags = .ok ctx.normalized
  replied : ∀ i job post ctx r, w.proc i = some (.normalize job (.commit post ctx (.transformed r))) →
    job.postId = p → (Source.reply r.text).From env tr p

theorem sourced_init (h : Init w) : Sourced env p [] w where
  numbered := numbered_init h
  copied := copied_init h
  raw row hrow := by rw [row_init h] at hrow; exact absurd hrow (by simp)
  normalized row t hrow := by rw [row_init h] at hrow; exact absurd hrow (by simp)
  transformed row t hrow := by rw [row_init h] at hrow; exact absurd hrow (by simp)
  rendering i job pc ctx hq := by rw [proc_init h] at hq; exact absurd hq (by simp)
  replied i job post ctx r hq := by rw [proc_init h] at hq; exact absurd hq (by simp)

/-- What the watermark stage makes of a rendering has a source, as long as the outcome of
the AI stage has one. -/
theorem Sourced.rendered (hw : Sourced env p tr w) {i : Nat} {job : Job} {pc : NormalizePc}
    {ctx : RenderCtx} {ai : AiOutcome} (hq : w.proc i = some (.normalize job pc))
    (hp : job.postId = p) (hc : pc.ctx? = some ctx)
    (hai : ∀ r, ai = .transformed r → (Source.reply r.text).From env tr p) :
    Made env tr p (finalText env ctx ai) := by
  obtain ⟨body, text, label, tags, hs, ht⟩ := hw.rendering i job pc ctx hq hp hc
  refine ⟨_, hs.withAi hai, ?_⟩
  rw [Source.text, ht]
  rfl

/-- A text column after a step holds what it held before, or what a normalize run of the
post has just written there. -/
theorem Sourced.columns_step (hw : Sourced env p tr w) (h : step env w a = some w') {row : Post}
    (hrow : w'.row p = some row) :
    (∀ t, row.normalizedText = some t → Made env tr p t)
    ∧ ∀ t, row.aiTransformedText = some t → Made env tr p t := by
  rcases row_step p h with he | ⟨i, q, set, row₀, rfl, hq, hs, hr, he⟩ | ⟨_, _, _, -, -, he⟩
  · exact ⟨fun t => hw.normalized row t (he ▸ hrow), fun t => hw.transformed row t (he ▸ hrow)⟩
  · obtain rfl := Option.some.inj (hrow.symm.trans he)
    rw [PostSet.apply_normalizedText, PostSet.apply_aiTransformedText]
    rcases set_texts hs with ⟨hn, ha⟩ | ⟨job, post, ctx, ai, rfl, rfl, hn, ha⟩
    · rw [hn, ha]
      exact ⟨fun t => hw.normalized row₀ t hr, fun t => hw.transformed row₀ t hr⟩
    · have hai : ∀ r, ai = .transformed r → (Source.reply r.text).From env tr job.postId := by
        rintro r rfl
        exact hw.replied i job post ctx r hq rfl
      refine ⟨fun t ht => ?_, fun t ht => ?_⟩
      · cases hset : set.normalizedText with
        | none => rw [hset, Option.getD_none] at ht; exact hw.normalized row₀ t hr ht
        | some x =>
            rw [hset, Option.getD_some, hn x hset] at ht
            obtain rfl := Option.some.inj ht
            exact hw.rendered hq rfl rfl hai
      · cases hset : set.aiTransformedText with
        | none => rw [hset, Option.getD_none] at ht; exact hw.transformed row₀ t hr ht
        | some x =>
            obtain ⟨r, hr, rfl⟩ := ha x hset
            rw [hset, Option.getD_some] at ht
            obtain rfl := Option.some.inj ht
            exact ⟨_, hai r hr, rfl⟩
  · obtain rfl := Option.some.inj (hrow.symm.trans he)
    exact ⟨fun t ht => absurd ht (by simp [ingestedPost]), fun t ht => absurd ht (by simp [ingestedPost])⟩

theorem Sourced.raw_step (hw : Sourced env p tr w) (h : step env w a = some w') {row : Post}
    (hrow : w'.row p = some row) :
    (Source.raw (row.rawText.getD [])).From env (tr ++ [(w, a)]) p := by
  cases hr : w.row p with
  | some row₀ =>
      obtain ⟨row', hrow', -, ht⟩ := row_fixed h hr
      obtain rfl := Option.some.inj (hrow.symm.trans hrow')
      rw [ht]
      exact (hw.raw row₀ hr).mono (List.subset_append_left _ _)
  | none =>
      rcases row_step p h with he | ⟨_, _, _, _, -, -, -, hr', -⟩ | ⟨c, m, text, rfl, -, he⟩
      · rw [hrow, hr] at he; exact absurd he (by simp)
      · rw [hr] at hr'; exact absurd hr' (by simp)
      · obtain rfl := Option.some.inj (hrow.symm.trans he)
        exact .raw (List.mem_append_right _ (List.mem_singleton_self _)) (arrive_id h hr hrow)

/-- A normalize run renders in its context step, and keeps the rendering. -/
theorem Sourced.rendering_step (hw : Sourced env p tr w) (h : step env w a = some w') {i : Nat}
    {job : Job} {pc : NormalizePc} {ctx : RenderCtx} (hq : w'.proc i = some (.normalize job pc))
    (hp : job.postId = p) (hc : pc.ctx? = some ctx) :
    ∃ body text label tags,
      (Source.rendered body text label tags ctx.channel .off).From env (tr ++ [(w, a)]) p
        ∧ renderTemplate env body text label tags = .ok ctx.normalized := by
  have hkeep : ∀ pc₀, w.proc i = some (.normalize job pc₀) → pc₀.ctx? = some ctx →
      ∃ body text label tags,
        (Source.rendered body text label tags ctx.channel .off).From env (tr ++ [(w, a)]) p
          ∧ renderTemplate env body text label tags = .ok ctx.normalized := by
    intro pc₀ hq hc
    obtain ⟨body, text, label, tags, hs, ht⟩ := hw.rendering i job pc₀ ctx hq hp hc
    exact ⟨body, text, label, tags, hs.mono (List.subset_append_left _ _), ht⟩
  rcases proc_step hw.numbered h hq with hq | ⟨r, q₀, e, rfl, hq₀, he, hnx, -⟩ | ⟨-, -, hs⟩
  · exact hkeep pc hq hc
  · cases step_goes he hnx with
    | normalizes hrow hnp hnr => exact absurd hc (by simp [NormalizePc.ctx?])
    | @renders _ post channel normalized _ ctx' hch ht hctx hpc =>
        have hctx' : ctx = ctx' := by
          rcases hpc with rfl | rfl <;> exact (Option.some.inj hc).symm
        subst hctx' hctx
        obtain ⟨row, hrow, hrc, hrt⟩ := hw.copied i _ p post hq₀ (by rw [← hp]; rfl)
        have hraw : (Source.raw (post.rawText.getD [])).From env (tr ++ [(w, .advance i .ok)]) p := by
          rw [← hrt]
          exact (hw.raw row hrow).mono (List.subset_append_left _ _)
        refine ⟨_, _, _, _, .rendered (List.mem_append_right _ (List.mem_singleton_self _)) hq₀ hp
          hrow (by rw [hrc]; exact hch) hraw (by simp), ht⟩
    | transforms hai => exact hkeep _ hq₀ hc
    | routes hrow => exact absurd hc (by simp [NormalizePc.ctx?])
  · cases hs with
    | normalize => exact absurd hc (by simp [NormalizePc.ctx?])

theorem Sourced.replied_step (hw : Sourced env p tr w) (h : step env w a = some w') {i : Nat}
    {job : Job} {post : Post} {ctx : RenderCtx} {res : TransformResult}
    (hq : w'.proc i = some (.normalize job (.commit post ctx (.transformed res))))
    (hp : job.postId = p) : (Source.reply res.text).From env (tr ++ [(w, a)]) p := by
  rcases proc_step hw.numbered h hq with hq | ⟨r, q₀, e, rfl, hq₀, he, hnx, -⟩ | ⟨-, -, hs⟩
  · exact (hw.replied i job post ctx res hq hp).mono (List.subset_append_left _ _)
  · cases step_goes he hnx with
    | renders hch ht hctx hpc => rcases hpc with hpc | hpc <;> exact absurd hpc (by simp)
    | transforms hai =>
        obtain rfl := hai res rfl
        exact .reply (List.mem_append_right _ (List.mem_singleton_self _)) hq₀ hp
  · cases hs

theorem sourced_step (hw : Sourced env p tr w) (h : step env w a = some w') :
    Sourced env p (tr ++ [(w, a)]) w' where
  numbered := numbered_step hw.numbered h
  copied := copied_step hw.numbered hw.copied h
  raw _ hrow := hw.raw_step h hrow
  normalized _ t hrow ht :=
    ((hw.columns_step h hrow).1 t ht).mono (List.subset_append_left _ _)
  transformed _ t hrow ht :=
    ((hw.columns_step h hrow).2 t ht).mono (List.subset_append_left _ _)
  rendering _ _ _ _ hq hp hc := hw.rendering_step h hq hp hc
  replied _ _ _ _ _ hq hp := hw.replied_step h hq hp

theorem sourced_trace (h0 : Init w₀) (h : Trace (step env) w₀ tr w) : Sourced env p tr w := by
  induction h with
  | nil => exact sourced_init h0
  | snoc _ hu ih => exact sourced_step ih hu

/-- The text that would be published of a row has a source. -/
theorem Sourced.publishText (hw : Sourced env p tr w) {row : Post} (hrow : w.row p = some row) :
    Made env tr p (TelegramCms.publishText row) := by
  rcases publishText_cases row with ht | ht | ht
  · exact hw.transformed row _ hrow ht
  · exact hw.normalized row _ hrow ht
  · exact ⟨_, hw.raw row hrow, by rw [ht]; rfl⟩

/-- **What is delivered is the raw text of the post, a reply of the LLM, or a rendering that
went through the watermark stage.** -/
theorem delivered_source (h0 : Init w₀) (h : Trace (step env) w₀ tr w) {d : Delivery}
    (hd : d ∈ w.deliveries) : Made env tr d.post d.text := by
  obtain ⟨u, row, hu, hrow, hx⟩ := delivered_cargo h0 h hd
  obtain ⟨ht, -⟩ := Prod.mk.inj hx
  obtain ⟨tr₁, tr₂, _, rfl, hpre, -, -⟩ := h.split hu
  rw [ht]
  exact ((sourced_trace h0 hpre).publishText hrow).mono (List.subset_append_left _ _)

end World

end TelegramCms
