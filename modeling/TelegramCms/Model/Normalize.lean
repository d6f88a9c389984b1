import TelegramCms.Model.Process

/-!
# The `normalize` job

`worker/normalize.py`. The job works in one session: it loads the post, loads what it
renders with, waits for the LLM if the channel asks for it, and commits. The query of
`_is_duplicate` autoflushes the pending `UPDATE` first, which locks the row until the
commit, so query and commit are one step here.
-/

namespace TelegramCms

/-- What the job holds once the template is rendered. -/
structure RenderCtx where
  channel : SourceChannel
  normalized : Text
  tagIds : List Nat
deriving DecidableEq

/-- What became of the AI stage. -/
inductive AiOutcome where
  /-- Not asked for. -/
  | off
  | transformed (r : TransformResult)
  /-- `ai_failed`: fall back to the un-transformed text. -/
  | failed (e : PyError)
deriving DecidableEq

inductive NormalizePc where
  /-- `session.get(Post, post_id)` -/
  | load
  /-- Channel, template and tag labels. -/
  | context (post : Post)
  /-- `transform_text` -/
  | transform (post : Post) (ctx : RenderCtx)
  /-- Duplicate query and commit. -/
  | commit (post : Post) (ctx : RenderCtx) (ai : AiOutcome)
  /-- The post as it was loaded is carried along; only its id is used. -/
  | enqueue (post : Post) (route : Policy)
deriving DecidableEq

variable (env : Env)

/-- A row for this hash lies within the lookback window. -/
def isDuplicate (now : Time) (db : Db) (h : Digest) : Bool :=
  (db.dedupe.get h).any (fun r =>
    decide (now - days env.settings.dedupeLookbackDays ≤ r.publishedAt))

/-- `_should_ai_transform` -/
def shouldAiTransform (channel : SourceChannel) : Bool :=
  env.settings.aiEnabled && (channel.aiEnabled && channel.aiMode != .off)

/-- The tags the job writes: the channel's defaults for `auto`, none for `queue`. -/
def normalizeTagIds (channel : SourceChannel) : List Nat :=
  if channel.policy = .auto then channel.defaultTagIds else []

def templateBody (db : Db) (channel : SourceChannel) : Text :=
  match (channel.normalizationTemplateId.filter (· ≠ 0)).bind db.templates.get with
  | some tpl => tpl.body
  | none => defaultTemplateBody

/-- `source_label or username or title` -/
def sourceLabel (channel : SourceChannel) : Text :=
  (Py.orElse channel.sourceLabel (Py.orElse channel.username (some channel.title))).getD []

/-- The text the AI stage hands on. -/
def AiOutcome.text (ai : AiOutcome) (normalized : Text) : Text :=
  match ai with
  | .transformed r => r.text
  | _ => normalized

/-- The text after the watermark stage. -/
def finalText (ctx : RenderCtx) (ai : AiOutcome) : Text :=
  applyWatermark env (ai.text ctx.normalized)
    (if ctx.channel.watermarkEnabled then ctx.channel.watermarkText else none)
    ctx.channel.stripSourceTags

/-- The post as the session holds it before the duplicate query. -/
def normalizedPost (post : Post) (ctx : RenderCtx) (ai : AiOutcome) : Post :=
  { post with
    normalizedText := some (finalText env ctx ai)
    aiTransformedText :=
      match ai with
      | .transformed r => some r.text
      | _ => post.aiTransformedText
    tagIds := ctx.tagIds
    dedupeHash := some (computeDedupeHash env post.rawText post.rawMediaRefs)
    mediaPaths := (post.rawMediaRefs.filter (fun m => !m.omitted)).filterMap
      (fun m => m.file.filter (fun f => !f.isEmpty)) }

def aiEvents (now : Time) (post : Post) (channel : SourceChannel) : AiOutcome → List PostEvent
  | .off => []
  | .transformed r => [{
      postId := post.id
      action := .aiTransformed
      payload := [("model", .str r.model), ("mode", .str channel.aiMode.value),
        ("prompt_tokens", .int r.promptTokens),
        ("completion_tokens", .int r.completionTokens), ("latency_ms", .int r.latencyMs)]
      createdAt := now }]
  | .failed e => [{
      postId := post.id
      action := .aiFailed
      payload := [("error", .str (e.message.take 500))]
      createdAt := now }]

section Steps

variable (v : View) (postId : Nat)

def normalizeLoad : Effect NormalizePc :=
  match v.db.posts.get postId with
  | none => v.ret .notFound
  | some post =>
    -- a post on its way to the destination channel is normalized like any other
    if post.state = .published ∨ post.state = .rejected then v.ret (.skip post.state)
    else v.goto (.context post)

def normalizeContext (post : Post) : Effect NormalizePc :=
  match v.db.channels.get post.sourceChannelId with
  | none => v.ret .noChannel
  | some channel =>
    match normalizeText env v.db.tags (templateBody v.db channel) (post.rawText.getD [])
        (sourceLabel channel) (normalizeTagIds channel) with
    | .error e => v.raise e
    | .ok normalized =>
      let ctx : RenderCtx := ⟨channel, normalized, normalizeTagIds channel⟩
      if shouldAiTransform env channel then v.goto (.transform post ctx)
      else v.goto (.commit post ctx .off)

/-- Any exception of `transform_text` is caught. -/
def normalizeTransformed (post : Post) (ctx : RenderCtx) :
    Reply → Option (Effect NormalizePc)
  | .transformed r => some (v.goto (.commit post ctx (.transformed r)))
  | .raise e => some (v.goto (.commit post ctx (.failed e)))
  | _ => none

def normalizeCommit (post : Post) (ctx : RenderCtx) (ai : AiOutcome) : Effect NormalizePc :=
  let new := normalizedPost env post ctx ai
  let h := computeDedupeHash env post.rawText post.rawMediaRefs
  -- any row of the hash counts, also one that a publish run of this post reserved
  if isDuplicate env v.now v.db h then
    v.commit postId (flush post { new with state := .rejected })
      (aiEvents v.now post ctx.channel ai ++
        [{ postId := postId, action := .duplicate, payload := [("dedupe_hash", .str h.hex)]
           createdAt := v.now }])
      v.raise
      (fun db => { db := db, seen := [.duplicate postId h], next := .stop (.returned .duplicate) })
  else
    v.commit postId (flush post new)
      (aiEvents v.now post ctx.channel ai ++
        [{ postId := postId, action := .edited, payload := [("normalized", .bool true)]
           createdAt := v.now }])
      v.raise (fun db => { db := db, next := .goto (.enqueue post ctx.channel.policy) })

/-- `decide_route` and the enqueue it leads to. -/
def normalizeEnqueue : Policy → Effect NormalizePc
  | .auto =>
    { db := v.db, jobs := [enqueuePublish v.now postId]
      next := .stop (.returned .enqueuedPublish) }
  | .queue =>
    { db := v.db, jobs := [enqueuePostDraft v.now postId]
      next := .stop (.returned .enqueuedDraft) }

/-- One step of the `normalize` job for `postId`. -/
def normalizeStep : NormalizePc → Reply → Option (Effect NormalizePc)
  | .load, r => r.await v.raise (normalizeLoad v postId)
  | .context post, r => r.await v.raise (normalizeContext env v post)
  | .transform post ctx, r => normalizeTransformed v post ctx r
  | .commit post ctx ai, r => r.await v.raise (normalizeCommit env v postId post ctx ai)
  | .enqueue _ route, r => r.await v.raise (normalizeEnqueue v postId route)

end Steps

end TelegramCms
