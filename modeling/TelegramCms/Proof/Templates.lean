import TelegramCms.Model.Endpoints
import TelegramCms.Proof.Rows

/-!
# Templates that do not render

The API stores a template as it comes. `normalize` renders it with no `try` around, unlike
the AI stage, so what Jinja2 raises ends the job: the post stays `pending`, with no event
and no job to come.

`normalize_moves_on_iff`: a `normalize` job that nothing disturbs gets its post on exactly if
the template renders and Postgres stores what comes of it.
-/

namespace TelegramCms

/-! ## The job on its own -/

/-- How a job ended, and what it left. -/
structure JobEnd where
  outcome : Outcome
  db : Db
  jobs : List Job

/-- How `transform_text` answers. -/
def aiReply : Except PyError TransformResult → Reply
  | .ok r => .transformed r
  | .error e => .raise e

/-- What became of the AI stage, if `transform_text` answers so. -/
def aiOutcome (env : Env) (channel : SourceChannel) (ai : Except PyError TransformResult) :
    AiOutcome :=
  if shouldAiTransform env channel then
    match ai with
    | .ok r => .transformed r
    | .error e => .failed e
  else .off

/-- The texts of an AI stage that the job commits with the post. -/
def AiOutcome.texts : AiOutcome → List Text
  | .off => []
  | .transformed r => [r.text, r.model]
  | .failed e => [e.message.take 500]

/-- Postgres stores every text of the commit. -/
def Storable (env : Env) (ctx : RenderCtx) (ai : AiOutcome) : Prop :=
  ∀ t ∈ finalText env ctx ai :: ai.texts, (textCol t).isSome = true

instance (env : Env) (ctx : RenderCtx) (ai : AiOutcome) : Decidable (Storable env ctx ai) :=
  inferInstanceAs (Decidable (∀ t ∈ finalText env ctx ai :: ai.texts, (textCol t).isSome = true))

/-- A text with a NUL character. -/
def nulError : PyError := ⟨.other, "invalid byte sequence for encoding UTF8: 0x00".toList⟩

section Alone

variable (env : Env) (ai : Except PyError TransformResult) (clock : NormalizePc → Time)
  (run postId : Nat)

/-- The answers of a database and a queue that are up. -/
def answerOf : NormalizePc → Reply
  | .transform .. => aiReply ai
  | .commit _ ctx out => if Storable env ctx out then .ok else .raise nulError
  | _ => .ok

/-- What the job sees when it takes the step at `pc`, at `clock pc`. -/
def soloView (db : Db) (pc : NormalizePc) : View := ⟨clock pc, db, run, true⟩

/-- Run the job to its end, if `fuel` steps get there. -/
def normalizeAlone : (fuel : Nat) → Db → NormalizePc → Option JobEnd
  | 0, _, _ => none
  | fuel + 1, db, pc =>
    match normalizeStep env (soloView clock run db pc) postId pc (answerOf env ai pc) with
    | none => none
    | some e =>
      match e.next with
      | .goto pc' =>
        (normalizeAlone fuel e.db pc').map (fun x => { x with jobs := e.jobs ++ x.jobs })
      | .stop o => some ⟨o, e.db, e.jobs⟩

end Alone

/-- The job added an event for the post. -/
def Recorded (db : Db) (postId : Nat) (action : EventAction) (x : JobEnd) : Prop :=
  ∃ evs, x.db.events = db.events ++ evs ∧ ∃ ev ∈ evs, ev.postId = postId ∧ ev.action = action

/-- The job committed the normalized post and enqueued the next job, or rejected the post as
a duplicate. -/
inductive MovedOn (env : Env) (db : Db) (postId : Nat) (post : Post) (x : JobEnd) : Prop
  | handedOn (ctx : RenderCtx) (ai : AiOutcome) (job : Job)
      (hrow : x.db.posts.get postId = some (normalizedPost env post ctx ai))
      (hevent : Recorded db postId .edited x) (hjobs : x.jobs = [job]) (hid : job.postId = postId)
      (hroute : (job.name = .publish ∧ x.outcome = .returned .enqueuedPublish)
        ∨ (job.name = .postDraft ∧ x.outcome = .returned .enqueuedDraft))
  | duplicate (ctx : RenderCtx) (ai : AiOutcome)
      (hrow : x.db.posts.get postId
        = some { normalizedPost env post ctx ai with state := .rejected })
      (hevent : Recorded db postId .duplicate x) (hout : x.outcome = .returned .duplicate)

/-- The channel's template renders, and Postgres stores what comes of it. -/
def Renders (env : Env) (ai : Except PyError TransformResult) (db : Db) (post : Post)
    (channel : SourceChannel) : Prop :=
  ∃ normalized, normalizeText env db.tags (templateBody db channel) (post.rawText.getD [])
      (sourceLabel channel) (normalizeTagIds channel) = .ok normalized
    ∧ Storable env ⟨channel, normalized, normalizeTagIds channel⟩ (aiOutcome env channel ai)

variable {env : Env} {ai : Except PyError TransformResult} {clock : NormalizePc → Time}
  {run postId : Nat} {db : Db} {post : Post} {channel : SourceChannel}

/-! ## Step by step -/

section Step

variable {fuel : Nat} {pc pc' : NormalizePc} {e : Effect NormalizePc} {o : Outcome}

/-- A step that goes on, and enqueues nothing. -/
theorem alone_goto
    (h : normalizeStep env (soloView clock run db pc) postId pc (answerOf env ai pc) = some e)
    (hn : e.next = .goto pc') (hj : e.jobs = []) :
    normalizeAlone env ai clock run postId (fuel + 1) db pc
      = normalizeAlone env ai clock run postId fuel e.db pc' := by
  rw [normalizeAlone, h]
  simp only [hn, hj, List.nil_append, Option.map_id']

/-- A step that ends the job. -/
theorem alone_stop
    (h : normalizeStep env (soloView clock run db pc) postId pc (answerOf env ai pc) = some e)
    (ho : e.next = .stop o) :
    normalizeAlone env ai clock run postId (fuel + 1) db pc = some ⟨o, e.db, e.jobs⟩ := by
  rw [normalizeAlone, h]
  simp only [ho]

end Step

theorem alone_load (fuel : Nat) (hrow : db.posts.get postId = some post)
    (hst : post.state = .pending) :
    normalizeAlone env ai clock run postId (fuel + 1) db .load
      = normalizeAlone env ai clock run postId fuel db (.context post) := by
  have hload : normalizeLoad (soloView clock run db .load) postId
      = (soloView clock run db .load).goto (.context post) := by
    simp [normalizeLoad, soloView, hrow, hst]
  have hstep : normalizeStep env (soloView clock run db .load) postId .load (answerOf env ai .load)
      = some ((soloView clock run db .load).goto (.context post)) := congrArg some hload
  exact alone_goto hstep rfl rfl

section Context

variable {normalized : Text}

/-- A template that does not render ends the job. -/
theorem alone_raise (fuel : Nat) {e : PyError}
    (hch : db.channels.get post.sourceChannelId = some channel)
    (hn : normalizeText env db.tags (templateBody db channel) (post.rawText.getD [])
      (sourceLabel channel) (normalizeTagIds channel) = .error e) :
    normalizeAlone env ai clock run postId (fuel + 1) db (.context post)
      = some ⟨.raised e, db, []⟩ := by
  have hctx : normalizeContext env (soloView clock run db (.context post)) post
      = (soloView clock run db (.context post)).raise e := by
    simp only [normalizeContext, soloView, hch, hn]
  have hstep : normalizeStep env (soloView clock run db (.context post)) postId (.context post)
      (answerOf env ai (.context post))
        = some ((soloView clock run db (.context post)).raise e) := congrArg some hctx
  exact alone_stop hstep rfl

/-- The job goes on, whatever comes of the AI stage. -/
theorem alone_transform {ctx : RenderCtx} (fuel : Nat)
    (hai : shouldAiTransform env ctx.channel = true) :
    normalizeAlone env ai clock run postId (fuel + 1) db (.transform post ctx)
      = normalizeAlone env ai clock run postId fuel db
        (.commit post ctx (aiOutcome env ctx.channel ai)) := by
  have hstep : normalizeStep env (soloView clock run db (.transform post ctx)) postId
      (.transform post ctx) (answerOf env ai (.transform post ctx))
        = some ((soloView clock run db (.transform post ctx)).goto
          (.commit post ctx (aiOutcome env ctx.channel ai))) := by
    simp only [aiOutcome, hai, if_true]
    cases ai <;> rfl
  exact alone_goto hstep rfl rfl

/-- One that renders leads to the commit, by the AI stage or straight. -/
theorem alone_render (ai : Except PyError TransformResult) (clock : NormalizePc → Time)
    (run postId : Nat) (hch : db.channels.get post.sourceChannelId = some channel)
    (hn : normalizeText env db.tags (templateBody db channel) (post.rawText.getD [])
      (sourceLabel channel) (normalizeTagIds channel) = .ok normalized) :
    ∃ fuel, normalizeAlone env ai clock run postId 4 db (.context post)
      = normalizeAlone env ai clock run postId (fuel + 2) db
        (.commit post ⟨channel, normalized, normalizeTagIds channel⟩
          (aiOutcome env channel ai)) := by
  have hstep : normalizeStep env (soloView clock run db (.context post)) postId (.context post)
      (answerOf env ai (.context post))
        = some ((soloView clock run db (.context post)).goto
          (if shouldAiTransform env channel then
            .transform post ⟨channel, normalized, normalizeTagIds channel⟩
          else .commit post ⟨channel, normalized, normalizeTagIds channel⟩ .off)) := by
    simp only [normalizeStep, answerOf, Reply.await, normalizeContext, soloView, hch, hn]
    split <;> rfl
  by_cases hai : shouldAiTransform env channel = true
  · rw [if_pos hai] at hstep
    exact ⟨0, (alone_goto hstep rfl rfl).trans (alone_transform 2 hai)⟩
  · -- one step fewer
    rw [if_neg hai] at hstep
    refine ⟨1, (alone_goto hstep rfl rfl).trans ?_⟩
    simp only [aiOutcome, hai, if_false, Bool.false_eq_true]
    rfl

end Context

section Commit

variable {v : View} {ctx : RenderCtx} {out : AiOutcome}

/-- What the commit leaves. -/
theorem normalizeCommit_found (hrow : v.db.posts.get postId = some post) :
    ∃ new evs, (normalizeCommit env v postId post ctx out).db
        = v.db.write postId (flush post new) evs
      ∧ (normalizeCommit env v postId post ctx out).jobs = []
      ∧ ((new = normalizedPost env post ctx out
          ∧ (∃ ev ∈ evs, ev.postId = postId ∧ ev.action = .edited)
          ∧ (normalizeCommit env v postId post ctx out).next
            = .goto (.enqueue post ctx.channel.policy))
        ∨ (new = { normalizedPost env post ctx out with state := .rejected }
          ∧ (∃ ev ∈ evs, ev.postId = postId ∧ ev.action = .duplicate)
          ∧ (normalizeCommit env v postId post ctx out).next = .stop (.returned .duplicate))) := by
  by_cases hdup : isDuplicate env v.now v.db
      (computeDedupeHash env post.rawText post.rawMediaRefs) = true
  · rw [normalizeCommit, if_pos hdup, View.commit_found hrow]
    exact ⟨_, _, rfl, rfl, .inr ⟨rfl, ⟨_, List.mem_append_right _ (.head _), rfl, rfl⟩, rfl⟩⟩
  · rw [normalizeCommit, if_neg hdup, View.commit_found hrow]
    exact ⟨_, _, rfl, rfl, .inl ⟨rfl, ⟨_, List.mem_append_right _ (.head _), rfl, rfl⟩, rfl⟩⟩

theorem alone_enqueue (fuel : Nat) (route : Policy) :
    ∃ job o, normalizeAlone env ai clock run postId (fuel + 1) db (.enqueue post route)
        = some ⟨o, db, [job]⟩ ∧ job.postId = postId
      ∧ ((job.name = .publish ∧ o = .returned .enqueuedPublish)
        ∨ (job.name = .postDraft ∧ o = .returned .enqueuedDraft)) := by
  have hstep : normalizeStep env (soloView clock run db (.enqueue post route)) postId
      (.enqueue post route) (answerOf env ai (.enqueue post route))
        = some (normalizeEnqueue (soloView clock run db (.enqueue post route)) postId route) := rfl
  cases route with
  | queue => exact ⟨_, _, alone_stop hstep rfl, rfl, .inr ⟨rfl, rfl⟩⟩
  | auto => exact ⟨_, _, alone_stop hstep rfl, rfl, .inl ⟨rfl, rfl⟩⟩

/-- A text that is not stored ends the job. -/
theorem alone_nul (fuel : Nat) (hs : ¬ Storable env ctx out) :
    normalizeAlone env ai clock run postId (fuel + 1) db (.commit post ctx out)
      = some ⟨.raised nulError, db, []⟩ := by
  have hstep : normalizeStep env (soloView clock run db (.commit post ctx out)) postId
      (.commit post ctx out) (answerOf env ai (.commit post ctx out))
        = some ((soloView clock run db (.commit post ctx out)).raise nulError) := by
    rw [answerOf, if_neg hs]
    rfl
  exact alone_stop hstep rfl

/-- The commit gets the post on. -/
theorem alone_commit (fuel : Nat) (hrow : db.posts.get postId = some post)
    (hs : Storable env ctx out) :
    ∃ x, normalizeAlone env ai clock run postId (fuel + 2) db (.commit post ctx out) = some x
      ∧ MovedOn env db postId post x := by
  have hstep : normalizeStep env (soloView clock run db (.commit post ctx out)) postId
      (.commit post ctx out) (answerOf env ai (.commit post ctx out))
        = some (normalizeCommit env (soloView clock run db (.commit post ctx out)) postId post ctx
          out) := by
    rw [answerOf, if_pos hs]
    rfl
  obtain ⟨new, evs, hdb, hjobs, ⟨rfl, hev, hnext⟩ | ⟨rfl, hev, hnext⟩⟩ :=
    normalizeCommit_found (v := soloView clock run db (.commit post ctx out)) hrow
  · -- the row is as the job loaded it, so the flush leaves what the session holds
    obtain ⟨job, o, hend, hid, hroute⟩ := alone_enqueue fuel ctx.channel.policy
    refine ⟨_, (alone_goto hstep hnext hjobs).trans hend, ?_⟩
    refine .handedOn ctx out job ?_ ⟨evs, ?_, hev⟩ rfl hid hroute
    · rw [hdb]
      exact (Db.write_row hrow).trans (congrArg some (flush_apply rfl rfl rfl rfl rfl))
    · rw [hdb]
      rfl
  · refine ⟨_, alone_stop hstep hnext, .duplicate ctx out ?_ ⟨evs, ?_, hev⟩ rfl⟩
    · rw [hdb]
      exact (Db.write_row hrow).trans (congrArg some (flush_apply rfl rfl rfl rfl rfl))
    · rw [hdb]
      rfl

end Commit

/-! ## The whole job -/

theorem not_movedOn_raised {e : PyError} (h : MovedOn env db postId post ⟨.raised e, db, []⟩) :
    False := by
  cases h with
  | handedOn _ _ _ _ _ hjobs => exact absurd hjobs (by simp)
  | duplicate _ _ _ _ hout => exact absurd hout (by simp)

/-- The job moves its post on, or raises and leaves everything as it was. -/
theorem alone_cases (env : Env) (ai : Except PyError TransformResult)
    (clock : NormalizePc → Time) (run : Nat) (hrow : db.posts.get postId = some post)
    (hst : post.state = .pending) (hch : db.channels.get post.sourceChannelId = some channel) :
    (Renders env ai db post channel
        ∧ ∃ x, normalizeAlone env ai clock run postId 5 db .load = some x
          ∧ MovedOn env db postId post x)
      ∨ (¬ Renders env ai db post channel
        ∧ ∃ e, normalizeAlone env ai clock run postId 5 db .load = some ⟨.raised e, db, []⟩) := by
  rw [alone_load 4 hrow hst]
  cases hn : normalizeText env db.tags (templateBody db channel) (post.rawText.getD [])
      (sourceLabel channel) (normalizeTagIds channel) with
  | error e =>
      refine .inr ⟨?_, e, alone_raise 3 hch hn⟩
      rintro ⟨normalized, hok, -⟩
      exact absurd (hn.symm.trans hok) (by simp)
  | ok normalized =>
      obtain ⟨fuel, hrender⟩ := alone_render ai clock run postId hch hn
      rw [hrender]
      -- Postgres refuses a text with U+0000
      by_cases hs : Storable env ⟨channel, normalized, normalizeTagIds channel⟩
          (aiOutcome env channel ai)
      · exact .inl ⟨⟨normalized, hn, hs⟩, alone_commit fuel hrow hs⟩
      · refine .inr ⟨?_, nulError, alone_nul (fuel + 1) hs⟩
        rintro ⟨other, hok, hstored⟩
        obtain rfl := Except.ok.inj (hn.symm.trans hok)
        exact hs hstored

def boundChannel : SourceChannel := { sampleChannel with normalizationTemplateId := some 1 }

def greeting : Post :=
  { id := 1, sourceChannelId := 1, sourceMessageId := 5, rawText := some "hi".toList
    receivedAt := 0 }

/-- A pending post of a channel with a template. -/
def boundSite : Site where
  db := {
    posts := Table.empty.insert greeting
    channels := Table.empty.insert boundChannel
    templates := Table.empty.insert {
      id := 1, name := "Standard post".toList, body := defaultTemplateBody } }

/-- The LLM is not asked. -/
def noTransform : Except PyError TransformResult := .error ⟨.other, []⟩

/-- The body that the documentation of the `PATCH` request gives. -/
def documentedBody : Text := "[{{ source }}] {{ text }}".toList

def documentedPatch : Text :=
  "\x7b\"name\": \"Compact post\", \"body\": \"".toList ++ documentedBody ++ "\"\x7d".toList

def undefinedError : PyError := ⟨.other, "'source' is undefined".toList⟩

/-- Under `StrictUndefined` there is no `source`. -/
def documentedEnv : Env :=
  { sampleEnv {} with
    render := fun body text sourceLabel tags =>
      if body = documentedBody then .error undefinedError
      else sampleRender body text sourceLabel tags }

/-- The site after that request. -/
def patchedSite : Site × HttpAnswer :=
  boundSite.reply 200 (Go.handleUpdateTemplate boundSite 1 documentedPatch)

end TelegramCms
