import TelegramCms.Model.BackOffice
import TelegramCms.Model.Bodies

/-!
# `PATCH /source-channels/{channel_id}`

`handleUpdateChannel` of `apigo/handlers_channels.go` and `update_channel` of
`api/routers/source_channels.py`. Either service reads off the body which columns to
assign; the `UPDATE` and the rows of the join table that mirror `default_tag_ids` are one
transaction, rolled back on any error.
-/

namespace TelegramCms

/-! ## Columns

What Postgres stores for a value bound to a column; `none` if it raises an error. -/

/-- `Text`: no NUL character. -/
def textCol (s : Text) : Option Text := if Char.ofNat 0 ∈ s then none else some s

/-- `String(n)`: what is too long fits only if just blanks are cut off. -/
def varcharCol (n : Nat) (s : Text) : Option Text :=
  (textCol s).bind fun s =>
    if s.length ≤ n then some s
    else if (s.drop n).all (· = ' ') then some (s.take n)
    else none

/-- `BigInteger` -/
def bigintCol (n : Int) : Option Int := if inInt64 n then some n else none

/-- `ForeignKey(...)` on the primary key of a table. -/
def foreignKey {ρ : Type} {key : ρ → Nat} (t : Table Nat ρ key) (n : Int) : Option Nat :=
  (bigintCol n).bind fun n =>
    if 0 ≤ n ∧ (t.get n.toNat).isSome then some n.toNat else none

/-- `Enum(Policy)` -/
def Policy.value : Policy → Text
  | .auto => "auto".toList
  | .queue => "queue".toList

def policyCol (s : Text) : Option Policy :=
  [Policy.auto, .queue].find? (fun p => p.value = s)

def aiModeCol (s : Text) : Option AIMode :=
  [AIMode.off, .translate, .summarize, .retone, .custom].find? (fun m => m.value = s)

/-- `nullable=False` -/
def required {α β : Type} (col : β → Option α) (v : Option β) : Option α := v.bind col

/-- `nullable=True` -/
def nullable {α β : Type} (col : β → Option α) : Option β → Option (Option α)
  | none => some none
  | some v => (col v).map some

/-- A column after an `UPDATE`: as it was, if the statement does not assign it. -/
def assign {α β : Type} (col : β → Option α) (cur : α) : Option β → Option α
  | none => some cur
  | some v => col v

/-! ## What a body assigns -/

/-- The columns to assign, each with the value to bind. -/
structure ChannelPatch where
  title : Option (Option Text) := none
  username : Option (Option Text) := none
  ingestionEnabled : Option (Option Bool) := none
  policy : Option (Option Text) := none
  defaultTagIds : Option (Option (List Int)) := none
  normalizationTemplateId : Option (Option Int) := none
  maxMediaSizeBytes : Option (Option Int) := none
  sourceLabel : Option (Option Text) := none
  aiEnabled : Option (Option Bool) := none
  aiMode : Option (Option Text) := none
  aiTargetLanguage : Option (Option Text) := none
  aiTonePrompt : Option (Option Text) := none
  aiCustomSystemPrompt : Option (Option Text) := none
  watermarkEnabled : Option (Option Bool) := none
  watermarkText : Option (Option Text) := none
  stripSourceTags : Option (Option Bool) := none
deriving DecidableEq

/-- The columns `handleUpdateChannel` adds to its `UPDATE`; those of `default_tag_ids` that
it can read, `null` being the empty list. -/
def Fields.channelSets (body : Fields) : ChannelPatch where
  title := body.add Go.str "title"
  username := body.add Go.str "username"
  ingestionEnabled := body.add Go.bool "ingestion_enabled"
  policy := body.add Go.str "policy"
  normalizationTemplateId := body.add Go.int "normalization_template_id"
  maxMediaSizeBytes := body.add Go.int "max_media_size_bytes"
  sourceLabel := body.add Go.str "source_label"
  aiEnabled := body.add Go.bool "ai_enabled"
  aiMode := body.add Go.str "ai_mode"
  aiTargetLanguage := body.add Go.str "ai_target_language"
  aiTonePrompt := body.add Go.str "ai_tone_prompt"
  aiCustomSystemPrompt := body.add Go.str "ai_custom_system_prompt"
  watermarkEnabled := body.add Go.bool "watermark_enabled"
  watermarkText := body.add Go.str "watermark_text"
  stripSourceTags := body.add Go.bool "strip_source_tags"
  defaultTagIds := (body.add Go.ints "default_tag_ids").map (fun ids => some (ids.getD []))

/-- `default_tag_ids` was sent, as something `json.Unmarshal` cannot make a `[]int64` of. -/
def Fields.badTagIds (body : Fields) : Bool :=
  match body.sent "default_tag_ids" with
  | none => false
  | some j => (Go.ints j).isNone

/-- `Policy` -/
def policyValues : List Text := [Policy.auto, .queue].map Policy.value

/-- `AIMode` -/
def aiModeValues : List Text :=
  [AIMode.off, .translate, .summarize, .retone, .custom].map AIMode.value

/-- `SourceChannelUpdate`, validated and dumped with `exclude_unset=True`. -/
def Fields.channelUpdate (P : Pydantic) (body : Fields) : Option ChannelPatch := do
  let title ← body.validate Pydantic.str "title"
  let username ← body.validate Pydantic.str "username"
  let ingestionEnabled ← body.validate P.bool "ingestion_enabled"
  let policy ← body.validate (Pydantic.enum policyValues) "policy"
  let defaultTagIds ← body.validate P.ints "default_tag_ids"
  let normalizationTemplateId ← body.validate P.int "normalization_template_id"
  let maxMediaSizeBytes ← body.validate P.int "max_media_size_bytes"
  let sourceLabel ← body.validate Pydantic.str "source_label"
  let aiEnabled ← body.validate P.bool "ai_enabled"
  let aiMode ← body.validate (Pydantic.enum aiModeValues) "ai_mode"
  let aiTargetLanguage ← body.validate Pydantic.str "ai_target_language"
  let aiTonePrompt ← body.validate Pydantic.str "ai_tone_prompt"
  let aiCustomSystemPrompt ← body.validate Pydantic.str "ai_custom_system_prompt"
  let watermarkEnabled ← body.validate P.bool "watermark_enabled"
  let watermarkText ← body.validate Pydantic.str "watermark_text"
  let stripSourceTags ← body.validate P.bool "strip_source_tags"
  return {
    title, username, ingestionEnabled, policy, defaultTagIds, normalizationTemplateId
    maxMediaSizeBytes, sourceLabel, aiEnabled, aiMode, aiTargetLanguage, aiTonePrompt
    aiCustomSystemPrompt, watermarkEnabled, watermarkText, stripSourceTags }

/-- Only an object is a `SourceChannelUpdate`. -/
def Pydantic.sourceChannelUpdate (P : Pydantic) : Json → Option ChannelPatch
  | .obj members => Fields.channelUpdate P members
  | _ => none

/-! ## The transaction -/

/-- `ARRAY(BigInteger)`. A negative id is no tag's: the transaction fails when the links
are set, and no row with it is ever stored. -/
def tagIdsCol (ids : List Int) : Option (List Nat) :=
  (ids.mapM bigintCol).map (List.map Int.toNat)

/-- `UPDATE source_channels SET …`: the row it leaves. -/
def ChannelPatch.apply (db : Db) (p : ChannelPatch) (c : SourceChannel) :
    Option SourceChannel := do
  let title ← assign (required (varcharCol 256)) c.title p.title
  let username ← assign (nullable (varcharCol 128)) c.username p.username
  let ingestionEnabled ← assign (required some) c.ingestionEnabled p.ingestionEnabled
  let policy ← assign (required policyCol) c.policy p.policy
  let defaultTagIds ← assign tagIdsCol c.defaultTagIds p.defaultTagIds.join
  let normalizationTemplateId ←
    assign (nullable (foreignKey db.templates)) c.normalizationTemplateId p.normalizationTemplateId
  let maxMediaSizeBytes ← assign (required bigintCol) c.maxMediaSizeBytes p.maxMediaSizeBytes
  let sourceLabel ← assign (nullable (varcharCol 64)) c.sourceLabel p.sourceLabel
  let aiEnabled ← assign (required some) c.aiEnabled p.aiEnabled
  let aiMode ← assign (required aiModeCol) c.aiMode p.aiMode
  let aiTargetLanguage ← assign (nullable (varcharCol 16)) c.aiTargetLanguage p.aiTargetLanguage
  let aiTonePrompt ← assign (nullable textCol) c.aiTonePrompt p.aiTonePrompt
  let aiCustomSystemPrompt ←
    assign (nullable textCol) c.aiCustomSystemPrompt p.aiCustomSystemPrompt
  let watermarkEnabled ← assign (required some) c.watermarkEnabled p.watermarkEnabled
  let watermarkText ← assign (nullable textCol) c.watermarkText p.watermarkText
  let stripSourceTags ← assign (required some) c.stripSourceTags p.stripSourceTags
  return { c with
    title, username, ingestionEnabled, policy, defaultTagIds, normalizationTemplateId
    maxMediaSizeBytes, sourceLabel, aiEnabled, aiMode, aiTargetLanguage, aiTonePrompt
    aiCustomSystemPrompt, watermarkEnabled, watermarkText, stripSourceTags }

/-- `formatInt64List`, and what an f-string makes of a Python list. -/
def formatInt64List (ids : List Int) : Text :=
  "[".toList ++ ", ".toList.intercalate (ids.map (fun n => (toString n).toList)) ++ "]".toList

/-- A tag with this id exists. -/
def Db.hasTag (db : Db) (n : Int) : Prop := 0 ≤ n ∧ (db.tags.get n.toNat).isSome

instance (db : Db) (n : Int) : Decidable (db.hasTag n) :=
  inferInstanceAs (Decidable (0 ≤ n ∧ (db.tags.get n.toNat).isSome))

/-- `INSERT INTO source_channel_tags`, a row for each id in turn; `none` on a doubled key. -/
def insertLinks (channelId : Nat) :
    List Int → Table (Nat × Nat) SourceChannelTag SourceChannelTag.key →
      Option (Table (Nat × Nat) SourceChannelTag SourceChannelTag.key)
  | [], t => some t
  | n :: ns, t =>
    if (t.get (channelId, n.toNat)).isSome then none
    else insertLinks channelId ns (t.insert ⟨channelId, n.toNat⟩)

/-- `setDefaultTagLinks`, `_set_default_tag_links` -/
def Db.setDefaultTagLinks (db : Db) (channelId : Nat) (tagIds : List Int) : Except HttpAnswer Db :=
  let links := db.sourceChannelTags.filter (fun r => decide (r.sourceChannelId ≠ channelId))
  let missing := tagIds.filter (fun n => decide (¬ db.hasTag n))
  if missing ≠ [] then
    .error ⟨400, some ("unknown tag ids: ".toList
      ++ formatInt64List (missing.dedup.mergeSort (fun a b => decide (a ≤ b))))⟩
  else
    match insertLinks channelId tagIds links with
    | none => .error dbError
    | some links => .ok { db with sourceChannelTags := links }

/-- The row of channel `c.id` replaced. -/
def Db.setChannel (db : Db) (c : SourceChannel) : Db :=
  { db with channels := db.channels.update c.id (fun r => { c with id := r.id }) (fun _ => rfl) }

/-- The transaction: the `UPDATE`, then the links if `default_tag_ids` is assigned. -/
def Db.patchChannel (db : Db) (c : SourceChannel) (p : ChannelPatch) : Except HttpAnswer Db :=
  match p.apply db c with
  | none => .error dbError
  | some c' =>
    match p.defaultTagIds.join with
    | none => .ok (db.setChannel c')
    | some ids => (db.setChannel c').setDefaultTagLinks c.id ids

/-- An error rolls the transaction back. -/
def settle (db : Db) : Except HttpAnswer Db → Db × HttpAnswer
  | .ok db' => (db', ⟨200, none⟩)
  | .error a => (db, a)

/-! ## The handlers -/

/-- `handleUpdateChannel`. The body is what the decoder reads; `none` if it is malformed. -/
def handleUpdateChannel (db : Db) (id : Nat) (body : Option Json) : Db × HttpAnswer :=
  match db.channels.get id with
  | none => (db, .error 404 "source channel not found")
  | some c =>
    match decodePatchBody body with
    | none => (db, .error 422 "invalid body")
    | some body =>
      if body.badTagIds then (db, .error 422 "invalid default_tag_ids")
      else if body.channelSets = {} then (db, ⟨200, none⟩)
      else settle db (db.patchChannel c body.channelSets)

/-- The new value of an assigned column, if the session finds it changed. -/
def changedCol {β : Type} [DecidableEq β] (cur : β) (v : Option β) : Option β :=
  v.bind (changed cur)

/-- The columns that the session of `update_channel` writes at its flush. -/
def ChannelPatch.changed (c : SourceChannel) (p : ChannelPatch) : ChannelPatch where
  title := changedCol (some c.title) p.title
  username := changedCol c.username p.username
  ingestionEnabled := changedCol (some c.ingestionEnabled) p.ingestionEnabled
  policy := changedCol (some c.policy.value) p.policy
  -- the links are set anew, be the list another one or not
  defaultTagIds := p.defaultTagIds
  normalizationTemplateId :=
    changedCol (c.normalizationTemplateId.map Int.ofNat) p.normalizationTemplateId
  maxMediaSizeBytes := changedCol (some c.maxMediaSizeBytes) p.maxMediaSizeBytes
  sourceLabel := changedCol c.sourceLabel p.sourceLabel
  aiEnabled := changedCol (some c.aiEnabled) p.aiEnabled
  aiMode := changedCol (some c.aiMode.value) p.aiMode
  aiTargetLanguage := changedCol c.aiTargetLanguage p.aiTargetLanguage
  aiTonePrompt := changedCol c.aiTonePrompt p.aiTonePrompt
  aiCustomSystemPrompt := changedCol c.aiCustomSystemPrompt p.aiCustomSystemPrompt
  watermarkEnabled := changedCol (some c.watermarkEnabled) p.watermarkEnabled
  watermarkText := changedCol c.watermarkText p.watermarkText
  stripSourceTags := changedCol (some c.stripSourceTags) p.stripSourceTags

/-- `update_channel`. FastAPI validates the body before the handler runs. -/
def updateChannel (P : Pydantic) (db : Db) (id : Nat) (body : Json) : Db × HttpAnswer :=
  match P.sourceChannelUpdate body with
  | none => (db, ⟨422, none⟩)
  | some data =>
    match db.channels.get id with
    | none => (db, .error 404 "source channel not found")
    | some channel => settle db (db.patchChannel channel (data.changed channel))

end TelegramCms
