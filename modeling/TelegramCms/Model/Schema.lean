import TelegramCms.Lib.PyStr
import TelegramCms.Lib.Table

/-!
# The schema

The enumerations of `shared/enums.py` and the rows of `shared/models.py`, with the
column defaults they declare, and the statements the services run on them.

Times are microseconds since the epoch, the resolution of a Python `datetime`.

A SQLAlchemy session writes, at its flush, only the columns whose value differs from
the one it loaded. So an `UPDATE` of a post is a `PostSet`, the columns it assigns, and
`flush old new` is the one a session issues that loaded `old` and holds `new`.
-/

namespace TelegramCms

abbrev Time := Int

/-- `timedelta(days=d)` -/
def days (d : Int) : Time := d * 86_400_000_000

/-- `timedelta(seconds=s)` -/
def seconds (s : Int) : Time := s * 1_000_000

inductive Policy where
  | auto | queue
deriving DecidableEq, Repr

inductive PostState where
  | pending | approved | scheduled | published | rejected | publishing | publishFailed
deriving DecidableEq, Repr

inductive AIMode where
  | off | translate | summarize | retone | custom
deriving DecidableEq, Repr

/-- `mode.value` -/
def AIMode.value : AIMode → Text
  | .off => "off".toList
  | .translate => "translate".toList
  | .summarize => "summarize".toList
  | .retone => "retone".toList
  | .custom => "custom".toList

inductive EventAction where
  | ingested | edited | approved | rejected | scheduled | published | publishFailed
  | duplicate | mediaOmitted | draftPosted | aiTransformed | aiFailed
deriving DecidableEq, Repr

inductive MediaType where
  | photo | video | document | audio | animation | voice | videoNote
deriving DecidableEq, Repr

/-- `kind.value` -/
def MediaType.value : MediaType → Text
  | .photo => "photo".toList
  | .video => "video".toList
  | .document => "document".toList
  | .audio => "audio".toList
  | .animation => "animation".toList
  | .voice => "voice".toList
  | .videoNote => "video_note".toList

/-- A SHA-256 hex digest, as `dedupe_hash` columns hold. -/
structure Digest where
  hex : Text
  /-- A digest has 64 hex digits; in particular it is never the empty string. -/
  length_eq : hex.length = 64
deriving DecidableEq

/-- One entry of `raw_media_refs`. -/
structure MediaRef where
  type : Text
  file : Option Text
  size : Option Nat := none
  mime : Option Text := none
  omitted : Bool := false
deriving DecidableEq, Repr

/-! ## Rows -/

structure Tag where
  id : Nat
  label : Text
  slug : Text := []
  color : Option Text := none
deriving DecidableEq, Repr

structure Template where
  id : Nat
  body : Text
  name : Text := []
deriving DecidableEq, Repr

structure SourceChannel where
  id : Nat
  telegramChannelId : Int
  title : Text
  username : Option Text := none
  ingestionEnabled : Bool := true
  policy : Policy := .queue
  defaultTagIds : List Nat := []
  normalizationTemplateId : Option Nat := none
  maxMediaSizeBytes : Int := 2147483648
  sourceLabel : Option Text := none
  aiEnabled : Bool := false
  aiMode : AIMode := .off
  aiTargetLanguage : Option Text := none
  aiTonePrompt : Option Text := none
  aiCustomSystemPrompt : Option Text := none
  watermarkEnabled : Bool := false
  watermarkText : Option Text := none
  stripSourceTags : Bool := false
deriving DecidableEq, Repr

/-- A row of `source_channel_tags`, the join table that mirrors `default_tag_ids`. -/
structure SourceChannelTag where
  sourceChannelId : Nat
  tagId : Nat
deriving DecidableEq, Repr

/-- The primary key. -/
def SourceChannelTag.key (r : SourceChannelTag) : Nat × Nat := (r.sourceChannelId, r.tagId)

structure Post where
  id : Nat
  sourceChannelId : Nat
  sourceMessageId : Nat
  rawText : Option Text
  rawMediaRefs : List MediaRef := []
  receivedAt : Time
  state : PostState := .pending
  normalizedText : Option Text := none
  aiTransformedText : Option Text := none
  mediaPaths : List Text := []
  tagIds : List Nat := []
  scheduledFor : Option Time := none
  publishedMessageId : Option Nat := none
  publishedAt : Option Time := none
  dedupeHash : Option Digest := none
  draftMessageId : Option Nat := none
deriving DecidableEq

/-- A value in the JSON payload of an event. -/
inductive Val where
  | null
  | bool (b : Bool)
  | int (n : Int)
  | str (s : Text)
  | ints (l : List Nat)
  | time (t : Time)
deriving DecidableEq, Repr

structure PostEvent where
  postId : Nat
  actorAdminId : Option Nat := none
  action : EventAction
  payload : List (String × Val) := []
  createdAt : Time
deriving DecidableEq, Repr

/-- A row of `published_dedupe`. -/
structure PublishedDedupe where
  dedupeHash : Digest
  publishedAt : Time
  /-- History variables: the run of the `publish` job that inserted the row, and the post
  it worked on. No code reads them. -/
  reservedBy : Nat
  reservedFor : Nat
deriving DecidableEq

/-! ## Statements on a post -/

/-- The columns an `UPDATE posts` assigns. -/
structure PostSet where
  rawMediaRefs : Option (List MediaRef) := none
  state : Option PostState := none
  normalizedText : Option (Option Text) := none
  aiTransformedText : Option (Option Text) := none
  mediaPaths : Option (List Text) := none
  tagIds : Option (List Nat) := none
  scheduledFor : Option (Option Time) := none
  publishedMessageId : Option (Option Nat) := none
  publishedAt : Option (Option Time) := none
  dedupeHash : Option (Option Digest) := none
  draftMessageId : Option (Option Nat) := none

/-- Assign the columns of the statement to a row. -/
def PostSet.apply (s : PostSet) (p : Post) : Post :=
  { p with
    rawMediaRefs := s.rawMediaRefs.getD p.rawMediaRefs
    state := s.state.getD p.state
    normalizedText := s.normalizedText.getD p.normalizedText
    aiTransformedText := s.aiTransformedText.getD p.aiTransformedText
    mediaPaths := s.mediaPaths.getD p.mediaPaths
    tagIds := s.tagIds.getD p.tagIds
    scheduledFor := s.scheduledFor.getD p.scheduledFor
    publishedMessageId := s.publishedMessageId.getD p.publishedMessageId
    publishedAt := s.publishedAt.getD p.publishedAt
    dedupeHash := s.dedupeHash.getD p.dedupeHash
    draftMessageId := s.draftMessageId.getD p.draftMessageId }

/-- The new value of a column, if it is to be written at all. -/
def changed {α : Type} [DecidableEq α] (old new : α) : Option α :=
  if new = old then none else some new

/-- The `UPDATE` a session issues that loaded `old` and now holds `new`. -/
def flush (old new : Post) : PostSet where
  rawMediaRefs := changed old.rawMediaRefs new.rawMediaRefs
  state := changed old.state new.state
  normalizedText := changed old.normalizedText new.normalizedText
  aiTransformedText := changed old.aiTransformedText new.aiTransformedText
  mediaPaths := changed old.mediaPaths new.mediaPaths
  tagIds := changed old.tagIds new.tagIds
  scheduledFor := changed old.scheduledFor new.scheduledFor
  publishedMessageId := changed old.publishedMessageId new.publishedMessageId
  publishedAt := changed old.publishedAt new.publishedAt
  dedupeHash := changed old.dedupeHash new.dedupeHash
  draftMessageId := changed old.draftMessageId new.draftMessageId

section Apply

variable (s : PostSet) (p : Post)

@[simp] theorem PostSet.apply_id : (s.apply p).id = p.id := rfl
@[simp] theorem PostSet.apply_sourceChannelId :
    (s.apply p).sourceChannelId = p.sourceChannelId := rfl
@[simp] theorem PostSet.apply_rawText : (s.apply p).rawText = p.rawText := rfl
@[simp] theorem PostSet.apply_state : (s.apply p).state = s.state.getD p.state := rfl
@[simp] theorem PostSet.apply_normalizedText :
    (s.apply p).normalizedText = s.normalizedText.getD p.normalizedText := rfl
@[simp] theorem PostSet.apply_aiTransformedText :
    (s.apply p).aiTransformedText = s.aiTransformedText.getD p.aiTransformedText := rfl
@[simp] theorem PostSet.apply_tagIds : (s.apply p).tagIds = s.tagIds.getD p.tagIds := rfl
@[simp] theorem PostSet.apply_scheduledFor :
    (s.apply p).scheduledFor = s.scheduledFor.getD p.scheduledFor := rfl
@[simp] theorem PostSet.apply_publishedMessageId :
    (s.apply p).publishedMessageId = s.publishedMessageId.getD p.publishedMessageId := rfl
@[simp] theorem PostSet.apply_dedupeHash :
    (s.apply p).dedupeHash = s.dedupeHash.getD p.dedupeHash := rfl
@[simp] theorem PostSet.apply_draftMessageId :
    (s.apply p).draftMessageId = s.draftMessageId.getD p.draftMessageId := rfl

end Apply

@[simp] theorem changed_self {α : Type} [DecidableEq α] (a : α) : changed a a = none := by
  simp [changed]

/-- A row the session still agrees with reads, after the flush, as the session's copy. -/
@[simp] theorem changed_getD {α : Type} [DecidableEq α] (old new : α) :
    (changed old new).getD old = new := by
  unfold changed
  split
  · rename_i h; simp [h]
  · rfl

theorem changed_getD_of_ne {α : Type} [DecidableEq α] {old new : α} (cur : α) (h : new ≠ old) :
    (changed old new).getD cur = new := by
  simp [changed, h]

/-- A session that is not overtaken leaves the row as it holds it. -/
theorem flush_apply {old new : Post} (hid : new.id = old.id)
    (hc : new.sourceChannelId = old.sourceChannelId)
    (hm : new.sourceMessageId = old.sourceMessageId) (ht : new.rawText = old.rawText)
    (hr : new.receivedAt = old.receivedAt) : (flush old new).apply old = new := by
  cases new
  subst hid hc hm ht hr
  simp only [PostSet.apply, flush, changed_getD]

/-! ## The database -/

structure Db where
  posts : Table Nat Post Post.id := .empty
  events : List PostEvent := []
  dedupe : Table Digest PublishedDedupe PublishedDedupe.dedupeHash := .empty
  channels : Table Nat SourceChannel SourceChannel.id := .empty
  templates : Table Nat Template Template.id := .empty
  tags : Table Nat Tag Tag.id := .empty
  sourceChannelTags : Table (Nat × Nat) SourceChannelTag SourceChannelTag.key := .empty

/-- Post `id` updated and events appended. -/
def Db.write (db : Db) (id : Nat) (s : PostSet) (events : List PostEvent) : Db :=
  { db with posts := db.posts.update id s.apply s.apply_id, events := db.events ++ events }

/-- A transaction that updates post `id` and appends events. `none` if the row is gone:
the session then raises `StaleDataError` and the transaction is rolled back. -/
def Db.commit (db : Db) (id : Nat) (s : PostSet) (events : List PostEvent) : Option Db :=
  match db.posts.get id with
  | none => none
  | some _ => some (db.write id s events)

section Write

variable {db : Db} {id : Nat} {s : PostSet} {evs : List PostEvent}

@[simp] theorem Db.write_dedupe : (db.write id s evs).dedupe = db.dedupe := rfl
@[simp] theorem Db.write_channels : (db.write id s evs).channels = db.channels := rfl
@[simp] theorem Db.write_events : (db.write id s evs).events = db.events ++ evs := rfl

theorem Db.write_row {row : Post} (h : db.posts.get id = some row) :
    (db.write id s evs).posts.get id = some (s.apply row) := by
  rw [Db.write, Table.get_update_self, h, Option.map_some]

theorem Db.write_row_ne {id' : Nat} (h : id' ≠ id) :
    (db.write id s evs).posts.get id' = db.posts.get id' := by
  rw [Db.write, Table.get_update_ne h]

theorem Db.commit_some {row : Post} (h : db.posts.get id = some row) :
    db.commit id s evs = some (db.write id s evs) := by
  rw [Db.commit, h]

end Write

/-- A fresh primary key. -/
def Db.nextPostId (db : Db) : Nat := (db.posts.rows.map Post.id).foldr max 0 + 1

theorem Db.lt_nextPostId (db : Db) {r : Post} (hr : r ∈ db.posts.rows) : r.id < db.nextPostId :=
  Table.lt_fresh hr

theorem Db.get_post {db : Db} {row : Post} (h : row ∈ db.posts.rows) :
    db.posts.get row.id = some row := Table.get_of_mem h

theorem Db.nextPostId_fresh (db : Db) : db.posts.get db.nextPostId = none := by
  rw [Table.get_eq_none]
  intro r hr
  exact Nat.ne_of_lt (db.lt_nextPostId hr)

end TelegramCms
