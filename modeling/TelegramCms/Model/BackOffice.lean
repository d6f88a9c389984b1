import TelegramCms.Lib.Pool
import TelegramCms.Model.World

/-!
# Deletions at work beside editors

`DELETE /tags/{tag_id}` and `DELETE /source-channels/{channel_id}` take rows away that
editors and the userbot are working on: the first strips the tag from every post, the
second takes the posts of the channel with it (`ON DELETE CASCADE`). Both APIs run the
same statements, each on its own, the deletion last.

The office is the database with the requests and button presses at work on it, and the
first commit of `ingest_message` as it is meant to leave the row.
-/

namespace TelegramCms

/-! ## Statements -/

/-- `array_remove(tag_ids, id)` -/
def Post.removeTag (id : Nat) (p : Post) : Post :=
  { p with tagIds := p.tagIds.filter (fun t => decide (t ≠ id)) }

@[simp] theorem Post.removeTag_id (id : Nat) (p : Post) : (p.removeTag id).id = p.id := rfl
@[simp] theorem Post.removeTag_tagIds (id : Nat) (p : Post) :
    (p.removeTag id).tagIds = p.tagIds.filter (fun t => decide (t ≠ id)) := rfl

/-- The transaction of `handleDeleteTag` and `delete_tag`: strip the id from the posts,
then delete the row, and with it its rows of the join table. -/
def Db.deleteTag (db : Db) (id : Nat) : Db :=
  { db with
    posts := db.posts.mapRows (Post.removeTag id) (Post.removeTag_id id)
    tags := db.tags.delete id
    sourceChannelTags := db.sourceChannelTags.filter (fun r => decide (r.tagId ≠ id)) }

/-- A state that is safe to delete: the content is final. -/
def PostState.isTerminal : PostState → Bool
  | .published | .rejected => true
  | _ => false

def Db.postsOf (db : Db) (channelId : Nat) : List Post :=
  db.posts.rows.filter (fun p => decide (p.sourceChannelId = channelId))

/-- `SELECT count(id) FROM posts WHERE source_channel_id=… AND state NOT IN (…)` -/
def Db.activePosts (db : Db) (channelId : Nat) : Nat :=
  (db.postsOf channelId).countP (fun p => !p.state.isTerminal)

/-- `DELETE FROM source_channels WHERE id=…`, which takes the posts of the channel along,
their events, and its rows of the join table. -/
def Db.deleteChannel (db : Db) (id : Nat) : Db :=
  { db with
    channels := db.channels.delete id
    posts := db.posts.filter (fun p => decide (p.sourceChannelId ≠ id))
    events := db.events.filter (fun e => (db.posts.get e.postId).all (·.sourceChannelId ≠ id))
    sourceChannelTags := db.sourceChannelTags.filter (fun r => decide (r.sourceChannelId ≠ id)) }

/-! ## The office -/

structure Office where
  db : Db
  queue : List Job := []
  /-- History variable: the posts that went with their channel, as they were then. -/
  removed : List Post := []
  /-- History variable: the `tag_ids` of each post as the requests that set tags left them. -/
  tagsOnRecord : Nat → List Nat

/-- An office that nobody has worked in yet. -/
def Office.of (db : Db) : Office where
  db := db
  tagsOnRecord := fun p => ((db.posts.get p).map Post.tagIds).getD []

inductive DeletePc where
  | load
  /-- The count of active posts; a tag is deleted without one. -/
  | count
  | delete
deriving DecidableEq

/-- A request or a press, and where its handler stands. -/
inductive Clerk where
  | decide (req : DecisionRequest) (pc : DecidePc)
  | press (button : Button) (tgUserId : Int) (postId : Nat) (pc : CallbackPc)
  | editTags (req : TagsRequest) (pc : TagsPc)
  | deleteTag (id : Nat) (pc : DeletePc)
  | deleteChannel (id : Nat) (pc : DeletePc)
  /-- The insert of `ingest_message`, with the primary key the sequence gave it. -/
  | arrive (id channelId messageId : Nat) (text : Option Text)
deriving DecidableEq

inductive OfficeRequest where
  | decide (req : DecisionRequest)
  | press (button : Button) (tgUserId : Int) (postId : Nat)
  | editTags (req : TagsRequest)
  | deleteTag (id : Nat)
  | deleteChannel (id : Nat)
  | arrive (id channelId messageId : Nat) (text : Option Text)
deriving DecidableEq

def OfficeRequest.enter : OfficeRequest → Clerk
  | .decide req => .decide req .load
  | .press b u p => .press b u p .load
  | .editTags req => .editTags req .load
  | .deleteTag id => .deleteTag id .load
  | .deleteChannel id => .deleteChannel id .load
  | .arrive id c m text => .arrive id c m text

/-- The answer to the call a handler waits for, and when it comes. -/
structure Answered where
  reply : Reply
  at_ : Time
deriving DecidableEq

namespace Office

variable (o : Office)

/-- The office after a step of a handler that works on one post. -/
def take {Pc : Type} (f : Pc → Clerk) (record : Nat → List Nat) (e : Effect Pc) :
    Office × Option Clerk :=
  ({ o with db := e.db, queue := o.queue ++ e.jobs, tagsOnRecord := record },
    match e.next with
    | .goto pc => some (f pc)
    | .stop _ => none)

@[simp] theorem take_db {Pc : Type} (f : Pc → Clerk) (record : Nat → List Nat) (e : Effect Pc) :
    (o.take f record e).1.db = e.db := rfl
@[simp] theorem take_removed {Pc : Type} (f : Pc → Clerk) (record : Nat → List Nat)
    (e : Effect Pc) : (o.take f record e).1.removed = o.removed := rfl
@[simp] theorem take_tagsOnRecord {Pc : Type} (f : Pc → Clerk) (record : Nat → List Nat)
    (e : Effect Pc) : (o.take f record e).1.tagsOnRecord = record := rfl

/-- What a decision is on record to have set, if its `UPDATE` names `tag_ids` because the
request did. -/
def afterDecide (req : DecisionRequest) : DecidePc → Reply → Nat → List Nat
  | .commit post _, .ok => fun p =>
    match req.tagIds with
    | none => o.tagsOnRecord p
    | some _ => if p = req.postId then (decideSet req post).tagIds.getD (o.tagsOnRecord p) else o.tagsOnRecord p
  | _, _ => o.tagsOnRecord

def afterEdit (req : TagsRequest) : TagsPc → Reply → Nat → List Nat
  | .commit post, .ok => fun p =>
    if p = req.postId then (tagsSet req post).tagIds.getD (o.tagsOnRecord p) else o.tagsOnRecord p
  | _, _ => o.tagsOnRecord

/-- `handleDeleteTag`, `delete_tag` -/
def stepDeleteTag (id : Nat) : DeletePc → Reply → Option (Office × Option Clerk)
  | .load, .ok =>
    match o.db.tags.get id with
    | none => some (o, none)
    | some _ => some (o, some (.deleteTag id .delete))
  | .delete, .ok =>
    some ({ o with
      db := o.db.deleteTag id
      tagsOnRecord := fun p => (o.tagsOnRecord p).filter (fun t => decide (t ≠ id)) }, none)
  | _, .raise _ => some (o, none)
  | _, _ => none

/-- `handleDeleteChannel`, `delete_channel` -/
def stepDeleteChannel (id : Nat) : DeletePc → Reply → Option (Office × Option Clerk)
  | .load, .ok =>
    match o.db.channels.get id with
    | none => some (o, none)
    | some _ => some (o, some (.deleteChannel id .count))
  | .count, .ok =>
    if 0 < o.db.activePosts id then some (o, none)
    else some (o, some (.deleteChannel id .delete))
  | .delete, .ok =>
    some ({ o with db := o.db.deleteChannel id, removed := o.removed ++ o.db.postsOf id }, none)
  | _, .raise _ => some (o, none)
  | _, _ => none

/-- The insert fails if the message is there already or the channel is gone. -/
def stepArrive (now : Time) (id c m : Nat) (text : Option Text) : Office × Option Clerk :=
  if o.db.posts.get id ≠ none ∨ o.db.hasMessage c m ∨ o.db.channels.get c = none then (o, none)
  else
    ({ o with
      db := { o.db with
        posts := o.db.posts.insert (ingestedPost now id c m text)
        events := o.db.events ++ [{
          postId := id
          action := .ingested
          payload := [("has_media", .bool false)]
          createdAt := now }] }
      tagsOnRecord := fun p => if p = id then [] else o.tagsOnRecord p }, none)

def next : Clerk → Answered → Option (Office × Option Clerk)
  | .decide req pc, a =>
    (decideStep ⟨a.at_, o.db, 0, true⟩ req pc a.reply).map
      (o.take (.decide req) (o.afterDecide req pc a.reply))
  | .press b u p pc, a =>
    (callbackStep ⟨a.at_, o.db, 0, true⟩ b u p pc a.reply).map (o.take (.press b u p) o.tagsOnRecord)
  | .editTags req pc, a =>
    (tagsStep ⟨a.at_, o.db, 0, true⟩ req pc a.reply).map
      (o.take (.editTags req) (o.afterEdit req pc a.reply))
  | .deleteTag id pc, a => o.stepDeleteTag id pc a.reply
  | .deleteChannel id pc, a => o.stepDeleteChannel id pc a.reply
  | .arrive id c m text, a => some (o.stepArrive a.at_ id c m text)

end Office

def officeProgram : Concurrent.Program Office Clerk OfficeRequest Answered where
  enter := OfficeRequest.enter
  next := Office.next

end TelegramCms
