import TelegramCms.Model.Channels

/-!
# Tags and channels over a run

The requests that create and delete tags and channels, and runs of all requests that
touch the default tags of a channel, one after the other: each is served to its end
before the next one comes in. The `normalize` job reads the default tags back.
-/

namespace TelegramCms

/-! ## Statements -/

/-- `INSERT INTO tags`, with the primary key the sequence gave. -/
def Db.createTag (db : Db) (id : Nat) (slug label : Text) (color : Option Text) :
    Except HttpAnswer Db :=
  match varcharCol 64 slug, varcharCol 64 label, nullable (varcharCol 16) color with
  | some slug, some label, some color =>
    if db.tags.rows.any (fun t => t.slug = slug) then .error (.error 409 "slug already exists")
    else .ok { db with tags := db.tags.insert { id, slug, label, color } }
  | _, _, _ => .error dbError

/-- The transaction of `handleCreateChannel` and `create_channel`: `INSERT INTO
source_channels` with the primary key the sequence gave, then the links. `p` assigns every
column that the request does not leave to its default. The foreign key on the template is
checked at the end of the statement, after the unique index. -/
def Db.createChannel (db : Db) (id : Nat) (telegramChannelId : Int) (p : ChannelPatch) :
    Except HttpAnswer Db :=
  let base : SourceChannel := { id, telegramChannelId, title := [] }
  match bigintCol telegramChannelId, { p with normalizationTemplateId := none }.apply db base with
  | some _, some _ =>
    if db.channels.rows.any (fun c => c.telegramChannelId = telegramChannelId) then
      .error (.error 409 "channel already exists")
    else
      match p.apply db base with
      | none => .error dbError
      | some c =>
        { db with channels := db.channels.insert c }.setDefaultTagLinks id
          (p.defaultTagIds.join.getD [])
  | _, _ => .error dbError

/-- What a transaction leaves behind: nothing, if it fails. -/
def Db.settled (db : Db) (x : Except HttpAnswer Db) : Db := (settle db x).1

/-- A run that is served alone: each call it makes is answered in turn. It stands where it
is when the answers come to an end. -/
def Proc.serve (env : Env) : List Answered → Db → Proc → Db
  | [], db, _ => db
  | a :: as, db, p =>
    match p.step env ⟨a.at_, db, 0, true⟩ a.reply with
    | none => db
    | some e =>
      match e.next with
      | .goto q => Proc.serve env as e.db q
      | .stop _ => e.db

/-! ## Runs -/

structure Catalog where
  db : Db := {}
  /-- The sequences behind the primary keys of `tags` and `source_channels`. -/
  nextTag : Nat := 1
  nextChannel : Nat := 1
  /-- History variable: what `normalize` wrote to a post's `tag_ids` without there being
  such a tag. -/
  stale : List Nat := []

inductive CatalogOp where
  | createTag (slug label : Text) (color : Option Text)
  | deleteTag (id : Nat)
  | createChannel (telegramChannelId : Int) (p : ChannelPatch)
  | updateChannelGo (id : Nat) (body : Option Json)
  | updateChannelPython (id : Nat) (body : Json)
  | deleteChannel (id : Nat)
  | normalize (postId : Nat) (answers : List Answered)
  /-- Not an operation on tags, but where posts come from. -/
  | arrive (now : Time) (channelId messageId : Nat) (text : Option Text)

namespace Catalog

variable (env : Env) (P : Pydantic) (s : Catalog)

/-- `handleDeleteTag`, `delete_tag` -/
def deleteTag (id : Nat) : Db :=
  match s.db.tags.get id with
  | none => s.db
  | some _ => s.db.deleteTag id

/-- `handleDeleteChannel`, `delete_channel` -/
def deleteChannel (id : Nat) : Db :=
  match s.db.channels.get id with
  | none => s.db
  | some _ => if 0 < s.db.activePosts id then s.db else s.db.deleteChannel id

/-- The `normalize` job of a post. -/
def normalized (postId : Nat) (answers : List Answered) : Db :=
  Proc.serve env answers s.db (.normalize ⟨.normalize, postId, 0⟩ .load)

/-- The ids in the post's `tag_ids`, if they were written anew, that are no tag's. -/
def staleTags (postId : Nat) (db' : Db) : List Nat :=
  match s.db.posts.get postId, db'.posts.get postId with
  | some row, some row' =>
    if row'.tagIds = row.tagIds then []
    else row'.tagIds.filter (fun t => (s.db.tags.get t).isNone)
  | _, _ => []

def step : CatalogOp → Option Catalog
  | .createTag slug label color =>
    some { s with
      db := s.db.settled (s.db.createTag s.nextTag slug label color)
      nextTag := s.nextTag + 1 }
  | .deleteTag id => some { s with db := s.deleteTag id }
  | .createChannel tg p =>
    some { s with
      db := s.db.settled (s.db.createChannel s.nextChannel tg p)
      nextChannel := s.nextChannel + 1 }
  | .updateChannelGo id body => some { s with db := (handleUpdateChannel s.db id body).1 }
  | .updateChannelPython id body => some { s with db := (updateChannel P s.db id body).1 }
  | .deleteChannel id => some { s with db := s.deleteChannel id }
  | .normalize p answers =>
    some { s with
      db := s.normalized env p answers
      stale := s.stale ++ s.staleTags p (s.normalized env p answers) }
  | .arrive now c m text => some { s with db := (s.db.insertPost now c m text).getD s.db }

end Catalog

end TelegramCms
