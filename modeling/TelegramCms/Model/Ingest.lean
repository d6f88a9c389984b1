import TelegramCms.Model.Process

/-!
# Ingestion

`userbot/ingest.py`. `ingestMessage` is `ingest_message` as one function of its inputs:
the two transactions, the download between them and the enqueue at the end. `IngestPc`
is the part after the first commit as a run that other runs interleave with.
-/

namespace TelegramCms

/-! ## Messages and their media -/

structure Document where
  size : Option Nat := none
  mimeType : Option Text := none
deriving DecidableEq, Repr

/-- The fields of a Telethon message that are read; a media field is whether it is set. -/
structure Message where
  id : Nat
  rawText : Option Text := none
  message : Option Text := none
  photo : Bool := false
  video : Bool := false
  videoNote : Bool := false
  voice : Bool := false
  gif : Bool := false
  audio : Bool := false
  document : Option Document := none
deriving DecidableEq, Repr

/-- `_media_kind` -/
def mediaKind (message : Message) : Option MediaType :=
  if message.photo then some .photo
  else if message.video then some (if message.videoNote then .videoNote else .video)
  else if message.voice then some .voice
  else if message.gif then some .animation
  else if message.audio then some .audio
  else if message.document.isSome then some .document
  else none

/-- What a call of `client.download_media` does. -/
inductive Fetch where
  | saved
  /-- It returned nothing. -/
  | empty
  | floodWait (seconds : Nat)
  | raise (e : PyError)
deriving DecidableEq, Repr

/-- The outside of one call: the files on disk, and the answers of `download_media`, the
second one only asked for after a `FloodWaitError`. -/
structure DownloadEnv where
  files : List Text := []
  first : Fetch := .saved
  second : Fetch := .saved
deriving DecidableEq, Repr

/-- The last answer of `client.download_media` in a call of `_download_media`. -/
def DownloadEnv.answer (out : DownloadEnv) : Fetch :=
  match out.first with
  | .floodWait _ => out.second
  | f => f

def floodWaitError : PyError := ⟨.other, "A wait is required".toList⟩

variable (env : Env)

def targetPath (postId idx : Nat) (kind : MediaType) (ext : Text) : Text :=
  env.settings.mediaDir ++ ['/'] ++ Nat.toDigits 10 postId ++ ['_'] ++ Nat.toDigits 10 idx
    ++ ['_'] ++ kind.value ++ ['.'] ++ (if ext.isEmpty then "bin".toList else ext)

/-- The first free path from index `idx` on. One of `files.length + 1` indices is free,
so that many rounds of the loop suffice. -/
def freeTarget (files : List Text) (postId : Nat) (kind : MediaType) (ext : Text) :
    (rounds idx : Nat) → Text
  | 0, idx => targetPath env postId idx kind ext
  | rounds + 1, idx =>
    if targetPath env postId idx kind ext ∈ files then
      freeTarget files postId kind ext rounds (idx + 1)
    else targetPath env postId idx kind ext

/-- `mime.split("/")[-1]` -/
def mimeExt (mime : Text) : Text := (mime.reverse.takeWhile (· ≠ '/')).reverse

def documentSize (message : Message) : Nat := (message.document.bind Document.size).getD 0

/-- `_download_media` -/
def downloadMedia (out : DownloadEnv) (message : Message) (postId : Nat)
    (channel : SourceChannel) : Except PyError (Option MediaRef) :=
  match mediaKind message with
  | none => .ok none
  | some kind =>
    let size := documentSize message
    if size ≠ 0 ∧ channel.maxMediaSizeBytes < size then
      .ok (some { type := kind.value, file := some [], size := some size, omitted := true })
    else
      let mime := message.document.bind Document.mimeType
      let target := freeTarget env out.files postId kind (mimeExt (mime.getD []))
        out.files.length 0
      let answer := match out.first with
        | .floodWait _ => out.second
        | f => f
      match answer with
      | .saved =>
        .ok (some { type := kind.value, file := some target, size := some size, mime := mime })
      | .empty => .ok none
      | .floodWait _ => .error floodWaitError
      | .raise e => .error e

/-! ## The two transactions -/

/-- `message.raw_text or message.message or None` -/
def messageText (message : Message) : Option Text :=
  Py.orElse message.rawText (Py.orElse message.message none)

/-- The row the first transaction is meant to insert. -/
def ingestedPost (now : Time) (id channelId messageId : Nat) (text : Option Text) : Post where
  id := id
  sourceChannelId := channelId
  sourceMessageId := messageId
  rawText := text
  receivedAt := now

/-- Some row was ingested from this message of this channel. -/
def Db.hasMessage (db : Db) (channelId messageId : Nat) : Bool :=
  db.posts.rows.any (fun p => p.sourceChannelId = channelId && p.sourceMessageId = messageId)

/-- Insert the row and its `ingested` event. `none` is an `IntegrityError`: the pair is
taken (`uq_post_source_msg`), or the channel does not exist. -/
def Db.insertPost (db : Db) (now : Time) (channelId messageId : Nat) (text : Option Text) :
    Option Db :=
  if db.hasMessage channelId messageId ∨ db.channels.get channelId = none then none
  else some { db with
    posts := db.posts.insert (ingestedPost now db.nextPostId channelId messageId text)
    events := db.events ++ [{
      postId := db.nextPostId
      action := .ingested
      payload := [("has_media", .bool false)]
      createdAt := now }] }

def omitted (refs : List MediaRef) : Bool := refs.any MediaRef.omitted

def storeEvent (now : Time) (postId : Nat) (refs : List MediaRef) : PostEvent where
  postId := postId
  action := if omitted refs then .mediaOmitted else .edited
  payload := [("has_media", .bool (!refs.isEmpty)), ("omitted", .bool (omitted refs))]
  createdAt := now

/-! ## `ingest_message` -/

/-- The mapped attributes of `Post` and of `PostEvent`. Neither class declares a
relationship. -/
def postAttributes : List String :=
  ["id", "source_channel_id", "source_message_id", "raw_text", "raw_media_refs", "received_at",
    "state", "normalized_text", "ai_transformed_text", "media_paths", "tag_ids",
    "scheduled_for", "published_message_id", "published_at", "dedupe_hash",
    "draft_message_id", "created_by", "handled_by", "created_at", "updated_at"]

def postEventAttributes : List String :=
  ["id", "post_id", "actor_admin_id", "action", "payload", "created_at"]

/-- The declarative constructor: every keyword has to be a mapped attribute. -/
def construct (cls : String) (attributes keywords : List String) : Except PyError Unit :=
  match keywords.find? (fun k => k ∉ attributes) with
  | none => .ok ()
  | some k =>
    .error ⟨.typeError, k.toList ++ " is an invalid keyword argument for ".toList ++ cls.toList⟩

structure IngestState where
  db : Db
  queue : List Job

/-- One call of `ingest_message`, with what it meets outside the database. -/
structure IngestCall where
  channel : SourceChannel
  message : Message
  now : Time
  out : DownloadEnv := {}

/-- The body of `ingest_message` after both objects were built. -/
def ingestBuilt (call : IngestCall) (s : IngestState) :
    Except PyError (Option Post) × IngestState :=
  let id := s.db.nextPostId
  match s.db.insertPost call.now call.channel.id call.message.id (messageText call.message) with
  | none => (.ok none, s)
  | some db₁ =>
    match downloadMedia env call.out call.message id call.channel with
    -- the first transaction is committed by now
    | .error e => (.error e, { s with db := db₁ })
    | .ok ref =>
      match db₁.posts.get id with
      | none => (.ok none, { s with db := db₁ })
      | some post =>
        let stored := { post with rawMediaRefs := ref.toList }
        match db₁.commit id (flush post stored) [storeEvent call.now id ref.toList] with
        | none => (.error staleDataError, { s with db := db₁ })
        | some db₂ => (.ok (some stored), ⟨db₂, s.queue ++ [enqueueNormalize call.now id]⟩)

/-- `ingest_message`, for a `PostEvent` class with the given mapped attributes. Leaving
the session block without a commit rolls back, so a constructor that raises leaves no
trace. -/
def ingestMessageWith (eventAttributes : List String) (call : IngestCall) (s : IngestState) :
    Except PyError (Option Post) × IngestState :=
  match construct "Post" postAttributes
      ["source_channel_id", "source_message_id", "raw_text", "raw_media_refs"] with
  | .error e => (.error e, s)
  | .ok _ =>
    match construct "PostEvent" eventAttributes ["post", "action", "payload"] with
    | .error e => (.error e, s)
    | .ok _ => ingestBuilt env call s

def ingestMessage (call : IngestCall) (s : IngestState) :
    Except PyError (Option Post) × IngestState :=
  ingestMessageWith env postEventAttributes call s

/-! ## The run after the first commit -/

inductive IngestPc where
  /-- `_download_media` -/
  | download
  /-- The second transaction: load, then commit. -/
  | storeLoad (refs : List MediaRef)
  | storeCommit (refs : List MediaRef) (post : Post)
  | enqueue
deriving DecidableEq

section Steps

variable (v : View) (postId : Nat)

def ingestStore (refs : List MediaRef) (post : Post) : Effect IngestPc :=
  v.commit postId (flush post { post with rawMediaRefs := refs }) [storeEvent v.now postId refs]
    v.raise (fun db => { db := db, next := .goto .enqueue })

def ingestStep : IngestPc → Reply → Option (Effect IngestPc)
  | .download, .media ref => some (v.goto (.storeLoad ref.toList))
  | .download, .raise e => some (v.raise e)
  | .storeLoad refs, r =>
    r.await v.raise (match v.db.posts.get postId with
      | none => v.ret .done
      | some post => v.goto (.storeCommit refs post))
  | .storeCommit refs post, r => r.await v.raise (ingestStore v postId refs post)
  | .enqueue, r =>
    r.await v.raise {
      db := v.db, jobs := [enqueueNormalize v.now postId], next := .stop (.returned .done) }
  | _, _ => none

end Steps

end TelegramCms
