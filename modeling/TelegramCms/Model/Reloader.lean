import TelegramCms.Lib.Transition
import TelegramCms.Model.BackOffice
import TelegramCms.Model.Ingest

/-!
# The channel map of the userbot

`channel_map` of `userbot/main.py`: `run` fills it, `_channel_reloader` patches it every few
minutes, and `on_new_message` looks a chat up in it. In between the back office edits the
table. An iteration of the reloader is one step, and is compared with the table it loaded.
-/

namespace TelegramCms

/-- `channel_map`, by telegram id. -/
abbrev ChannelMap := Table Int SourceChannel SourceChannel.telegramChannelId

/-- `load_channels` -/
def Db.loadChannels (db : Db) : List SourceChannel :=
  db.channels.rows.filter SourceChannel.ingestionEnabled

namespace ChannelMap

variable (resolves : Int → Bool) (channels : List SourceChannel)

/-- `channel_map[ch.telegram_channel_id] = ch` -/
def put (m : ChannelMap) (ch : SourceChannel) : ChannelMap :=
  (m.delete ch.telegramChannelId).insert ch

/-- The first loop of an iteration. `current` is the map the iteration found. -/
def addNew (current : ChannelMap) : ChannelMap :=
  channels.foldl (fun m ch =>
    if (current.get ch.telegramChannelId).isNone && resolves ch.telegramChannelId then put m ch
    else m) current

/-- `current_ids - db_ids` -/
def removedIds (current : ChannelMap) : List Int :=
  (current.rows.map SourceChannel.telegramChannelId).filter
    (fun tgId => tgId ∉ channels.map SourceChannel.telegramChannelId)

/-- An iteration of `_channel_reloader` that loaded `channels`. -/
def reload (current : ChannelMap) : ChannelMap :=
  (removedIds channels current).foldl Table.delete (addNew resolves channels current)

/-- The map that `run` fills. -/
def start : ChannelMap :=
  channels.foldl (fun m ch => if resolves ch.telegramChannelId then put m ch else m) .empty

end ChannelMap

/-! ## Runs -/

structure ChannelWatch where
  db : Db := {}
  /-- The sequence behind the primary key of `source_channels`. -/
  nextChannel : Nat := 1
  channelMap : ChannelMap := .empty

inductive WatchAction where
  /-- The back office inserts a row; its id is the sequence's. -/
  | create (c : SourceChannel)
  /-- Any column but the id and the telegram id may change. -/
  | update (id : Nat) (c : SourceChannel)
  | delete (id : Nat)
  /-- The userbot starts. `fails` are the telegram ids for which `get_entity` fails, though
  the account can resolve them. -/
  | start (fails : List Int)
  | reload (loaded : Bool) (fails : List Int)
  /-- A message comes in from this chat. -/
  | message (chatId : Int) (message : Message) (now : Time)

namespace ChannelWatch

-- `resolvable` is what the account can resolve.
variable (resolvable : Int → Bool) (w : ChannelWatch)

/-- `resolve_entity` returns an entity. -/
def resolves (fails : List Int) (tgId : Int) : Bool := resolvable tgId && tgId ∉ fails

def create (c : SourceChannel) : Db :=
  if w.db.channels.rows.any (fun r => r.telegramChannelId = c.telegramChannelId) then w.db
  else { w.db with channels := w.db.channels.insert { c with id := w.nextChannel } }

def update (id : Nat) (c : SourceChannel) : Db :=
  { w.db with
    channels := w.db.channels.update id
      (fun r => { c with id := r.id, telegramChannelId := r.telegramChannelId }) (fun _ => rfl) }

/-- The first transaction of `ingest_message`; `none` is `already-ingested`. -/
def ingest (channel : SourceChannel) (message : Message) (now : Time) : Option Db :=
  w.db.insertPost now channel.id message.id (messageText message)

/-- `on_new_message` -/
def onNewMessage (chatId : Int) (message : Message) (now : Time) : Db :=
  match w.channelMap.get chatId with
  | none => w.db
  | some channel => (w.ingest channel message now).getD w.db

def step : WatchAction → Option ChannelWatch
  | .create c => some { w with db := w.create c, nextChannel := w.nextChannel + 1 }
  | .update id c => some { w with db := w.update id c }
  | .delete id => some { w with db := w.db.deleteChannel id }
  | .start fails =>
    some { w with channelMap := .start (resolves resolvable fails) w.db.loadChannels }
  | .reload loaded fails =>
    some { w with
      channelMap :=
        if loaded then .reload (resolves resolvable fails) w.db.loadChannels w.channelMap
        else w.channelMap }
  | .message chatId message now => some { w with db := w.onNewMessage chatId message now }

end ChannelWatch

end TelegramCms
