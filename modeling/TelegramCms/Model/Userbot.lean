import TelegramCms.Model.Ingest

/-!
# The userbot and one of its channels

`userbot/main.py`: on its start the userbot backfills a channel, then it registers the
handler of new messages, and from there on every message of the channel starts a handler.
A `Userbot` is what becomes of one enabled channel whose entity can be resolved, over any
number of restarts; other channels only take up the time between its backfill and the
registration.

Of an ingest it is told here whether its first commit came off, which is what the row
depends on.
-/

namespace TelegramCms

/-- `_BACKFILL_LIMIT` -/
def backfillLimit : Nat := 200

/-- The messages of a channel that have a row, in the order of the rows. -/
def Db.ingestedIds (db : Db) (channelId : Nat) : List Nat :=
  (db.posts.rows.filter (fun p => p.sourceChannelId = channelId)).map Post.sourceMessageId

/-- `last_ingested_message_id` -/
def lastIngestedMessageId (db : Db) (channelId : Nat) : Nat :=
  (db.ingestedIds channelId).max?.getD 0

/-- `iter_messages(min_id=…, reverse=True, limit=…)` on a channel whose messages are `feed`,
oldest first. -/
def iterMessages (feed : List Message) (minId limit : Nat) : List Message :=
  (feed.filter (fun m => minId < m.id)).take limit

inductive UserbotPhase where
  | down
  /-- Inside `backfill`: what the iteration has still to yield, and how many messages that
  appear meanwhile it can yield besides. -/
  | backfill (rest : List Message) (room : Nat)
  /-- `backfill` returned, and the handler is not registered yet. -/
  | between
  /-- `on_new_message` is registered and at work on these messages. -/
  | listening (inFlight : List Message)
deriving DecidableEq, Repr

structure Userbot where
  now : Time
  db : Db
  /-- The messages of the channel, oldest first. -/
  feed : List Message
  phase : UserbotPhase := .down

inductive UserbotAction where
  | tick (d : Nat)
  /-- A message appears in the channel. An iteration that is under way may get to see it. -/
  | appears (message : Message) (yielded : Bool)
  | start
  /-- `backfill` is done with its next message; `committed` is whether it has a row then. -/
  | next (committed : Bool)
  /-- The iteration raises, which `backfill` logs. -/
  | iterRaises
  | iterEnds
  | register
  /-- A handler is done, its retry after `FloodWaitError` included. -/
  | handled (message : Message) (committed : Bool)
  /-- The process stops or dies. -/
  | stop
deriving DecidableEq, Repr

/-- Who sees a message that appears. -/
def UserbotPhase.meets (message : Message) (yielded : Bool) : UserbotPhase → UserbotPhase
  | .backfill rest (room + 1) =>
    if yielded then .backfill (rest ++ [message]) room else .backfill rest (room + 1)
  | .listening inFlight => .listening (inFlight ++ [message])
  | phase => phase

namespace Userbot

variable (channelId : Nat) (u : Userbot)

/-- The first transaction of `ingest_message`; on an `IntegrityError` it returns. -/
def ingest (message : Message) : Userbot :=
  { u with db := (u.db.insertPost u.now channelId message.id (messageText message)).getD u.db }

def step : UserbotAction → Option Userbot
  | .tick d => some { u with now := u.now + d }
  | .appears message yielded =>
    if ∀ m ∈ u.feed, m.id < message.id then
      some { u with feed := u.feed ++ [message], phase := u.phase.meets message yielded }
    else none
  | .start =>
    match u.phase with
    | .down =>
      let rest := iterMessages u.feed (lastIngestedMessageId u.db channelId) backfillLimit
      some { u with phase := .backfill rest (backfillLimit - rest.length) }
    | _ => none
  | .next committed =>
    match u.phase with
    | .backfill (message :: rest) room =>
      some { (if committed then u.ingest channelId message else u) with
        phase := .backfill rest room }
    | _ => none
  | .iterRaises =>
    match u.phase with
    | .backfill _ _ => some { u with phase := .between }
    | _ => none
  | .iterEnds =>
    match u.phase with
    | .backfill [] _ => some { u with phase := .between }
    | _ => none
  | .register =>
    match u.phase with
    | .between => some { u with phase := .listening [] }
    | _ => none
  | .handled message committed =>
    match u.phase with
    | .listening inFlight =>
      if message ∈ inFlight then
        some { (if committed then u.ingest channelId message else u) with
          phase := .listening (inFlight.erase message) }
      else none
    | _ => none
  | .stop =>
    match u.phase with
    | .down => none
    | _ => some { u with phase := .down }

/-- The channel is known, and nothing of it was ingested yet. -/
structure Init (u : Userbot) : Prop where
  phase : u.phase = .down
  known : u.db.channels.get channelId ≠ none
  none : u.db.ingestedIds channelId = []
  feed : (u.feed.map Message.id).Pairwise (· < ·)

end Userbot

end TelegramCms
