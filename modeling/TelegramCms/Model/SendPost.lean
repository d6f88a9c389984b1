import TelegramCms.Model.World

/-!
# Inside `_send_post`

`_send_post` of `bot/publisher.py` makes up to three calls of the Bot API, one after the
other: the primary message, a media group of the files after the first, and the text on
its own if it was not put under the primary message as a caption. A call that raises ends
it there, with the messages sent before left in the channel.

In `World` all of this is one call, which delivers everything or nothing. A `Wire` is a
`World` whose runs take these calls one by one.
-/

namespace TelegramCms

/-! ## What there is to send -/

/-- `CAPTION_LIMIT` -/
def captionLimit : Nat := 1024

/-- `InputMediaPhoto` and its siblings, by the file they upload. -/
inductive GroupItem where
  | photo (file : Text)
  | video (file : Text)
  | document (file : Text)
deriving DecidableEq, Repr

/-- A call of the Bot API that shows something in the channel. -/
inductive Call where
  | sendMessage (text : Text)
  /-- `send_photo`, `send_video` and so on. -/
  | sendMedia (method : MediaType) (file : Text) (caption : Option Text)
  | sendMediaGroup (media : List GroupItem)
deriving DecidableEq, Repr

/-- The parts of a post, in the order they are sent. -/
inductive Part where
  | primary | mediaGroup | followUp
deriving DecidableEq, Repr

def Part.rank : Part → Nat
  | .primary => 0
  | .mediaGroup => 1
  | .followUp => 2

def MediaRef.path (m : MediaRef) : Text := m.file.getD []

/-- The references with a file, but for those the size cap drops. -/
def sendableFiles (maxSize : Nat) (mediaRefs : List MediaRef) : List MediaRef :=
  (mediaRefs.filter (fun m => !m.path.isEmpty && !m.omitted)).filter
    (fun m => m.size.getD 0 = 0 || m.size.getD 0 ≤ maxSize)

/-- The method that sends a reference of type `mtype`; anything unknown is a document. -/
def sendMethod (mtype : Text) : MediaType :=
  ([.photo, .video, .animation, .audio, .voice, .videoNote].find? (fun k : MediaType =>
    k.value = mtype)).getD .document

/-- `text if text and len(text) <= CAPTION_LIMIT else None` -/
def caption (text : Text) : Option Text :=
  if text ≠ [] ∧ text.length ≤ captionLimit then some text else none

/-- The caption as the method takes it: two of them take none. -/
def captionFor (method : MediaType) (text : Text) : Option Text :=
  if method = .voice ∨ method = .videoNote then none else caption text

/-- `text or " "` -/
def textOrBlank (text : Text) : Text := if text.isEmpty then [' '] else text

def groupItem (m : MediaRef) : GroupItem :=
  if m.type = MediaType.photo.value then .photo m.path
  else if m.type = MediaType.video.value then .video m.path
  else .document m.path

/-- The media group: of the first nine extra files those that are on disk. -/
def groupMedia (onDisk : List Text) (extra : List MediaRef) : List GroupItem :=
  ((extra.take 9).filter (fun m => m.path ∈ onDisk)).map groupItem

/-! ## Call by call -/

/-- Where `_send_post` waits for the Bot API. -/
inductive SendPc where
  /-- The primary message is a text. -/
  | message (text : Text)
  /-- The primary message is a file; `extra` are the files after it. -/
  | media (method : MediaType) (file : Text) (caption : Option Text) (extra : List MediaRef)
  | group (messageId : Nat) (media : List GroupItem)
  | followUp (messageId : Nat) (text : Text)
deriving DecidableEq

def SendPc.call : SendPc → Call
  | .message text => .sendMessage text
  | .media method file caption _ => .sendMedia method file caption
  | .group _ items => .sendMediaGroup items
  | .followUp _ text => .sendMessage text

def SendPc.part : SendPc → Part
  | .message _ | .media .. => .primary
  | .group .. => .mediaGroup
  | .followUp .. => .followUp

/-- The answer to a call of the Bot API. -/
inductive Answer where
  /-- Done; the id is that of the message, or of the first one of a group. -/
  | message (id : Nat)
  /-- `TelegramRetryAfter` -/
  | retryAfter (seconds : Nat)
  | raise (e : PyError)
deriving DecidableEq, Repr

/-- What `_send_post` does next: another call, or it is over. -/
inductive SendNext where
  | call (pc : SendPc)
  | over (r : Reply)
deriving DecidableEq

variable (env : Env)

/-- `_send_post` up to its first call. -/
def sendPost (onDisk : List Text) (text : Text) (mediaRefs : List MediaRef) : SendPc :=
  match sendableFiles env.settings.mediaMaxSizeDefault mediaRefs with
  | [] => .message (textOrBlank text)
  | primary :: extra =>
    if primary.path ∈ onDisk then
      .media (sendMethod primary.type) primary.path (captionFor (sendMethod primary.type) text) extra
    else .message (textOrBlank text)

/-- After primary message and group: the text, if it was too long for a caption. -/
def sendText (text : Text) (messageId : Nat) : SendNext :=
  if caption text = none ∧ text ≠ [] then .call (.followUp messageId text)
  else .over (.message messageId)

def sendGroup (onDisk : List Text) (text : Text) (extra : List MediaRef) (messageId : Nat) :
    SendNext :=
  match groupMedia onDisk extra with
  | [] => sendText text messageId
  | media => .call (.group messageId media)

/-- `_send_post` from one call to the next. Nothing in it catches an exception. -/
def sendStep (onDisk : List Text) (text : Text) : SendPc → Answer → SendNext
  | _, .raise e => .over (.raise e)
  | _, .retryAfter s => .over (.retryAfter s)
  | .message _, .message id => .over (.message id)
  | .media _ _ _ extra, .message id => sendGroup onDisk text extra id
  | .group mid _, .message _ => sendText text mid
  | .followUp mid _, .message _ => .over (.message mid)

/-! ## The system -/

/-- A message that is in the destination channel. -/
structure Shown where
  post : Nat
  part : Part
  call : Call
deriving DecidableEq

structure Wire where
  world : World
  /-- Where the runs inside `_send_post` wait. -/
  sends : Nat → Option SendPc := fun _ => none
  /-- History variable: the messages in the channel, newest first. -/
  shown : List Shown := []

inductive WireAction where
  /-- An action of the system outside `_send_post`, with the files on disk. -/
  | act (onDisk : List Text) (a : Action)
  /-- A call inside `_send_post` is answered. -/
  | answer (onDisk : List Text) (run : Nat) (answer : Answer)

/-- The post and the content run `i` is sending. -/
def World.sendingOf (w : World) (i : Nat) : Option (Nat × SendCtx) :=
  match w.proc i with
  | some (.publish job (.sending ctx _)) => some (job.postId, ctx)
  | _ => none

namespace Wire

variable (s : Wire)

/-- The calls in progress once the action led to `w`: a send that begins is at its first. -/
def sendsAfter (onDisk : List Text) (a : Action) (w : World) : Nat → Option SendPc :=
  match a with
  | .advance i _ =>
    match w.sendingOf i with
    | some (_, ctx) => Function.update s.sends i (some (sendPost env onDisk ctx.text ctx.mediaRefs))
    | none => s.sends
  | _ => s.sends

/-- The action answers a run inside `_send_post`. -/
def Answers (w : World) : Action → Bool
  | .advance i _ => (w.sendingOf i).isSome
  | _ => false

/-- The messages in the channel after the answer to a call. -/
def shownAfter (p : Nat) (pc : SendPc) : Answer → List Shown
  | .message _ => ⟨p, pc.part, pc.call⟩ :: s.shown
  | _ => s.shown

def step : WireAction → Option Wire
  | .act onDisk a =>
    if Answers s.world a then none
    else (World.step env s.world a).map fun w =>
      { s with world := w, sends := s.sendsAfter env onDisk a w }
  | .answer onDisk i answer =>
    match s.world.sendingOf i, s.sends i with
    | some (p, ctx), some pc =>
      match sendStep onDisk ctx.text pc answer with
      | .call pc' =>
        some { s with
          sends := Function.update s.sends i (some pc'), shown := s.shownAfter p pc answer }
      | .over r =>
        (World.step env s.world (.advance i r)).map fun w =>
          { s with world := w, shown := s.shownAfter p pc answer }
    | _, _ => none

end Wire

end TelegramCms
