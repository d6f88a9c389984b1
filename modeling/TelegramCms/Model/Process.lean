import TelegramCms.Model.Content

/-!
# Runs and their steps

Every job, button press and web request is a *run*: a coroutine that works through its
source function and stops at each `await`. What happens between two awaits is one
atomic step; the services interleave the steps of their runs freely.

A step is taken when the awaited call answers, so it is a function of that answer (the
`Reply`), of what the run can see (the `View`) and of the place it had stopped at. It
says what it wrote, which jobs it enqueued, what an observer could record, and where
the run stops next (the `Effect`).
-/

namespace TelegramCms

/-! ## Jobs -/

inductive JobName where
  | publish | normalize | postDraft
deriving DecidableEq, Repr

/-- An entry of an ARQ queue. A worker runs it once the clock has reached the score. -/
structure Job where
  name : JobName
  postId : Nat
  /-- In milliseconds since the epoch. -/
  score : Int
deriving DecidableEq, Repr

/-- `timestamp_ms()` -/
def toMs (t : Time) : Int := t / 1000

/-- `enqueue_publish(post_id, delay=…)`: a job deferred by `delay` microseconds. -/
def enqueuePublish (now : Time) (postId : Nat) (delay : Int := 0) : Job :=
  ⟨.publish, postId, toMs now + toMs delay⟩

def enqueueNormalize (now : Time) (postId : Nat) : Job := ⟨.normalize, postId, toMs now⟩

def enqueuePostDraft (now : Time) (postId : Nat) : Job := ⟨.postDraft, postId, toMs now⟩

/-! ## What an observer records -/

inductive Decision where
  | approve
  | schedule (t : Time)
  | reject
deriving DecidableEq, Repr

/-- A post that reached the destination channel. -/
structure Delivery where
  run : Nat
  post : Nat
  hash : Option Digest
  /-- When the run reserved the hash. -/
  reservedAt : Option Time
  text : Text
  mediaRefs : List MediaRef
  messageId : Nat
deriving DecidableEq

/-- How a run ended. -/
inductive Result where
  | notFound | alreadyPublished | noChannel | duplicate | published
  | skip (s : PostState)
  | enqueuedPublish | enqueuedDraft
  | noEditorGroup | notNormalized | posted | refreshed | draftError (e : PyError)
  | done
deriving DecidableEq, Repr

inductive Outcome where
  | returned (r : Result)
  | raised (e : PyError)
deriving DecidableEq, Repr

inductive Obs where
  /-- A call of `_send_post` begins. -/
  | sendBegan (run post : Nat) (at_ : Time)
  | delivered (d : Delivery)
  /-- A decision on a post was committed. -/
  | decided (post : Nat) (d : Decision)
  /-- A post was put in `rejected` as a duplicate of content with this hash. -/
  | duplicate (post : Nat) (h : Digest)
  | ended (run : Nat) (o : Outcome)
deriving DecidableEq

/-! ## Steps -/

/-- What an LLM reply amounts to once `transform_text` accepted it. -/
structure TransformResult where
  text : Text
  model : Text
  promptTokens : Int
  completionTokens : Int
  latencyMs : Int
deriving DecidableEq, Repr

/-- The answer to an awaited call. -/
inductive Reply where
  | ok
  | raise (e : PyError)
  /-- `TelegramRetryAfter` -/
  | retryAfter (seconds : Nat)
  /-- Telegram accepted a message and gave it this id. -/
  | message (id : Nat)
  /-- `_send_post` returned `None`: nothing was sent. -/
  | nothing
  | transformed (r : TransformResult)
  | media (ref : Option MediaRef)
deriving DecidableEq

/-- What a run can see when it takes a step. -/
structure View where
  now : Time
  db : Db
  /-- The identity of the run itself. -/
  run : Nat
  /-- No run holds `_send_lock`. -/
  lockFree : Bool

/-- Where a run stops next: at another `await`, or for good. -/
inductive Next (Pc : Type) where
  | goto (pc : Pc)
  | stop (o : Outcome)
deriving DecidableEq

structure Effect (Pc : Type) where
  db : Db
  jobs : List Job := []
  /-- Newest first. -/
  seen : List Obs := []
  next : Next Pc

variable {Pc : Type}

/-- A step that writes nothing. -/
def View.goto (v : View) (pc : Pc) : Effect Pc := { db := v.db, next := .goto pc }

/-- The run returns. -/
def View.ret (v : View) (r : Result) : Effect Pc := { db := v.db, next := .stop (.returned r) }

/-- The run raises. -/
def View.raise (v : View) (e : PyError) : Effect Pc := { db := v.db, next := .stop (.raised e) }

/-- `await` of a call that returns or raises. -/
def Reply.await (r : Reply) (onRaise : PyError → Effect Pc) (onOk : Effect Pc) :
    Option (Effect Pc) :=
  match r with
  | .ok => some onOk
  | .raise e => some (onRaise e)
  | _ => none

theorem Reply.await_cases {r : Reply} {f : PyError → Effect Pc} {x y : Effect Pc}
    (h : r.await f x = some y) : (r = .ok ∧ y = x) ∨ ∃ e, r = .raise e ∧ y = f e := by
  cases r with
  | ok => exact .inl ⟨rfl, (Option.some.inj h).symm⟩
  | raise e => exact .inr ⟨e, rfl, (Option.some.inj h).symm⟩
  | _ => exact absurd h (by simp [Reply.await])

def staleDataError : PyError := ⟨.staleDataError, "UPDATE matched no row".toList⟩

/-- Commit an update of post `id`, or raise `StaleDataError` if its row is gone. -/
def View.commit (v : View) (id : Nat) (set : PostSet) (events : List PostEvent)
    (onRaise : PyError → Effect Pc) (k : Db → Effect Pc) : Effect Pc :=
  match v.db.commit id set events with
  | none => onRaise staleDataError
  | some db => k db

theorem View.commit_cases {v : View} {id : Nat} {set : PostSet} {evs : List PostEvent}
    {f : PyError → Effect Pc} {k : Db → Effect Pc} :
    (v.db.posts.get id = none ∧ v.commit id set evs f k = f staleDataError)
      ∨ ∃ r, v.db.posts.get id = some r ∧ v.commit id set evs f k = k (v.db.write id set evs) := by
  unfold View.commit Db.commit
  cases hr : v.db.posts.get id with
  | none => exact .inl ⟨rfl, rfl⟩
  | some r => exact .inr ⟨r, rfl, rfl⟩

end TelegramCms
