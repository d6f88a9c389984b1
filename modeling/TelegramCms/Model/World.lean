import TelegramCms.Model.Publisher
import TelegramCms.Model.Normalize
import TelegramCms.Model.Editors
import TelegramCms.Model.Ingest

/-!
# The system

The database, the queues, the clock and the runs in progress. An `Action` is one atomic
step of the system: a run moves on, a run dies, a worker starts a job, somebody presses
a button or sends a request, housekeeping deletes old rows, time passes.

A job stays in its queue until it is finished, so a job whose run dies is run again. The
rows of the `posts` table are there as the first commit of `ingest_message` is meant to
leave them (`arrive`).
-/

namespace TelegramCms

/-! ## Housekeeping -/

/-- The posts `reconcile_scheduled` selects. -/
def overduePosts (now : Time) (db : Db) : List Nat :=
  let due := db.posts.rows.filter (fun p =>
    p.state = .scheduled ∧ p.publishedMessageId = none
      ∧ p.scheduledFor.any (fun t => decide (t ≤ now ∧ now - days 30 ≤ t)))
  ((due.insertionSort (fun p q => p.scheduledFor.getD 0 ≤ q.scheduledFor.getD 0)).take 100).map
    Post.id

/-- The posts `reconcile_pending` selects. -/
def orphanedPosts (now : Time) (db : Db) : List Nat :=
  let orphans := db.posts.rows.filter (fun p =>
    p.state = .pending ∧ p.rawMediaRefs = [] ∧ p.receivedAt ≤ now - seconds 300)
  ((orphans.insertionSort (fun p q => p.receivedAt ≤ q.receivedAt)).take 200).map Post.id

inductive ReconcilePc where
  | query
  | enqueue (ids : List Nat)
deriving DecidableEq

/-- `reconcile_scheduled` and `reconcile_pending`: one query, then one job for each row. -/
def reconcileStep (select : Time → Db → List Nat) (job : Time → Nat → Job) (v : View) :
    ReconcilePc → Reply → Option (Effect ReconcilePc)
  | .query, r => r.await v.raise (v.goto (.enqueue (select v.now v.db)))
  | .enqueue [], .ok => some (v.ret .done)
  | .enqueue [], _ => none
  | .enqueue (id :: ids), r =>
    r.await v.raise { db := v.db, jobs := [job v.now id], next := .goto (.enqueue ids) }

/-! ## Runs -/

inductive Proc where
  | publish (job : Job) (pc : PublishPc)
  | normalize (job : Job) (pc : NormalizePc)
  | postDraft (job : Job) (pc : DraftPc)
  | callback (button : Button) (tgUserId : Int) (postId : Nat) (pc : CallbackPc)
  | decide (req : DecisionRequest) (pc : DecidePc)
  | editTags (req : TagsRequest) (pc : TagsPc)
  | reconcileScheduled (pc : ReconcilePc)
  | reconcilePending (pc : ReconcilePc)
  | ingest (postId : Nat) (pc : IngestPc)
deriving DecidableEq

def Effect.map {α β : Type} (f : α → β) (e : Effect α) : Effect β where
  db := e.db
  jobs := e.jobs
  seen := e.seen
  next :=
    match e.next with
    | .goto pc => .goto (f pc)
    | .stop o => .stop o

def Proc.step (env : Env) (v : View) : Proc → Reply → Option (Effect Proc)
  | .publish job pc, r => (publishStep env v job.postId pc r).map (.map (.publish job))
  | .normalize job pc, r => (normalizeStep env v job.postId pc r).map (.map (.normalize job))
  | .postDraft job pc, r => (draftStep env v job.postId pc r).map (.map (.postDraft job))
  | .callback b u p pc, r => (callbackStep v b u p pc r).map (.map (.callback b u p))
  | .decide req pc, r => (decideStep v req pc r).map (.map (.decide req))
  | .editTags req pc, r => (tagsStep v req pc r).map (.map (.editTags req))
  | .reconcileScheduled pc, r =>
    (reconcileStep overduePosts (enqueuePublish · · 0) v pc r).map (.map .reconcileScheduled)
  | .reconcilePending pc, r =>
    (reconcileStep orphanedPosts enqueueNormalize v pc r).map (.map .reconcilePending)
  | .ingest p pc, r => (ingestStep v p pc r).map (.map (.ingest p))

/-- The first step of a job. -/
def Job.start (job : Job) : Proc :=
  match job.name with
  | .publish => .publish job .load
  | .normalize => .normalize job .load
  | .postDraft => .postDraft job .load

/-- The queue entry a run is working on. -/
def Proc.job? : Proc → Option Job
  | .publish job _ | .normalize job _ | .postDraft job _ => some job
  | _ => none

def Proc.holdsLock : Proc → Bool
  | .publish _ pc => pc.holdsLock
  | _ => false

/-- A run in progress. -/
structure Running where
  run : Nat
  proc : Proc
deriving DecidableEq

/-- The run after it moved on to `p`. -/
def Running.move (p : Proc) (r : Running) : Running := { r with proc := p }

@[simp] theorem Running.run_move (p : Proc) (r : Running) : (r.move p).run = r.run := rfl

/-! ## The world -/

structure World where
  now : Time
  db : Db
  /-- The jobs in the queues that no run is working on. -/
  queue : List Job := []
  runs : Table Nat Running Running.run := .empty
  /-- The identity the next run gets. -/
  nextRun : Nat := 0
  /-- History variable: what happened, newest first. -/
  log : List Obs := []

/-- A run that a person starts, or a service on its boot. -/
inductive Request where
  | press (button : Button) (tgUserId : Int) (postId : Nat)
  | decide (req : DecisionRequest)
  | editTags (req : TagsRequest)
  | bootWorker
  | bootUserbot
deriving DecidableEq

def Request.start : Request → Proc
  | .press b u p => .callback b u p .load
  | .decide req => .decide req .load
  | .editTags req => .editTags req .load
  | .bootWorker => .reconcileScheduled .query
  | .bootUserbot => .reconcilePending .query

inductive Action where
  | tick (d : Nat)
  /-- The awaited call of a run answers. -/
  | advance (run : Nat) (r : Reply)
  /-- A run dies: its process crashes, or it is cancelled. -/
  | crash (run : Nat)
  | startJob (job : Job)
  | request (req : Request)
  /-- The first commit of `ingest_message`. -/
  | arrive (channelId messageId : Nat) (text : Option Text)
  /-- Administration of channels, templates and tags. No channel with posts goes away. -/
  | configure (channels : Table Nat SourceChannel SourceChannel.id)
      (templates : Table Nat Template Template.id) (tags : Table Nat Tag Tag.id)
  /-- `_prune_dedupe_rows`, with the cutoff computed at `at_`. -/
  | pruneDedupe (at_ : Time)

namespace World

variable (env : Env) (w : World)

def row (p : Nat) : Option Post := w.db.posts.get p

def proc (i : Nat) : Option Proc := (w.runs.get i).map Running.proc

def lockFree : Bool := w.runs.rows.all (fun r => !r.proc.holdsLock)

def view (i : Nat) : View := ⟨w.now, w.db, i, w.lockFree⟩

/-- Add a run. -/
def spawn (p : Proc) : World :=
  { w with runs := w.runs.insert ⟨w.nextRun, p⟩, nextRun := w.nextRun + 1 }

/-- What is seen of a step, its end included if the run ended. -/
def seenOf (i : Nat) (e : Effect Proc) : List Obs :=
  match e.next with
  | .goto _ => e.seen
  | .stop o => .ended i o :: e.seen

/-- The runs after a step of run `i`. -/
def runsAfter (i : Nat) (e : Effect Proc) : Table Nat Running Running.run :=
  match e.next with
  | .goto p => w.runs.update i (Running.move p) (Running.run_move p)
  | .stop _ => w.runs.delete i

/-- The world after run `i` took the step `e`. -/
def apply (i : Nat) (e : Effect Proc) : World :=
  { w with
    db := e.db
    queue := w.queue ++ e.jobs
    runs := w.runsAfter i e
    log := seenOf i e ++ w.log }

def pruneDedupeRows (cutoff : Time) : World :=
  { w with db := { w.db with
    dedupe := w.db.dedupe.filter (fun r => decide (cutoff ≤ r.publishedAt)) } }

def step : Action → Option World
  | .tick d => some { w with now := w.now + d }
  | .advance i r =>
    match w.proc i with
    | none => none
    | some p => (p.step env (w.view i) r).map (w.apply i)
  | .crash i =>
    match w.proc i with
    | none => none
    -- ARQ did not see the job end, so it is run again
    | some p => some { w with runs := w.runs.delete i, queue := w.queue ++ p.job?.toList }
  | .startJob job =>
    if job ∈ w.queue ∧ job.score ≤ toMs w.now then
      some ({ w with queue := w.queue.erase job }.spawn job.start)
    else none
  | .request req => some (w.spawn req.start)
  | .arrive c m text =>
    match w.db.insertPost w.now c m text with
    | none => none
    | some db => some ({ w with db := db }.spawn (.ingest w.db.nextPostId .download))
  | .configure channels templates tags =>
    if ∀ p ∈ w.db.posts.rows, channels.get p.sourceChannelId ≠ none then
      some { w with db := { w.db with channels := channels, templates := templates, tags := tags } }
    else none
  | .pruneDedupe at_ =>
    if at_ ≤ w.now then
      some (w.pruneDedupeRows (at_ - days env.settings.dedupeLookbackDays))
    else none

/-- A system that has done nothing yet: no posts, no jobs, no runs. -/
structure Init (w : World) : Prop where
  posts : w.db.posts.rows = []
  events : w.db.events = []
  dedupe : w.db.dedupe.rows = []
  queue : w.queue = []
  runs : w.runs.rows = []
  log : w.log = []

end World

end TelegramCms
