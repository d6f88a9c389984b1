import TelegramCms.Lib.JsonWrite
import TelegramCms.Model.Bodies
import TelegramCms.Model.Enqueue

/-!
# Jobs on the wire

`shared/tasks.py`: the producers, the queue each of them names, and the JSON that a job is in
Redis; and the functions that the workers of `bot/main.py` and `worker/main.py` register, with
their parameters. Between the two a job is the text that `arq_job_serializer` made of it, or
`buildPublishJobBody` of `apigo/enqueue.go`.
-/

namespace TelegramCms

/-- A job as ARQ hands it to the serializer: `{t, f, a, k, et}`. -/
structure ArqJob where
  jobTry : Option Int := none
  function : Text
  args : List Json
  kwargs : Fields := []
  enqueueTimeMs : Int

namespace ArqJob

def data (job : ArqJob) : Json :=
  .obj [
    ("t".toList, match job.jobTry with | some n => .int n | none => .null),
    ("f".toList, .str job.function),
    ("a".toList, .arr job.args),
    ("k".toList, .obj job.kwargs),
    ("et".toList, .int job.enqueueTimeMs)]

/-- The members by their keys, which are all there. -/
def ofData (j : Json) : Option ArqJob :=
  match j with
  | .obj members =>
    match Fields.sent members "t", Fields.sent members "f", Fields.sent members "a",
        Fields.sent members "k", Fields.sent members "et" with
    | some .null, some (.str f), some (.arr a), some (.obj k), some (.int et) =>
      some ⟨none, f, a, k, et⟩
    | some (.int t), some (.str f), some (.arr a), some (.obj k), some (.int et) =>
      some ⟨some t, f, a, k, et⟩
    | _, _, _, _, _ => none
  | _ => none

/-- `arq_job_serializer` -/
def serialize (job : ArqJob) : Text := Json.write Json.pyStyle job.data

/-- `arq_job_deserializer` -/
def deserialize (body : Text) : Option ArqJob := (Json.document body).bind ofData

end ArqJob

/-! ## Producers -/

inductive QueueName where
  | worker | bot
deriving DecidableEq, Repr

/-- `QUEUE_WORKER`, `QUEUE_BOT` -/
def QueueName.value : QueueName → Text
  | .worker => "arq:queue:worker".toList
  | .bot => Arq.queueBot

/-- A call of an `enqueue_*` helper, which is also what the consumer is to be called with. -/
inductive JobCall where
  | normalize (postId : Int)
  | publish (postId : Int)
  | postDraft (postId : Int)
  | pruneDedupe
  | alert (text : Text)
deriving DecidableEq, Repr

namespace JobCall

/-- `JOB_NORMALIZE`, … -/
def name : JobCall → Text
  | .normalize _ => "normalize".toList
  | .publish _ => "publish".toList
  | .postDraft _ => "post_draft".toList
  | .pruneDedupe => "prune_dedupe".toList
  | .alert _ => "alert".toList

def queue : JobCall → QueueName
  | .normalize _ | .pruneDedupe => .worker
  | .publish _ | .postDraft _ | .alert _ => .bot

def args : JobCall → List Json
  | .normalize id | .publish id | .postDraft id => [.int id]
  | .pruneDedupe => []
  | .alert text => [.str text]

/-- The job as `enqueue_job` first queues it. -/
def job (c : JobCall) (enqueueTimeMs : Int) : ArqJob :=
  { function := c.name, args := c.args, enqueueTimeMs := enqueueTimeMs }

end JobCall

/-! ## Consumers -/

/-- A function of one parameter, `post_id: int`. -/
def takesPostId (call : Int → JobCall) (args : List Json) (kwargs : Fields) : Option JobCall :=
  match args, kwargs with
  | [.int id], [] => some (call id)
  | [], [(key, .int id)] => if key = "post_id".toList then some (call id) else none
  | _, _ => none

/-- `prune_dedupe(ctx)` -/
def takesNothing (args : List Json) (kwargs : Fields) : Option JobCall :=
  match args, kwargs with
  | [], [] => some .pruneDedupe
  | _, _ => none

/-- `alert(ctx, text, tenant_id=None)`; a `tenant_id` is ignored. -/
def takesAlert (args : List Json) (kwargs : Fields) : Option JobCall :=
  match args, kwargs with
  | [.str text], [] => some (.alert text)
  | [.str text, _], [] => some (.alert text)
  | [.str text], [(key, _)] => if key = "tenant_id".toList then some (.alert text) else none
  | _, _ => none

/-- The functions a worker registers, by their `__name__`. -/
def QueueName.functions : QueueName → List (Text × (List Json → Fields → Option JobCall))
  | .worker =>
    [("normalize".toList, takesPostId .normalize), ("prune_dedupe".toList, takesNothing)]
  | .bot =>
    [("publish".toList, takesPostId .publish), ("post_draft".toList, takesPostId .postDraft),
      ("alert".toList, takesAlert)]

/-- What the worker of the queue calls for a job: `none` if the body cannot be read, the
function is not its own, or the arguments do not fit. -/
def QueueName.consume (q : QueueName) (body : Text) : Option JobCall :=
  match ArqJob.deserialize body with
  | none => none
  | some job =>
    match q.functions.find? (fun f => f.1 = job.function) with
    | none => none
    | some f => f.2 job.args job.kwargs

end TelegramCms
