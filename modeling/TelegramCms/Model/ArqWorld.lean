import TelegramCms.Model.World

/-!
# Jobs that ARQ gives up

`World.step` runs a job until it has ended. ARQ does not try for ever: the workers of
`bot/main.py` and `worker/main.py` have a `job_timeout`, and the default `max_tries` and
`expires_extra_ms`. A job that was tried too often, or whose payload has expired, is dropped when
a worker picks it up, and a run that takes too long is cancelled and not run again.
-/

namespace TelegramCms

/-- `job_timeout` of the two workers. -/
def JobName.timeout : JobName → Time
  | .publish | .postDraft => seconds 900
  | .normalize => seconds 600

namespace ArqWorld

def maxTries : Nat := 5

/-- How long a payload is kept beyond the time the job is due. -/
def expiresExtraMs : Int := 86400000

end ArqWorld

/-- The system, with what ARQ keeps of its jobs. -/
structure ArqWorld where
  world : World
  /-- How often a job with this entry was started. The counter of one job, which ends with it, never
  stands higher. -/
  tries : Job → Nat := fun _ => 0
  startedAt : Nat → Time := fun _ => 0

inductive ArqAction where
  | sys (a : Action)
  /-- A worker picks up the job and gives it up. -/
  | drop (job : Job)
  /-- The run of a job is cancelled by its timeout. -/
  | timeout (run : Nat)

namespace ArqWorld

variable (env : Env) (s : ArqWorld)

/-- ARQ may give the job up. -/
def isGivenUp (job : Job) : Bool :=
  decide (job.score + expiresExtraMs ≤ toMs s.world.now) || decide (maxTries ≤ s.tries job)

/-- The system has taken the step `a` to `w`. -/
def move (a : Action) (w : World) : ArqWorld :=
  match a with
  | .startJob job => {
      world := w
      tries := fun j => if j = job then s.tries job + 1 else s.tries j
      startedAt := fun i => if i = s.world.nextRun then s.world.now else s.startedAt i }
  | _ => { s with world := w }

def step : ArqAction → Option ArqWorld
  | .sys a => (World.step env s.world a).map (s.move a)
  | .drop job =>
    if job ∈ s.world.queue ∧ job.score ≤ toMs s.world.now ∧ s.isGivenUp job then
      some { s with world := { s.world with queue := s.world.queue.erase job } }
    else none
  | .timeout i =>
    match (s.world.proc i).bind Proc.job? with
    | none => none
    | some job =>
      if s.startedAt i + job.name.timeout ≤ s.world.now then
        some { s with world := { s.world with runs := s.world.runs.delete i } }
      else none

end ArqWorld

end TelegramCms
