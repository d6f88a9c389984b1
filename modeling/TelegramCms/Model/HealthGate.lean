import TelegramCms.Lib.TextTools
import TelegramCms.Model.Fleet

/-!
# What the health gate reads

`fleet/health-gate.sh` again, now with what it makes its verdict of: the output of
`docker compose ps`, which `grep`, `cut` and `sed` take apart, and the probes inside the
containers. `Model/Fleet` only knows what the gate has read.

The table is text. Of the JSON output it is told what stands on each line, since the script
looks for no more than the fields.
-/

namespace TelegramCms

open TextTools

/-! ## Containers -/

/-- A name that Compose accepts for a service. -/
structure ServiceName where
  text : Text
  ne_nil : text ≠ []
  valid : text.all (fun c => c.isAlphanum || c == '_' || c == '-' || c == '.') = true
deriving DecidableEq, Repr

/-- What `ps` prints for the health. -/
def Health.text : Health → Text
  | .none => []
  | .starting => "starting".toList
  | .healthy => "healthy".toList
  | .unhealthy => "unhealthy".toList

inductive ContainerState where
  | created | running | paused | restarting | removing | exited | dead
deriving DecidableEq, Repr

def ContainerState.text : ContainerState → Text
  | .created => "created".toList
  | .running => "running".toList
  | .paused => "paused".toList
  | .restarting => "restarting".toList
  | .removing => "removing".toList
  | .exited => "exited".toList
  | .dead => "dead".toList

structure Container where
  service : ServiceName
  health : Health
  state : ContainerState
deriving DecidableEq, Repr

/-- What `ps --format json` comes to. -/
inductive JsonOutput where
  | fails
  /-- One object on each line. -/
  | lines
  /-- One array, on one line, as Compose before v2.21 prints it. -/
  | array
deriving DecidableEq, Repr

/-- What one poll of the gate meets. -/
structure GatePoll where
  /-- The containers that `ps` lists, in its order. -/
  containers : List Container
  /-- `ps` with the Go template succeeds, and prints no JSON. -/
  table : Bool
  json : JsonOutput
  /-- `curl` inside the container of this service gets an answer. -/
  probe : Service → Bool

/-! ## The gate -/

namespace HealthGate

/-- A line of the table. -/
def tableLine (c : Container) : Text :=
  c.service.text ++ '\t' :: (c.health.text ++ '\t' :: c.state.text)

/-- The two fields of a service pass. -/
def fieldsPass (health state : Text) : Bool :=
  if health = [] ∨ health = "none".toList then state = "running".toList
  else health = "healthy".toList

/-- The loop body of strategy A. -/
def tablePasses (output : List Text) (svc : ServiceName) : Bool :=
  match (output.filter (beginsWithWord svc.text)).head? with
  | none => false
  | some line => fieldsPass (cut 1 line) (cut 2 line)

/-- The JSON output: the containers on each of its lines. -/
def jsonLines (poll : GatePoll) : List (List Container) :=
  match poll.json with
  | .fails => []
  | .lines => poll.containers.map (fun c => [c])
  | .array => [poll.containers]

/-- `grep -i "\"Service\":\"${svc}\""` selects the line. -/
def namesService (svc : ServiceName) (line : List Container) : Bool :=
  line.any (fun c => dotMatch (fun p d => p.toLower == d.toLower) svc.text c.service.text)

/-- `sed -n 's/.*"Field":"\([^"]*\)".*/\1/p'`: the first `.*` takes as much as it can. -/
def sedField (field : Container → Text) (lines : List (List Container)) : Text :=
  captured (lines.filterMap (fun line => line.getLast?.map field))

/-- The loop body of strategy B. -/
def jsonPasses (output : List (List Container)) (svc : ServiceName) : Bool :=
  let lines := output.filter (namesService svc)
  if lines = [] then false
  else fieldsPass (sedField (fun c => c.health.text) lines) (sedField (fun c => c.state.text) lines)

variable (expected : List ServiceName) (poll : GatePoll)

/-- `check_all_healthy` -/
def checkAllHealthy : Bool :=
  let output := poll.containers.map tableLine
  if poll.table && !output.isEmpty && output.all (fun line => line.head? ≠ some '{') then
    expected.all (tablePasses output)
  else
    match poll.json with
    | .fails => false
    | _ => !(jsonLines poll).isEmpty && expected.all (jsonPasses (jsonLines poll))

/-- The services that are probed. -/
def probed : List Service := [.api, .bot, .worker, .userbot, .web]

/-- `check_via_curl` -/
def checkViaCurl : Bool := probed.all poll.probe

/-- The exit status. The polls are those that begin before the deadline. -/
def exitStatus : List GatePoll → Nat
  | [] => 1
  | poll :: polls =>
    if checkAllHealthy expected poll || checkViaCurl poll then 0 else exitStatus polls

end HealthGate

/-! ## The services of this repository -/

def Service.name : Service → ServiceName
  | .postgres => ⟨"postgres".toList, by decide, by decide⟩
  | .redis => ⟨"redis".toList, by decide, by decide⟩
  | .botapi => ⟨"botapi".toList, by decide, by decide⟩
  | .worker => ⟨"worker".toList, by decide, by decide⟩
  | .userbot => ⟨"userbot".toList, by decide, by decide⟩
  | .bot => ⟨"bot".toList, by decide, by decide⟩
  | .api => ⟨"api".toList, by decide, by decide⟩
  | .web => ⟨"web".toList, by decide, by decide⟩
  | .caddy => ⟨"caddy".toList, by decide, by decide⟩

/-- The container of a service. -/
def GatePoll.containerOf (poll : GatePoll) (s : Service) : Option Container :=
  poll.containers.find? (fun c => c.service = s.name)

/-- The poll as `Model/Fleet` has it. -/
def GatePoll.seen (poll : GatePoll) : Poll where
  table := poll.table && !poll.containers.isEmpty
  json := poll.json ≠ .fails
  report := fun s => (poll.containerOf s).map (fun c => (c.health, c.state = .running))
  curl := poll.probe

end TelegramCms
