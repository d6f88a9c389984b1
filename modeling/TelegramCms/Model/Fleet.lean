import TelegramCms.Lib.Shell
import TelegramCms.Model.Schema

/-!
# The updater of a host

`fleet/auto-update.sh` and `fleet/health-gate.sh`. The state is what the scripts work on:
the git work tree, the image tag in `.env`, and for each service the container it has,
if any, with the image tag it was made from. What the external commands do is given by
`Outcomes`, one field for each place of the script that runs one.

Lines that only print, and the best-effort registry login, image pruning and alert, are
left out: none of them can end the script or touch a container.
-/

namespace TelegramCms

open Shell

/-- A git commit, which is also the tag of the images built for it. -/
abbrev Sha := Text

/-- The services of `docker-compose.yml` that `up` starts. -/
inductive Service where
  | postgres | redis | botapi | worker | userbot | bot | api | web | caddy
deriving DecidableEq, Repr

/-- The services that run an image built from this repository. -/
def Service.isApp : Service → Bool
  | .worker | .userbot | .bot | .api | .web => true
  | _ => false

/-- The container of each service, as the image tag it was made from. -/
abbrev Stack := Service → Option Sha

/-! ## The health gate -/

inductive Health where
  | none | starting | healthy | unhealthy
deriving DecidableEq, Repr

/-- What one poll of the gate finds. -/
structure Poll where
  /-- `docker compose ps` with a Go template gives usable output. -/
  table : Bool
  /-- `docker compose ps --format json` does. -/
  json : Bool
  /-- What `ps` says of a service that has a container: its health, and whether it is
  `running`. A container that is down is not listed. -/
  report : Service → Option (Health × Bool)
  /-- `curl` inside the container gets an answer from the health endpoint. -/
  curl : Service → Bool

/-- One service's line passes. -/
def linePasses (stack : Stack) (poll : Poll) (s : Service) : Bool :=
  if (stack s).isSome then
    match poll.report s with
    | some (.none, running) => running
    | some (health, _) => health = .healthy
    | none => false
  else false

def checkAllHealthy (expected : List Service) (stack : Stack) (poll : Poll) : Bool :=
  (poll.table || poll.json) && expected.all (linePasses stack poll)

def checkViaCurl (stack : Stack) (poll : Poll) : Bool :=
  [Service.api, .bot, .worker, .userbot, .web].all (fun s => (stack s).isSome && poll.curl s)

/-- The services of the host's deployment tier, or the fallback list if
`docker compose config --services` says nothing. -/
def expectedServices (active : List Service) (configOk : Bool) : List Service :=
  if configOk ∧ active ≠ [] then active else [.postgres, .redis, .worker, .userbot, .bot]

/-- The poll loop; the polls are the ones made before the deadline. -/
def healthGate (expected : List Service) (stack : Stack) : List Poll → Nat
  | [] => 1
  | poll :: polls =>
    if checkAllHealthy expected stack poll || checkViaCurl stack poll then 0
    else healthGate expected stack polls

/-! ## The external commands -/

/-- What `up -d` did to the container of a service. -/
inductive Fate where
  | kept
  /-- The old container is gone and there is no new one. -/
  | removed
  | recreated
deriving DecidableEq, Repr

/-- One run of `docker compose up -d --remove-orphans`. It can fail at any point, but
succeeds only if the services it starts run the images they are configured with. -/
structure Up (active : List Service) where
  status : Nat
  fate : Service → Fate
  status_zero : status = 0 → ∀ s ∈ active, s.isApp = true → fate s = .recreated

/-- The containers after `up -d` under image tag `tag`. -/
def Up.stack {active : List Service} (up : Up active) (tag : Sha) (stack : Stack) : Stack :=
  fun s =>
    match up.fate s with
    | .kept => stack s
    | .removed => none
    | .recreated => some tag

structure Outcomes where
  /-- The services of the host's deployment tier (`COMPOSE_PROFILES`). -/
  active : List Service
  /-- `docker compose config --services` works. -/
  configOk : Bool := true
  lockFree : Bool := true
  /-- `fleet.conf` is there and sets the mandatory variables. -/
  confOk : Bool := true
  /-- `FLEET_ROLE == canary` -/
  canary : Bool
  /-- `FLEET_PROMOTE_REMOTE` and `FLEET_PROMOTE_TOKEN` are set. -/
  hasToken : Bool := true
  cd : Nat := 0
  insideWorkTree : Nat := 0
  fetch : Nat := 0
  /-- `git rev-parse "${FLEET_TRACK_REF}"` -/
  trackRef : Option Sha
  revParseHead : Nat := 0
  resetTarget : Nat := 0
  tagTarget : Nat := 0
  pull : Nat := 0
  resetPrev : Nat := 0
  tagPrev : Nat := 0
  migrate : Nat := 0
  up : Up active
  polls : List Poll
  remoteUrl : Nat := 0
  push : Nat := 0
  rollbackPull : Nat := 0
  rollbackMigrate : Nat := 0
  rollbackUp : Up active
  rollbackPolls : List Poll

/-! ## The script -/

/-- A call of `promote_stable`. -/
structure Promotion where
  sha : Sha
  /-- History variable: the containers when the health gate last passed. -/
  gate : Option Stack

structure Host where
  /-- `HEAD` of the work tree. -/
  head : Sha
  /-- `IMAGE_TAG` -/
  imageTag : Sha
  /-- `IMAGE_TAG` in `.env` -/
  envTag : Sha
  stack : Stack
  /-- `TARGET` and `PREV` of the script. -/
  target : Sha := []
  prev : Sha := []
  /-- What this run pushed to `refs/heads/stable`. -/
  stable : Option Sha := none
  /-- History variable: the containers when the health gate last passed. -/
  gate : Option Stack := none
  /-- History variable: the calls of `promote_stable`, in order. -/
  promotions : List Promotion := []

section Script

variable (o : Outcomes)

def die : Cmd Host := .exit 1

/-- `git reset --hard "$…"`, which moves `HEAD` if it succeeds. -/
def gitReset (status : Nat) (sha : Host → Sha) : Cmd Host :=
  .call (fun h => (if status = 0 then { h with head := sha h } else h, status))

/-- `write_image_tag`: the variable is set first, then `.env` is rewritten. -/
def writeImageTag (status : Nat) (sha : Host → Sha) : Cmd Host :=
  .block [
    .assign (fun h => { h with imageTag := sha h }),
    .call (fun h => (if status = 0 then { h with envTag := sha h } else h, status))]

def pullImages (status : Nat) : Cmd Host := .status status

def deploy (migrate : Nat) (up : Up o.active) : Cmd Host :=
  .block [
    .orElse (.status migrate) .skip,
    .call (fun h => ({ h with stack := up.stack h.imageTag h.stack }, up.status))]

/-- `health-gate.sh "$HEALTH_TIMEOUT"` -/
def runHealthGate (polls : List Poll) : Cmd Host :=
  .call (fun h =>
    let status := healthGate (expectedServices o.active o.configOk) h.stack polls
    (if status = 0 then { h with gate := some h.stack } else h, status))

def promoteStable (sha : Host → Sha) : Cmd Host :=
  .block [
    .assign (fun h => { h with promotions := h.promotions ++ [⟨sha h, h.gate⟩] }),
    .cond (.test (fun _ => o.hasToken))
      (.cond (.status o.remoteUrl)
        (.when (.status o.push) (.assign (fun h => { h with stable := some (sha h) })))
        .skip)
      .skip]

def prologue : Cmd Host :=
  .block [
    .ifNot (.test (fun _ => o.lockFree)) (.exit 0),
    .ifNot (.test (fun _ => o.confOk)) die,
    .status o.cd,
    .ifNot (.status o.insideWorkTree) die,
    .ifNot (.status o.fetch) (.exit 0),
    .orElse
      (.call (fun h => ({ h with target := o.trackRef.getD [] }, if o.trackRef.isSome then 0 else 1)))
      die,
    .status o.revParseHead,
    .when (.test (fun h => h.target = h.head)) (.exit 0),
    .assign (fun h => { h with prev := h.head })]

/-- Forward update, up to the health gate. -/
def forward : Cmd Host :=
  .block [
    gitReset o.resetTarget Host.target,
    writeImageTag o.tagTarget Host.target,
    .ifNot (pullImages o.pull) (.block [
      gitReset o.resetPrev Host.prev,
      writeImageTag o.tagPrev Host.prev,
      .exit 0]),
    .ifNot (deploy o o.migrate o.up) .skip]

def healthyPath : Cmd Host :=
  .block [
    .when (.test (fun _ => o.canary)) (promoteStable o Host.target),
    .exit 0]

/-- Auto-rollback. -/
def rollback : Cmd Host :=
  .block [
    gitReset o.resetPrev Host.prev,
    writeImageTag o.tagPrev Host.prev,
    .orElse (pullImages o.rollbackPull) .skip,
    .orElse (deploy o o.rollbackMigrate o.rollbackUp) .skip,
    .cond (runHealthGate o o.rollbackPolls) .skip .skip,
    die]

def autoUpdate : Cmd Host :=
  .block [
    prologue o,
    forward o,
    .when (runHealthGate o o.polls) (healthyPath o),
    rollback o]

end Script

/-- The host at the start of a run; what is set by then comes from `.env`. -/
def Host.boot (head imageTag : Sha) (stack : Stack) : Host :=
  { head, imageTag, envTag := imageTag, stack }

/-- The host after a run. -/
def updated (o : Outcomes) (h : Host) : Host := (exec false (autoUpdate o) h).state

/-! ## The life of a host -/

/-- What happens to a host whose deployment tier has the services `active`. -/
inductive HostAct (active : List Service) where
  /-- A run of `auto-update.sh`. If it is not through by then, it is killed after so many
  simple commands. -/
  | update (o : Outcomes) (tier : o.active = active) (commands : Nat)
  /-- A reboot. `tg-cms.service` takes the stack `down`, if the host is shut down in order,
  and brings it up at boot. -/
  | reboot (down : Bool) (up : Up active)

/-- The commit, the tag in `.env` and the containers outlive a run; the variables do not. -/
def hostStep {active : List Service} (h : Host) : HostAct active → Option Host
  | .update o _ k =>
    let s := (execFor k false (autoUpdate o) h).state
    some (Host.boot s.head s.envTag s.stack)
  | .reboot down up =>
    some (Host.boot h.head h.envTag (up.stack h.envTag (if down then fun _ => none else h.stack)))

end TelegramCms
