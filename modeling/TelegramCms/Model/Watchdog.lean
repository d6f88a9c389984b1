import Mathlib.Algebra.Group.Nat.Defs
import TelegramCms.Lib.Transition
import TelegramCms.Model.Schema

/-!
# The watchdog of the userbot

`_watchdog` of `userbot/main.py`: sleep, probe the MTProto connection, and alert on
transitions. A cycle of its loop is one step here, since nothing else writes what it
reads. `CycleLog` is a history variable: what each cycle ended with.
-/

namespace TelegramCms

/-! ## Liveness -/

/-- The module-level liveness state. -/
structure Liveness where
  connected : Bool
  authorized : Bool
  lastOk : Option Time
  failureCount : Nat := 0
  failureReason : Text := []
deriving DecidableEq, Repr

inductive ProbeError where
  /-- One of `_FATAL_ERRORS`. -/
  | fatal (name : Text)
  | floodWait (seconds : Nat)
  | other (name : Text)
deriving DecidableEq, Repr

/-- `reason` in the handler of the exception. -/
def ProbeError.reason : ProbeError → Text
  | .fatal name => name
  | .floodWait s => "floodwait:".toList ++ Nat.toDigits 10 s ++ ['s']
  | .other name => name

/-- What the calls of a probe answer. Each is made only if the ones before it allow. -/
structure Answers where
  /-- `client.is_connected()` -/
  connected : Except ProbeError Bool
  /-- `client.is_user_authorized()` -/
  authorized : Except ProbeError Bool := .ok true
  /-- `client.get_me()` -/
  getMe : Except ProbeError Unit := .ok ()

namespace Liveness

variable (live : Liveness)

def fail (reason : Text) : Liveness :=
  { live with failureCount := live.failureCount + 1, failureReason := reason }

/-- A call raised. The second component is the name of a fatal error. -/
def raised : ProbeError → Liveness × Option Text
  | .fatal name => (live.fail name, some name)
  | e => (live.fail e.reason, none)

/-- The probe of one cycle, over at time `now`. -/
def probe (a : Answers) (now : Time) : Liveness × Option Text :=
  match a.connected with
  | .error e => live.raised e
  | .ok false => ({ live with connected := false }.fail "disconnected".toList, none)
  | .ok true =>
    match a.authorized with
    | .error e => { live with connected := true }.raised e
    | .ok false =>
      ({ live with connected := true, authorized := false }.fail "unauthorized".toList, none)
    | .ok true =>
      match a.getMe with
      | .error e => { live with connected := true, authorized := true }.raised e
      | .ok () => (⟨true, true, some now, 0, []⟩, none)

end Liveness

/-- `_WATCHDOG_INTERVAL_SECONDS` -/
def watchdogInterval : Nat := 30

/-- `_WATCHDOG_STALE_SECONDS` -/
def watchdogStale : Nat := watchdogInterval * 3

/-- `f"{age:.0f}"`: halves are rounded to even. -/
def roundedSeconds (age : Int) : Int :=
  let q := age / 1_000_000
  let r := age % 1_000_000
  if 500_000 < r ∨ (r = 500_000 ∧ q % 2 = 1) then q + 1 else q

/-- `_is_mtproto_healthy` -/
def isMtprotoHealthy (live : Liveness) (now : Time) : Bool × Text :=
  if !live.connected then (false, "disconnected".toList)
  else if !live.authorized then (false, "unauthorized".toList)
  else
    match live.lastOk with
    | none => (false, "never_checked".toList)
    | some t =>
      if seconds watchdogStale < now - t then
        let reason := if live.failureReason = [] then "stale".toList else live.failureReason
        (false, "stale:".toList ++ (toString (roundedSeconds (now - t))).toList ++ "s (".toList
          ++ reason ++ [')'])
      else (true, "ok".toList)

/-! ## The loop -/

inductive Alert where
  | unhealthy (detail : Text)
  | recovered
  | terminated (reason : Text)
deriving DecidableEq, Repr

/-- The text of the alert. -/
def Alert.text : Alert → Text
  | .unhealthy detail => "⚠️ Userbot MTProto session unhealthy: ".toList ++ detail
  | .recovered => "✅ Userbot MTProto session recovered and is healthy again.".toList
  | .terminated reason => "🚨 Userbot session TERMINATED: ".toList ++ reason ++
      " — manual re-login required (docker compose run --rm -it userbot python -m userbot.login)".toList

/-- What a cycle ended with. -/
structure CycleLog where
  /-- What `_is_mtproto_healthy` says. -/
  healthy : Bool
  /-- The alerts that were enqueued. -/
  alerts : List Alert
deriving DecidableEq, Repr

structure Watchdog where
  now : Time
  live : Liveness
  /-- `None`: first cycle, no prior state. -/
  wasHealthy : Option Bool := none
  stopped : Bool := false
  /-- History variable: the cycles so far, oldest first. -/
  log : List CycleLog := []

/-- What one cycle meets outside. -/
structure Cycle where
  /-- How long it sleeps, in microseconds. -/
  slept : Nat
  answers : Answers
  /-- How long the probe takes, and how long it is from there to the look at the health. -/
  probing : Nat := 0
  checking : Nat := 0
  /-- `enqueue_alert` succeeds. -/
  alertOk : Bool := true

/-- The seconds the loop sleeps after so many failures. -/
def sleepSeconds (failureCount : Nat) : Nat :=
  if 0 < failureCount then min (watchdogInterval * 2 ^ min (failureCount - 1) 4) 300
  else watchdogInterval

/-- The alert at the end of a cycle. In the first one there is nothing to compare with. -/
def transitionAlert (was : Option Bool) (healthy : Bool) (detail : Text) : List Alert :=
  match was with
  | none => []
  | some was =>
    if was && !healthy then [.unhealthy detail]
    else if !was && healthy then [.recovered]
    else []

namespace Watchdog

variable (w : Watchdog)

/-- A fatal error: one alert, and the loop is left. -/
def terminate (live : Liveness) (now : Time) (reason : Text) (alertOk : Bool) : Watchdog :=
  { w with
    now := now
    live := live
    stopped := true
    log := w.log ++ [⟨(isMtprotoHealthy live now).1, if alertOk then [.terminated reason] else []⟩] }

/-- Edge-triggered alerting. -/
def check (live : Liveness) (now : Time) (alertOk : Bool) : Watchdog :=
  let (healthy, detail) := isMtprotoHealthy live now
  let alerts := transitionAlert w.wasHealthy healthy detail
  { w with
    now := now
    live := live
    wasHealthy := some healthy
    log := w.log ++ [⟨healthy, if alertOk then alerts else []⟩] }

/-- One cycle of the loop. -/
def step (c : Cycle) : Option Watchdog :=
  if w.stopped ∨ (c.slept : Time) < seconds (sleepSeconds w.live.failureCount) then none
  else
    let at_ := w.now + c.slept + c.probing
    match w.live.probe c.answers at_ with
    | (live, some name) => some (w.terminate live at_ name c.alertOk)
    | (live, none) => some (w.check live (at_ + c.checking) c.alertOk)

/-- The watchdog when `run` starts it: `client.start()` and `get_me()` succeeded at `now`. -/
def started (now : Time) (connected : Bool) : Watchdog where
  now := now
  live := { connected := connected, authorized := true, lastOk := some now }

end Watchdog

end TelegramCms
