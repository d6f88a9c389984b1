import Mathlib.Logic.Function.Basic
import TelegramCms.Lib.Transition
import TelegramCms.Model.Http

/-!
# Rate limiting

`rateLimit` of `apigo/ratelimit.go`, and the routes that `router` puts behind it. A handler
sends `INCR` and, if that answered 1, `EXPIRE`. A command that is not answered is sent again, as
often as the client of `apigo/main.go` does by default, or given up. Other requests, time and the
end of the process can come in between. Times are milliseconds of the clock of Redis.
-/

namespace TelegramCms

/-! ## Requests -/

/-- The host of `net.SplitHostPort(hostport)`; `none` is an error. -/
def splitHost (hostport : Text) : Option Text :=
  match hostport.reverse.idxOf? ':' with
  | none => none
  | some fromEnd =>
    let i := hostport.length - 1 - fromEnd
    if hostport.head? = some '[' then
      match hostport.idxOf? ']' with
      | none => none
      | some e =>
        if e + 1 = i ∧ '[' ∉ hostport.drop 1 ∧ ']' ∉ hostport.drop (e + 1) then
          some ((hostport.take e).drop 1)
        else none
    else if ':' ∉ hostport.take i ∧ '[' ∉ hostport ∧ ']' ∉ hostport then some (hostport.take i)
    else none

def clientIP (remoteAddr : Text) : Text := (splitHost remoteAddr).getD remoteAddr

/-- The parameters of `rateLimit`. -/
structure RateLimit where
  limit : Nat
  window : Nat
  bucket : Text

/-- The routes with a limit. -/
inductive LimitedRoute where
  | login | token
deriving DecidableEq, Repr

def LimitedRoute.rateLimit : LimitedRoute → RateLimit
  | .login => ⟨10, 60_000, "login".toList⟩
  | .token => ⟨10, 60_000, "token".toList⟩

def rateKey (bucket ip : Text) : Text := "api:ratelimit:".toList ++ bucket ++ ":".toList ++ ip

/-- What the middleware answers when its request is the `n`th; with `none` the handler behind
it does. -/
def RateLimit.answer (l : RateLimit) (n : Nat) : Option HttpAnswer :=
  if l.limit < n then
    some (.error 429 ("Rate limit exceeded: " ++ toString l.limit ++ " per 1 minute"))
  else none

/-! ## Redis -/

structure Counter where
  value : Nat
  /-- `none`: it has no TTL. -/
  expiresAt : Option Nat
  /-- History variable: when it was created. -/
  started : Nat
  /-- History variable: when the first of the requests arrived that it counts. -/
  oldest : Nat
deriving DecidableEq, Repr

/-- `MaxRetries` of the client, by default. -/
def maxRetries : Nat := 3

/-- What becomes of a command that is sent. -/
inductive CommandFate where
  | done
  /-- It is executed, but the answer does not arrive. -/
  | lost
  | failed
deriving DecidableEq, Repr

/-! ## Runs -/

structure Arrival where
  route : LimitedRoute
  ip : Text
  time : Nat
deriving DecidableEq, Repr

/-- A request that waits for the answer to a command. -/
structure LimitedRequest where
  arrival : Arrival
  /-- How often the command was sent again. -/
  resent : Nat := 0
  /-- History variable: its `INCR` was executed. -/
  executed : Bool := false
deriving DecidableEq, Repr

/-- A request that was answered, when, and the arrivals until then. -/
structure LimitedAnswer where
  arrival : Arrival
  time : Nat
  upTo : List Arrival
  /-- `none`: the handler behind the middleware has it. -/
  answer : Option HttpAnswer

structure Limiter where
  now : Nat := 0
  counters : Text → Option Counter := fun _ => none
  /-- Requests whose handlers send `INCR`. -/
  sending : List LimitedRequest := []
  /-- Requests whose handlers send `EXPIRE`. -/
  expiring : List LimitedRequest := []
  /-- History variable: the requests that arrived, oldest first. -/
  arrivals : List Arrival := []
  /-- History variable: what the middleware answered. -/
  answers : List LimitedAnswer := []

inductive LimiterAction where
  | wait (ms : Nat)
  | request (route : LimitedRoute) (remoteAddr : Text)
  /-- The `INCR` of the request at index `i` is sent; without an answer, it is to be sent again
  or given up. -/
  | incr (i : Nat) (fate : CommandFate) (again : Bool)
  /-- Its `EXPIRE` is sent. The handler looks at no answer, but waits for one. -/
  | expire (i : Nat) (fate : CommandFate) (again : Bool)
  /-- The process dies, and another one is started. -/
  | die

namespace Arrival

def key (a : Arrival) : Text := rateKey a.route.rateLimit.bucket a.ip

end Arrival

namespace LimitedRequest

/-- After a command of it was sent. -/
def sent (r : LimitedRequest) (fate : CommandFate) : LimitedRequest :=
  { r with resent := r.resent + 1, executed := r.executed || decide (fate ≠ .failed) }

/-- The client sends the command again. -/
def resends (r : LimitedRequest) (fate : CommandFate) : Prop :=
  fate ≠ .done ∧ r.resent < maxRetries

instance (r : LimitedRequest) (fate : CommandFate) : Decidable (r.resends fate) :=
  inferInstanceAs (Decidable (fate ≠ .done ∧ r.resent < maxRetries))

end LimitedRequest

namespace Limiter

variable (w : Limiter)

/-- The value of a key that has not expired. -/
def counter (key : Text) : Option Counter :=
  (w.counters key).filter (fun c => c.expiresAt.all (fun t => w.now ≤ t))

/-- The counter of the request's key after `INCR`. -/
def incr (a : Arrival) : Counter :=
  match w.counter a.key with
  | none => ⟨1, none, w.now, a.time⟩
  | some c => { c with value := c.value + 1, oldest := min c.oldest a.time }

/-- The counters after `INCR` was sent. -/
def counted (a : Arrival) (fate : CommandFate) : Text → Option Counter :=
  if fate = .failed then w.counters else Function.update w.counters a.key (some (w.incr a))

/-- The counters after `EXPIRE` was sent. -/
def expire (a : Arrival) (fate : CommandFate) : Text → Option Counter :=
  if fate = .failed then w.counters
  else Function.update w.counters a.key ((w.counter a.key).map (fun c =>
    { c with expiresAt := some (w.now + a.route.rateLimit.window) }))

/-- The answers, with one more. -/
def answered (a : Arrival) (answer : Option HttpAnswer) : List LimitedAnswer :=
  w.answers ++ [⟨a, w.now, w.arrivals, answer⟩]

/-- The `INCR` was answered with 1. -/
def begins (a : Arrival) (fate : CommandFate) : Bool :=
  decide (fate = .done) && decide ((w.incr a).value = 1)

/-- What the middleware answers after `INCR`; an error lets the request pass. -/
def incrAnswer (a : Arrival) (fate : CommandFate) : Option HttpAnswer :=
  if fate = .done then a.route.rateLimit.answer (w.incr a).value else none

/-- The `INCR` of request `r` at index `i` is sent. -/
def sendIncr (i : Nat) (r : LimitedRequest) (fate : CommandFate) (again : Bool) : Option Limiter :=
  let counters := w.counted r.arrival fate
  if again = true then
    if r.resends fate then
      some { w with counters := counters, sending := w.sending.set i (r.sent fate) }
    else none
  else if w.begins r.arrival fate then
    some { w with
      counters := counters
      sending := w.sending.eraseIdx i
      expiring := w.expiring ++ [{ arrival := r.arrival }] }
  else
    some { w with
      counters := counters
      sending := w.sending.eraseIdx i
      answers := w.answered r.arrival (w.incrAnswer r.arrival fate) }

/-- The `EXPIRE` of request `r` at index `i` is sent. -/
def sendExpire (i : Nat) (r : LimitedRequest) (fate : CommandFate) (again : Bool) : Option Limiter :=
  let counters := w.expire r.arrival fate
  if again = true then
    if r.resends fate then
      some { w with counters := counters, expiring := w.expiring.set i (r.sent fate) }
    else none
  else
    some { w with
      counters := counters
      expiring := w.expiring.eraseIdx i
      answers := w.answered r.arrival (r.arrival.route.rateLimit.answer 1) }

def step : LimiterAction → Option Limiter
  | .wait ms => some { w with now := w.now + ms }
  | .request route remoteAddr =>
    let a : Arrival := ⟨route, clientIP remoteAddr, w.now⟩
    some { w with arrivals := w.arrivals ++ [a], sending := w.sending ++ [{ arrival := a }] }
  | .incr i fate again => (w.sending[i]?).bind (fun r => w.sendIncr i r fate again)
  | .expire i fate again => (w.expiring[i]?).bind (fun r => w.sendExpire i r fate again)
  | .die => some { w with sending := [], expiring := [] }

end Limiter

end TelegramCms
