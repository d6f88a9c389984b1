import Mathlib.Data.List.Perm.Basic
import TelegramCms.Model.RateLimit

/-!
# When a request is refused

The counter of a key counts the requests whose `INCR` was executed since it was created. A
refusal is justified as long as it counts every request once, and none that arrived before the
window. `EXPIRE` alone sees to the second, and nothing looks at whether it was executed: after one
failure a counter stays for good, and from its limit on every request is refused
(`refused_alone`). Nothing sees to the first: an `INCR` whose answer is lost is sent again.
-/

namespace TelegramCms

open Transition

/-- The key tells the routes and the addresses apart. -/
theorem Arrival.key_inj {a b : Arrival} (h : a.key = b.key) : a.route = b.route ∧ a.ip = b.ip := by
  unfold key rateKey at h
  cases ha : a.route <;> cases hb : b.route <;> rw [ha, hb] at h
  · exact ⟨rfl, List.append_cancel_left h⟩
  · exact absurd h (by simp [LimitedRoute.rateLimit])
  · exact absurd h (by simp [LimitedRoute.rateLimit])
  · exact ⟨rfl, List.append_cancel_left h⟩

/-- The request `b` comes from the address of `a` to the route of `a`, at `t` or later. -/
def Arrival.After (a : Arrival) (t : Nat) (b : Arrival) : Prop :=
  b.route = a.route ∧ b.ip = a.ip ∧ t ≤ b.time

instance (a : Arrival) (t : Nat) : DecidablePred (a.After t) :=
  fun b => inferInstanceAs (Decidable (b.route = a.route ∧ b.ip = a.ip ∧ t ≤ b.time))

/-- How many requests from the address of `a` to the route of `a` arrived at `t` or later. -/
def since (a : Arrival) (t : Nat) (arrivals : List Arrival) : Nat :=
  arrivals.countP (fun b => a.After t b)

/-- How many requests like this one arrived within the window that ends with its answer. -/
def LimitedAnswer.inWindow (x : LimitedAnswer) : Nat :=
  since x.arrival (x.time - x.arrival.route.rateLimit.window) x.upTo

/-- The property: a request is refused only if more than `limit` requests arrived within the
preceding window. -/
def Justified (x : LimitedAnswer) : Prop :=
  x.answer ≠ none → x.arrival.route.rateLimit.limit < x.inWindow

theorem RateLimit.answer_ne_none {l : RateLimit} {n : Nat} (h : l.answer n ≠ none) : l.limit < n := by
  by_contra hn
  exact h (if_neg hn)

theorem LimitedRoute.limit_pos (route : LimitedRoute) : 0 < route.rateLimit.limit := by
  cases route <;> decide

theorem LimitedRoute.answer_one (route : LimitedRoute) : route.rateLimit.answer 1 = none := by
  cases route <;> rfl

theorem Arrival.after_congr {a b : Arrival} (h : a.key = b.key) {t : Nat} :
    a.After t = b.After t := by
  obtain ⟨hroute, hip⟩ := Arrival.key_inj h
  funext c
  rw [Arrival.After, Arrival.After, hroute, hip]

theorem Arrival.after_self {a : Arrival} {t : Nat} (h : t ≤ a.time) : a.After t a := ⟨rfl, rfl, h⟩

namespace Limiter

variable {w w' : Limiter} {a b : Arrival} {act : LimiterAction} {i t : Nat} {r : LimitedRequest}
  {fate : CommandFate} {again : Bool} {tr : List (Limiter × LimiterAction)}

/-- The condition: no `INCR` is executed twice, and a request that meets a counter at its limit is
within the window with all the requests it counts. -/
def MeetsFresh (w : Limiter) : LimiterAction → Prop
  | .incr i fate _ => ∀ r ∈ w.sending[i]?, (fate ≠ .failed → r.executed = false)
    ∧ (fate = .done → ∀ c ∈ w.counter r.arrival.key, r.arrival.route.rateLimit.limit ≤ c.value →
      w.now ≤ min c.oldest r.arrival.time + r.arrival.route.rateLimit.window)
  | _ => True

instance (w : Limiter) : DecidablePred (MeetsFresh w)
  | .incr i fate _ => inferInstanceAs (Decidable (∀ r ∈ w.sending[i]?,
    (fate ≠ .failed → r.executed = false)
      ∧ (fate = .done → ∀ c ∈ w.counter r.arrival.key, r.arrival.route.rateLimit.limit ≤ c.value →
        w.now ≤ min c.oldest r.arrival.time + r.arrival.route.rateLimit.window)))
  | .wait _ | .request .. | .expire .. | .die => .isTrue trivial

/-! ## What a step does -/

theorem counter_stored {key : Text} {c : Counter} (h : w.counter key = some c) :
    w.counters key = some c :=
  (Option.filter_eq_some_iff.mp h).1

/-- An `INCR` of request `r` is sent, at index `i`. -/
structure IncrStep (w : Limiter) (i : Nat) (fate : CommandFate) (again : Bool) (r : LimitedRequest)
    (w' : Limiter) : Prop where
  mem : w.sending[i]? = some r
  done : fate = .done → again = false
  now : w'.now = w.now
  arrivals : w'.arrivals = w.arrivals
  counters : w'.counters = w.counted r.arrival fate
  sending : w'.sending = if again then w.sending.set i (r.sent fate) else w.sending.eraseIdx i
  expiring : w'.expiring = if again = false ∧ w.begins r.arrival fate = true
    then w.expiring ++ [{ arrival := r.arrival }] else w.expiring
  answers : w'.answers = if again = true ∨ w.begins r.arrival fate = true then w.answers
    else w.answered r.arrival (w.incrAnswer r.arrival fate)

theorem incr_cases (h : w.step (.incr i fate again) = some w') :
    ∃ r, IncrStep w i fate again r w' := by
  obtain ⟨r, hr, h⟩ := Option.bind_eq_some_iff.mp h
  refine ⟨r, ?_⟩
  unfold sendIncr at h
  split at h
  · rename_i hagain
    split at h
    · rename_i hre
      obtain rfl := Option.some.inj h
      rw [hagain]
      exact ⟨hr, fun hd => absurd hd hre.1, rfl, rfl, rfl, rfl, by simp, by simp⟩
    · exact absurd h (by simp)
  · rename_i hagain
    rw [Bool.not_eq_true] at hagain
    split at h
    · rename_i hb
      obtain rfl := Option.some.inj h
      rw [hagain]
      exact ⟨hr, fun _ => rfl, rfl, rfl, rfl, rfl, by simp [hb], by simp [hb]⟩
    · rename_i hb
      obtain rfl := Option.some.inj h
      rw [hagain]
      exact ⟨hr, fun _ => rfl, rfl, rfl, rfl, rfl, by simp [hb], by simp [hb]⟩

/-- An `EXPIRE` of request `r` is sent, at index `i`. -/
structure ExpireStep (w : Limiter) (i : Nat) (fate : CommandFate) (again : Bool)
    (r : LimitedRequest) (w' : Limiter) : Prop where
  mem : w.expiring[i]? = some r
  now : w'.now = w.now
  arrivals : w'.arrivals = w.arrivals
  counters : w'.counters = w.expire r.arrival fate
  sending : w'.sending = w.sending
  expiring : w'.expiring = if again then w.expiring.set i (r.sent fate) else w.expiring.eraseIdx i
  answers : w'.answers = if again then w.answers else w.answered r.arrival none

theorem expire_cases (h : w.step (.expire i fate again) = some w') :
    ∃ r, ExpireStep w i fate again r w' := by
  obtain ⟨r, hr, h⟩ := Option.bind_eq_some_iff.mp h
  refine ⟨r, ?_⟩
  unfold sendExpire at h
  split at h
  · rename_i hagain
    split at h
    · obtain rfl := Option.some.inj h
      rw [hagain]
      exact ⟨hr, rfl, rfl, rfl, rfl, rfl, rfl⟩
    · exact absurd h (by simp)
  · rename_i hagain
    rw [Bool.not_eq_true] at hagain
    obtain rfl := Option.some.inj h
    rw [hagain, r.arrival.route.answer_one]
    exact ⟨hr, rfl, rfl, rfl, rfl, rfl, rfl⟩

theorem incrAnswer_ne_none (h : w.incrAnswer a fate ≠ none) :
    fate = .done ∧ a.route.rateLimit.limit < (w.incr a).value := by
  unfold incrAnswer at h
  split at h
  · rename_i hdone
    exact ⟨hdone, RateLimit.answer_ne_none h⟩
  · exact absurd rfl h

/-- What one `INCR` can add to the answers. -/
theorem IncrStep.mem_answers (h : IncrStep w i fate again r w') {x : LimitedAnswer}
    (hx : x ∈ w'.answers) :
    x ∈ w.answers ∨ x = ⟨r.arrival, w.now, w.arrivals, w.incrAnswer r.arrival fate⟩ := by
  rw [h.answers] at hx
  split at hx
  · exact .inl hx
  · rcases List.mem_append.mp hx with hx | hx
    · exact .inl hx
    · exact .inr (List.mem_singleton.mp hx)

theorem ExpireStep.mem_answers (h : ExpireStep w i fate again r w') {x : LimitedAnswer}
    (hx : x ∈ w'.answers) : x ∈ w.answers ∨ x = ⟨r.arrival, w.now, w.arrivals, none⟩ := by
  rw [h.answers] at hx
  split at hx
  · exact .inl hx
  · rcases List.mem_append.mp hx with hx | hx
    · exact .inl hx
    · exact .inr (List.mem_singleton.mp hx)

/-- `EXPIRE` changes nothing but a TTL. -/
theorem expire_stored {key : Text} {c : Counter} (h : w.expire a fate key = some c) :
    ∃ c', w.counters key = some c' ∧ c.value = c'.value ∧ c.started = c'.started
      ∧ c.oldest = c'.oldest := by
  unfold expire at h
  split at h
  · exact ⟨c, h, rfl, rfl, rfl⟩
  · by_cases hk : key = a.key
    · rw [hk, Function.update_self] at h
      obtain ⟨c', hc', rfl⟩ := Option.map_eq_some_iff.mp h
      exact ⟨c', hk ▸ counter_stored hc', rfl, rfl, rfl⟩
    · rw [Function.update_of_ne hk] at h
      exact ⟨c, h, rfl, rfl, rfl⟩

/-! ## What the counters count -/

/-- How many of these requests are still to be counted. -/
def pending (w : Limiter) (a : Arrival) (t : Nat) : Nat :=
  w.sending.countP (fun r => a.After t r.arrival ∧ r.executed = false)

/-- Counters count what arrived, each request once. -/
structure Sound (w : Limiter) : Prop where
  counted : ∀ (a : Arrival) (c : Counter), w.counters a.key = some c → ∀ t ≤ c.oldest,
    c.value + w.pending a t ≤ since a t w.arrivals
  waiting : ∀ a t, w.pending a t ≤ since a t w.arrivals
  answers : ∀ x ∈ w.answers, Justified x

theorem sound_initial : Sound {} where
  counted := by simp
  waiting := by simp [pending]
  answers := by simp

/-- A request whose `INCR` is executed is no longer to be counted. -/
theorem IncrStep.pending_add (h : IncrStep w i fate again r w') (a : Arrival) (t : Nat) :
    w'.pending a t
        + (if (a.After t r.arrival ∧ r.executed = false) ∧ fate ≠ .failed then 1 else 0)
      ≤ w.pending a t := by
  obtain ⟨hi, hri⟩ := List.getElem?_eq_some_iff.mp h.mem
  have hold := (List.getElem_cons_eraseIdx_perm hi).countP_eq
    (fun r => a.After t r.arrival ∧ r.executed = false)
  rw [hri, List.countP_cons] at hold
  rw [pending, pending, h.sending, ← hold]
  -- the request goes on, or its command is sent once more and it stays where it is
  cases again with
  | false =>
      simp only [Bool.false_eq_true, if_false, decide_eq_true_eq]
      by_cases hp : a.After t r.arrival ∧ r.executed = false
      · rw [if_pos hp]
        split <;> omega
      · rw [if_neg hp, if_neg fun h => hp h.1]
  | true =>
      have hnew := (List.set_perm_cons_eraseIdx hi (r.sent fate)).countP_eq
        (fun r => a.After t r.arrival ∧ r.executed = false)
      rw [List.countP_cons] at hnew
      rw [if_pos rfl, hnew, Nat.add_assoc]
      refine Nat.add_le_add_left ?_ _
      by_cases hp : a.After t r.arrival ∧ r.executed = false
      · by_cases hf : fate = .failed
        · simp [hp, hf, LimitedRequest.sent]
        · simp [hp, hf, LimitedRequest.sent]
      · have hp' : ¬ (a.After t (r.sent fate).arrival ∧ (r.sent fate).executed = false) := by
          rintro ⟨hafter, hex⟩
          rw [LimitedRequest.sent, Bool.or_eq_false_iff] at hex
          exact hp ⟨hafter, hex.1⟩
        simp [hp, hp']

theorem IncrStep.pending_le (h : IncrStep w i fate again r w') (a : Arrival) (t : Nat) :
    w'.pending a t ≤ w.pending a t :=
  Nat.le_trans (Nat.le_add_right _ _) (h.pending_add a t)

/-- The counter that an `INCR` leaves counts its request. -/
theorem IncrStep.counts (h : IncrStep w i fate again r w') (hw : Sound w) (hf : fate ≠ .failed)
    (hex : r.executed = false) (ha : a.key = r.arrival.key)
    (ht : t ≤ (w.incr r.arrival).oldest) :
    (w.incr r.arrival).value + w'.pending a t ≤ since a t w.arrivals := by
  have hle := h.pending_add a t
  unfold incr at ht ⊢
  cases hc : w.counter r.arrival.key with
  | none =>
      -- the counter begins with this request
      rw [hc] at ht
      have hafter : a.After t r.arrival := by
        rw [Arrival.after_congr ha]
        exact Arrival.after_self ht
      rw [if_pos ⟨⟨hafter, hex⟩, hf⟩] at hle
      have hwait := hw.waiting a t
      dsimp only
      omega
  | some c =>
      -- it counted those before, and now this one
      rw [hc] at ht
      obtain ⟨hold, hnew⟩ := Nat.le_min.mp ht
      have hafter : a.After t r.arrival := by
        rw [Arrival.after_congr ha]
        exact Arrival.after_self hnew
      rw [if_pos ⟨⟨hafter, hex⟩, hf⟩] at hle
      have hcount := hw.counted a c (ha ▸ counter_stored hc) t hold
      dsimp only
      omega

theorem sound_incr (hw : Sound w) (h : IncrStep w i fate again r w')
    (hfresh : MeetsFresh w (.incr i fate again)) : Sound w' := by
  obtain ⟨honce, hwindow⟩ := hfresh r h.mem
  refine ⟨fun a c hc t ht => ?_, fun a t => ?_, fun x hx => ?_⟩
  · rw [h.arrivals]
    have hsame : ∀ c, w.counters a.key = some c → t ≤ c.oldest →
        c.value + w'.pending a t ≤ since a t w.arrivals := fun c hc ht =>
      Nat.le_trans (Nat.add_le_add_left (h.pending_le a t) _) (hw.counted a c hc t ht)
    rw [h.counters, Limiter.counted] at hc
    split at hc
    · exact hsame c hc ht
    · rename_i hf
      by_cases hk : a.key = r.arrival.key
      · rw [hk, Function.update_self] at hc
        obtain rfl := Option.some.inj hc
        exact h.counts hw hf (honce hf) hk ht
      · rw [Function.update_of_ne hk] at hc
        exact hsame c hc ht
  · rw [h.arrivals]
    exact Nat.le_trans (h.pending_le a t) (hw.waiting a t)
  · rcases h.mem_answers hx with hx | rfl
    · exact hw.answers x hx
    · intro hne
      obtain ⟨hdone, hlimit⟩ := incrAnswer_ne_none hne
      have hf : fate ≠ .failed := by simp [hdone]
      -- refused by a counter that counts requests of this window only
      have hage : w.now - r.arrival.route.rateLimit.window ≤ (w.incr r.arrival).oldest := by
        have hpos := r.arrival.route.limit_pos
        unfold incr at hlimit ⊢
        cases hc : w.counter r.arrival.key with
        | none => rw [hc] at hlimit; dsimp only at hlimit; omega
        | some c =>
            rw [hc] at hlimit
            exact Nat.sub_le_of_le_add (hwindow hdone c hc (Nat.le_of_lt_succ hlimit))
      have hcount := h.counts hw hf (honce hf) rfl hage
      exact Nat.lt_of_lt_of_le hlimit (Nat.le_trans (Nat.le_add_right _ _) hcount)

theorem sound_expire (hw : Sound w) (h : ExpireStep w i fate again r w') : Sound w' := by
  have hpending : ∀ a t, w'.pending a t = w.pending a t := by
    intro a t
    rw [pending, h.sending, pending]
  refine ⟨fun a c hc t ht => ?_, fun a t => ?_, fun x hx => ?_⟩
  · rw [hpending, h.arrivals]
    rw [h.counters] at hc
    obtain ⟨c', hc', hvalue, -, holdest⟩ := expire_stored hc
    rw [hvalue]
    exact hw.counted a c' hc' t (holdest ▸ ht)
  · rw [hpending, h.arrivals]
    exact hw.waiting a t
  · rcases h.mem_answers hx with hx | rfl
    · exact hw.answers x hx
    · exact fun hne => absurd rfl hne

/-- A request that arrives is to be counted. -/
theorem sound_request (hw : Sound w) (b : Arrival) : Sound { w with
    arrivals := w.arrivals ++ [b], sending := w.sending ++ [{ arrival := b }] } := by
  have hone : ∀ a t, pending { w with
      arrivals := w.arrivals ++ [b], sending := w.sending ++ [{ arrival := b }] } a t
        = w.pending a t + if a.After t b then 1 else 0 := by
    intro a t
    rw [pending, List.countP_append, List.countP_singleton, pending]
    simp
  have hmore : ∀ a t, since a t (w.arrivals ++ [b])
      = since a t w.arrivals + if a.After t b then 1 else 0 := by
    intro a t
    rw [since, List.countP_append, List.countP_singleton, since]
    simp
  refine ⟨fun a c hc t ht => ?_, fun a t => ?_, hw.answers⟩
  · rw [hone, hmore, ← Nat.add_assoc]
    exact Nat.add_le_add_right (hw.counted a c hc t ht) _
  · rw [hone, hmore]
    exact Nat.add_le_add_right (hw.waiting a t) _

theorem sound_step (hw : Sound w) (hfresh : MeetsFresh w act) (h : w.step act = some w') :
    Sound w' := by
  cases act with
  | wait ms =>
      obtain rfl := Option.some.inj h
      exact ⟨hw.counted, hw.waiting, hw.answers⟩
  | request route remoteAddr =>
      obtain rfl := Option.some.inj h
      exact sound_request hw _
  | incr i fate again =>
      obtain ⟨r, h⟩ := incr_cases h
      exact sound_incr hw h hfresh
  | expire i fate again =>
      obtain ⟨r, h⟩ := expire_cases h
      exact sound_expire hw h
  | die =>
      obtain rfl := Option.some.inj h
      refine ⟨fun a c hc t ht => ?_, fun a t => Nat.zero_le _, hw.answers⟩
      exact Nat.le_trans (Nat.add_le_add_left (Nat.zero_le _) _) (hw.counted a c hc t ht)

/-- **In a run in which no `INCR` is executed twice and no request meets a counter at its limit
that counts one from before the window, a request is answered 429 only if more than `limit`
requests from its address to its bucket arrived within the window before the answer.**

The invariant counts the requests that have arrived and are not counted yet besides the counter's
value, so that it does not matter when an `INCR` comes through. -/
theorem refused_justified (h : Trace step {} tr w) (hg : AllSteps MeetsFresh tr) :
    ∀ x ∈ w.answers, Justified x :=
  (h.invariant (fun _ _ _ hw hf hs => sound_step hw hf hs) hg sound_initial).answers

/-! ### Logins from one address -/

/-- A login whose `INCR` is answered at once. -/
def sampleLogin : List LimiterAction :=
  [.request .login "203.0.113.7:52113".toList, .incr 0 .done false]

/-- The answers, and how many requests arrived within the window before each. -/
def outcome (w : Limiter) : List (Option Nat × Nat) :=
  w.answers.map (fun x => (x.answer.map HttpAnswer.status, x.inWindow))

/-- Eleven requests at once. The first `INCR` does not get through at first. -/
def burst : List LimiterAction :=
  [.request .login "203.0.113.7:52113".toList, .incr 0 .failed true, .incr 0 .done false,
    .expire 0 .done false] ++ (List.replicate 10 sampleLogin).flatten

/-- The eleventh request is refused, and it is the eleventh of its window. -/
theorem refused_justified_burst :
    ∃ w, runs step {} burst = some w ∧ (outcome w).getLast? = some (some 429, 11)
      ∧ ∀ x ∈ w.answers, Justified x := by
  have hrun : (runs step {} burst).map (fun w => (outcome w).getLast?)
      = some (some (some 429, 11)) := by decide +kernel
  obtain ⟨w, hw, hlast⟩ := Option.map_eq_some_iff.mp hrun
  have hg : AllSteps MeetsFresh (trail step {} burst) := by decide +kernel
  exact ⟨w, hw, hlast, refused_justified (.of_runs hw) hg⟩

/-- The `EXPIRE` of the first request fails. The others come two minutes apart. -/
def lockedOut : List LimiterAction :=
  sampleLogin ++ .expire 0 .failed false
    :: (List.replicate 10 (.wait 120_000 :: sampleLogin)).flatten

/-- The eleventh request is refused, though it is the only one in more than a minute. -/
theorem refused_alone :
    ∃ w, runs step {} lockedOut = some w ∧ (outcome w).getLast? = some (some 429, 1)
      ∧ ¬ ∀ x ∈ w.answers, Justified x := by
  have hrun : (runs step {} lockedOut).map outcome
      = some (List.replicate 10 (none, 1) ++ [(some 429, 1)]) := by decide +kernel
  obtain ⟨w, hw, hout⟩ := Option.map_eq_some_iff.mp hrun
  refine ⟨w, hw, by rw [hout]; rfl, fun hall => ?_⟩
  have hmem : (some 429, 1) ∈ outcome w := by
    rw [hout]
    exact List.mem_append_right _ (List.mem_singleton.mpr rfl)
  obtain ⟨x, hx, he⟩ := List.mem_map.mp hmem
  obtain ⟨hstatus, hcount⟩ := Prod.mk.inj he
  have hrefused : x.answer ≠ none := fun hn => by rw [hn] at hstatus; exact absurd hstatus (by simp)
  have hlimit : ∀ r : LimitedRoute, r.rateLimit.limit = 10 := fun r => by cases r <;> rfl
  have hlt := hall x hx hrefused
  rw [hcount, hlimit] at hlt
  exact absurd hlt (by decide)

/-! ## Prompt runs -/

/-- Every `INCR` is executed once and at once, and where it creates a counter, nothing fails before
`EXPIRE`. -/
def Prompt (w : Limiter) : LimiterAction → Prop
  | .wait _ => w.sending = [] ∧ w.expiring = []
  | .die => w.expiring = []
  | .incr i fate _ => ∀ r ∈ w.sending[i]?, (fate ≠ .failed → r.executed = false)
    ∧ (fate = .lost → w.counter r.arrival.key ≠ none)
  | .expire _ fate _ => fate ≠ .failed
  | .request .. => True

/-- Every counter expires in time, or has just been created and is about to be told to. -/
structure Timed (w : Limiter) : Prop where
  ttl : ∀ (a : Arrival) (c : Counter), w.counters a.key = some c →
    (∃ t ∈ c.expiresAt, t ≤ c.oldest + a.route.rateLimit.window)
      ∨ ∃ r ∈ w.expiring, r.arrival.key = a.key
  past : ∀ (a : Arrival) (c : Counter), w.counters a.key = some c → c.oldest ≤ w.now ∧ 0 < c.value
  young : ∀ r ∈ w.expiring, ∀ c, w.counters r.arrival.key = some c → c.oldest = w.now
  arriving : ∀ r ∈ w.sending, r.arrival.time = w.now

theorem timed_initial : Timed {} where
  ttl := by simp
  past := by simp
  young := by simp
  arriving := by simp

/-- A counter that is met is within its window. -/
theorem Timed.fresh (hw : Timed w) {c : Counter} (hc : w.counter a.key = some c) :
    w.now ≤ c.oldest + a.route.rateLimit.window := by
  obtain ⟨hstored, hlive⟩ := Option.filter_eq_some_iff.mp hc
  rcases hw.ttl a c hstored with ⟨t, ht, hle⟩ | ⟨r, hr, hk⟩
  · rw [Option.mem_def.mp ht] at hlive
    exact Nat.le_trans (of_decide_eq_true hlive) hle
  · rw [hw.young r hr c (hk ▸ hstored)]
    exact Nat.le_add_right _ _

theorem Timed.min_oldest (hw : Timed w) {c : Counter} (hc : w.counter r.arrival.key = some c)
    (hr : r ∈ w.sending) : min c.oldest r.arrival.time = c.oldest := by
  rw [hw.arriving r hr]
  exact Nat.min_eq_left (hw.past r.arrival c (counter_stored hc)).1

/-- A counter after an `INCR` has the age it had, or is new, and its handler is about to send
`EXPIRE`. -/
theorem IncrStep.aged (h : IncrStep w i fate again r w') (hw : Timed w)
    (hlost : fate = .lost → w.counter r.arrival.key ≠ none) {a : Arrival} {c : Counter}
    (hc : w'.counters a.key = some c) : 0 < c.value
      ∧ ((∃ c₀, w.counters a.key = some c₀ ∧ c.expiresAt = c₀.expiresAt ∧ c.oldest = c₀.oldest)
        ∨ c.oldest = w.now ∧ ∃ q ∈ w'.expiring, q.arrival.key = a.key) := by
  have hmem := List.mem_of_getElem? h.mem
  rw [h.counters, Limiter.counted] at hc
  split at hc
  · exact ⟨(hw.past a c hc).2, .inl ⟨c, hc, rfl, rfl⟩⟩
  rename_i hf
  by_cases hk : a.key = r.arrival.key
  · rw [hk, Function.update_self] at hc
    obtain rfl := Option.some.inj hc
    cases h₀ : w.counter r.arrival.key with
    | some c₀ =>
        -- a counter goes on, no younger than it was
        have hincr : w.incr r.arrival
            = { c₀ with value := c₀.value + 1, oldest := min c₀.oldest r.arrival.time } := by
          rw [incr, h₀]
        rw [hincr, hk]
        exact ⟨Nat.succ_pos _, .inl ⟨c₀, counter_stored h₀, rfl, hw.min_oldest h₀ hmem⟩⟩
    | none =>
        -- a counter begins: its `INCR` was answered, and the request goes on to set its expiration
        have hincr : w.incr r.arrival = ⟨1, none, w.now, r.arrival.time⟩ := by rw [incr, h₀]
        have hdone : fate = .done := by
          cases fate with
          | done => rfl
          | lost => exact absurd h₀ (hlost rfl)
          | failed => exact absurd rfl hf
        have hbegins : w.begins r.arrival fate = true := by simp [begins, hdone, hincr]
        rw [hincr]
        refine ⟨Nat.one_pos, .inr ⟨hw.arriving r hmem, { arrival := r.arrival }, ?_, hk.symm⟩⟩
        rw [h.expiring, if_pos ⟨h.done hdone, hbegins⟩]
        exact List.mem_append_right _ (List.mem_singleton_self _)
  · rw [Function.update_of_ne hk] at hc
    exact ⟨(hw.past a c hc).2, .inl ⟨c, hc, rfl, rfl⟩⟩

/-- What is about to send `EXPIRE` after an `INCR` was so before, or has a new counter. -/
theorem IncrStep.mem_expiring (h : IncrStep w i fate again r w') (hw : Timed w)
    {q : LimitedRequest} (hq : q ∈ w'.expiring) :
    q ∈ w.expiring ∨ ∀ c, w'.counters q.arrival.key = some c → c.oldest = w.now := by
  rw [h.expiring] at hq
  split at hq
  · rename_i hb
    rcases List.mem_append.mp hq with hq | hq
    · exact .inl hq
    right
    intro c hc
    obtain rfl := List.mem_singleton.mp hq
    obtain ⟨hdone, hone⟩ := Bool.and_eq_true_iff.mp hb.2
    have hdone : fate = .done := of_decide_eq_true hdone
    have hone : (w.incr r.arrival).value = 1 := of_decide_eq_true hone
    rw [h.counters, Limiter.counted, if_neg (by simp [hdone]), Function.update_self] at hc
    obtain rfl := Option.some.inj hc
    unfold incr at hone ⊢
    cases h₀ : w.counter r.arrival.key with
    | none => exact hw.arriving r (List.mem_of_getElem? h.mem)
    | some c₀ =>
        have hpos := (hw.past r.arrival c₀ (counter_stored h₀)).2
        rw [h₀] at hone
        dsimp only at hone
        omega
  · exact .inl hq

theorem timed_incr (hw : Timed w) (h : IncrStep w i fate again r w')
    (hlost : fate = .lost → w.counter r.arrival.key ≠ none) : Timed w' := by
  have hkept : ∀ q ∈ w.expiring, q ∈ w'.expiring := by
    intro q hq
    rw [h.expiring]
    split
    · exact List.mem_append_left _ hq
    · exact hq
  refine ⟨fun a c hc => ?_, fun a c hc => ?_, fun q hq c hc => ?_, fun q hq => ?_⟩
  · rcases (h.aged hw hlost hc).2 with ⟨c₀, hc₀, he, ho⟩ | ⟨-, hq⟩
    · rw [he, ho]
      exact (hw.ttl a c₀ hc₀).imp_right fun ⟨q, hq, hk⟩ => ⟨q, hkept q hq, hk⟩
    · exact .inr hq
  · obtain ⟨hpos, hage⟩ := h.aged hw hlost hc
    refine ⟨?_, hpos⟩
    rw [h.now]
    rcases hage with ⟨c₀, hc₀, -, ho⟩ | ⟨ho, -⟩
    · rw [ho]
      exact (hw.past a c₀ hc₀).1
    · exact Nat.le_of_eq ho
  · rw [h.now]
    rcases h.mem_expiring hw hq with hq | hnew
    · rcases (h.aged hw hlost hc).2 with ⟨c₀, hc₀, -, ho⟩ | ⟨ho, -⟩
      · rw [ho]
        exact hw.young q hq c₀ hc₀
      · exact ho
    · exact hnew c hc
  · rw [h.now]
    rw [h.sending] at hq
    split at hq
    · rcases List.mem_or_eq_of_mem_set hq with hq | rfl
      · exact hw.arriving q hq
      · exact hw.arriving r (List.mem_of_getElem? h.mem)
    · exact hw.arriving q (List.mem_of_mem_eraseIdx hq)

/-- What is about to send `EXPIRE` after one was sent was so before, but for how often it was sent
again. -/
theorem ExpireStep.mem_expiring (h : ExpireStep w i fate again r w') {q : LimitedRequest}
    (hq : q ∈ w'.expiring) : ∃ q₀ ∈ w.expiring, q₀.arrival = q.arrival := by
  rw [h.expiring] at hq
  split at hq
  · rcases List.mem_or_eq_of_mem_set hq with hq | rfl
    · exact ⟨q, hq, rfl⟩
    · exact ⟨r, List.mem_of_getElem? h.mem, rfl⟩
  · exact ⟨q, List.mem_of_mem_eraseIdx hq, rfl⟩

/-- The handlers of other keys are still about to send theirs. -/
theorem ExpireStep.kept (h : ExpireStep w i fate again r w') {q : LimitedRequest}
    (hq : q ∈ w.expiring) (hk : q.arrival.key ≠ r.arrival.key) : q ∈ w'.expiring := by
  obtain ⟨j, hj⟩ := List.mem_iff_getElem?.mp hq
  have hij : j ≠ i := by
    rintro rfl
    rw [h.mem] at hj
    exact hk (by rw [Option.some.inj hj])
  rw [h.expiring]
  split
  · exact List.mem_of_getElem? ((List.getElem?_set_ne hij.symm).trans hj)
  · exact (List.mem_eraseIdx_iff_getElem?).mpr ⟨j, hij, hj⟩

/-- `EXPIRE` gives the counter of its key a TTL. -/
theorem timed_expire (hw : Timed w) (h : ExpireStep w i fate again r w') (hf : fate ≠ .failed) :
    Timed w' := by
  have hmem := List.mem_of_getElem? h.mem
  refine ⟨fun a c hc => ?_, fun a c hc => ?_, fun q hq c hc => ?_, fun q hq => ?_⟩
  · rw [h.counters, expire, if_neg hf] at hc
    by_cases hk : a.key = r.arrival.key
    · rw [hk, Function.update_self] at hc
      obtain ⟨c', hc', rfl⟩ := Option.map_eq_some_iff.mp hc
      -- no time has passed since its first request
      refine .inl ⟨_, rfl, ?_⟩
      rw [(Arrival.key_inj hk).1, hw.young r hmem c' (counter_stored hc')]
    · rw [Function.update_of_ne hk] at hc
      refine (hw.ttl a c hc).imp_right ?_
      rintro ⟨q, hq, hqk⟩
      exact ⟨q, h.kept hq (hqk ▸ hk), hqk⟩
  · rw [h.counters] at hc
    obtain ⟨c', hc', hvalue, -, holdest⟩ := expire_stored hc
    rw [h.now, hvalue, holdest]
    exact hw.past a c' hc'
  · rw [h.counters] at hc
    obtain ⟨c', hc', -, -, holdest⟩ := expire_stored hc
    obtain ⟨q₀, hq₀, harr⟩ := h.mem_expiring hq
    rw [h.now, holdest]
    exact hw.young q₀ hq₀ c' (harr ▸ hc')
  · rw [h.now]
    rw [h.sending] at hq
    exact hw.arriving q hq

theorem timed_step (hw : Timed w) (hp : Prompt w act) (h : w.step act = some w') : Timed w' := by
  cases act with
  | wait ms =>
      obtain rfl := Option.some.inj h
      obtain ⟨hsending, hexpiring⟩ := hp
      refine ⟨hw.ttl, fun a c hc => ?_, by simp [hexpiring], by simp [hsending]⟩
      obtain ⟨hle, hpos⟩ := hw.past a c hc
      exact ⟨Nat.le_trans hle (Nat.le_add_right _ _), hpos⟩
  | request route remoteAddr =>
      obtain rfl := Option.some.inj h
      refine ⟨hw.ttl, hw.past, hw.young, fun q hq => ?_⟩
      rcases List.mem_append.mp hq with hq | hq
      · exact hw.arriving q hq
      · rw [List.mem_singleton.mp hq]
  | incr i fate again =>
      obtain ⟨r, h⟩ := incr_cases h
      exact timed_incr hw h (hp r h.mem).2
  | expire i fate again =>
      obtain ⟨r, h⟩ := expire_cases h
      exact timed_expire hw h hp
  | die =>
      obtain rfl := Option.some.inj h
      have hnone : w.expiring = [] := hp
      exact ⟨by simpa [hnone] using hw.ttl, hw.past, by simp, by simp⟩

/-- Where every `INCR` is executed once and at once, and nothing fails between the two commands,
every refusal is justified: no counter outlives its window. -/
theorem prompt_fresh (h : Trace step {} tr w) (hp : AllSteps Prompt tr) : AllSteps MeetsFresh tr := by
  have hstates := h.invariant_steps (fun _ _ _ hw hf hs => timed_step hw hf hs) hp timed_initial
  rintro ⟨u, act⟩ hmem
  have hw := hstates _ hmem
  cases act with
  | incr i fate again =>
      intro r hr
      refine ⟨(hp _ hmem r hr).1, fun _ c hc _ => ?_⟩
      rw [hw.min_oldest hc (List.mem_of_getElem? hr)]
      exact hw.fresh hc
  | _ => trivial

end Limiter

end TelegramCms
