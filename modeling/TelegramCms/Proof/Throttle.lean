import TelegramCms.Proof.RateLimit

/-!
# How many requests are let through

A refusal depends on `EXPIRE`, which can fail. That an address does not get through too often
does not: a counter that never expires refuses all the more, and one that does has lived for a
window, also if the `EXPIRE` came late or was meant for the counter before it. So as long as
`INCR` is answered, no address gets through more often than the counters allow that can have
followed one another (`letThrough_le`).
-/

namespace TelegramCms

open Transition

/-- How many requests from the address of `a` to the route of `a` that arrived at `t` or later got
to the handler behind the middleware. -/
def letThrough (a : Arrival) (t : Nat) (answers : List LimitedAnswer) : Nat :=
  answers.countP (fun x => x.answer.isNone ∧ a.After t x.arrival)

/-- How many windows can have begun from `t` on, if one begins at `s`. -/
def RateLimit.windows (l : RateLimit) (t s : Nat) : Nat :=
  if s < t then 0 else (s - t) / (l.window + 1) + 1

namespace RateLimit

variable {l : RateLimit} {t s s' : Nat}

/-- Two counters that begin more than a window apart are counted apart. -/
theorem windows_succ_le (h : s + l.window < s') (ht : t ≤ s') :
    l.windows t s + 1 ≤ l.windows t s' := by
  have hs' : ¬ s' < t := by omega
  rw [windows, windows, if_neg hs']
  split
  · exact Nat.le_add_left _ _
  · have hdiv : (s - t) / (l.window + 1) + 1 = (s - t + (l.window + 1)) / (l.window + 1) :=
      (Nat.add_div_right _ (Nat.succ_pos _)).symm
    rw [hdiv]
    exact Nat.succ_le_succ (Nat.div_le_div_right (by omega))

/-- The later the counter, the more windows. -/
theorem windows_mono (h : s ≤ s') : l.windows t s ≤ l.windows t s' := by
  by_cases hs : s < t
  · rw [windows, if_pos hs]
    exact Nat.zero_le _
  · have hs' : ¬ s' < t := by omega
    rw [windows, windows, if_neg hs, if_neg hs']
    exact Nat.succ_le_succ (Nat.div_le_div_right (by omega))

/-- As many as fit in the time, and one more. -/
theorem windows_le : l.windows t s ≤ (s - t) / (l.window + 1) + 1 := by
  unfold windows
  split
  · exact Nat.zero_le _
  · exact Nat.le_refl _

end RateLimit

namespace Limiter

variable {w w' : Limiter} {a : Arrival} {i t : Nat} {act : LimiterAction} {r : LimitedRequest}
  {fate : CommandFate} {again : Bool} {tr : List (Limiter × LimiterAction)}

/-- The requests that got through, and those that will when their `EXPIRE` is sent. -/
def taken (w : Limiter) (a : Arrival) (t : Nat) : Nat :=
  letThrough a t w.answers + w.expiring.countP (fun r => a.After t r.arrival)

/-- The condition: no `INCR` is given up unanswered. -/
def Counts (_ : Limiter) : LimiterAction → Prop
  | .incr _ fate again => fate = .done ∨ again = true
  | _ => True

instance (w : Limiter) : DecidablePred (Counts w)
  | .incr _ fate again => inferInstanceAs (Decidable (fate = .done ∨ again = true))
  | .wait _ | .request .. | .expire .. | .die => .isTrue trivial

/-- No request comes from the future. -/
structure Past (w : Limiter) : Prop where
  sending : ∀ r ∈ w.sending, r.arrival.time ≤ w.now
  expiring : ∀ r ∈ w.expiring, r.arrival.time ≤ w.now
  answers : ∀ x ∈ w.answers, x.arrival.time ≤ w.now

/-- What the counter of a key lets through, and the counters before it did. -/
structure Metered (w : Limiter) (a : Arrival) : Prop where
  closed : w.counter a.key = none → ∀ t,
    w.taken a t ≤ a.route.rateLimit.limit * a.route.rateLimit.windows t w.now
  begun : ∀ c, w.counter a.key = some c → c.started ≤ w.now
  lasting : ∀ c, w.counter a.key = some c →
    ∀ e ∈ c.expiresAt, c.started + a.route.rateLimit.window ≤ e
  counted : ∀ c, w.counter a.key = some c → ∀ t,
    w.taken a t ≤ a.route.rateLimit.limit * a.route.rateLimit.windows t c.started
      + min c.value a.route.rateLimit.limit

structure Throttled (w : Limiter) : Prop where
  past : Past w
  metered : ∀ a, Metered w a

theorem throttled_initial : Throttled {} where
  past := ⟨by simp, by simp, by simp⟩
  metered := fun a =>
    ⟨fun _ t => Nat.zero_le _, by simp [counter], by simp [counter], by simp [counter]⟩

/-- Nothing has been let through yet that arrives in the future. -/
theorem taken_future (hw : Past w) (ht : w.now < t) : w.taken a t = 0 := by
  have hnone : ∀ b : Arrival, b.time ≤ w.now → ¬ a.After t b := by
    intro b hb hafter
    have := hafter.2.2
    omega
  rw [taken, letThrough, Nat.add_eq_zero_iff, List.countP_eq_zero, List.countP_eq_zero]
  exact ⟨fun x hx h => hnone _ (hw.answers x hx) (of_decide_eq_true h).2,
    fun r hr h => hnone _ (hw.expiring r hr) (of_decide_eq_true h)⟩

/-- While a counter stands, what got through is within the windows up to its own. -/
theorem Metered.taken_succ_le (hw : Metered w a) {c : Counter} (hc : w.counter a.key = some c)
    (t : Nat) :
    w.taken a t ≤ a.route.rateLimit.limit * (a.route.rateLimit.windows t c.started + 1) :=
  Nat.le_trans (hw.counted c hc t) (Nat.add_le_add_left (Nat.min_le_right _ _) _)

theorem metered_of_counter {c : Counter} (hc : w.counter a.key = some c)
    (hbegun : c.started ≤ w.now)
    (hlasting : ∀ e ∈ c.expiresAt, c.started + a.route.rateLimit.window ≤ e)
    (hcounted : ∀ t, w.taken a t ≤ a.route.rateLimit.limit * a.route.rateLimit.windows t c.started
      + min c.value a.route.rateLimit.limit) : Metered w a := by
  have hsame : ∀ c', w.counter a.key = some c' → c' = c := fun c' h =>
    Option.some.inj (h.symm.trans hc)
  refine ⟨fun h => ?_, fun c' h => ?_, fun c' h => ?_, fun c' h => ?_⟩
  · rw [hc] at h
    cases h
  · exact hsame c' h ▸ hbegun
  · exact hsame c' h ▸ hlasting
  · exact hsame c' h ▸ hcounted

/-! ## Time -/

/-- Time can end a counter, but only after its window. -/
theorem counter_wait (w : Limiter) (key : Text) (ms : Nat) :
    (∀ c, counter { w with now := w.now + ms } key = some c → w.counter key = some c)
      ∧ (counter { w with now := w.now + ms } key = none → ∀ c, w.counter key = some c →
          ∃ e ∈ c.expiresAt, e < w.now + ms) := by
  refine ⟨fun c hc => ?_, fun hnone c hc => ?_⟩
  · obtain ⟨hstored, hlive⟩ := Option.filter_eq_some_iff.mp hc
    refine Option.filter_eq_some_iff.mpr ⟨hstored, ?_⟩
    cases he : c.expiresAt with
    | none => rfl
    | some e =>
        rw [he] at hlive
        have hle : w.now + ms ≤ e := of_decide_eq_true hlive
        exact decide_eq_true (Nat.le_trans (Nat.le_add_right _ _) hle)
  · have hstored : w.counters key = some c := counter_stored hc
    have hdead := Option.filter_eq_none_iff.mp hnone c hstored
    cases he : c.expiresAt with
    | none => rw [he] at hdead; exact absurd rfl hdead
    | some e =>
        rw [he] at hdead
        refine ⟨e, rfl, ?_⟩
        by_contra hlt
        exact hdead (decide_eq_true (Nat.le_of_not_lt hlt))

/-- Time goes by; a counter that expires has lasted a window, and the next begins after it. -/
theorem metered_wait {ms : Nat} (hp : Past w) (hw : Metered w a) :
    Metered { w with now := w.now + ms } a := by
  have hkept := (counter_wait w a.key ms).1
  refine ⟨fun hnone u => ?_, fun c hc => ?_, fun c hc => hw.lasting c (hkept c hc),
    fun c hc => hw.counted c (hkept c hc)⟩
  · show w.taken a u ≤ _
    cases hold : w.counter a.key with
    | none =>
        exact Nat.le_trans (hw.closed hold u)
          (Nat.mul_le_mul_left _ (RateLimit.windows_mono (Nat.le_add_right _ _)))
    | some c =>
        -- the counter has ended: what it let through is a window of its own
        obtain ⟨e, he, hlt⟩ := (counter_wait w a.key ms).2 hnone c hold
        have hlast := hw.lasting c hold e he
        by_cases hu : u ≤ w.now + ms
        · have hwin : a.route.rateLimit.windows u c.started + 1
              ≤ a.route.rateLimit.windows u (w.now + ms) :=
            RateLimit.windows_succ_le (by omega) hu
          exact Nat.le_trans (hw.taken_succ_le hold u) (Nat.mul_le_mul_left _ hwin)
        · rw [taken_future hp (by omega)]
          exact Nat.zero_le _
  · have hbegun := hw.begun c (hkept c hc)
    exact Nat.le_trans hbegun (Nat.le_add_right _ _)

/-- A step that leaves the counter alone and lets nothing through keeps to the charges. -/
theorem metered_taken (hw : Metered w a) (hcounter : w'.counter a.key = w.counter a.key)
    (hnow : w'.now = w.now) (htaken : ∀ t, w'.taken a t ≤ w.taken a t) : Metered w' a := by
  refine ⟨fun h t => ?_, fun c h => ?_, fun c h => hw.lasting c (hcounter ▸ h),
    fun c h t => Nat.le_trans (htaken t) (hw.counted c (hcounter ▸ h) t)⟩
  · rw [hnow]
    exact Nat.le_trans (htaken t) (hw.closed (hcounter ▸ h) t)
  · rw [hnow]
    exact hw.begun c (hcounter ▸ h)

/-! ## `INCR` -/

/-- A request adds to what its key has taken if the counter allows it. -/
theorem IncrStep.taken_le (h : IncrStep w i fate again r w') (hg : fate = .done ∨ again = true)
    (a : Arrival) (t : Nat) : w'.taken a t ≤ w.taken a t
      + if a.key = r.arrival.key ∧ (w.incr r.arrival).value ≤ r.arrival.route.rateLimit.limit then 1
        else 0 := by
  have hpos := r.arrival.route.limit_pos
  have hkey : a.After t r.arrival → a.key = r.arrival.key := by
    rintro ⟨hroute, hip, -⟩
    rw [Arrival.key, Arrival.key, hroute, hip]
  rw [taken, taken, h.answers, h.expiring]
  rcases hg with rfl | rfl
  · obtain rfl := h.done rfl
    by_cases hb : w.begins r.arrival .done = true
    · -- it is about to send `EXPIRE`
      have hone : (w.incr r.arrival).value = 1 := of_decide_eq_true (Bool.and_eq_true_iff.mp hb).2
      rw [if_pos (.inr hb), if_pos ⟨rfl, hb⟩, List.countP_append, List.countP_singleton]
      by_cases hafter : a.After t r.arrival
      · rw [if_pos (decide_eq_true hafter), if_pos ⟨hkey hafter, by omega⟩]
        omega
      · rw [if_neg (by simpa using hafter)]
        omega
    · -- it is answered
      rw [if_neg (by simpa using hb), if_neg (by simpa using hb), answered, letThrough,
        List.countP_append, List.countP_singleton, ← letThrough]
      by_cases hafter : (w.incrAnswer r.arrival .done).isNone = true ∧ a.After t r.arrival
      · have hle : (w.incr r.arrival).value ≤ r.arrival.route.rateLimit.limit := by
          by_contra hlt
          rw [incrAnswer, if_pos rfl, RateLimit.answer, if_pos (Nat.lt_of_not_le hlt)] at hafter
          exact absurd hafter.1 (by simp)
        rw [if_pos (decide_eq_true hafter), if_pos ⟨hkey hafter.2, hle⟩]
        omega
      · rw [if_neg (by simpa using hafter)]
        omega
  · rw [if_pos (.inl rfl), if_neg (by simp)]
    exact Nat.le_add_right _ _

/-- An answer is given to a request that has arrived. -/
theorem past_incr (hw : Past w) (h : IncrStep w i fate again r w') : Past w' := by
  have hr := hw.sending r (List.mem_of_getElem? h.mem)
  refine ⟨fun q hq => ?_, fun q hq => ?_, fun x hx => ?_⟩
  · rw [h.now]
    rw [h.sending] at hq
    split at hq
    · rcases List.mem_or_eq_of_mem_set hq with hq | rfl
      · exact hw.sending q hq
      · exact hr
    · exact hw.sending q (List.mem_of_mem_eraseIdx hq)
  · rw [h.now]
    rw [h.expiring] at hq
    split at hq
    · rcases List.mem_append.mp hq with hq | hq
      · exact hw.expiring q hq
      · rw [List.mem_singleton.mp hq]
        exact hr
    · exact hw.expiring q hq
  · rw [h.now]
    rcases h.mem_answers hx with hx | rfl
    · exact hw.answers x hx
    · exact hr

theorem IncrStep.counter_self (h : IncrStep w i fate again r w') (hf : fate ≠ .failed) :
    w'.counter r.arrival.key = some (w.incr r.arrival) := by
  rw [counter, h.counters, h.now, counted, if_neg hf, Function.update_self]
  refine Option.filter_eq_some_iff.mpr ⟨rfl, ?_⟩
  unfold incr
  cases hc : w.counter r.arrival.key with
  | none => rfl
  | some c => exact (Option.filter_eq_some_iff.mp hc).2

theorem IncrStep.counter_of_ne (h : IncrStep w i fate again r w') {key : Text}
    (hk : fate = .failed ∨ key ≠ r.arrival.key) : w'.counter key = w.counter key := by
  rw [counter, h.counters, h.now, counted, counter]
  split
  · rfl
  · rename_i hf
    rw [Function.update_of_ne (hk.resolve_left hf)]

/-- **`INCR`**: what it lets through is charged to the counter it has filled, or begun. -/
theorem metered_incr (hw : Metered w a) (h : IncrStep w i fate again r w')
    (hg : fate = .done ∨ again = true) : Metered w' a := by
  have htaken := h.taken_le hg a
  by_cases hother : fate = .failed ∨ a.key ≠ r.arrival.key
  · refine metered_taken hw (h.counter_of_ne hother) h.now fun u => ?_
    rcases hother with rfl | hk
    · -- the command is sent again
      obtain rfl := hg.resolve_left (by simp)
      rw [taken, taken, h.answers, h.expiring, if_pos (.inl rfl), if_neg (by simp)]
    · have hle := htaken u
      rwa [if_neg fun h => hk h.1] at hle
  · obtain ⟨hf, hk⟩ := not_or.mp hother
    have hk := not_not.mp hk
    have hself := h.counter_self hf
    obtain ⟨hroute, -⟩ := Arrival.key_inj hk
    rw [← hk] at hself
    simp only [hk, true_and] at htaken
    rw [← hroute] at htaken
    have hpos := a.route.limit_pos
    cases hc : w.counter a.key with
    | none =>
        -- the request begins a window
        have hincr : w.incr r.arrival = ⟨1, none, w.now, r.arrival.time⟩ := by rw [incr, ← hk, hc]
        rw [hincr] at hself htaken
        refine metered_of_counter hself ?_ ?_ fun u => ?_
        · exact Nat.le_of_eq h.now.symm
        · exact fun e he => absurd he (by simp)
        · have hone : 1 ≤ a.route.rateLimit.limit := hpos
          calc w'.taken a u
              ≤ w.taken a u + if 1 ≤ a.route.rateLimit.limit then 1 else 0 := htaken u
            _ = w.taken a u + min 1 a.route.rateLimit.limit := by
                rw [if_pos hone, Nat.min_eq_left hone]
            _ ≤ a.route.rateLimit.limit * a.route.rateLimit.windows u w.now
                  + min 1 a.route.rateLimit.limit := Nat.add_le_add_right (hw.closed hc u) _
    | some c₀ =>
        -- it is one more of the window, let through or not
        have hincr : w.incr r.arrival
            = { c₀ with value := c₀.value + 1, oldest := min c₀.oldest r.arrival.time } := by
          rw [incr, ← hk, hc]
        rw [hincr] at hself htaken
        refine metered_of_counter hself ?_ ?_ fun u => ?_
        · rw [h.now]
          exact hw.begun c₀ hc
        · exact hw.lasting c₀ hc
        · have hmin : min c₀.value a.route.rateLimit.limit
              + (if c₀.value + 1 ≤ a.route.rateLimit.limit then 1 else 0)
              ≤ min (c₀.value + 1) a.route.rateLimit.limit := by
            split <;> omega
          have hold := hw.counted c₀ hc u
          have hnew := htaken u
          dsimp only at hnew ⊢
          omega

/-! ## `EXPIRE` -/

/-- A handler that goes on is no longer waiting, and answers. -/
theorem ExpireStep.taken_le (h : ExpireStep w i fate again r w') (a : Arrival) (t : Nat) :
    w'.taken a t ≤ w.taken a t := by
  obtain ⟨hi, hri⟩ := List.getElem?_eq_some_iff.mp h.mem
  have hold := (List.getElem_cons_eraseIdx_perm hi).countP_eq (fun r => a.After t r.arrival)
  rw [hri, List.countP_cons] at hold
  rw [taken, taken, h.answers, h.expiring, ← hold]
  cases again with
  | true =>
      have hnew := (List.set_perm_cons_eraseIdx hi (r.sent fate)).countP_eq
        (fun r => a.After t r.arrival)
      rw [List.countP_cons] at hnew
      rw [if_pos rfl, if_pos rfl, hnew]
      exact Nat.le_refl _
  | false =>
      rw [if_neg (by simp), if_neg (by simp), answered, letThrough, List.countP_append,
        List.countP_singleton, ← letThrough]
      simp only [Option.isNone_none, true_and]
      omega

/-- The second command of a request answers it too. -/
theorem past_expire (hw : Past w) (h : ExpireStep w i fate again r w') : Past w' := by
  refine ⟨fun q hq => ?_, fun q hq => ?_, fun x hx => ?_⟩
  · rw [h.now]
    rw [h.sending] at hq
    exact hw.sending q hq
  · obtain ⟨q₀, hq₀, harr⟩ := h.mem_expiring hq
    rw [h.now, ← harr]
    exact hw.expiring q₀ hq₀
  · rw [h.now]
    rcases h.mem_answers hx with hx | rfl
    · exact hw.answers x hx
    · exact hw.expiring r (List.mem_of_getElem? h.mem)

theorem ExpireStep.counter_self (h : ExpireStep w i fate again r w') (hf : fate ≠ .failed) :
    w'.counter r.arrival.key = (w.counter r.arrival.key).map (fun c =>
      { c with expiresAt := some (w.now + r.arrival.route.rateLimit.window) }) := by
  rw [counter, h.counters, h.now, expire, if_neg hf, Function.update_self]
  cases w.counter r.arrival.key with
  | none => rfl
  | some c => exact Option.filter_eq_some_iff.mpr ⟨rfl, decide_eq_true (Nat.le_add_right _ _)⟩

theorem ExpireStep.counter_of_ne (h : ExpireStep w i fate again r w') {key : Text}
    (hk : fate = .failed ∨ key ≠ r.arrival.key) : w'.counter key = w.counter key := by
  rw [counter, h.counters, h.now, expire]
  split
  · rfl
  · rename_i hf
    rw [Function.update_of_ne (hk.resolve_left hf), counter]

/-- `EXPIRE` gives a counter a whole window from now on, whichever request it was sent for. -/
theorem metered_expire (hw : Metered w a) (h : ExpireStep w i fate again r w') : Metered w' a := by
  have htaken := h.taken_le a
  by_cases hother : fate = .failed ∨ a.key ≠ r.arrival.key
  · exact metered_taken hw (h.counter_of_ne hother) h.now htaken
  · obtain ⟨hf, hk⟩ := not_or.mp hother
    have hk := not_not.mp hk
    obtain ⟨hroute, -⟩ := Arrival.key_inj hk
    have hcounter := h.counter_self hf
    rw [← hk, ← hroute] at hcounter
    cases hc : w.counter a.key with
    | none =>
        rw [hc] at hcounter
        exact metered_taken hw (hcounter.trans hc.symm) h.now htaken
    | some c₀ =>
        rw [hc] at hcounter
        refine metered_of_counter hcounter ?_ ?_ fun t => ?_
        · rw [h.now]
          exact hw.begun c₀ hc
        · intro e he
          obtain rfl := Option.some.inj he
          exact Nat.add_le_add_right (hw.begun c₀ hc) _
        · exact Nat.le_trans (htaken t) (hw.counted c₀ hc t)

/-! ## Runs -/

/-- **One step**, by what the request is at: time, `INCR` or `EXPIRE`. -/
theorem throttled_step (hw : Throttled w) (hg : Counts w act) (h : w.step act = some w') :
    Throttled w' := by
  cases act with
  | wait ms =>
      obtain rfl := Option.some.inj h
      have hlater : w.now ≤ w.now + ms := Nat.le_add_right _ _
      exact ⟨⟨fun r hr => Nat.le_trans (hw.past.sending r hr) hlater,
        fun r hr => Nat.le_trans (hw.past.expiring r hr) hlater,
        fun x hx => Nat.le_trans (hw.past.answers x hx) hlater⟩,
        fun a => metered_wait hw.past (hw.metered a)⟩
  | request route remoteAddr =>
      obtain rfl := Option.some.inj h
      refine ⟨⟨fun r hr => ?_, hw.past.expiring, hw.past.answers⟩, fun a => ?_⟩
      · rcases List.mem_append.mp hr with hr | hr
        · exact hw.past.sending r hr
        · rw [List.mem_singleton.mp hr]
      · exact metered_taken (hw.metered a) rfl rfl fun t => Nat.le_refl _
  | incr i fate again =>
      obtain ⟨r, h⟩ := incr_cases h
      exact ⟨past_incr hw.past h, fun a => metered_incr (hw.metered a) h hg⟩
  | expire i fate again =>
      obtain ⟨r, h⟩ := expire_cases h
      exact ⟨past_expire hw.past h, fun a => metered_expire (hw.metered a) h⟩
  | die =>
      obtain rfl := Option.some.inj h
      refine ⟨⟨by simp, by simp, hw.past.answers⟩, fun a => ?_⟩
      exact metered_taken (hw.metered a) rfl rfl fun t => Nat.le_add_right _ _

/-- The bound for a key, whether its counter is there or gone. -/
theorem Metered.taken_le (hw : Metered w a) (t : Nat) :
    w.taken a t
      ≤ a.route.rateLimit.limit * ((w.now - t) / (a.route.rateLimit.window + 1) + 2) := by
  have hwindows : a.route.rateLimit.windows t w.now
      ≤ (w.now - t) / (a.route.rateLimit.window + 1) + 1 := RateLimit.windows_le
  cases hc : w.counter a.key with
  | none =>
      refine Nat.le_trans (hw.closed hc t) (Nat.mul_le_mul_left _ ?_)
      omega
  | some c =>
      have hmono := RateLimit.windows_mono (l := a.route.rateLimit) (t := t) (hw.begun c hc)
      refine Nat.le_trans (hw.taken_succ_le hc t) (Nat.mul_le_mul_left _ ?_)
      omega

/-- **In a run in which no `INCR` is given up unanswered, whatever becomes of `EXPIRE` and of the
process, the requests from one address to one route that arrived at `t` or later and got
through are no more than `limit` for each window since `t` and two more.**

What got through is charged to the counter that let it through: no more than `limit` to each, and
two counters of a key begin more than a window apart. An `INCR` that is sent again only fills the
counter sooner. -/
theorem letThrough_le (h : Trace step {} tr w) (hg : AllSteps Counts tr) (a : Arrival) (t : Nat) :
    letThrough a t w.answers
      ≤ a.route.rateLimit.limit * ((w.now - t) / (a.route.rateLimit.window + 1) + 2) := by
  have hw : Throttled w :=
    h.invariant (fun _ _ _ hw hc hs => throttled_step hw hc hs) hg throttled_initial
  exact Nat.le_trans (Nat.le_add_right _ _) ((hw.metered a).taken_le t)

/-- Two bursts of eleven requests, a window apart. The answer to the first `EXPIRE` is lost. -/
def twoBursts : List LimiterAction :=
  sampleLogin ++ .expire 0 .lost false :: (List.replicate 10 sampleLogin).flatten
    ++ .wait 60_001 :: burst

/-- Ten of each get through. -/
theorem letThrough_le_twoBursts : ∃ w, runs step {} twoBursts = some w
    ∧ letThrough ⟨.login, "203.0.113.7".toList, 0⟩ 0 w.answers = 20
    ∧ 20 ≤ 10 * (60_001 / 60_001 + 2) := by
  have hrun : (runs step {} twoBursts).map
      (fun w => (letThrough ⟨.login, "203.0.113.7".toList, 0⟩ 0 w.answers, w.now))
      = some (20, 60_001) := by decide +kernel
  obtain ⟨w, hw, hcount⟩ := Option.map_eq_some_iff.mp hrun
  obtain ⟨htwenty, hnow⟩ := Prod.mk.inj hcount
  have hg : AllSteps Counts (trail step {} twoBursts) := by decide +kernel
  have hle := letThrough_le (.of_runs hw) hg ⟨.login, "203.0.113.7".toList, 0⟩ 0
  rw [htwenty, hnow] at hle
  exact ⟨w, hw, htwenty, hle⟩

end Limiter

end TelegramCms
