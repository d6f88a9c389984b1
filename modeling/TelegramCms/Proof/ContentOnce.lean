import TelegramCms.Proof.Owners

/-!
# Content is delivered once per lookback window

Two deliveries under one hash are at least `DEDUPE_LOOKBACK_DAYS` apart, counted from
reservation to reservation, as long as no run goes on for longer than the ARQ
`job_timeout` after its reservation. The reservation protocol proves it; what is left to
say here is that the deliveries the log records are its deliveries.
-/

namespace TelegramCms

open Transition Reservation

/-- The ARQ `job_timeout`. -/
def jobTimeout : Time := seconds 900

/-- When a run made the reservation that is still to be released or marked. -/
def PublishPc.reservedAt : PublishPc → Option Time
  | .lock ctx | .spacing ctx _ | .sending ctx _ | .backoff ctx _ | .release ctx _ _
  | .markLoad ctx _ | .markCommit ctx _ _ => ctx.reservedAt
  | _ => none

def Proc.reservedAt : Proc → Option Time
  | .publish _ pc => pc.reservedAt
  | _ => none

namespace World

/-- A run that takes a step reserved its hash less than `limit` ago, if it has one that is
still to be released or marked. -/
def InTime (limit : Int) (w : World) : Action → Prop
  | .advance i _ => ∀ t ∈ (w.proc i).bind Proc.reservedAt, w.now < t + limit
  | _ => True

instance (limit : Int) (w : World) : DecidablePred (InTime limit w) := fun a =>
  match a with
  | .advance i _ =>
    inferInstanceAs (Decidable (∀ t ∈ (w.proc i).bind Proc.reservedAt, w.now < t + limit))
  | .tick _ | .crash _ | .startJob _ | .request _ | .arrive .. | .configure .. | .pruneDedupe _ =>
    inferInstanceAs (Decidable True)

variable {env : Env} {w w' : World} {a : Action}

/-! ## The recorded deliveries -/

/-- Content with a hash was reserved before it was delivered. -/
def Stamped (w : World) : Prop :=
  ∀ d, .delivered d ∈ w.log → d.hash.isSome → d.reservedAt.isSome

/-- A delivery is recorded with the time of the reservation that its run holds. -/
theorem stamped_step (hw : Wf w) (hs : Stamped w) (h : step env w a = some w') : Stamped w' := by
  intro d hd hh
  rcases mem_log_step h hd (by simp) with hd | ⟨i, r, p, e, rfl, hp, he, -, ho⟩
  · exact hs d hd hh
  · obtain ⟨job, ctx, retried, id, rfl, rfl, rfl⟩ := (step_does he).delivered ho
    exact hw.placed i job _ hp hh

/-! ## Every run of the system is a run of the protocol -/

theorem phase_reservedAt {pc : PublishPc} {h : Digest} {t : Int}
    (hp : pc.phase = .armed h t ∨ pc.phase = .failed h t) : pc.reservedAt = some t := by
  cases pc with
  | lock | spacing | sending | backoff => exact (SendCtx.phase_reserved hp).2
  | release ctx _ _ =>
      simp only [PublishPc.phase] at hp
      split at hp
      · simp at hp; rw [PublishPc.reservedAt, ← hp.2]; assumption
      · simp at hp
  | _ => simp [PublishPc.phase] at hp

/-- A job that keeps to its timeout keeps to the limit of the protocol. -/
theorem timely_of_inTime {limit : Int} {b : Act Digest} (hg : InTime limit w a)
    (hm : Matches env w a b) : Timely limit w.abs b := by
  have key : ∀ i, (∃ r job pc h t, a = .advance i r ∧ w.proc i = some (.publish job pc)
      ∧ (pc.phase = .armed h t ∨ pc.phase = .failed h t)) →
      ∀ k t, Live w.abs i k t → w.abs.now < t + limit := by
    rintro i ⟨r, job, pc, h, t, rfl, hp, -⟩ k t' hl
    rw [Live, abs_phase_some hp] at hl
    exact hg t' (by rw [hp]; exact phase_reservedAt hl)
  cases b with
  | deliver i => exact key i hm
  | release i => exact key i hm
  | _ => trivial

/-- **Every run of the system is a run of the protocol**, and a timely one if its jobs are in
time. -/
theorem protocol_trace {limit : Int} {w₀ : World} {tr : List (World × Action)} (h0 : Init w₀)
    (hp : Trace (step env) w₀ tr w) (hg : AllSteps (InTime limit) tr) :
    ∃ tr', Trace (next (days env.settings.dedupeLookbackDays)) w₀.abs tr' w.abs
      ∧ AllSteps (Timely limit) tr' := by
  refine Trace.map abs (I := Wf) ?_ ?_ hp hg (wf_init h0)
  · intro t a u hw _ hu; exact wf_step hw hu
  · intro t a u hw ha hu
    rcases abs_step hw.numbered hw.placed hu with h | ⟨b, hm, hb⟩
    · exact .inl h
    · exact .inr ⟨b, timely_of_inTime ha hm, hb⟩

theorem stamped_trace {w₀ : World} {tr : List (World × Action)} (h0 : Init w₀)
    (hp : Trace (step env) w₀ tr w) : Wf w ∧ Stamped w := by
  refine hp.invariant' (I := fun w => Wf w ∧ Stamped w) ?_ ⟨wf_init h0, ?_⟩
  · rintro t a u ⟨hw, hs⟩ hu
    exact ⟨wf_step hw hu, stamped_step hw hs hu⟩
  · intro d hd
    rw [h0.log] at hd
    exact absurd hd (by simp)

/-- A recorded delivery of content with a hash is a delivery of the protocol. -/
theorem item_of_hash {o : Obs} {d : Delivery} {h : Digest} (hs : Stamped w) (ho : o ∈ w.log)
    (hd : o.delivery? = some d) (hh : d.hash = some h) :
    ∃ t, d.reservedAt = some t ∧ o.item? = some ⟨d.run, h, t⟩ := by
  obtain rfl := delivery_eq_some hd
  obtain ⟨t, ht⟩ := Option.isSome_iff_exists.mp (hs d ho (by rw [hh]; rfl))
  refine ⟨t, ht, ?_⟩
  simp only [Obs.item?, hh, ht]

/--
**Two deliveries under one hash are at least the lookback apart**, counted from
reservation to reservation, in every run whose jobs end within the job timeout.

By refinement: the rows of `published_dedupe` follow the reservation protocol of
`Lib/Reservation` (`protocol_trace`), whose grants are spaced as long as each holder is done
within the limit. What is left is to read the deliveries off the protocol's log.
-/
theorem deliveries_spaced {w₀ : World} {tr : List (World × Action)} (h0 : Init w₀)
    (hL : 1 ≤ env.settings.dedupeLookbackDays) (hp : Trace (step env) w₀ tr w)
    (hg : AllSteps (InTime jobTimeout) tr) :
    w.deliveries.Pairwise (fun later earlier => ∀ h, later.hash = some h → earlier.hash = some h →
      ∃ t t', earlier.reservedAt = some t ∧ later.reservedAt = some t'
        ∧ t + days env.settings.dedupeLookbackDays ≤ t') := by
  obtain ⟨tr', hp', hg'⟩ := protocol_trace h0 hp hg
  -- 900 s are less than a day
  have hlim : jobTimeout ≤ days env.settings.dedupeLookbackDays := by
    have h : (900 * 1_000_000 : Int) ≤ env.settings.dedupeLookbackDays * 86_400_000_000 := by
      omega
    exact h
  have hpair := (spaced_of_timely hlim (start_of_init h0) hp' hg').pairwise
  have hst := (stamped_trace h0 hp).2
  -- both lists are read off the log
  rw [abs, List.pairwise_filterMap] at hpair
  rw [deliveries, List.pairwise_filterMap]
  refine hpair.imp_of_mem ?_
  intro o₁ o₂ ho₁ ho₂ hrel d₁ hd₁ d₂ hd₂ h hh₁ hh₂
  obtain ⟨t₁, ht₁, hi₁⟩ := item_of_hash hst ho₁ hd₁ hh₁
  obtain ⟨t₂, ht₂, hi₂⟩ := item_of_hash hst ho₂ hd₂ hh₂
  exact ⟨t₂, t₁, ht₂, ht₁, Int.le_of_lt (hrel _ hi₁ _ hi₂ rfl)⟩

/-- Two posts with the same text, eight days apart. The first run dies after its send, so
nothing but the pruner removes its row. -/
def repeated : List Action :=
  ingests 1 0 ++ normalizes 1 1 0 ++ sends 1 2 0 6 ++ [.advance 2 (.message 7), .crash 2,
    .tick 691_200_000_000, .pruneDedupe 691_200_000_000] ++
  ingests 2 3 ++ normalizes 2 4 691_202_000 ++ sends 2 5 691_202_000 6 ++ [.advance 5 (.message 8)]

theorem deliveries_spaced_repeated :
    ∃ w, (sample autoChannel).after (sampleEnv {}) repeated = some w
      ∧ w.deliveries.length = 2
      ∧ w.deliveries.Pairwise (fun later earlier => ∀ h, later.hash = some h →
        earlier.hash = some h → ∃ t t', earlier.reservedAt = some t ∧ later.reservedAt = some t'
          ∧ t + days 7 ≤ t') := by
  have hrun : ((sample autoChannel).after (sampleEnv {}) repeated).map
      (fun w => w.deliveries.length) = some 2 := by decide +kernel
  obtain ⟨w, hw, hlen⟩ := Option.map_eq_some_iff.mp hrun
  refine ⟨w, hw, hlen, ?_⟩
  exact deliveries_spaced (sample_init _) (by decide) (path_after hw) (by decide +kernel)

end World

end TelegramCms
