import TelegramCms.Model.Enqueue

/-!
# Delayed jobs are timed right up to a bound

`decide` hands `enqueuePublish` the time until `scheduled_for`. The difference is clamped
at about 292 years, so a score beyond that comes out too early; and a day is added to it
before it is multiplied back to nanoseconds, which overflows already a day before the
clamp does: the payload then gets a negative expiration.

Below that bound nothing wraps, and the job is the one that the rest of this development
works with (`schedule_score`).
-/

namespace TelegramCms.Arq

open GoTime

section Delay

variable {jobID : Text} {postID : Int64} {t now later : Int}

/-- The milliseconds by which the job is deferred. -/
theorem toInt_deferMs (h : now ≤ t) :
    (milliseconds (sub t now)).toInt = min ((t - now) / 1000000) 9223372036854 := by
  have hsub := toInt_sub h
  rw [toInt_milliseconds (by omega), hsub]
  omega

theorem score_eq (h : now ≤ t) :
    (enqueuePublish jobID postID (sub t now) later).score
      = unixMilli later + milliseconds (sub t now) := by
  have hdefer := toInt_deferMs h
  have hpos : ¬ milliseconds (sub t now) < 0 := by
    rw [Int64.lt_iff_toInt_lt]
    have hzero : Int64.toInt 0 = 0 := by decide
    omega
  simp only [enqueuePublish, if_neg hpos]

/-- The enqueue time cancels out of the expiration, also where the score wraps. -/
theorem expiration_eq (h : now ≤ t) :
    (enqueuePublish jobID postID (sub t now) later).expiration
      = ofMilliseconds (milliseconds (sub t now) + arqExpiresExtraMs) := by
  have hscore : (enqueuePublish jobID postID (sub t now) later).score
      = unixMilli later + milliseconds (sub t now) := score_eq h
  simp only [enqueuePublish] at hscore ⊢
  rw [hscore]
  congr 2
  grind

theorem toInt_expiresMs (h : now ≤ t) :
    (milliseconds (sub t now) + arqExpiresExtraMs).toInt
      = min ((t - now) / 1000000) 9223372036854 + 86400000 := by
  have hextra : arqExpiresExtraMs.toInt = 86400000 := by decide
  rw [Int64.toInt_add, toInt_deferMs h, hextra]
  apply Int.bmod_eq_of_le <;> omega

end Delay

/-! ## The job -/

/-- A job for `scheduledFor` that is enqueued at `later`: its score is not a millisecond early
by the clock of milliseconds, and its payload stays a day longer than the wait. -/
structure Timed (scheduledFor later : Int) (job : Pipeline) : Prop where
  notEarly : scheduledFor / 1000000 - 1 ≤ job.score.toInt
  expiration : job.expiration.toInt = (job.score.toInt - later / 1000000 + 86400000) * 1000000
  positive : 0 < job.expiration.toInt

/-- The longest delay, in milliseconds, that a day can be added to. -/
def maxDelayMs : Int := 9223285636854

/-- The score, where the clock and the delay fit. -/
theorem toInt_score {jobID : Text} {postID : Int64} {t now later : Int} (h : now ≤ t)
    (hlo : -9223372036854775808 ≤ later / 1000000)
    (hdelay : (t - now) / 1000000 ≤ maxDelayMs)
    (hfits : later / 1000000 + (t - now) / 1000000 < 9223372036854775808) :
    (enqueuePublish jobID postID (sub t now) later).score.toInt
      = later / 1000000 + (t - now) / 1000000 := by
  rw [maxDelayMs] at hdelay
  have hdefer := toInt_deferMs h
  rw [Int.min_eq_left (by omega)] at hdefer
  have hnow : (unixMilli later).toInt = later / 1000000 := toInt_unixMilli hlo (by omega)
  rw [score_eq h, Int64.toInt_add, hnow, hdefer]
  apply Int.bmod_eq_of_le <;> omega

/-- What `decide` schedules lies ahead. -/
theorem schedule_ok {jobID : Text} {postID : Int64} {scheduledFor : Rfc3339} {now later : Int}
    {job : Pipeline} (h : schedule jobID postID scheduledFor now later = .ok job) :
    now < scheduledFor.instant
      ∧ enqueuePublish jobID postID (sub scheduledFor.instant now) later = job := by
  rw [schedule] at h
  split at h
  · exact absurd h (by simp)
  · rename_i hafter
    exact ⟨by omega, Except.ok.inj h⟩

/-- **A job that `decide` schedules is timed right if and only if `scheduled_for` is at most
9223285636854 ms ahead (and the clock in milliseconds still fits an int64 then).** -/
theorem timed_iff {jobID : Text} {postID : Int64} {scheduledFor : Rfc3339} {now later : Int}
    {job : Pipeline} (hjob : schedule jobID postID scheduledFor now later = .ok job)
    (hlater : now ≤ later) :
    Timed scheduledFor.instant later job
      ↔ (scheduledFor.instant - now) / 1000000 ≤ maxDelayMs
        ∧ later / 1000000 + (scheduledFor.instant - now) / 1000000 < 9223372036854775808 := by
  have hearliest := scheduledFor.earliest
  obtain ⟨hafter, rfl⟩ := schedule_ok hjob
  have hle : now ≤ scheduledFor.instant := by omega
  have hexpires := toInt_expiresMs hle
  have hexpiration : (enqueuePublish jobID postID (sub scheduledFor.instant now) later).expiration
      = ofMilliseconds (milliseconds (sub scheduledFor.instant now) + arqExpiresExtraMs) :=
    expiration_eq hle
  rw [maxDelayMs]
  constructor
  · rintro ⟨-, hexp, hpos⟩
    rw [hexpiration] at hexp hpos
    -- a delay that is too long gives a negative duration
    have hdelay : (scheduledFor.instant - now) / 1000000 ≤ 9223285636854 := by
      by_contra hlong
      have hneg : (ofMilliseconds (milliseconds (sub scheduledFor.instant now)
          + arqExpiresExtraMs)).toInt < 0 :=
        ofMilliseconds_neg (by omega) (by omega)
      omega
    refine ⟨hdelay, ?_⟩
    rw [toInt_ofMilliseconds (by omega) (by omega), hexpires] at hexp
    have hscore := Int64.toInt_lt
      (enqueuePublish jobID postID (sub scheduledFor.instant now) later).score
    omega
  · rintro ⟨hdelay, hfits⟩
    have hscore : (enqueuePublish jobID postID (sub scheduledFor.instant now) later).score.toInt
        = later / 1000000 + (scheduledFor.instant - now) / 1000000 :=
      toInt_score hle (by omega) hdelay hfits
    have hexp : (ofMilliseconds (milliseconds (sub scheduledFor.instant now)
        + arqExpiresExtraMs)).toInt
        = (milliseconds (sub scheduledFor.instant now) + arqExpiresExtraMs).toInt * 1000000 :=
      toInt_ofMilliseconds (by omega) (by omega)
    refine ⟨?_, ?_, ?_⟩
    · rw [hscore]
      omega
    · rw [hexpiration, hexp, hexpires, hscore]
      omega
    · rw [hexpiration, hexp]
      omega

/-- The first of July 2026, noon. -/
def sampleNow : Int := 1782907200000000000

/-- A week later. -/
def sampleWeek : Rfc3339 := ⟨1783512000000000000, by decide, by decide⟩

theorem timed_iff_week :
    ∃ job, schedule "0f".toList 7 sampleWeek sampleNow (sampleNow + 2000000) = .ok job
      ∧ Timed sampleWeek.instant (sampleNow + 2000000) job := by
  have hrun : schedule "0f".toList 7 sampleWeek sampleNow (sampleNow + 2000000) = .ok _ := rfl
  exact ⟨_, hrun, (timed_iff hrun (by decide)).mpr (by decide)⟩

/-- New Year 2400. -/
def sampleCentury : Rfc3339 := ⟨13569465600000000000, by decide, by decide⟩

/-- The payload is written with an expiration below zero, and the job would run in 2318. -/
theorem century_early :
    ∃ job, schedule "0f".toList 7 sampleCentury sampleNow sampleNow = .ok job
      ∧ job.expiration.toInt < 0 ∧ job.score.toInt < sampleCentury.instant / 1000000 - 1
      ∧ ¬ Timed sampleCentury.instant sampleNow job := by
  refine ⟨_, rfl, by decide +kernel, by decide +kernel, ?_⟩
  intro h
  exact absurd h.positive (by decide +kernel)

/-! ## The job of the model -/

/-- Where nothing wraps, it is the job that the other modules have `enqueue_publish` write, by
clocks of microseconds. -/
theorem schedule_score {jobID : Text} {postID : Int64} {scheduledFor : Rfc3339} {now later : Int}
    {job : Pipeline} (hjob : schedule jobID postID scheduledFor now later = .ok job)
    (hlater : now ≤ later) (hdelay : (scheduledFor.instant - now) / 1000000 ≤ maxDelayMs)
    (hfits : later / 1000000 + (scheduledFor.instant - now) / 1000000 < 9223372036854775808)
    (p : Nat) :
    job.score.toInt
      = (TelegramCms.enqueuePublish (later / 1000) p ((scheduledFor.instant - now) / 1000)).score := by
  have hearliest := scheduledFor.earliest
  obtain ⟨hafter, rfl⟩ := schedule_ok hjob
  rw [maxDelayMs] at hdelay
  rw [toInt_score (by omega) (by omega) hdelay hfits]
  simp only [TelegramCms.enqueuePublish, toMs]
  omega

end TelegramCms.Arq
