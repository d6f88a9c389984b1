import TelegramCms.Proof.Reserve

/-!
# Who owns a row of `published_dedupe`

The history variable `reservedBy` names the run that inserted a row. Whatever happens to
the run, a delivery it makes is a delivery of the row's hash (`Owned.hash`): a run
reserves at most one hash, and a run that delivered reserves nothing any more.
-/

namespace TelegramCms

open Transition Reservation

def Obs.delivery? : Obs → Option Delivery
  | .delivered d => some d
  | _ => none

namespace World

/-- The deliveries to the destination channel, newest first. -/
def deliveries (w : World) : List Delivery := w.log.filterMap Obs.delivery?

variable {env : Env} {w w' : World} {a : Action}

theorem delivery_eq_some {o : Obs} {d : Delivery} (h : o.delivery? = some d) :
    o = .delivered d := by
  unfold Obs.delivery? at h
  split at h
  · rw [Option.some.inj h]
  · exact absurd h (by simp)

theorem mem_deliveries {d : Delivery} : d ∈ w.deliveries ↔ .delivered d ∈ w.log := by
  simp only [deliveries, List.mem_filterMap]
  constructor
  · rintro ⟨o, ho, hd⟩
    rw [← delivery_eq_some hd]; exact ho
  · intro h; exact ⟨_, h, rfl⟩

/-! ## What holds of the runs in every state -/

/-- Runs are numbered in order and are where their contexts say. -/
structure Wf (w : World) : Prop where
  numbered : Numbered w
  placed : Placed w

theorem wf_init (h : Init w) : Wf w := ⟨numbered_init h, placed_init h⟩

/-- Numbers stay unique and publish runs stay where their contexts say. -/
theorem wf_step (hw : Wf w) (h : step env w a = some w') : Wf w' :=
  ⟨numbered_step hw.numbered h, placed_step hw.numbered hw.placed h⟩

theorem held_init (h : Init w) (k : Digest) : w.abs.held k = none := by
  refine held_eq_none ?_
  rw [Table.get_eq_none, h.dedupe]
  intro r hr
  exact absurd hr (by simp)

/-- Before the first action nothing is reserved and nobody has begun. -/
theorem start_of_init (h : Init w) : Start w.abs where
  past := by
    intro k i t hk
    rw [held_init h] at hk
    exact absurd hk (by simp)
  done := by show w.log.filterMap Obs.item? = []; rw [h.log]; rfl
  idle := by
    intro i k t hl
    simp only [Live, abs, proc_init h] at hl
    split at hl <;> simp at hl
  used := by
    intro k i t hk
    rw [held_init h] at hk
    exact absurd hk (by simp)

/-! ## Deliveries and rows -/

/-- A delivery is recorded by a step of a publish run inside `_send_post`. -/
theorem delivered_step {d : Delivery} (h : step env w a = some w') (hd : .delivered d ∈ w'.log) :
    .delivered d ∈ w.log
    ∨ ∃ job ctx retried id, a = .advance d.run (.message id)
        ∧ w.proc d.run = some (.publish job (.sending ctx retried))
        ∧ w'.proc d.run = some (.publish job (.markLoad ctx id)) ∧ w'.db = w.db
        ∧ d = ⟨d.run, job.postId, ctx.dedupeHash, ctx.reservedAt, ctx.text, ctx.mediaRefs, id⟩ := by
  rcases mem_log_step h hd (by simp) with hd | ⟨i, r, p, e, rfl, hp, he, rfl, ho⟩
  · exact .inl hd
  · obtain ⟨job, ctx, retried, id, rfl, rfl, rfl⟩ := (step_does he).delivered ho
    obtain ⟨e₀, hm, rfl⟩ := publish_step he
    refine .inr ⟨job, ctx, retried, id, rfl, hp, ?_⟩
    cases hm with
    | delivers hid => exact ⟨proc_apply_goto hp rfl, rfl, rfl⟩
    | stops o => exact absurd ho (by simp [Effect.map])
    | fails ex hr => exact absurd ho (by simp [Effect.map, publishFail, View.goto])
    | sendFails ex hh => exact absurd ho (by simp [Effect.map, View.goto])

/-- What deliveries say about the rows. -/
structure Owned (w : World) : Prop where
  wf : Wf w
  sane : Sane w.abs
  /-- A run that delivered reserves nothing any more. -/
  spent : ∀ d, .delivered d ∈ w.log → w.abs.phase d.run = .spent
  /-- It delivered the content it holds a row for. -/
  hash : ∀ d, .delivered d ∈ w.log → ∀ h t, w.abs.held h = some (d.run, t) → d.hash = some h

/-- Nothing has been delivered yet. -/
theorem owned_init (h : Init w) : Owned w where
  wf := wf_init h
  sane := (start_of_init h).sane
  spent := by intro d hd; rw [h.log] at hd; exact absurd hd (by simp)
  hash := by intro d hd; rw [h.log] at hd; exact absurd hd (by simp)

theorem abs_held_of_db (h : w'.db = w.db) : w'.abs.held = w.abs.held := by
  show w'.db.held = w.db.held
  rw [h]

/-- A run inside `_send_post` delivers the hash of its row, and has no row without one. -/
theorem Owned.sending (hw : Owned w) {i : Nat} {job : Job} {ctx : SendCtx} {retried : Bool}
    (hp : w.proc i = some (.publish job (.sending ctx retried))) {h : Digest} {t : Int}
    (hh : w.abs.held h = some (i, t)) : ctx.dedupeHash = some h := by
  have hph : w.abs.phase i = ctx.phase := abs_phase_some hp
  cases hc : ctx.dedupeHash with
  | none =>
      have hf : w.abs.phase i = .fresh := by rw [hph, SendCtx.phase, hc]
      exact absurd hf (hw.sane.used h i t hh)
  | some h' =>
      obtain ⟨t', -, ha⟩ := phase_of_hash hc (hw.wf.placed i job _ hp)
      rw [hw.sane.own h i t hh h' t' (.inl (.inl (hph.trans ha)))]

/-- **One step** keeps every delivery with its row. The log grows at a send that goes through, and
the run that sends then is the holder of the row of its hash. -/
theorem owned_step (hw : Owned w) (h : step env w a = some w') : Owned w' := by
  have habs := abs_step hw.wf.numbered hw.wf.placed h
  have hspent : ∀ i, w.abs.phase i = .spent → w'.abs.phase i = .spent := by
    intro i hi
    rcases habs with he | ⟨b, -, hb⟩
    · rw [he]; exact hi
    · exact next_spent hb hi
  refine ⟨wf_step hw.wf h, ?_, ?_, ?_⟩
  · rcases habs with he | ⟨b, -, hb⟩
    · rw [he]; exact hw.sane
    · exact sane_step hw.sane hb
  · intro d hd
    rcases delivered_step h hd with hd | ⟨job, ctx, retried, id, -, -, hp', -, -⟩
    · exact hspent _ (hw.spent d hd)
    · exact abs_phase_some hp'
  · intro d hd k t hk
    rcases delivered_step h hd with hd | ⟨job, ctx, retried, id, -, hp, -, hdb, he⟩
    · -- a run that delivered is spent, so the row cannot be new
      have hold : w.abs.held k = some (d.run, t) := by
        rcases habs with he | ⟨b, -, hb⟩
        · rw [← he]; exact hk
        · rcases next_held hb hk with hk | hf
          · exact hk
          · rw [hw.spent d hd] at hf; exact absurd hf (by simp)
      exact hw.hash d hd k t hold
    · -- the delivery of this step: the run still was at its send
      rw [abs_held_of_db hdb] at hk
      rw [he]; exact hw.sending hp hk

end World

end TelegramCms
