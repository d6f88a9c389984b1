import TelegramCms.Lib.Reservation
import TelegramCms.Proof.Steps

/-!
# Publish runs reserve, deliver, release

The system, seen through `published_dedupe`, is a reservation protocol: a publish run
with a hash is an attempt, `_reserve_dedupe` and `_release_dedupe` are its reservation
and its release, `_prune_dedupe_rows` is the pruner. `World.abs` forgets everything else
and `abs_step` says that every step of the system is a step of that protocol or none.
-/

namespace TelegramCms

open Transition Reservation

/-! ## The abstraction -/

def SendCtx.phase (ctx : SendCtx) : Phase Digest :=
  match ctx.dedupeHash, ctx.reservedAt with
  | none, _ => .fresh
  | some h, some t => .armed h t
  | some _, none => .spent

/-- The hash and the time of a reservation are those the run carries. -/
theorem SendCtx.phase_reserved {ctx : SendCtx} {h : Digest} {t : Int}
    (hp : ctx.phase = .armed h t ∨ ctx.phase = .failed h t) :
    ctx.dedupeHash = some h ∧ ctx.reservedAt = some t := by
  unfold SendCtx.phase at hp
  split at hp
  · simp at hp
  · rename_i hh ht
    obtain ⟨rfl, rfl⟩ : _ = h ∧ _ = t := by simpa using hp
    exact ⟨hh, ht⟩
  · simp at hp

/-- How far a publish run has come with its reservation. A run without a hash never
reserves anything. -/
def PublishPc.phase : PublishPc → Phase Digest
  | .load | .claim _ | .channel _ | .lookup .. | .reserve .. => .fresh
  | .lock ctx | .spacing ctx _ | .sending ctx _ | .backoff ctx _ => ctx.phase
  | .release ctx h _ =>
    match ctx.reservedAt with
    | some t => .failed h t
    | none => .spent
  | _ => .spent

def Proc.phase : Proc → Phase Digest
  | .publish _ pc => pc.phase
  | _ => .spent

/-- The phase a step leads to. -/
def Next.phase {Pc : Type} (f : Pc → Phase Digest) : Next Pc → Phase Digest
  | .goto pc => f pc
  | .stop _ => .spent

/-- A delivery of reserved content. -/
def Obs.item? : Obs → Option (Item Digest)
  | .delivered d =>
    match d.hash, d.reservedAt with
    | some h, some t => some ⟨d.run, h, t⟩
    | _, _ => none
  | _ => none

def Db.held (db : Db) (h : Digest) : Option (Nat × Int) :=
  (db.dedupe.get h).map (fun r => (r.reservedBy, r.publishedAt))

def World.abs (w : World) : State Digest where
  now := w.now
  held := w.db.held
  phase := fun i =>
    match w.proc i with
    | some p => p.phase
    | none => if i < w.nextRun then .spent else .fresh
  done := w.log.filterMap Obs.item?

/-! ## A publish run is where its context says -/

/-- The hash is the one the run looks up and reserves, and it is reserved from the lock
on. -/
def PublishPc.Ok : PublishPc → Prop
  | .lookup ctx h | .reserve ctx h => ctx.dedupeHash = some h
  | .lock ctx | .spacing ctx _ | .sending ctx _ | .backoff ctx _ =>
    ctx.dedupeHash.isSome → ctx.reservedAt.isSome
  | .release ctx h _ => ctx.dedupeHash = some h ∧ ctx.reservedAt.isSome
  | _ => True

section Move

variable {env : Env} {v : View} {postId : Nat} {pc pc' : PublishPc} {r : Reply}
  {e : Effect PublishPc}

/-- **One move** keeps a run where its context says: its hash is there as long as it is needed,
with the time of its reservation. -/
theorem move_ok (hm : PublishMove env v postId pc r e) (hok : pc.Ok)
    (hn : e.next = .goto pc') : pc'.Ok := by
  cases hm with
  | stops o => exact absurd hn (by simp)
  | unhashed hh =>
      obtain rfl := Next.goto.inj hn
      intro hs
      rw [sendCtx, hh] at hs
      exact absurd hs (by simp)
  | hashed hh => obtain rfl := Next.goto.inj hn; exact hh
  | absent hf => obtain rfl := Next.goto.inj hn; exact hok
  | reserves hf => obtain rfl := Next.goto.inj hn; exact fun _ => rfl
  | locks hl => obtain rfl := Next.goto.inj hn; exact hok
  | begins hpc hu =>
      obtain rfl := Next.goto.inj hn
      rcases hpc with rfl | rfl <;> exact hok
  | sendFails ex hh =>
      obtain rfl := Next.goto.inj hn
      exact ⟨hh, hok (by rw [hh]; rfl)⟩
  | backsOff => obtain rfl := Next.goto.inj hn; exact hok
  | card hpc =>
      obtain rfl := Next.goto.inj hn
      rcases hpc with ⟨ctx, mid, rfl, rfl⟩ | ⟨rfl, _, rfl, -⟩ <;> exact trivial
  | duplicates hrow => exact absurd hn (by simp)
  | _ => obtain rfl := Next.goto.inj hn; exact trivial

/-- A run with a hash that has passed the checks is armed. -/
theorem phase_of_hash {ctx : SendCtx} {h : Digest} (hh : ctx.dedupeHash = some h)
    (hok : ctx.dedupeHash.isSome → ctx.reservedAt.isSome) :
    ∃ t, ctx.reservedAt = some t ∧ ctx.phase = .armed h t := by
  obtain ⟨t, ht⟩ := Option.isSome_iff_exists.mp (hok (by rw [hh]; rfl))
  exact ⟨t, ht, by rw [SendCtx.phase, hh, ht]⟩

/-- What a move is in the reservation protocol. -/
theorem move_phase (hm : PublishMove env v postId pc r e) (hok : pc.Ok) :
    (e.db.dedupe = v.db.dedupe ∧ e.seen.filterMap Obs.item? = []
        ∧ (e.next.phase PublishPc.phase = pc.phase ∨ e.next.phase PublishPc.phase = .spent))
    ∨ (∃ h, pc.phase = .fresh ∧ v.db.dedupe.get h = none
        ∧ e.db.dedupe = v.db.dedupe.insert ⟨h, v.now, v.run, postId⟩
        ∧ e.seen.filterMap Obs.item? = [] ∧ e.next.phase PublishPc.phase = .armed h v.now)
    ∨ (∃ h t, pc.phase = .armed h t ∧ e.db.dedupe = v.db.dedupe
        ∧ e.seen.filterMap Obs.item? = [⟨v.run, h, t⟩] ∧ e.next.phase PublishPc.phase = .spent)
    ∨ (∃ h t, pc.phase = .armed h t ∧ e.db.dedupe = v.db.dedupe
        ∧ e.seen.filterMap Obs.item? = [] ∧ e.next.phase PublishPc.phase = .failed h t)
    ∨ (∃ h t, pc.phase = .failed h t ∧ e.db.dedupe = v.db.dedupe.delete h
        ∧ e.seen.filterMap Obs.item? = [] ∧ e.next.phase PublishPc.phase = .spent) := by
  cases hm with
  | stops o => exact .inl ⟨rfl, rfl, .inr rfl⟩
  | fails ex hr => exact .inl ⟨rfl, rfl, .inr rfl⟩
  | loads hrow hm hs => exact .inl ⟨rfl, rfl, .inl rfl⟩
  | claims hrow => exact .inl ⟨rfl, rfl, .inl rfl⟩
  | unhashed hh =>
      -- without a hash the run stays out of the protocol
      refine .inl ⟨rfl, rfl, .inl ?_⟩
      simp only [View.goto, Next.phase, PublishPc.phase, SendCtx.phase, sendCtx, hh]
  | hashed hh => exact .inl ⟨rfl, rfl, .inl rfl⟩
  | absent hf => exact .inl ⟨rfl, rfl, .inl rfl⟩
  | taken hpc hrow => exact .inl ⟨rfl, rfl, .inr rfl⟩
  | @reserves ctx h hf =>
      refine .inr (.inl ⟨h, rfl, hf, rfl, rfl, ?_⟩)
      have hh : ctx.dedupeHash = some h := hok
      simp only [Next.phase, PublishPc.phase, SendCtx.phase, hh]
  | locks hl => exact .inl ⟨rfl, rfl, .inl rfl⟩
  | begins hpc hu =>
      refine .inl ⟨rfl, rfl, .inl ?_⟩
      rcases hpc with rfl | rfl <;> rfl
  | @delivers ctx retried id hid =>
      cases hh : ctx.dedupeHash with
      | none =>
          refine .inl ⟨rfl, ?_, .inr rfl⟩
          simp only [sendDelivered, List.filterMap_cons, List.filterMap_nil, Obs.item?, hh]
      | some h =>
          obtain ⟨t, ht, hp⟩ := phase_of_hash hh hok
          refine .inr (.inr (.inl ⟨h, t, hp, rfl, ?_, rfl⟩))
          simp only [sendDelivered, List.filterMap_cons, List.filterMap_nil, Obs.item?, hh, ht]
  | @sendFails ctx retried r h ex hh =>
      obtain ⟨t, ht, hp⟩ := phase_of_hash hh hok
      refine .inr (.inr (.inr (.inl ⟨h, t, hp, rfl, rfl, ?_⟩)))
      simp only [View.goto, Next.phase, PublishPc.phase, ht]
  | backsOff => exact .inl ⟨rfl, rfl, .inl rfl⟩
  | @releases ctx h ex =>
      obtain ⟨t, ht⟩ := Option.isSome_iff_exists.mp (And.right hok)
      refine .inr (.inr (.inr (.inr ⟨h, t, ?_, rfl, rfl, rfl⟩)))
      simp only [PublishPc.phase, ht]
  | markLoads hrow => exact .inl ⟨rfl, rfl, .inr rfl⟩
  | marks hh hrow => exact .inl ⟨rfl, rfl, .inr rfl⟩
  | card hpc =>
      refine .inl ⟨rfl, rfl, .inr ?_⟩
      rcases hpc with ⟨ctx, mid, rfl, rfl⟩ | ⟨rfl, _, rfl, -⟩ <;> rfl
  | duplicateLoads hrow => exact .inl ⟨rfl, rfl, .inr rfl⟩
  | duplicates hrow => exact .inl ⟨rfl, rfl, .inr rfl⟩
  | failureLoads hrow => exact .inl ⟨rfl, rfl, .inr rfl⟩
  | failureCommits hrow => exact .inl ⟨rfl, rfl, .inr rfl⟩

end Move

/-! ## Runs of other kinds take no part -/

section Others

variable {env : Env} {v : View} {r : Reply} {p : Proc} {e : Effect Proc}

theorem sees_item : (p.sees env v).filterMap Obs.item? = [] := by
  unfold Proc.sees
  split
  · rfl
  · dsimp only; split <;> rfl
  · rfl
  · rfl
  · rfl

/-- A kind of run is kept from step to step. -/
theorem phase_map_spent {α : Type} {f : α → Proc} {e : Effect α}
    (hf : ∀ pc, (f pc).phase = .spent) : (e.map f).next.phase Proc.phase = .spent := by
  unfold Effect.map
  cases e.next with
  | goto pc => exact hf pc
  | stop o => rfl

/-- **A step of any other run** leaves the rows alone, sends nothing under a hash, and stays out. -/
theorem other_step (hp : ∀ job pc, p ≠ .publish job pc) (h : p.step env v r = some e) :
    e.db.dedupe = v.db.dedupe ∧ e.seen.filterMap Obs.item? = []
      ∧ e.next.phase Proc.phase = .spent := by
  refine ⟨?_, ?_, ?_⟩
  · cases step_does h with
    | quiet => rfl
    | writes hs hrow => rfl
    | enqueues hj => rfl
    | begins hpc hu => exact absurd rfl (hp _ _)
    | delivers hid => exact absurd rfl (hp _ _)
    | reserves hf => exact absurd rfl (hp _ _)
    | releases => exact absurd rfl (hp _ _)
  · cases step_does h with
    | quiet => rfl
    | writes hs hrow => exact sees_item
    | enqueues hj => rfl
    | begins hpc hu => exact absurd rfl (hp _ _)
    | delivers hid => exact absurd rfl (hp _ _)
    | reserves hf => exact absurd rfl (hp _ _)
    | releases => exact absurd rfl (hp _ _)
  · cases p with
    | publish job pc => exact absurd rfl (hp job pc)
    | _ =>
        obtain ⟨e₀, -, rfl⟩ := Option.map_eq_some_iff.mp h
        exact phase_map_spent fun _ => rfl

end Others

namespace World

variable {env : Env} {w w' : World} {a : Action} {i : Nat}

/-- Every publish run is where its context says. -/
def Placed (w : World) : Prop := ∀ i job pc, w.proc i = some (.publish job pc) → pc.Ok

theorem placed_init (h : Init w) : Placed w := by
  intro i job pc hp
  rw [proc_init h] at hp
  exact absurd hp (by simp)

/-- **One step** keeps every publish run where its context says. -/
theorem placed_step (hn : Numbered w) (hpl : Placed w) (h : step env w a = some w') :
    Placed w' := by
  intro i job pc hpc
  rcases publish_origin hn h hpc with hp | ⟨r, pc₀, e, rfl, hp, hm, hnx, -⟩ | ⟨rfl, -, -⟩
  · exact hpl i job pc hp
  · exact move_ok hm (hpl i job pc₀ hp) hnx
  · trivial

/-! ## The abstraction of a step -/

theorem abs_phase_some {p : Proc} (hp : w.proc i = some p) : w.abs.phase i = p.phase := by
  simp only [abs, hp]

theorem abs_phase_nextRun (hn : Numbered w) : w.abs.phase w.nextRun = .fresh := by
  simp only [abs, hn _ (Nat.le_refl _), Nat.lt_irrefl, if_false]

theorem filterMap_seenOf (e : Effect Proc) :
    (seenOf i e).filterMap Obs.item? = e.seen.filterMap Obs.item? := by
  unfold seenOf
  split <;> rfl

/-- What a step does to the reservations is what its effect says: the rows, the phase of its run,
and the items it adds to the log. -/
theorem abs_apply (hn : Numbered w) {p : Proc} {e : Effect Proc} (hp : w.proc i = some p) :
    (w.apply i e).abs = {
      now := w.now
      held := e.db.held
      phase := Function.update w.abs.phase i (e.next.phase Proc.phase)
      done := e.seen.filterMap Obs.item? ++ w.abs.done } := by
  refine State.ext rfl rfl ?_ ?_
  · funext j
    by_cases hj : j = i
    · subst hj
      simp only [Function.update_self]
      cases hnx : e.next with
      | goto q => exact abs_phase_some (proc_apply_goto hp hnx)
      | stop o =>
          -- a number that was given out and has no run any more is spent
          simp only [abs, proc_apply_stop hnx, nextRun_apply, lt_nextRun hn hp, if_true]
          rfl
    · simp only [Function.update_of_ne hj, abs, proc_apply_ne hj]
      rfl
  · simp only [abs, apply, List.filterMap_append, filterMap_seenOf]

/-- A run that starts has its own number, which nothing has used before. -/
theorem abs_spawn (hn : Numbered w) (p : Proc) :
    (w.spawn p).abs = { w.abs with phase := Function.update w.abs.phase w.nextRun p.phase } := by
  refine State.ext rfl rfl ?_ rfl
  funext j
  by_cases hj : j = w.nextRun
  · subst hj
    simp only [Function.update_self]
    exact abs_phase_some (proc_spawn_self hn)
  · simp only [Function.update_of_ne hj]
    simp only [abs, proc_spawn_ne hj]
    have : j < (w.spawn p).nextRun ↔ j < w.nextRun := by
      show j < w.nextRun + 1 ↔ j < w.nextRun
      omega
    simp only [this]

/-- A run that starts has reserved nothing, or never will. -/
theorem abs_spawn_next {L : Int} (hn : Numbered w) (p : Proc)
    (hp : p.phase = .fresh ∨ p.phase = .spent) :
    (w.spawn p).abs = w.abs ∨ next L w.abs (.retire w.nextRun) = some (w.spawn p).abs := by
  rw [abs_spawn hn]
  rcases hp with hp | hp
  · left
    rw [hp, ← abs_phase_nextRun hn, Function.update_eq_self]
  · right
    rw [hp]; rfl

/-- The run of a job begins fresh, or takes no part. -/
theorem start_phase (job : Job) : job.start.phase = .fresh ∨ job.start.phase = .spent := by
  unfold Job.start
  cases job.name
  · exact .inl rfl
  · exact .inr rfl
  · exact .inr rfl

theorem request_phase (req : Request) : req.start.phase = .spent := by
  cases req <;> rfl

/-- A run that dies is spent, and its row stays. -/
theorem abs_crash (hn : Numbered w) {p : Proc} {q : List Job} (hp : w.proc i = some p) :
    ({ w with runs := w.runs.delete i, queue := q } : World).abs
      = { w.abs with phase := Function.update w.abs.phase i .spent } := by
  refine State.ext rfl rfl ?_ rfl
  funext j
  by_cases hj : j = i
  · subst hj
    simp only [abs, proc_crash_self, lt_nextRun hn hp, if_true, Function.update_self]
  · simp only [Function.update_of_ne hj, abs, proc_crash_ne hj]

/-! ## Every step is a step of the protocol, or none -/

theorem held_insert (db : Db) (h : Digest) (now : Time) (run postId : Nat)
    (hf : db.dedupe.get h = none) :
    ({ db with dedupe := db.dedupe.insert ⟨h, now, run, postId⟩ } : Db).held
      = Function.update db.held h (some (run, now)) := by
  funext k
  by_cases hk : k = h
  · subst hk
    have hf' : db.dedupe.get (⟨k, now, run, postId⟩ : PublishedDedupe).dedupeHash = none := hf
    simp only [Function.update_self, Db.held, Table.get_insert_self hf', Option.map_some]
  · simp only [Function.update_of_ne hk, Db.held]
    rw [Table.get_insert_ne (by exact hk)]

theorem held_delete (db : Db) (h : Digest) :
    ({ db with dedupe := db.dedupe.delete h } : Db).held = Function.update db.held h none := by
  funext k
  by_cases hk : k = h
  · subst hk
    simp only [Function.update_self, Db.held, Table.get_delete_self, Option.map_none]
  · simp only [Function.update_of_ne hk, Db.held, Table.get_delete_ne hk]

theorem held_eq_none {db : Db} {h : Digest} (hf : db.dedupe.get h = none) :
    db.held h = none := by
  rw [Db.held, hf, Option.map_none]

theorem held_of_dedupe (db db' : Db) (h : db.dedupe = db'.dedupe) : db.held = db'.held := by
  funext k
  rw [Db.held, Db.held, h]

/-- Deleting the rows inserted before `cutoff`. -/
theorem held_filter {db : Db} {cutoff : Time} :
    ({ db with dedupe := db.dedupe.filter (fun r => decide (cutoff ≤ r.publishedAt)) } : Db).held
      = fun k => (db.held k).filter (fun x => decide (cutoff ≤ x.2)) := by
  funext k
  simp only [Db.held, Table.get_filter]
  cases db.dedupe.get k with
  | none => rfl
  | some r =>
      by_cases hc : cutoff ≤ r.publishedAt <;> simp [Option.filter, hc]

theorem insertPost_dedupe {db db' : Db} {now : Time} {c m : Nat} {text : Option Text}
    (h : db.insertPost now c m text = some db') : db'.dedupe = db.dedupe := by
  unfold Db.insertPost at h
  split at h
  · exact absurd h (by simp)
  · obtain rfl := Option.some.inj h
    rfl

/-- The action of the protocol that an action of the system is. -/
def Matches (env : Env) (w : World) (a : Action) : Act Digest → Prop
  | .deliver i | .release i =>
    ∃ r job pc h t, a = .advance i r ∧ w.proc i = some (.publish job pc)
      ∧ (pc.phase = .armed h t ∨ pc.phase = .failed h t)
  | .prune cutoff =>
    ∃ at_, a = .pruneDedupe at_ ∧ cutoff = at_ - days env.settings.dedupeLookbackDays
  | _ => True

/-- **A move of a publish run is a step of the protocol, or none.** The cases are those of
`PublishMove`, most of which are none. -/
theorem abs_publish {r : Reply} {job : Job} {pc : PublishPc} {e₀ : Effect PublishPc}
    (hn : Numbered w) (hok : pc.Ok) (hp : w.proc i = some (.publish job pc))
    (hm : PublishMove env (w.view i) job.postId pc r e₀) :
    (w.apply i (e₀.map (.publish job))).abs = w.abs
    ∨ ∃ b, Matches env w (.advance i r) b
      ∧ next (days env.settings.dedupeLookbackDays) w.abs b
        = some (w.apply i (e₀.map (.publish job))).abs := by
  have hnx : (e₀.map (Proc.publish job)).next.phase Proc.phase
      = e₀.next.phase PublishPc.phase := by
    unfold Effect.map
    cases e₀.next <;> rfl
  have habs := abs_apply hn (e := e₀.map (.publish job)) hp
  rw [hnx] at habs
  have hph : w.abs.phase i = pc.phase := abs_phase_some hp
  have hseen : (e₀.map (Proc.publish job)).seen = e₀.seen := rfl
  rw [hseen] at habs
  -- one action of the protocol for each way in which a move can touch the table
  rcases move_phase hm hok with ⟨hd, hs, hx⟩ | ⟨h, hf, hd0, hd, hs, hx⟩ | ⟨h, t, hf, hd, hs, hx⟩ |
    ⟨h, t, hf, hd, hs, hx⟩ | ⟨h, t, hf, hd, hs, hx⟩
  · rw [hs, held_of_dedupe (e₀.map (Proc.publish job)).db w.db hd] at habs
    rcases hx with hx | hx
    · left
      rw [habs, hx, ← hph, Function.update_eq_self]
      rfl
    · refine .inr ⟨.retire i, trivial, ?_⟩
      rw [habs, hx]
      rfl
  · refine .inr ⟨.reserve i h, trivial, ?_⟩
    have hheld := (held_of_dedupe (e₀.map (Proc.publish job)).db
      { w.db with dedupe := w.db.dedupe.insert ⟨h, w.now, i, job.postId⟩ } hd).trans
      (held_insert w.db h w.now i job.postId hd0)
    have hnone : w.abs.held h = none := held_eq_none hd0
    rw [habs, hs, hx, hheld, next]
    simp only [hph, hf, hnone]
    rfl
  · refine .inr ⟨.deliver i, ⟨r, job, pc, h, t, rfl, hp, .inl hf⟩, ?_⟩
    rw [habs, hs, hx, held_of_dedupe (e₀.map (Proc.publish job)).db w.db hd, next]
    simp only [hph, hf]
    rfl
  · refine .inr ⟨.fail i, trivial, ?_⟩
    rw [habs, hs, hx, held_of_dedupe (e₀.map (Proc.publish job)).db w.db hd, next]
    simp only [hph, hf]
    rfl
  · refine .inr ⟨.release i, ⟨r, job, pc, h, t, rfl, hp, .inr hf⟩, ?_⟩
    have hheld := (held_of_dedupe (e₀.map (Proc.publish job)).db
      { w.db with dedupe := w.db.dedupe.delete h } hd).trans (held_delete w.db h)
    rw [habs, hs, hx, hheld, next]
    simp only [hph, hf]
    rfl

/-- **Every step of the system is a step of the reservation protocol, or none.** -/
theorem abs_step (hn : Numbered w) (hpl : Placed w) (h : step env w a = some w') :
    w'.abs = w.abs
    ∨ ∃ b, Matches env w a b
      ∧ next (days env.settings.dedupeLookbackDays) w.abs b = some w'.abs := by
  have hspawn : ∀ (w₀ : World) {p : Proc}, w₀.abs = w.abs → w₀.nextRun = w.nextRun →
      w₀.runs = w.runs → (p.phase = .fresh ∨ p.phase = .spent) →
      (w₀.spawn p).abs = w.abs ∨ ∃ b, Matches env w a b
        ∧ next (days env.settings.dedupeLookbackDays) w.abs b = some (w₀.spawn p).abs := by
    intro w₀ p habs hnr hr hp
    have hn₀ : Numbered w₀ := by
      intro j hj
      rw [proc_of_runs hr]
      exact hn j (hnr ▸ hj)
    rw [← habs]
    rcases abs_spawn_next hn₀ p hp with h | h
    · exact .inl h
    · exact .inr ⟨.retire w₀.nextRun, trivial, h⟩
  rcases step_cases h with ⟨d, rfl, rfl⟩ | ⟨i, r, p, e, rfl, hp, he, rfl⟩ | ⟨i, p, rfl, hp, rfl⟩ |
    ⟨job, rfl, _, _, rfl⟩ | ⟨req, rfl, rfl⟩ | ⟨c, m, text, db, rfl, hdb, rfl⟩ |
    ⟨ch, te, ta, rfl, rfl⟩ | ⟨at_, rfl, hat, rfl⟩
  · exact .inr ⟨.wait d, trivial, rfl⟩
  · cases p with
    | publish job pc =>
        obtain ⟨e₀, hm, rfl⟩ := publish_step he
        exact abs_publish hn (hpl i job pc hp) hp hm
    | _ =>
        -- the run was spent and stays spent
        left
        obtain ⟨hd, hs, hx⟩ := other_step (fun _ _ => Proc.noConfusion) he
        rw [abs_apply hn hp, hs, hx, held_of_dedupe e.db w.db hd]
        have hph : w.abs.phase i = .spent := abs_phase_some hp
        rw [← hph, Function.update_eq_self]
        rfl
  · refine .inr ⟨.retire i, trivial, ?_⟩
    rw [abs_crash hn hp]
    rfl
  · exact hspawn _ rfl rfl rfl (start_phase job)
  · exact hspawn _ rfl rfl rfl (.inr (request_phase req))
  · -- an insertion into `posts` leaves `published_dedupe` alone
    refine hspawn { w with db := db } ?_ rfl rfl (.inr rfl)
    refine State.ext rfl (held_of_dedupe db w.db ?_) rfl rfl
    exact insertPost_dedupe hdb
  · exact .inl rfl
  · refine .inr ⟨.prune (at_ - days env.settings.dedupeLookbackDays), ⟨at_, rfl, rfl⟩, ?_⟩
    have hle : at_ - days env.settings.dedupeLookbackDays
        ≤ w.abs.now - days env.settings.dedupeLookbackDays := Int.sub_le_sub_right hat _
    rw [next, if_pos hle]
    exact congrArg some (State.ext rfl held_filter.symm rfl rfl)

end World

end TelegramCms
