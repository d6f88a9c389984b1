import TelegramCms.Proof.Owners
import TelegramCms.Proof.Rows

/-!
# A post is delivered at most once

What keeps two publish runs of one post apart is the row of its hash: the state
`publishing` is read and set in two steps, and `published_message_id` is written after the
send, if at all. So the guard works for a post with a hash, as long as the hash stays the
same and its row stays where it is.

`delivered_once`: where every run that passes the early checks finds the other runs of its
post, and the deliveries of it, under the hash of the row it loaded, with the row of a
delivery still there, and where the pruner takes no row that a run in progress relies on,
the post is delivered at most once.
-/

namespace TelegramCms

open Transition Reservation

/-- The hash under which a run goes to its send, once it has passed the early checks. -/
def PublishPc.ticket? : PublishPc → Option (Option Digest)
  | .claim post | .channel post => some post.dedupeHash
  | .lookup ctx _ | .reserve ctx _ | .lock ctx | .spacing ctx _ | .sending ctx _
  | .backoff ctx _ => some ctx.dedupeHash
  | _ => none

/-- The hash whose row a run relies on until it has delivered or released it. -/
def PublishPc.carries : PublishPc → Option Digest
  | .claim post | .channel post => post.dedupeHash
  | .lookup ctx _ | .reserve ctx _ | .lock ctx | .spacing ctx _ | .sending ctx _
  | .backoff ctx _ | .release ctx _ _ => ctx.dedupeHash
  | _ => none

/-- The ticket of a run that works on post `p`. -/
def Proc.ticket? (p : Nat) : Proc → Option (Option Digest)
  | .publish job pc => if job.postId = p then pc.ticket? else none
  | _ => none

def Proc.carries : Proc → Option Digest
  | .publish _ pc => pc.carries
  | _ => none

/-- The post a publish run is about to load. -/
def Proc.loads? : Proc → Option Nat
  | .publish job .load => some job.postId
  | _ => none

section Move

variable {env : Env} {v : View} {postId : Nat} {pc pc' : PublishPc} {r : Reply}
  {e : Effect PublishPc} {x : Option Digest}

theorem carries_of_ticket (h : pc.ticket? = some x) : pc.carries = x := by
  cases pc <;> simp only [PublishPc.ticket?, Option.some.injEq, reduceCtorEq] at h <;> exact h

/-- A run that still holds its reservation relies on the row. -/
theorem carries_of_phase {h : Digest} {t : Int} (hok : pc.Ok)
    (hp : pc.phase = .armed h t ∨ pc.phase = .failed h t) : pc.carries = some h := by
  cases pc with
  | lock | spacing | sending | backoff => exact (SendCtx.phase_reserved hp).1
  | release ctx k ex =>
      have hk : ctx.dedupeHash = some k := hok.1
      simp only [PublishPc.phase] at hp
      split at hp
      · simp at hp; rw [PublishPc.carries, hk, hp.1]
      · simp at hp
  | _ => simp [PublishPc.phase] at hp

theorem ticket?_eq (pc : PublishPc) : pc.ticket? = pc.taken?.map Prod.fst := by
  cases pc <;> rfl

/-- A run keeps its ticket; it gets one when it passes the early checks. -/
theorem move_ticket (hm : PublishMove env v postId pc r e) (hn : e.next = .goto pc')
    (hx : pc'.ticket? = some x) :
    pc.ticket? = some x
    ∨ ∃ post, pc = .load ∧ r = .ok ∧ v.db.posts.get postId = some post
        ∧ post.publishedMessageId = none ∧ post.state ∉ skipStates ∧ x = post.dedupeHash := by
  rw [ticket?_eq] at hx ⊢
  obtain ⟨y, hy, rfl⟩ := Option.map_eq_some_iff.mp hx
  rcases move_taken hm hn hy with h | ⟨post, hpc, hr, hrow, hmid, hs, rfl⟩
  · rw [h]
    exact .inl rfl
  · exact .inr ⟨post, hpc, hr, hrow, hmid, hs, rfl⟩

end Move

namespace World

variable {env : Env} {w w' : World} {a : Action} {p : Nat}

/-- The hash under which run `i` goes to send post `p`. -/
def ticket (w : World) (p i : Nat) : Option (Option Digest) := (w.proc i).bind (Proc.ticket? p)

/-- The run that inserted the row of a hash, if there is a hash and a row. -/
def holder (w : World) (x : Option Digest) : Option Nat :=
  (x.bind w.db.dedupe.get).map PublishedDedupe.reservedBy

/-- The row of `x` keeps a further run of post `p` apart from those on their way, and from
those that have delivered. -/
def Covered (w : World) (p : Nat) (x : Option Digest) : Prop :=
  (∀ r ∈ w.runs.rows, ∀ y ∈ r.proc.ticket? p, y = x ∧ x.isSome)
  ∧ ∀ d ∈ w.deliveries, d.post = p → w.holder x = some d.run

instance (w : World) (p : Nat) (x : Option Digest) : Decidable (Covered w p x) :=
  inferInstanceAs (Decidable ((∀ r ∈ w.runs.rows, ∀ y ∈ r.proc.ticket? p, y = x ∧ x.isSome)
    ∧ ∀ d ∈ w.deliveries, d.post = p → w.holder x = some d.run))

/-- A run that is to load post `p` and pass the early checks is covered by the row. -/
def Admitted (w : World) (p : Nat) (proc : Proc) : Prop :=
  proc.loads? = some p → ∀ row ∈ w.row p,
    row.publishedMessageId = none → row.state ∉ skipStates → Covered w p row.dedupeHash

instance (w : World) (p : Nat) (proc : Proc) : Decidable (Admitted w p proc) :=
  inferInstanceAs (Decidable (proc.loads? = some p → ∀ row ∈ w.row p,
    row.publishedMessageId = none → row.state ∉ skipStates → Covered w p row.dedupeHash))

abbrev LoadsCovered (p : Nat) : World → Action → Prop := OnOk fun w _ proc => Admitted w p proc

/-- The pruner takes no row that a publish run relies on. -/
def PruneKeeps (env : Env) (w : World) : Action → Prop
  | .pruneDedupe at_ => ∀ r ∈ w.runs.rows, ∀ h ∈ r.proc.carries, ∀ row ∈ w.db.dedupe.get h,
    at_ - days env.settings.dedupeLookbackDays ≤ row.publishedAt
  | _ => True

instance (env : Env) (w : World) : DecidablePred (PruneKeeps env w) := fun a =>
  match a with
  | .pruneDedupe at_ =>
    inferInstanceAs (Decidable (∀ r ∈ w.runs.rows, ∀ h ∈ r.proc.carries,
      ∀ row ∈ w.db.dedupe.get h, at_ - days env.settings.dedupeLookbackDays ≤ row.publishedAt))
  | .tick _ | .advance .. | .crash _ | .startJob _ | .request _ | .arrive .. | .configure .. =>
    inferInstanceAs (Decidable True)

/-- The condition on a step. -/
abbrev Guarded (env : Env) (p : Nat) (w : World) (a : Action) : Prop :=
  LoadsCovered p w a ∧ PruneKeeps env w a

/-! ## Tickets -/

theorem ticket_eq_some {i : Nat} {x : Option Digest} (h : w.ticket p i = some x) :
    ∃ job pc, w.proc i = some (.publish job pc) ∧ job.postId = p ∧ pc.ticket? = some x := by
  obtain ⟨proc, hp, ht⟩ := Option.bind_eq_some_iff.mp h
  unfold Proc.ticket? at ht
  split at ht
  · split at ht
    · exact ⟨_, _, hp, ‹_›, ht⟩
    · exact absurd ht (by simp)
  · exact absurd ht (by simp)

theorem ticket_publish {i : Nat} {job : Job} {pc : PublishPc}
    (hp : w.proc i = some (.publish job pc)) : w.ticket job.postId i = pc.ticket? := by
  rw [ticket, hp, Option.bind_some, Proc.ticket?, if_pos rfl]

/-- A run has its ticket from before, or has just passed the early checks. -/
theorem ticket_step (hn : Numbered w) (h : step env w a = some w') {i : Nat} {x : Option Digest}
    (hx : w'.ticket p i = some x) :
    w.ticket p i = some x
    ∨ ∃ proc row, a = .advance i .ok ∧ w.proc i = some proc ∧ proc.loads? = some p
        ∧ w.row p = some row ∧ row.publishedMessageId = none ∧ row.state ∉ skipStates
        ∧ x = row.dedupeHash := by
  obtain ⟨job, pc, hq, rfl, ht⟩ := ticket_eq_some hx
  rcases publish_origin hn h hq with hp | ⟨r, pc₀, e, rfl, hp, hm, hnx, -⟩ | ⟨rfl, -, -⟩
  · left; rw [ticket_publish hp, ht]
  · rcases move_ticket hm hnx ht with ht | ⟨post, rfl, rfl, hrow, hmid, hst, hxp⟩
    · left; rw [ticket_publish hp, ht]
    · exact .inr ⟨_, post, rfl, hp, rfl, hrow, hmid, hst, hxp⟩
  · exact absurd ht (by simp [PublishPc.ticket?])

/-! ## Rows of `published_dedupe` -/

/-- A row goes when a run releases its hash or the pruner takes it. -/
theorem dedupe_step {h : Digest} {row : PublishedDedupe} (hu : step env w a = some w')
    (hrow : w.db.dedupe.get h = some row) :
    w'.db.dedupe.get h = some row
    ∨ (∃ i r job ctx ex, a = .advance i r ∧ w.proc i = some (.publish job (.release ctx h ex)))
    ∨ ∃ at_, a = .pruneDedupe at_
        ∧ row.publishedAt < at_ - days env.settings.dedupeLookbackDays := by
  rcases step_cases hu with ⟨d, rfl, rfl⟩ | ⟨i, r, proc, e, rfl, hp, he, rfl⟩ | ⟨k, proc, rfl, hp, rfl⟩ |
    ⟨job, rfl, _, _, rfl⟩ | ⟨req, rfl, rfl⟩ | ⟨c, m, text, db, rfl, hdb, rfl⟩ |
    ⟨ch, te, ta, rfl, rfl⟩ | ⟨at_, rfl, _, rfl⟩
  · exact .inl hrow
  · show e.db.dedupe.get h = some row ∨ _
    have hdoes := step_does he
    cases hdoes with
    | @reserves job ctx k n hf =>
        -- a reservation is made only for a hash without a row
        have hne : h ≠ k := by
          rintro rfl
          rw [show w.db.dedupe.get h = none from hf] at hrow
          exact absurd hrow (by simp)
        exact .inl ((Table.get_insert_ne hne).trans hrow)
    | @releases job ctx k ex n =>
        by_cases hk : h = k
        · subst hk
          exact .inr (.inl ⟨i, _, job, ctx, ex, rfl, hp⟩)
        · exact .inl ((Table.get_delete_ne hk).trans hrow)
    | _ => exact .inl hrow
  · exact .inl hrow
  · exact .inl hrow
  · exact .inl hrow
  · refine .inl ?_
    show db.dedupe.get h = some row
    rw [insertPost_dedupe hdb]; exact hrow
  · exact .inl hrow
  -- the pruner
  · by_cases hc : at_ - days env.settings.dedupeLookbackDays ≤ row.publishedAt
    · refine .inl ?_
      show (w.db.dedupe.filter _).get h = some row
      rw [Table.get_filter, hrow, Option.filter_some, if_pos (decide_eq_true hc)]
    · exact .inr (.inr ⟨at_, rfl, Int.not_le.mp hc⟩)

/-! ## The invariant -/

/-- Where the runs and the deliveries of post `p` are. -/
structure Single (p : Nat) (w : World) : Prop where
  owned : Owned w
  holds : Holds w.abs
  /-- Two runs on their way go under one hash. -/
  twins : ∀ i j x y, i ≠ j → w.ticket p i = some x → w.ticket p j = some y → y = x ∧ x.isSome
  /-- A run on its way goes under the hash whose row a delivery left. -/
  covers : ∀ i x, w.ticket p i = some x → ∀ d, .delivered d ∈ w.log → d.post = p →
    w.holder x = some d.run
  once : (w.deliveries.filter (fun d => d.post = p)).length ≤ 1

theorem holder_eq_some {x : Option Digest} {k : Nat} (h : w.holder x = some k) :
    ∃ d row, x = some d ∧ w.db.dedupe.get d = some row ∧ row.reservedBy = k := by
  obtain ⟨row, hrow, hk⟩ := Option.map_eq_some_iff.mp h
  obtain ⟨d, hd, hget⟩ := Option.bind_eq_some_iff.mp hrow
  exact ⟨d, row, hd, hget, hk⟩

theorem abs_held {d : Digest} {row : PublishedDedupe} (h : w.db.dedupe.get d = some row) :
    w.abs.held d = some (row.reservedBy, row.publishedAt) := by
  show (w.db.dedupe.get d).map _ = _
  rw [h]; rfl

/-- A run inside `_send_post` is the holder of its hash, if it has one. -/
theorem Single.sending (hw : Single p w) {i : Nat} {job : Job} {ctx : SendCtx} {retried : Bool}
    {h : Digest} (hp : w.proc i = some (.publish job (.sending ctx retried)))
    (hh : ctx.dedupeHash = some h) : w.holder (some h) = some i := by
  obtain ⟨t, -, hph⟩ := phase_of_hash hh (hw.owned.wf.placed i job _ hp)
  have hheld : w.abs.held h = some (i, t) :=
    hw.holds i h t (.inl ((abs_phase_some hp).trans hph))
  obtain ⟨row, hrow, he⟩ := Option.map_eq_some_iff.mp
    (show (w.db.dedupe.get h).map (fun r => (r.reservedBy, r.publishedAt)) = _ from hheld)
  rw [holder, Option.bind_some, hrow, Option.map_some, (Prod.mk.inj he).1]

/-- A live attempt of the protocol is a publish run. -/
theorem live_publish {i : Nat} {k : Digest} {t : Int} (h : Live w.abs i k t) :
    ∃ job pc, w.proc i = some (.publish job pc) ∧ (pc.phase = .armed k t ∨ pc.phase = .failed k t) := by
  cases hp : w.proc i with
  | none =>
      simp only [Live, abs, hp] at h
      split at h <;> simp at h
  | some proc =>
      rw [Live, abs_phase_some hp] at h
      cases proc with
      | publish job pc => exact ⟨job, pc, rfl, h⟩
      | _ => simp [Proc.phase] at h

/-- A run that has delivered is no live attempt. -/
theorem Single.not_live (hw : Single p w) {d : Delivery} (hd : .delivered d ∈ w.log) {k : Digest}
    {t : Int} : ¬ Live w.abs d.run k t := by
  intro hl
  rw [Live, hw.owned.spent d hd] at hl
  simp at hl

/-- The pruner keeps the row a publish run relies on. -/
theorem publishedAt_of_carries {at_ : Time} (hg : PruneKeeps env w (.pruneDedupe at_)) {i : Nat}
    {job : Job} {pc : PublishPc} (hp : w.proc i = some (.publish job pc)) {k : Digest}
    (hk : pc.carries = some k) {row : PublishedDedupe} (hrow : w.db.dedupe.get k = some row) :
    at_ - days env.settings.dedupeLookbackDays ≤ row.publishedAt := by
  obtain ⟨r, hr, he⟩ := Option.map_eq_some_iff.mp hp
  exact hg r (Table.mem_of_get hr) k (by rw [he]; exact hk) row hrow

/-- The row of a delivery stays, unless the pruner takes it. -/
theorem holder_step (hw : Single p w) (h : step env w a = some w') {x : Option Digest}
    (hprune : ∀ at_ k row, a = .pruneDedupe at_ → x = some k → w.db.dedupe.get k = some row →
      at_ - days env.settings.dedupeLookbackDays ≤ row.publishedAt)
    {d : Delivery} (hd : .delivered d ∈ w.log) (hh : w.holder x = some d.run) :
    w'.holder x = some d.run := by
  obtain ⟨k, row, rfl, hrow, hby⟩ := holder_eq_some hh
  rcases dedupe_step h hrow with hrow' | ⟨j, r, job, ctx, ex, rfl, hp⟩ | ⟨at_, rfl, hlt⟩
  · rw [holder, Option.bind_some, hrow', Option.map_some, hby]
  · -- whoever releases the hash is live, and so its holder; but the holder has delivered
    exfalso
    obtain ⟨hk, hres⟩ := hw.owned.wf.placed j job _ hp
    obtain ⟨t, ht⟩ := Option.isSome_iff_exists.mp hres
    have hlive : Live w.abs j k t := by
      refine .inr ((abs_phase_some hp).trans ?_)
      simp only [Proc.phase, PublishPc.phase, ht]
    have hheld := (hw.holds j k t hlive).symm.trans (abs_held hrow)
    obtain rfl : j = d.run := (Prod.mk.inj (Option.some.inj hheld)).1.trans hby
    exact hw.not_live hd hlive
  · exact absurd (hprune at_ k row rfl rfl hrow) (Int.not_le.mpr hlt)

theorem kept_of_guarded (hw : Single p w) (hg : PruneKeeps env w a) {b : Act Digest}
    (hm : Matches env w a b) : Kept w.abs b := by
  cases b with
  | prune cutoff =>
      obtain ⟨at_, rfl, rfl⟩ := hm
      intro i k t hl j t' hk
      obtain ⟨job, pc, hp, hph⟩ := live_publish hl
      obtain ⟨row, hrow, he⟩ := Option.map_eq_some_iff.mp
        (show (w.db.dedupe.get k).map (fun r => (r.reservedBy, r.publishedAt)) = _ from hk)
      rw [← (Prod.mk.inj he).2]
      exact publishedAt_of_carries hg hp (carries_of_phase (hw.owned.wf.placed i job pc hp) hph) hrow
  | _ => trivial

theorem holds_world_step (hw : Single p w) (hg : PruneKeeps env w a)
    (h : step env w a = some w') : Holds w'.abs := by
  rcases abs_step hw.owned.wf.numbered hw.owned.wf.placed h with he | ⟨b, hm, hb⟩
  · rw [he]; exact hw.holds
  · exact holds_step hw.holds (kept_of_guarded hw hg hm) hb

/-! ## One step -/

theorem twins_step (hw : Single p w) (hg : LoadsCovered p w a) (h : step env w a = some w')
    {i j : Nat} {x y : Option Digest} (hij : i ≠ j) (hx : w'.ticket p i = some x)
    (hy : w'.ticket p j = some y) : y = x ∧ x.isSome := by
  -- a run that has just passed the checks is covered against any other
  have key : ∀ {i j : Nat} {row : Post} {proc : Proc} {y : Option Digest},
      LoadsCovered p w (.advance i .ok) → w.proc i = some proc → proc.loads? = some p →
      w.row p = some row → row.publishedMessageId = none → row.state ∉ skipStates →
      w.ticket p j = some y → y = row.dedupeHash ∧ row.dedupeHash.isSome := by
    intro i j row proc y hg hp hl hrow hmid hst hy
    obtain ⟨q, hq, ht⟩ := Option.bind_eq_some_iff.mp hy
    obtain ⟨r, hr, rfl⟩ := Option.map_eq_some_iff.mp hq
    exact (hg proc hp hl row hrow hmid hst).1 r (Table.mem_of_get hr) y ht
  have hn := hw.owned.wf.numbered
  rcases ticket_step hn h hx with hx | ⟨proc, row, rfl, hp, hl, hrow, hmid, hst, rfl⟩
  · rcases ticket_step hn h hy with hy | ⟨proc, row, rfl, hp, hl, hrow, hmid, hst, rfl⟩
    · exact hw.twins i j x y hij hx hy
    · -- here the second run is the new one
      obtain ⟨rfl, hsome⟩ := key hg hp hl hrow hmid hst hx
      exact ⟨rfl, hsome⟩
  · rcases ticket_step hn h hy with hy | ⟨_, _, ha, -⟩
    · exact key hg hp hl hrow hmid hst hy
    · cases ha; exact absurd rfl hij

theorem covers_step (hw : Single p w) (hg : Guarded env p w a) (h : step env w a = some w')
    {i : Nat} {x : Option Digest} (hx : w'.ticket p i = some x) {d : Delivery}
    (hd : .delivered d ∈ w'.log) (hpost : d.post = p) : w'.holder x = some d.run := by
  have hn := hw.owned.wf.numbered
  rcases delivered_step h hd with hd | ⟨job, ctx, retried, id, ha, hp, hp', hdb, he⟩
  · rcases ticket_step hn h hx with hx | ⟨proc, row, rfl, hp, hl, hrow, hmid, hst, rfl⟩
    · refine holder_step hw h ?_ hd (hw.covers i x hx d hd hpost)
      rintro at_ k row rfl rfl hrow
      obtain ⟨job, pc, hp, -, ht⟩ := ticket_eq_some hx
      exact publishedAt_of_carries hg.2 hp (carries_of_ticket ht) hrow
    · refine holder_step hw h (fun _ _ _ ha => by cases ha) hd ?_
      exact (hg.1 proc hp hl row hrow hmid hst).2 d (mem_deliveries.mpr hd) hpost
  · -- a new delivery: the runs on their way go under its hash, whose row is its own
    have hjob : job.postId = p := by rw [← hpost, he]
    -- the run that delivered has given up its ticket
    have hne : d.run ≠ i := by
      rintro rfl
      have ht := ticket_publish hp'
      rw [hjob, hx] at ht
      exact absurd ht (by simp [PublishPc.ticket?])
    rcases ticket_step hn h hx with hx | ⟨_, _, ha', -⟩
    · have hmine : w.ticket p d.run = some ctx.dedupeHash := by rw [← hjob, ticket_publish hp]; rfl
      obtain ⟨rfl, hsome⟩ := hw.twins d.run i _ x hne hmine hx
      obtain ⟨k, hk⟩ := Option.isSome_iff_exists.mp hsome
      rw [holder, hdb, hk]
      exact hw.sending hp hk
    · rw [ha] at ha'; cases ha'

theorem sees_delivery {v : View} {proc : Proc} : (proc.sees env v).filterMap Obs.delivery? = [] := by
  refine List.filterMap_eq_nil_iff.mpr fun o ho => ?_
  rcases sees_eq ho with ⟨_, _, rfl⟩ | ⟨_, _, rfl⟩ <;> rfl

/-- The deliveries grow by at most one in a step. -/
theorem deliveries_step (h : step env w a = some w') :
    w'.deliveries = w.deliveries
    ∨ ∃ d job ctx retried, w.proc d.run = some (.publish job (.sending ctx retried))
        ∧ d.post = job.postId ∧ w'.deliveries = d :: w.deliveries := by
  rcases log_step h with hl | ⟨i, r, proc, e, rfl, hp, he, -, hl⟩
  · rw [deliveries, deliveries, hl]; exact .inl rfl
  · have hd : w'.deliveries = e.seen.filterMap Obs.delivery? ++ w.deliveries := by
      rw [deliveries, deliveries, hl, List.filterMap_append]
      unfold seenOf
      split <;> rfl
    rw [hd]
    have hdoes := step_does he
    cases hdoes with
    | @delivers job ctx retried id n hid => exact .inr ⟨_, job, ctx, retried, hp, rfl, rfl⟩
    | writes hs hrow => rw [sees_delivery]; exact .inl rfl
    | _ => exact .inl rfl

/-- A run inside `_send_post` finds no delivery of its post. -/
theorem Single.none_before (hw : Single p w) {i : Nat} {job : Job} {ctx : SendCtx} {retried : Bool}
    (hp : w.proc i = some (.publish job (.sending ctx retried))) (hj : job.postId = p) :
    w.deliveries.filter (fun d => d.post = p) = [] := by
  refine List.filter_eq_nil_iff.mpr fun d hd hpost => ?_
  have hd := mem_deliveries.mp hd
  have hmine : w.ticket p i = some ctx.dedupeHash := by rw [← hj, ticket_publish hp]; rfl
  have hh := hw.covers i _ hmine d hd (by simpa using hpost)
  obtain ⟨k, row, hk, -, -⟩ := holder_eq_some hh
  -- the run holds the row itself, so the delivery would be its own
  have hself := hw.sending hp hk
  rw [← hk, hh] at hself
  obtain rfl := Option.some.inj hself
  obtain ⟨t, -, hph⟩ := phase_of_hash hk (hw.owned.wf.placed d.run job _ hp)
  exact hw.not_live hd (.inl ((abs_phase_some hp).trans hph))

theorem once_step (hw : Single p w) (h : step env w a = some w') :
    (w'.deliveries.filter (fun d => d.post = p)).length ≤ 1 := by
  rcases deliveries_step h with he | ⟨d, job, ctx, retried, hp, hpost, he⟩
  · rw [he]; exact hw.once
  · rw [he, List.filter_cons]
    split
    · rename_i hdp
      have hj : job.postId = p := hpost.symm.trans (by simpa using hdp)
      rw [hw.none_before hp hj]
      exact Nat.le_refl _
    · exact hw.once

theorem single_step (hw : Single p w) (hg : Guarded env p w a) (h : step env w a = some w') :
    Single p w' where
  owned := owned_step hw.owned h
  holds := holds_world_step hw hg.2 h
  twins := fun _ _ _ _ hij hx hy => twins_step hw hg.1 h hij hx hy
  covers := fun _ _ hx _ hd hpost => covers_step hw hg h hx hd hpost
  once := once_step hw h

theorem single_init (h : Init w) : Single p w where
  owned := owned_init h
  holds := fun i k t hl => absurd hl ((start_of_init h).idle i k t)
  twins := by
    intro i j x y _ hx
    rw [ticket, proc_init h] at hx
    exact absurd hx (by simp)
  covers := by
    intro i x hx
    rw [ticket, proc_init h] at hx
    exact absurd hx (by simp)
  once := by rw [deliveries, h.log]; exact Nat.zero_le _

/--
**A post is delivered at most once where the row of its hash covers every run of it.**

The invariant (`Single`) is one of ownership: all runs on their way to a send go under one hash,
and once one of them has delivered, the row of that hash is its own. A second run would have to
be the holder of the same row.
-/
theorem delivered_once {w₀ : World} {tr : List (World × Action)} (h0 : Init w₀)
    (hp : Trace (step env) w₀ tr w) (hg : AllSteps (Guarded env p) tr) :
    (w.deliveries.filter (fun d => d.post = p)).length ≤ 1 := by
  have hend : Single p w :=
    hp.invariant (fun _ _ _ hw hga hu => single_step hw hga hu) hg (single_init h0)
  exact hend.once

/-- The post is normalized, so it has a hash; after the send `_mark_published` fails, and
somebody approves the post again. The second run meets the row of the first. -/
def approvedTwice : List Action :=
  ingests 1 0 ++ normalizes 1 1 0 ++ sends 1 2 0 6 ++ .advance 2 (.message 7) :: goes 2 5 ++
  presses .approve 1 3 5 ++ .startJob ⟨.publish, 1, 2000⟩ :: goes 4 6

theorem delivered_once_approvedTwice :
    ∃ w, (sample autoChannel).after (sampleEnv {}) approvedTwice = some w
      ∧ .ended 4 (.returned .duplicate) ∈ w.log
      ∧ (w.deliveries.filter (fun d => d.post = 1)).length ≤ 1 := by
  have hrun : ((sample autoChannel).after (sampleEnv {}) approvedTwice).map (fun w =>
      Decidable.decide (.ended 4 (.returned .duplicate) ∈ w.log)) = some true := by decide +kernel
  obtain ⟨w, hw, hend⟩ := Option.map_eq_some_iff.mp hrun
  exact ⟨w, hw, of_decide_eq_true hend,
    delivered_once (sample_init _) (path_after hw) (by decide +kernel)⟩

/-- A post without a hash is approved and sent; the run dies before `_mark_published`, and
somebody approves the post again. -/
def diedAfterSend : List Action :=
  ingests 1 0 ++ presses .approve 1 1 5 ++ sends 1 2 0 4 ++
  [.advance 2 (.message 7), .crash 2] ++
  presses .approve 1 3 5 ++ sends 1 4 2000 4 ++ [.advance 4 (.message 8)]

theorem diedAfterSend_twice :
    ∃ w tr, Init (sample sampleChannel)
      ∧ Trace (step (sampleEnv {})) (sample sampleChannel) tr w
      ∧ (w.deliveries.filter (fun d => d.post = 1)).length = 2 := by
  have hrun : ((sample sampleChannel).after (sampleEnv {}) diedAfterSend).map (fun w =>
      (w.deliveries.filter (fun d => d.post = 1)).length) = some 2 := by decide +kernel
  obtain ⟨w, hw, hlen⟩ := Option.map_eq_some_iff.mp hrun
  exact ⟨w, _, sample_init _, path_after hw, hlen⟩

end World

end TelegramCms
