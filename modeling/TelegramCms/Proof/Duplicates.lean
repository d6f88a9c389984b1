import TelegramCms.Proof.Owners

/-!
# Rejected as a duplicate

A row of `published_dedupe` is evidence of a delivery only once the run that inserted it
has delivered; before that, and after that run failed to release it, it is a mere
reservation. The checks take either for a published duplicate.

`duplicates_delivered`: where every row that makes a run take its post for a duplicate
was inserted by a run that has delivered, content with that hash has been delivered
before the post is rejected.
-/

namespace TelegramCms

open Transition Reservation

/-- The row that makes a run take its post for a duplicate in the step it is about to
take. -/
def Proc.meets (env : Env) (v : View) : Proc → Option PublishedDedupe
  | .publish _ (.lookup _ h) | .publish _ (.reserve _ h) => v.db.dedupe.get h
  | .normalize _ (.commit post _ _) =>
    (v.db.dedupe.get (computeDedupeHash env post.rawText post.rawMediaRefs)).filter (fun row =>
      Decidable.decide (v.now - days env.settings.dedupeLookbackDays ≤ row.publishedAt))
  | _ => none

/-- The hash for which a run is about to reject its post. -/
def Proc.rejecting : Proc → Option Digest
  | .publish _ (.duplicateLoad h) | .publish _ (.duplicateCommit h _) => some h
  | _ => none

namespace World

variable {env : Env} {w w' : World} {a : Action}

/-- A row that decides against a post was inserted by a run that has delivered. -/
abbrev Founded (env : Env) : World → Action → Prop :=
  OnOk fun w i p => ∀ row ∈ p.meets env (w.view i), ∃ d ∈ w.deliveries, d.run = row.reservedBy

/-- Content with this hash has been delivered. -/
def HasDelivered (log : List Obs) (h : Digest) : Prop :=
  ∃ d, .delivered d ∈ log ∧ d.hash = some h

/-- Each rejection as a duplicate comes after a delivery of its hash. -/
def Justified : List Obs → Prop
  | [] => True
  | o :: log => (∀ p h, o = .duplicate p h → HasDelivered log h) ∧ Justified log

theorem Justified.split {log : List Obs} (hj : Justified log) {later earlier : List Obs} {p : Nat}
    {h : Digest} (hl : log = later ++ .duplicate p h :: earlier) : HasDelivered earlier h := by
  induction later generalizing log with
  | nil => subst hl; exact hj.1 p h rfl
  | cons o later ih => subst hl; exact ih hj.2 rfl

/-- A delivery that founds a row is a delivery of the row's hash. -/
theorem hasDelivered_of_row (hw : Owned w) {h : Digest} {row : PublishedDedupe}
    (hrow : w.db.dedupe.get h = some row) {d : Delivery} (hd : d ∈ w.deliveries)
    (hr : d.run = row.reservedBy) : HasDelivered w.log h := by
  have hd := mem_deliveries.mp hd
  have hk : w.abs.held h = some (d.run, row.publishedAt) := by
    show (w.db.dedupe.get h).map _ = _
    rw [hrow, hr]; rfl
  exact ⟨d, hd, hw.hash d hd h _ hk⟩

theorem HasDelivered.mono {log log' : List Obs} (hs : log ⊆ log') {h : Digest}
    (hd : HasDelivered log h) : HasDelivered log' h := by
  obtain ⟨d, hd, hh⟩ := hd
  exact ⟨d, hs hd, hh⟩

theorem justified_append {seen log : List Obs} (hj : Justified log)
    (hs : ∀ p h, .duplicate p h ∈ seen → HasDelivered log h) : Justified (seen ++ log) := by
  induction seen with
  | nil => exact hj
  | cons o seen ih =>
      refine ⟨?_, ih fun p h ho => hs p h (List.mem_cons_of_mem _ ho)⟩
      rintro p h rfl
      exact (hs p h List.mem_cons_self).mono (List.subset_append_right _ _)

/-! ## The invariant -/

/-- Whoever is about to reject a post has met a delivery, and so had everyone before. -/
structure Fair (w : World) : Prop where
  owned : Owned w
  pending : ∀ i p h, w.proc i = some p → p.rejecting = some h → HasDelivered w.log h
  justified : Justified w.log

theorem fair_init (h : Init w) : Fair w where
  owned := owned_init h
  pending := by
    intro i p k hp
    rw [proc_init h] at hp
    exact absurd hp (by simp)
  justified := by rw [h.log]; trivial

/-- The row a run meets founds a delivery. -/
theorem hasDelivered_of_meets (hw : Owned w) {i : Nat} {p : Proc} {row : PublishedDedupe}
    (hg : Founded env w (.advance i .ok)) (hp : w.proc i = some p)
    (hm : p.meets env (w.view i) = some row) {h : Digest}
    (hrow : w.db.dedupe.get h = some row) : HasDelivered w.log h := by
  obtain ⟨d, hd, hr⟩ := hg p hp row hm
  exact hasDelivered_of_row hw hrow hd hr

/-- A publish run on its way to reject its post was so before, or has just met a row. -/
theorem move_rejecting {v : View} {job : Job} {pc pc' : PublishPc} {r : Reply}
    {e : Effect PublishPc} {h : Digest} (hm : PublishMove env v job.postId pc r e)
    (hn : e.next = .goto pc') (hr : (Proc.publish job pc').rejecting = some h) :
    (Proc.publish job pc).rejecting = some h
    ∨ (r = .ok ∧ ∃ row, (Proc.publish job pc).meets env v = some row
        ∧ v.db.dedupe.get h = some row) := by
  cases hm with
  | @taken pc ctx k row hpc hrow =>
      obtain rfl := Next.goto.inj hn
      -- the lookup or the insertion has just met a row
      obtain rfl : k = h := by simpa [Proc.rejecting] using hr
      refine .inr ⟨rfl, row, ?_, hrow⟩
      rcases hpc with rfl | rfl <;> exact hrow
  | duplicateLoads hrow => obtain rfl := Next.goto.inj hn; exact .inl hr
  | stops o => exact absurd hn (by simp)
  | duplicates hrow => exact absurd hn (by simp)
  | card hpc =>
      obtain rfl := Next.goto.inj hn
      rcases hpc with ⟨ctx, mid, rfl, rfl⟩ | ⟨rfl, _, rfl, -⟩ <;> exact absurd hr (by simp [Proc.rejecting])
  | _ => obtain rfl := Next.goto.inj hn; exact absurd hr (by simp [Proc.rejecting])

theorem pending_step (hw : Fair w) (hg : Founded env w a) (h : step env w a = some w')
    {i : Nat} {q : Proc} {k : Digest} (hq : w'.proc i = some q) (hr : q.rejecting = some k) :
    HasDelivered w.log k := by
  cases q with
  | publish job pc =>
      rcases publish_origin hw.owned.wf.numbered h hq with
        hp | ⟨r, pc₀, e, rfl, hp, hm, hnx, -⟩ | ⟨rfl, -, -⟩
      · exact hw.pending i _ k hp hr
      · rcases move_rejecting hm hnx hr with hr | ⟨rfl, row, hmeets, hrow⟩
        · exact hw.pending i _ k hp hr
        · exact hasDelivered_of_meets hw.owned hg hp hmeets hrow
      · exact absurd hr (by simp [Proc.rejecting])
  | _ => exact absurd hr (by simp [Proc.rejecting])

/-- A rejection that is recorded was pending, or `normalize` has just met a row. -/
theorem sees_duplicate {v : View} {p : Proc} {q : Nat} {h : Digest}
    (hs : .duplicate q h ∈ p.sees env v) :
    p.rejecting = some h
    ∨ ∃ row, p.meets env v = some row ∧ v.db.dedupe.get h = some row := by
  unfold Proc.sees at hs
  split at hs
  · obtain ⟨-, rfl⟩ : q = _ ∧ h = _ := by simpa using hs
    exact .inl rfl
  · rename_i job post ctx ai
    dsimp only at hs
    split at hs
    · rename_i hdup
      obtain ⟨-, rfl⟩ : q = _ ∧ h = _ := by simpa using hs
      obtain ⟨row, hrow, hin⟩ := (Option.any_eq_true _ _).mp hdup
      refine .inr ⟨row, ?_, hrow⟩
      simp only [Proc.meets, hrow, Option.filter_some, hin, if_true]
    · exact absurd hs (by simp)
  · exact absurd hs (by simp)
  · exact absurd hs (by simp)
  · exact absurd hs (by simp)

theorem fair_step (hw : Fair w) (hg : Founded env w a) (h : step env w a = some w') :
    Fair w' := by
  refine ⟨owned_step hw.owned h, ?_, ?_⟩
  · intro i q k hq hr
    exact (pending_step hw hg h hq hr).mono (subset_log h)
  · rcases log_step h with hl | ⟨i, r, p, e, rfl, hp, he, -, hl⟩
    · rw [hl]; exact hw.justified
    · rw [hl]
      refine justified_append hw.justified fun q k hk => ?_
      obtain ⟨hs, rfl⟩ := (step_does he).sees (mem_seenOf hk (by simp)) (by simp) (by simp)
      -- `_mark_duplicate` goes by a row met before, `normalize` by one it meets now
      rcases sees_duplicate hs with hr | ⟨row, hmeets, hrow⟩
      · exact hw.pending i p k hp hr
      · exact hasDelivered_of_meets hw.owned hg hp hmeets hrow

/--
**No false duplicates where every row that decides belongs to a run that delivered.**

The log is justified from its beginning on: an entry is only ever added in front. A publish run
records the duplicate some steps after it has met the row, so the invariant (`Fair`) also says of
a run that is about to record one that the delivery is in the log already.
-/
theorem duplicates_delivered {w₀ : World} {tr : List (World × Action)} (h0 : Init w₀)
    (hp : Trace (step env) w₀ tr w) (hg : AllSteps (Founded env) tr) {later earlier : List Obs}
    {p : Nat} {h : Digest} (hl : w.log = later ++ .duplicate p h :: earlier) :
    ∃ d, .delivered d ∈ earlier ∧ d.hash = some h := by
  have hend : Fair w := hp.invariant (fun _ _ _ hw hga hu => fair_step hw hga hu) hg (fair_init h0)
  exact hend.justified.split hl

/-- A second post with the text of a delivered one is rejected by its `normalize` job. -/
def repost : List Action :=
  ingests 1 0 ++ normalizes 1 1 0 ++ sends 1 2 0 6 ++ [.advance 2 (.message 7)] ++
  ingests 2 3 ++ .startJob ⟨.normalize, 2, 2000⟩ :: goes 4 3

theorem duplicates_delivered_repost :
    ∃ w, (sample autoChannel).after (sampleEnv {}) repost = some w
      ∧ ∃ later earlier, w.log = later ++ .duplicate 2 digestOfPair :: earlier
        ∧ ∃ d, .delivered d ∈ earlier ∧ d.hash = some digestOfPair := by
  have hrun : ((sample autoChannel).after (sampleEnv {}) repost).map
      (fun w => Decidable.decide (.duplicate 2 digestOfPair ∈ w.log)) = some true := by
    decide +kernel
  obtain ⟨w, hw, hmem⟩ := Option.map_eq_some_iff.mp hrun
  obtain ⟨later, earlier, hl⟩ := List.append_of_mem (of_decide_eq_true hmem)
  refine ⟨w, hw, later, earlier, hl, ?_⟩
  exact duplicates_delivered (sample_init _) (path_after hw) (by decide +kernel) hl

/-- The same post while the first one is about to be sent. -/
def overtaken : List Action :=
  ingests 1 0 ++ normalizes 1 1 0 ++ .startJob ⟨.publish, 1, 0⟩ :: goes 2 5 ++
  ingests 2 3 ++ .startJob ⟨.normalize, 2, 0⟩ :: goes 4 3

/-- A reservation is no delivery: here nothing is delivered at all. -/
theorem overtaken_duplicate :
    ∃ w tr, Init (sample autoChannel)
      ∧ Trace (step (sampleEnv {})) (sample autoChannel) tr w
      ∧ .duplicate 2 digestOfPair ∈ w.log ∧ w.deliveries = [] := by
  have hrun : ((sample autoChannel).after (sampleEnv {}) overtaken).map (fun w =>
      (Decidable.decide (.duplicate 2 digestOfPair ∈ w.log), w.deliveries)) = some (true, []) := by
    decide +kernel
  obtain ⟨w, hw, he⟩ := Option.map_eq_some_iff.mp hrun
  obtain ⟨hmem, hd⟩ := Prod.mk.inj he
  exact ⟨w, _, sample_init _, path_after hw, of_decide_eq_true hmem, hd⟩

end World

end TelegramCms
