import TelegramCms.Proof.Rows

/-!
# A rejection is final

The publish job looks at the state of its post once, when it loads it. A run that loads a
rejected post stops there; what a rejection does not reach are the runs that had passed
the check before it, the failure handler, and the Approve button of the card.

`rejection_final`: a rejected post stays rejected and unsent exactly in the continuations
in which none of these goes through. Besides, the rejection itself takes hold exactly if
a session that had loaded the post as rejected, and so writes no state, finds it so.
-/

namespace TelegramCms

open Transition

def Obs.began? : Obs → Option Nat
  | .sendBegan _ p _ => some p
  | _ => none

/-- The run has begun to send its post. -/
def PublishPc.begun : PublishPc → Bool
  | .sending .. | .backoff .. | .release .. | .markLoad .. | .markCommit .. | .cardLoad
  | .cardEdit _ => true
  | _ => false

/-- The post whose rejection the step of a run overrides: by the claim of a run that had
passed the check, by waking up before the send, by the failure handler, or by Approve. -/
def Proc.overrides? : Proc → Option Nat
  | .publish job (.claim post) => if post.state = .publishing then none else some job.postId
  | .publish job (.spacing ..) => some job.postId
  | .publish job (.failureCommit _ post) =>
    if post.state = .publishFailed then none else some job.postId
  | .callback .approve _ p (.commit post) => if post.state = .approved then none else some p
  | _ => none

/-- The post whose approval or schedule a web request is about to commit. -/
def Proc.webApproves? : Proc → Option Nat
  | .decide req (.commit _ _) => if req.decision = .reject then none else some req.postId
  | _ => none

/-- A session that loaded its post as rejected writes no state when it rejects it. -/
def Proc.loadedRejected : Proc → Bool
  | .callback .reject _ _ (.commit post) => post.state = .rejected
  | .decide req (.commit post _) => req.api = .python ∧ post.state = .rejected
  | _ => false

section Run

variable {env : Env} {v : View} {p : Proc} {q : Nat}

/-- Any other run leaves a rejected post rejected. -/
theorem assigns_rejected {s : PostState} (h : p.assigns env v = some (q, s))
    (ho : p.overrides? ≠ some q) (hw : p.webApproves? ≠ some q) : s = .rejected := by
  cases assigns_iff.mp h with
  | claim hne => exact absurd (by rw [Proc.overrides?, if_neg hne]) ho
  | failure hne => exact absurd (by rw [Proc.overrides?, if_neg hne]) ho
  | duplicate hne => rfl
  | normalize hd hne => rfl
  | button hne =>
      rename_i b _ post
      cases b with
      | approve =>
          have hst : post.state ≠ .approved := hne
          exact absurd (by rw [Proc.overrides?, if_neg hst]) ho
      | reject => rfl
  | decision hne =>
      rename_i req _ _
      by_contra hs
      have hd : req.decision ≠ .reject := fun hd => hs (by rw [hd, decisionState])
      exact hw (by rw [Proc.webApproves?, if_neg hd])

/-- What overrides a rejection gives the post another state or begins to send it. -/
theorem overrides_cases (h : p.overrides? = some q) :
    (∃ s, p.assigns env v = some (q, s) ∧ s ≠ .rejected)
    ∨ ∃ job ctx until_, p = .publish job (.spacing ctx until_) ∧ q = job.postId := by
  have key : ∀ {old new : PostState} {id : Nat}, new ≠ .rejected →
      (if old = new then none else some id) = some q →
      ∃ s, (changed old new).map (id, ·) = some (q, s) ∧ s ≠ .rejected := by
    intro old new id hne hq
    split at hq
    · exact absurd hq (by simp)
    · rename_i hc
      refine ⟨new, ?_, hne⟩
      rw [changed, if_neg (Ne.symm hc), Option.map_some, Option.some.inj hq]
  unfold Proc.overrides? at h
  split at h
  · exact .inl (key (by simp) h)
  · exact .inr ⟨_, _, _, rfl, (Option.some.inj h).symm⟩
  · exact .inl (key (by simp) h)
  · exact .inl (key (show Button.approve.state ≠ .rejected by decide) h)
  · exact absurd h (by simp)

theorem move_begun {job : Job} {pc pc' : PublishPc} {r : Reply} {e : Effect PublishPc}
    (hm : PublishMove env v job.postId pc r e) (hn : e.next = .goto pc') (hb : pc'.begun = true) :
    pc.begun = true ∨ job.postId ∈ e.seen.filterMap Obs.began? := by
  cases hm with
  | stops o => exact absurd hn (by simp)
  | duplicates hrow => exact absurd hn (by simp)
  | begins hpc hu => exact .inr (List.mem_singleton.mpr rfl)
  | delivers hid => exact .inl rfl
  | sendFails ex hh => exact .inl rfl
  | backsOff => exact .inl rfl
  | markLoads hrow => exact .inl rfl
  | marks hh hrow => exact .inl rfl
  | card hpc => rcases hpc with ⟨_, _, rfl, -⟩ | ⟨rfl, -⟩ <;> exact .inl rfl
  | _ => obtain rfl := Next.goto.inj hn; exact absurd hb (by simp [PublishPc.begun])

end Run

namespace World

variable {env : Env} {w w' : World} {a : Action} {p : Nat}

/-- The posts whose send has begun. -/
def begun (w : World) : List Nat := w.log.filterMap Obs.began?

/-- No run overrides a rejection of post `p`. -/
abbrev Undisturbed (p : Nat) : World → Action → Prop :=
  OnOk fun _ _ proc => proc.overrides? ≠ some p

/-- No web request approves or schedules post `p`. -/
abbrev NoWebApproval (p : Nat) : World → Action → Prop :=
  OnOk fun _ _ proc => proc.webApproves? ≠ some p

/-- A run that rejects post `p` having loaded it as rejected finds it so. -/
abbrev RejectsLoaded (p : Nat) : World → Action → Prop :=
  OnOk fun w _ proc => proc.loadedRejected → (w.row p).map Post.state = some .rejected

/-! ## Sends that have begun -/

theorem mem_begun {o : Obs} (ho : o ∈ w.log) (hb : o.began? = some p) : p ∈ w.begun :=
  List.mem_filterMap.mpr ⟨o, ho, hb⟩

theorem begun_mono (h : step env w a = some w') (hp : p ∈ w.begun) : p ∈ w'.begun := by
  obtain ⟨o, ho, hb⟩ := List.mem_filterMap.mp hp
  exact mem_begun (subset_log h ho) hb

theorem began_eq_some {o : Obs} (h : o.began? = some p) : ∃ run t, o = .sendBegan run p t := by
  unfold Obs.began? at h
  split at h
  · obtain rfl := Option.some.inj h
    exact ⟨_, _, rfl⟩
  · exact absurd h (by simp)

/-- A send begins when a run wakes up before it. -/
theorem begun_step (h : step env w a = some w') (hp : p ∈ w'.begun) :
    p ∈ w.begun
    ∨ ∃ i job pc ctx until_, a = .advance i .ok ∧ w.proc i = some (.publish job pc)
        ∧ (pc = .spacing ctx until_ ∨ pc = .backoff ctx until_) ∧ job.postId = p := by
  obtain ⟨o, ho, hb⟩ := List.mem_filterMap.mp hp
  obtain ⟨run, t, rfl⟩ := began_eq_some hb
  rcases mem_log_step h ho (by simp) with ho | ⟨i, r, proc, e, rfl, hproc, he, -, ho⟩
  · exact .inl (mem_begun ho hb)
  · obtain ⟨job, pc, ctx, until_, rfl, hpc, -, rfl, -, rfl, -⟩ := (step_does he).sendBegan ho
    exact .inr ⟨i, job, pc, ctx, until_, rfl, hproc, hpc, rfl⟩

/-- Who is past the beginning of a send has been seen to begin it. -/
def Announced (w : World) : Prop :=
  ∀ i job pc, w.proc i = some (.publish job pc) → pc.begun = true → job.postId ∈ w.begun

theorem announced_step (hn : Numbered w) (ha : Announced w) (h : step env w a = some w') :
    Announced w' := by
  intro i job pc hq hb
  rcases publish_origin hn h hq with hp | ⟨r, pc₀, e, rfl, hp, hm, hnx, rfl⟩ | ⟨rfl, -, -⟩
  · exact begun_mono h (ha i job pc hp hb)
  · rcases move_begun hm hnx hb with hb | hb
    · exact begun_mono h (ha i job pc₀ hp hb)
    · obtain ⟨o, ho, hob⟩ := List.mem_filterMap.mp hb
      refine mem_begun (List.mem_append_left _ ?_) hob
      exact mem_seenOf_of_mem ho
  · exact absurd hb (by simp [PublishPc.begun])

/-! ## The rejection -/

/-- Post `p` is rejected and no send of it has begun. -/
def Rejected (p : Nat) (w : World) : Prop :=
  (w.row p).map Post.state = some .rejected ∧ p ∉ w.begun

/-- A rejection that is recorded is the commit of a reject request. -/
theorem sees_reject {v : View} {proc : Proc} (h : .decided p .reject ∈ proc.sees env v) :
    (∃ u post, proc = .callback .reject u p (.commit post))
    ∨ ∃ req post now, proc = .decide req (.commit post now) ∧ req.postId = p
        ∧ req.decision = .reject := by
  rcases sees_decided h with ⟨b, u, post, rfl, hb⟩ | ⟨req, post, now, rfl, hq, hd⟩
  · cases b with
    | approve => exact absurd hb (by simp [Button.decision])
    | reject => exact .inl ⟨u, post, rfl⟩
  · exact .inr ⟨req, post, now, rfl, hq, hd.symm⟩

/-- The statement of a rejection leaves the row rejected, unless the post had been loaded
as rejected and is so no more. -/
theorem reject_set {v : View} {proc : Proc} {q : Nat} {set : PostSet} (row : Post)
    (h : .decided p .reject ∈ proc.sees env v) (hs : proc.set env v = some (q, set)) :
    q = p ∧ ((set.apply row).state = .rejected
      ↔ (proc.loadedRejected = true → row.state = .rejected)) := by
  have key : ∀ {post : Post}, (changed post.state .rejected).getD row.state = .rejected
      ↔ (post.state = .rejected → row.state = .rejected) := by
    intro post
    by_cases hst : post.state = .rejected
    · rw [hst, changed_self, Option.getD_none]
      simp
    · exact iff_of_true (changed_getD_of_ne _ (Ne.symm hst)) fun h => absurd h hst
  rcases sees_reject h with ⟨u, post, rfl⟩ | ⟨req, post, now, rfl, rfl, hd⟩
  · obtain ⟨rfl, rfl⟩ := Prod.mk.inj (Option.some.inj hs)
    refine ⟨rfl, ?_⟩
    rw [PostSet.apply_state, flush, Button.state, key, Proc.loadedRejected, decide_eq_true_iff]
  · obtain ⟨rfl, rfl⟩ := Prod.mk.inj (Option.some.inj hs)
    refine ⟨rfl, ?_⟩
    rw [PostSet.apply_state, decideSet, hd, Proc.loadedRejected, decide_eq_true_iff]
    cases ha : req.api with
    | python =>
        rw [eq_self_iff_true, true_and]
        exact key
    | go => simp [decisionState]

theorem rejected_start {seen : List Obs} (h : step env w a = some w')
    (hlog : w'.log = seen ++ w.log) (hrej : .decided p .reject ∈ seen) (hb : p ∉ w.begun) :
    Rejected p w' ↔ RejectsLoaded p w a := by
  obtain ⟨i, proc, q, set, row, rfl, hproc, hsees, hs, hrow, hrow'⟩ := decided_step h hlog hrej
  obtain ⟨rfl, hst⟩ := reject_set row hsees hs
  -- the run that commits a rejection begins no send
  have hb' : q ∉ w'.begun := by
    intro hb'
    rcases begun_step h hb' with hb' | ⟨j, job, pc, ctx, until_, hj, hpub, -, -⟩
    · exact hb hb'
    · cases hj
      obtain rfl := Option.some.inj (hproc.symm.trans hpub)
      rcases sees_reject hsees with ⟨_, _, hx⟩ | ⟨_, _, _, hx, -⟩ <;> exact absurd hx (by simp)
  have hstate : Rejected q w' ↔ (set.apply row).state = .rejected := by
    rw [Rejected, hrow', Option.map_some, Option.some.injEq, and_iff_left hb']
  have hcond : RejectsLoaded q w (.advance i .ok)
      ↔ (proc.loadedRejected = true → row.state = .rejected) := by
    constructor
    · intro hl hload
      have hr := hl proc hproc hload
      rw [hrow] at hr
      exact Option.some.inj hr
    · intro hl proc' hproc' hload
      obtain rfl := Option.some.inj (hproc.symm.trans hproc')
      rw [hrow, Option.map_some, hl hload]
  exact hstate.trans (hst.trans hcond.symm)

/-! ## After it -/

theorem state_step (ha : Announced w) (hr : Rejected p w) (hg : Undisturbed p w a)
    (hw : NoWebApproval p w a) (h : step env w a = some w') :
    (w'.row p).map Post.state = some .rejected := by
  obtain ⟨row₀, hrow₀, hst₀⟩ := Option.map_eq_some_iff.mp hr.1
  rcases row_step p h with he | ⟨i, proc, set, row, rfl, hproc, hs, hrow, he⟩ | ⟨_, _, _, -, hn, -⟩
  · rw [he]; exact hr.1
  · obtain rfl := Option.some.inj (hrow₀.symm.trans hrow)
    rw [he, Option.map_some, PostSet.apply_state]
    rcases set_cases hs with ⟨job, ctx, mid, post, rfl, rfl, -, -⟩ | ⟨-, hassign⟩
    · -- nothing is marked before its send has begun
      exact absurd (ha i job _ hproc rfl) hr.2
    · cases hst : set.state with
      | none => rw [Option.getD_none, hst₀]
      | some s =>
          rw [hst] at hassign
          rw [Option.getD_some, assigns_rejected hassign (hg proc hproc) (hw proc hproc)]
  · rw [hn] at hrow₀
    exact absurd hrow₀ (by simp)

theorem unsent_step (ha : Announced w) (hr : Rejected p w) (hg : Undisturbed p w a)
    (h : step env w a = some w') : p ∉ w'.begun := by
  intro hb
  rcases begun_step h hb with hb | ⟨i, job, pc, ctx, until_, rfl, hproc, hpc, rfl⟩
  · exact hr.2 hb
  · rcases hpc with rfl | rfl
    · exact hg _ hproc rfl
    · -- a second attempt has begun before
      exact hr.2 (ha i job _ hproc rfl)

/-- Who wakes up before its send begins it. -/
theorem spacing_begins {i : Nat} {job : Job} {ctx : SendCtx} {until_ : Time}
    (h : step env w (.advance i .ok) = some w')
    (hp : w.proc i = some (.publish job (.spacing ctx until_))) : job.postId ∈ w'.begun := by
  obtain ⟨proc, e, hproc, he, rfl⟩ := advance_cases h
  obtain rfl := Option.some.inj (hp.symm.trans hproc)
  obtain ⟨e₀, hm, rfl⟩ := Option.map_eq_some_iff.mp he
  simp only [publishStep] at hm
  split at hm
  · obtain rfl := Option.some.inj hm
    exact mem_begun (List.mem_append_left _ (mem_seenOf_of_mem (List.mem_singleton.mpr rfl))) rfl
  · exact absurd hm (by simp)

theorem rejected_step (ha : Announced w) (hr : Rejected p w) (hw : NoWebApproval p w a)
    (h : step env w a = some w') : Rejected p w' ↔ Undisturbed p w a := by
  constructor
  · intro hr'
    unfold Undisturbed OnOk
    split
    · rename_i i
      intro proc hproc ho
      rcases overrides_cases ho with ⟨s, hassign, hne⟩ | ⟨job, ctx, until_, rfl, rfl⟩
      · obtain ⟨row, hrow, -⟩ := Option.map_eq_some_iff.mp hr.1
        obtain ⟨row', hrow', rfl⟩ := row_assigns h hproc hassign hrow
        have hst := hr'.1
        rw [hrow'] at hst
        exact hne (Option.some.inj hst)
      · exact hr'.2 (spacing_begins h hproc)
    · trivial
  · exact fun hg => ⟨state_step ha hr hg hw h, unsent_step ha hr hg h⟩

theorem announced_trace {w₀ : World} {tr : List (World × Action)} (h0 : Init w₀)
    (hp : Trace (step env) w₀ tr w) : Numbered w ∧ Announced w := by
  refine hp.invariant' (I := fun w => Numbered w ∧ Announced w) ?_ ⟨numbered_init h0, ?_⟩
  · rintro t a u ⟨hn, ha⟩ hu
    exact ⟨numbered_step hn hu, announced_step hn ha hu⟩
  · intro i job pc hq
    rw [proc_init h0] at hq
    exact absurd hq (by simp)

/--
**A rejection is final exactly where nothing overrides it.** The reject decision on
post `p` commits in the step from `w₁` to `w₂`; the run goes on to `w₃`.

The commit itself may already fail to reject, for a session that loaded the post as rejected
does not write the state; after it, `Rejected` is lost by a step that is not `Undisturbed` and by
no other.
-/
theorem rejection_final {w₀ w₁ w₂ w₃ : World} {tr tr' : List (World × Action)} {seen : List Obs}
    (h0 : Init w₀) (hp : Trace (step env) w₀ tr w₁) (h : step env w₁ a = some w₂)
    (hlog : w₂.log = seen ++ w₁.log) (hrej : .decided p .reject ∈ seen) (hb : p ∉ w₁.begun)
    (hp' : Trace (step env) w₂ tr' w₃) (hw : AllSteps (NoWebApproval p) tr') :
    ((∀ x ∈ tr', Rejected p x.1) ∧ Rejected p w₃)
      ↔ (RejectsLoaded p w₁ a ∧ AllSteps (Undisturbed p) tr') := by
  obtain ⟨hn, ha⟩ := announced_trace h0 hp
  have hstart := rejected_start h hlog hrej hb
  have hafter : Rejected p w₂ →
      (((∀ x ∈ tr', Rejected p x.1) ∧ Rejected p w₃) ↔ AllSteps (Undisturbed p) tr') := by
    intro hr
    refine hp'.forall_iff (I := fun w => Numbered w ∧ Announced w) ?_ ?_ hw
      ⟨numbered_step hn h, announced_step hn ha h⟩ hr
    · rintro t a u ⟨hn, ha⟩ - - - hu
      exact ⟨numbered_step hn hu, announced_step hn ha hu⟩
    · rintro t a u ⟨-, ha⟩ hr hw hu
      exact rejected_step ha hr hw hu
  constructor
  · intro hall
    have hr := hp'.first hall
    exact ⟨hstart.mp hr, (hafter hr).mp hall⟩
  · rintro ⟨hl, hg⟩
    exact (hafter (hstart.mpr hl)).mpr hg

/-- A post is approved; the Reject button is pressed and the run of it that has loaded the
post is number `i`. -/
def approvedThen (between : List Action) (i : Nat) : List Action :=
  ingests 1 0 ++ presses .approve 1 1 5 ++ between ++ presses .reject 1 i 1

/-- Its publish job is run after the rejection. -/
theorem rejection_final_skipped :
    ∃ w₁ w₂ w₃, (sample sampleChannel).after (sampleEnv {}) (approvedThen [] 2) = some w₁
      ∧ step (sampleEnv {}) w₁ (.advance 2 .ok) = some w₂
      ∧ w₂.after (sampleEnv {}) (.startJob ⟨.publish, 1, 0⟩ :: goes 3 1) = some w₃
      ∧ .ended 3 (.returned (.skip .rejected)) ∈ w₃.log
      ∧ Rejected 1 w₃ := by
  have hrun : ((sample sampleChannel).after (sampleEnv {}) (approvedThen [] 2)).bind (fun w₁ =>
      (step (sampleEnv {}) w₁ (.advance 2 .ok)).bind (fun w₂ =>
        (w₂.after (sampleEnv {}) (.startJob ⟨.publish, 1, 0⟩ :: goes 3 1)).map (fun w₃ =>
          Decidable.decide (w₂.log = [.decided 1 .reject] ++ w₁.log ∧ 1 ∉ w₁.begun
            ∧ RejectsLoaded 1 w₁ (.advance 2 .ok)
            ∧ AllSteps (NoWebApproval 1)
              (stepsOf (sampleEnv {}) w₂ (.startJob ⟨.publish, 1, 0⟩ :: goes 3 1))
            ∧ AllSteps (Undisturbed 1)
              (stepsOf (sampleEnv {}) w₂ (.startJob ⟨.publish, 1, 0⟩ :: goes 3 1))
            ∧ .ended 3 (.returned (.skip .rejected)) ∈ w₃.log)))) = some true := by
    decide +kernel
  obtain ⟨w₁, hw₁, hrun⟩ := Option.bind_eq_some_iff.mp hrun
  obtain ⟨w₂, hw₂, hrun⟩ := Option.bind_eq_some_iff.mp hrun
  obtain ⟨w₃, hw₃, hrun⟩ := Option.map_eq_some_iff.mp hrun
  obtain ⟨hlog, hb, hl, hw, hg, hend⟩ := of_decide_eq_true hrun
  exact ⟨w₁, w₂, w₃, hw₁, hw₂, hw₃, hend, ((rejection_final (sample_init _) (path_after hw₁) hw₂
    hlog (List.mem_singleton.mpr rfl) hb (path_after hw₃) hw).mpr ⟨hl, hg⟩).2⟩

/-- Its publish job has passed the check when the rejection commits. -/
def overtakenRejection : List Action :=
  approvedThen (.startJob ⟨.publish, 1, 0⟩ :: goes 2 4) 3

/-- Nothing but the publish run goes on, and the rejected post is sent. -/
theorem overtakenRejection_sent :
    ∃ w₁ w₂ w₃ tr tr', Init (sample sampleChannel)
      ∧ Trace (step (sampleEnv {})) (sample sampleChannel) tr w₁
      ∧ step (sampleEnv {}) w₁ (.advance 3 .ok) = some w₂
      ∧ w₂.log = [.decided 1 .reject] ++ w₁.log ∧ 1 ∉ w₁.begun
      ∧ (w₂.row 1).map Post.state = some .rejected
      ∧ Trace (step (sampleEnv {})) w₂ tr' w₃ ∧ AllSteps (NoWebApproval 1) tr' ∧ 1 ∈ w₃.begun := by
  have hrun : ((sample sampleChannel).after (sampleEnv {}) overtakenRejection).bind (fun w₁ =>
      (step (sampleEnv {}) w₁ (.advance 3 .ok)).bind (fun w₂ =>
        (w₂.after (sampleEnv {}) [.tick 2_000_000, .advance 2 .ok]).map (fun w₃ =>
          Decidable.decide (w₂.log = [.decided 1 .reject] ++ w₁.log ∧ 1 ∉ w₁.begun
            ∧ (w₂.row 1).map Post.state = some .rejected
            ∧ AllSteps (NoWebApproval 1)
              (stepsOf (sampleEnv {}) w₂ [.tick 2_000_000, .advance 2 .ok])
            ∧ 1 ∈ w₃.begun)))) = some true := by
    decide +kernel
  obtain ⟨w₁, hw₁, hrun⟩ := Option.bind_eq_some_iff.mp hrun
  obtain ⟨w₂, hw₂, hrun⟩ := Option.bind_eq_some_iff.mp hrun
  obtain ⟨w₃, hw₃, hrun⟩ := Option.map_eq_some_iff.mp hrun
  obtain ⟨hlog, hb, hst, hw, hsent⟩ := of_decide_eq_true hrun
  exact ⟨w₁, w₂, w₃, _, _, sample_init _, path_after hw₁, hw₂, hlog, hb, hst, path_after hw₃, hw,
    hsent⟩

end World

end TelegramCms
