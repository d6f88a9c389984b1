import TelegramCms.Lib.Transition
import TelegramCms.Proof.Fleet

/-!
# What "nothing to do" stands for

The updater takes `HEAD` for the commit that is deployed. It moves `HEAD` first and brings
the stack up later, so a run that ends in between leaves a host that looks up to date to
every later run, as long as the ref stays where it is.

`upToDate_iff`: "nothing to do" means deployed throughout the life of a host exactly if no
run ends at a place where `HEAD` and the containers are apart, and every reboot brings up
`HEAD`.
-/

namespace TelegramCms

open Shell Transition

/-! ## Nothing to do -/

/-- A run exits because `HEAD` equals the tracked ref. -/
structure Idles (o : Outcomes) (head : Sha) : Prop where
  lockFree : o.lockFree = true
  confOk : o.confOk = true
  cd : o.cd = 0
  insideWorkTree : o.insideWorkTree = 0
  fetch : o.fetch = 0
  trackRef : o.trackRef.isSome = true
  revParseHead : o.revParseHead = 0
  same : o.target = head

section Idle

variable {o : Outcomes} {h : Host}

/-- Such a run changes nothing and exits with 0. -/
theorem prologue_idles (hi : Idles o h.head) :
    exec false (prologue o) h = .exited { h with target := h.head } 0 := by
  have hsame := hi.same
  rw [Outcomes.target] at hsame
  simp [prologue, Cmd.block, Cmd.ifNot, Cmd.when, Cmd.status, Cmd.test, Cmd.skip, exec,
    Result.andThen, hi.lockFree, hi.confOk, hi.cd, hi.insideWorkTree, hi.fetch, hi.trackRef,
    hi.revParseHead, hsame]

/-- Short of a lock that is taken and a fetch that fails, nothing else makes a run exit with
0 before it has begun. -/
theorem idles_iff (hlock : o.lockFree = true) (hfetch : o.fetch = 0) :
    (∃ s, exec false (prologue o) h = .exited s 0) ↔ Idles o h.head := by
  constructor
  · rintro ⟨s, hs⟩
    simp only [prologue, Cmd.block, Cmd.ifNot, Cmd.when, Cmd.status, Cmd.test, Cmd.skip, Cmd.assign,
      exec, Result.andThen, hlock, hfetch, die] at hs
    by_cases hconf : o.confOk = true <;> simp [hconf] at hs
    by_cases hcd : o.cd = 0 <;> simp [hcd] at hs
    by_cases htree : o.insideWorkTree = 0 <;> simp [htree] at hs
    cases href : o.trackRef with
    | none => simp [href] at hs
    | some target =>
        by_cases hrev : o.revParseHead = 0 <;> simp [href, hrev] at hs
        by_cases hsame : target = h.head
        · exact ⟨hlock, hconf, hcd, htree, hfetch, by rw [href]; rfl, hrev,
            by rw [Outcomes.target, href]; exact hsame⟩
        · simp [hsame] at hs
  · intro hi
    exact ⟨_, prologue_idles hi⟩

end Idle

/-! ## Where a run ends -/

/-- How far a run has come when it ends. -/
inductive Stage where
  /-- `HEAD` has not been moved, or is back again with the containers untouched. -/
  | before
  /-- `HEAD` is at the target. -/
  | moved
  /-- So is the stack: the `up -d` of the forward update was run. -/
  | deployed
  /-- `HEAD` is back. -/
  | back
  /-- So is the stack: the `up -d` of the rollback was run. -/
  | restored
deriving DecidableEq, Repr

section Stages

variable (o : Outcomes)

/-- The commands of the rollback in their order, with what it means for a run to end in
them. -/
def Outcomes.rollbackStage (k : Nat) (s : Host) : Stage :=
  (execFor k false (gitReset o.resetPrev Host.prev) s).next .deployed fun k s =>
  (execFor k false (writeImageTag o.tagPrev Host.prev) s).next .back fun k s =>
  (execFor k false (.orElse (pullImages o.rollbackPull) .skip) s).next .back fun k s =>
  (execFor k true (deploy o o.rollbackMigrate o.rollbackUp) s).next .back fun _ _ => .restored

/-- The same from the health gate on. -/
def Outcomes.gateStage (k : Nat) (s : Host) : Stage :=
  if o.gatePasses s.stack then .deployed else
  (execFor k true (runHealthGate o o.polls) s).next .deployed fun k s =>
  (execFor k false .skip s).next .deployed o.rollbackStage

/-- The same from `deploy "update"` on. -/
def Outcomes.deployStage (k : Nat) (s : Host) : Stage :=
  (execFor k true (deploy o o.migrate o.up) s).next .moved fun k s =>
  (execFor k false .skip s).next .deployed o.gateStage

/-- The same from the pull on. -/
def Outcomes.pullStage (k : Nat) (s : Host) : Stage :=
  (execFor k true (pullImages o.pull) s).next .moved fun k s =>
  if o.pull = 0 then (execFor k false .skip s).next .moved o.deployStage
  else (execFor k false (gitReset o.resetPrev Host.prev) s).next .moved fun _ _ => .before

/-- How far a run from `h` has come when it ends, if it is killed after `k` commands. -/
def Outcomes.stage (k : Nat) (h : Host) : Stage :=
  (execFor k false (prologue o) h).next .before fun k s =>
  (execFor k false (gitReset o.resetTarget Host.target) s).next .before fun k s =>
  (execFor k false (writeImageTag o.tagTarget Host.target) s).next .moved o.pullStage

end Stages

/-- `HEAD` and the containers. -/
def Host.deployment (h : Host) : Sha × Stack := (h.head, h.stack)

/-- `HEAD` and the containers where a run ends that began with `h`. -/
def Outcomes.leaves (o : Outcomes) (h : Host) : Stage → Sha × Stack
  | .before => (h.head, h.stack)
  | .moved => (o.target, h.stack)
  | .deployed => (o.target, o.deployed h.stack)
  | .back => (h.head, o.deployed h.stack)
  | .restored => (h.head, o.rollbackUp.stack h.head (o.deployed h.stack))

/-- The state is that of a run from `h` that ends at the stage. -/
def Outcomes.Leaves (o : Outcomes) (h t : Host) (stage : Stage) : Prop :=
  t.deployment = o.leaves h stage

section Ends

variable {o : Outcomes} {h s s' : Host} {k n m k' : Nat} {g : Bool}

/-! ### What each command leaves -/

/-- Nothing but `git reset` and `up -d` touches the deployment. -/
theorem prologue_deployment (d : Sha × Stack) : (prologue o).Keeps (fun s => s.deployment = d) := by
  simp [prologue, Cmd.block, Cmd.ifNot, Cmd.when, Cmd.status, Cmd.test, Cmd.skip, Cmd.assign,
    Cmd.Keeps, die, Host.deployment]

theorem writeImageTag_deployment (n : Nat) (f : Host → Sha) (d : Sha × Stack) :
    (writeImageTag n f).Keeps (fun s => s.deployment = d) := by
  refine ⟨fun _ hd => hd, ?_⟩
  intro s hd
  dsimp only
  split
  · exact hd
  · exact hd

theorem healthyPath_deployment (d : Sha × Stack) :
    (healthyPath o).Keeps (fun s => s.deployment = d) := by
  simp [healthyPath, promoteStable, Cmd.block, Cmd.when, Cmd.status, Cmd.test, Cmd.skip, Cmd.assign,
    Cmd.Keeps, Host.deployment]

/-- A command that keeps the deployment ends with it. -/
theorem stops_deployment {c : Cmd Host} (hc : ∀ d, c.Keeps (fun s => s.deployment = d))
    (h : (execFor k g c s).Stops s') : s'.deployment = s.deployment := by
  rw [← h.state_eq]
  exact execFor_keeps (hc _) rfl

/-- A `git reset` that ends the script has not moved `HEAD`. -/
theorem gitReset_stops {f : Host → Sha} (h : (execFor k g (gitReset n f) s).Stops s') :
    s' = s := by
  rcases stops_call h with h | ⟨-, hne, h⟩
  · exact h
  · rw [h]
    exact if_neg hne

theorem gitReset_returns {f : Host → Sha}
    (h : execFor k false (gitReset n f) s = .through (.returned s' m) k') :
    s' = { s with head := f s } := by
  obtain ⟨hs, -, hok⟩ := returns_call h
  rw [hs]
  exact if_pos (hok rfl)

theorem writeImageTag_returns {f : Host → Sha}
    (h : execFor k false (writeImageTag n f) s = .through (.returned s' m) k') :
    s' = { s with imageTag := f s, envTag := f { s with imageTag := f s } } := by
  obtain ⟨s₁, _, h1, h2⟩ := returned_block (exec_of_through h)
  obtain ⟨-, rfl⟩ := returned_call h1
  obtain ⟨hok, rfl⟩ := returned_call h2
  exact if_pos hok

theorem runHealthGate_deployment (polls : List Poll) (d : Sha × Stack) :
    (runHealthGate o polls).Keeps (fun s => s.deployment = d) := by
  intro s hd
  dsimp only
  split
  · exact hd
  · exact hd

theorem deploy_stops {up : Up o.active} (h : (execFor k true (deploy o n up) s).Stops s') :
    s'.deployment = s.deployment := by
  have hkeep : ∀ d, (Cmd.orElse (.status n) .skip).Keeps (fun t : Host => t.deployment = d) :=
    fun _ => ⟨fun _ hd => hd, fun _ hd => hd⟩
  rcases stops_seq h with h | ⟨k', s₁, m, h1, h2⟩
  · exact stops_deployment hkeep h
  · -- the `up -d` was not run
    rcases stops_call h2 with rfl | ⟨hg, -⟩
    · have := execFor_keeps (k := k) (g := true) (hkeep s.deployment) (rfl : s.deployment = _)
      rw [h1] at this
      exact this
    · exact absurd hg (by simp)

theorem migrate_returned : exec g (.orElse (.status n) .skip) s = .returned s 0 := by
  rw [exec_orElse, Cmd.status, exec_call_guarded]
  change (if n = 0 then Result.returned s 0 else exec g .skip s) = _
  rw [exec_skip, ite_self]

theorem deploy_returns {up : Up o.active}
    (h : execFor k true (deploy o n up) s = .through (.returned s' m) k') :
    s' = { s with stack := up.stack s.imageTag s.stack } := by
  obtain ⟨s₁, _, h1, h2⟩ := returned_block (exec_of_through h)
  rw [migrate_returned] at h1
  obtain rfl := (Result.returned.inj h1).1
  rw [Cmd.block, exec_call_guarded] at h2
  exact (Result.returned.inj h2).1.symm

theorem skip_stops (h : (execFor k g .skip s).Stops s') : s' = s := by
  rcases stops_call h with h | ⟨-, hne, -⟩
  · exact h
  · exact absurd rfl hne

theorem skip_returns (h : execFor k g .skip s = .through (.returned s' m) k') : s' = s :=
  (returned_skip (exec_of_through h)).1

/-! ### What a run leaves -/

/-- From the rollback on. -/
theorem rollback_leaves (hprev : s.prev = h.head) (hhead : s.head = o.target)
    (hstack : s.stack = o.deployed h.stack) :
    o.Leaves h (execFor k false (rollback o) s).state (o.rollbackStage k s) := by
  unfold rollback Outcomes.rollbackStage
  rw [execFor_block]
  refine Cut.andThen_cases (I := o.Leaves h) (fun t ht => ?_) (fun t _ k₁ ht => ?_)
  · obtain rfl := gitReset_stops ht
    exact Prod.ext hhead hstack
  obtain rfl := gitReset_returns ht
  rw [execFor_block]
  refine Cut.andThen_cases (I := o.Leaves h) (fun t ht => ?_) (fun t _ k₂ ht => ?_)
  · exact (stops_deployment (writeImageTag_deployment _ _) ht).trans (Prod.ext hprev hstack)
  obtain rfl := writeImageTag_returns ht
  rw [execFor_block]
  have hpull : ∀ d, (Cmd.orElse (pullImages o.rollbackPull) .skip).Keeps
      (fun s : Host => s.deployment = d) := fun _ => ⟨fun _ hd => hd, fun _ hd => hd⟩
  refine Cut.andThen_cases (I := o.Leaves h) (fun t ht => ?_) (fun t _ k₃ ht => ?_)
  · exact (stops_deployment hpull ht).trans (Prod.ext hprev hstack)
  have hsame := exec_of_through ht
  rw [pullImages, migrate_returned] at hsame
  obtain rfl := (Result.returned.inj hsame).1
  rw [execFor_block, execFor_orElse, Cut.andThen_assoc]
  refine Cut.andThen_cases (I := o.Leaves h) (fun t ht => ?_) (fun t n k₄ ht => ?_)
  · exact (deploy_stops ht).trans (Prod.ext hprev hstack)
  obtain rfl := deploy_returns ht
  have hd : o.leaves h .restored = (s.prev, o.rollbackUp.stack s.prev s.stack) := by
    rw [hprev, hstack, Outcomes.leaves]
  -- the stack is not touched any more
  refine Cut.andThen_keeps (I := fun t => o.Leaves h t .restored) ?_ (fun k' s' _ hs' => ?_)
  · split
    · exact hd.symm
    · exact execFor_keeps (I := fun t => o.Leaves h t .restored) (fun _ hd => hd) hd.symm
  · exact execFor_keeps (I := fun t => o.Leaves h t .restored)
      ⟨⟨runHealthGate_deployment _ _, fun _ hd => hd, fun _ hd => hd⟩, trivial⟩ hs'

theorem runHealthGate_returns
    (h : execFor k true (runHealthGate o o.polls) s = .through (.returned s' m) k') :
    (m = 0 ↔ o.gatePasses s.stack) ∧ (¬ o.gatePasses s.stack → s' = s) := by
  obtain ⟨hs, hm, -⟩ := returns_call h
  refine ⟨by rw [hm, Outcomes.gatePasses], fun hno => ?_⟩
  rw [hs]
  exact if_neg hno

/-- From the health gate on. -/
theorem gate_leaves (hprev : s.prev = h.head) (hhead : s.head = o.target)
    (hstack : s.stack = o.deployed h.stack) :
    o.Leaves h
      (execFor k false (.block [.when (runHealthGate o o.polls) (healthyPath o), rollback o]) s).state
      (o.gateStage k s) := by
  have hd : s.deployment = o.leaves h .deployed := Prod.ext hhead hstack
  rw [execFor_block, Cmd.when, execFor_cond, Cut.andThen_assoc]
  unfold Outcomes.gateStage
  by_cases hp : o.gatePasses s.stack
  · rw [if_pos hp]
    refine Cut.andThen_state (I := fun t => o.Leaves h t .deployed) (fun t ht => ?_)
      (fun t n k₁ ht => ?_)
    · exact (stops_deployment (runHealthGate_deployment _) ht).trans hd
    -- the healthy path exits
    have hgate := execFor_keeps (k := k) (g := true) (runHealthGate_deployment (o := o) o.polls _) hd
    rw [ht] at hgate
    have hends : (healthyPath o).Ends := .inr trivial
    rw [if_pos ((runHealthGate_returns ht).1.mpr hp), hends.andThen]
    exact execFor_keeps (healthyPath_deployment _) hgate
  · rw [if_neg hp]
    refine Cut.andThen_cases (I := o.Leaves h) (fun t ht => ?_) (fun t n k₁ ht => ?_)
    · exact (stops_deployment (runHealthGate_deployment _) ht).trans hd
    obtain ⟨hn, hsame⟩ := runHealthGate_returns ht
    obtain rfl := hsame hp
    rw [if_neg (fun h0 => hp (hn.mp h0))]
    refine Cut.andThen_cases (I := o.Leaves h) (fun t ht => ?_) (fun t n k₁ ht => ?_)
    · obtain rfl := skip_stops ht
      exact hd
    obtain rfl := skip_returns ht
    exact rollback_leaves hprev hhead hstack

/-- From `deploy "update"` on. -/
theorem deploy_leaves (hprev : s.prev = h.head) (hhead : s.head = o.target)
    (htag : s.imageTag = o.target) (hstack : s.stack = h.stack) :
    o.Leaves h
      ((execFor k false (.ifNot (deploy o o.migrate o.up) .skip) s).andThen fun k s _ =>
        execFor k false (.block [.when (runHealthGate o o.polls) (healthyPath o), rollback o])
          s).state
      (o.deployStage k s) := by
  rw [Cmd.ifNot, execFor_cond, Cut.andThen_assoc]
  unfold Outcomes.deployStage
  refine Cut.andThen_cases (I := o.Leaves h) (fun t ht => ?_) (fun t n k₁ ht => ?_)
  · exact (deploy_stops ht).trans (Prod.ext hhead hstack)
  obtain rfl := deploy_returns ht
  have hdeployed : o.up.stack s.imageTag s.stack = o.deployed h.stack := by
    rw [htag, hstack, Outcomes.deployed]
  -- whether the `up -d` worked makes no difference
  rw [ite_self]
  refine Cut.andThen_cases (I := o.Leaves h) (fun t ht => ?_) (fun t n k₁ ht => ?_)
  · obtain rfl := skip_stops ht
    exact Prod.ext hhead hdeployed
  obtain rfl := skip_returns ht
  exact gate_leaves hprev hhead hdeployed

/-- From the pull on. -/
theorem pull_leaves (hprev : s.prev = h.head) (hhead : s.head = o.target)
    (htag : s.imageTag = o.target) (hstack : s.stack = h.stack) :
    o.Leaves h
      ((execFor k false (.ifNot (pullImages o.pull) (.block [
          gitReset o.resetPrev Host.prev,
          writeImageTag o.tagPrev Host.prev,
          .exit 0])) s).andThen fun k s _ =>
        (execFor k false (.ifNot (deploy o o.migrate o.up) .skip) s).andThen fun k s _ =>
        execFor k false (.block [.when (runHealthGate o o.polls) (healthyPath o), rollback o])
          s).state
      (o.pullStage k s) := by
  rw [Cmd.ifNot, execFor_cond, Cut.andThen_assoc]
  unfold Outcomes.pullStage
  have hpull : ∀ d, (pullImages o.pull).Keeps (fun s : Host => s.deployment = d) :=
    fun _ _ hd => hd
  refine Cut.andThen_cases (I := o.Leaves h) (fun t ht => ?_) (fun t n k₁ ht => ?_)
  · exact (stops_deployment hpull ht).trans (Prod.ext hhead hstack)
  obtain ⟨rfl, rfl, -⟩ := returns_call ht
  by_cases hp : o.pull = 0
  · rw [if_pos hp, if_pos hp]
    refine Cut.andThen_cases (I := o.Leaves h) (fun t ht => ?_) (fun t n k₂ ht => ?_)
    · obtain rfl := skip_stops ht
      exact Prod.ext hhead hstack
    obtain rfl := skip_returns ht
    exact deploy_leaves hprev hhead htag hstack
  · -- the tree is reverted and the run is over
    have hends : (Cmd.block [gitReset o.resetPrev Host.prev, writeImageTag o.tagPrev Host.prev,
      .exit 0]).Ends := .inr (.inr trivial)
    rw [if_neg hp, if_neg hp, hends.andThen, execFor_block]
    refine Cut.andThen_cases (I := o.Leaves h) (fun t ht => ?_) (fun t n k₂ ht => ?_)
    · obtain rfl := gitReset_stops ht
      exact Prod.ext hhead hstack
    obtain rfl := gitReset_returns ht
    exact execFor_keeps (I := fun t => o.Leaves h t .before)
      ⟨writeImageTag_deployment _ _ _, trivial⟩ (Prod.ext hprev hstack)

/-- **Where a run leaves the host**, whenever it ends. -/
theorem autoUpdate_leaves : o.Leaves h (execFor k false (autoUpdate o) h).state (o.stage k h) := by
  rw [autoUpdate, execFor_block]
  unfold Outcomes.stage
  refine Cut.andThen_cases (I := o.Leaves h) (fun t ht => ?_) (fun t n k₁ ht => ?_)
  · exact stops_deployment prologue_deployment ht
  have hrun := exec_of_through ht
  rw [prologue_runs (begins_of_prologue hrun)] at hrun
  obtain rfl := (Result.returned.inj hrun).1
  rw [execFor_block, forward, execFor_block, Cut.andThen_assoc]
  refine Cut.andThen_cases (I := o.Leaves h) (fun t ht => ?_) (fun t n k₂ ht => ?_)
  · obtain rfl := gitReset_stops ht
    rfl
  obtain rfl := gitReset_returns ht
  rw [execFor_block, Cut.andThen_assoc]
  refine Cut.andThen_cases (I := o.Leaves h) (fun t ht => ?_) (fun t n k₃ ht => ?_)
  · exact stops_deployment (writeImageTag_deployment _ _) ht
  obtain rfl := writeImageTag_returns ht
  rw [execFor_block, Cut.andThen_assoc]
  exact pull_leaves rfl rfl rfl rfl

/-- A run that gets past the prologue has something to update to. -/
theorem advanced_of_stage (hs : o.stage k h ≠ .before) : o.target ≠ h.head := by
  unfold Outcomes.stage at hs
  cases hp : execFor k false (prologue o) h with
  | killed s => rw [hp] at hs; exact absurd rfl hs
  | through r left =>
      cases r with
      | returned s n => exact (begins_of_prologue (exec_of_through hp)).advanced
      | exited s n => rw [hp] at hs; exact absurd rfl hs

end Ends

/-! ## Deployed -/

/-- Whenever a run finds nothing to do, the application services run the images of `HEAD`. -/
def UpToDate (active : List Service) (h : Host) : Prop :=
  ∀ o : Outcomes, o.active = active → Idles o h.head → Runs active h.stack h.head

/-- A run that finds the ref at `head`. -/
def Outcomes.idle (active : List Service) (head : Sha) : Outcomes where
  active := active
  canary := false
  trackRef := some head
  up := ⟨1, fun _ => .kept, by simp⟩
  polls := []
  rollbackUp := ⟨1, fun _ => .kept, by simp⟩
  rollbackPolls := []

theorem Outcomes.idle_idles (active : List Service) (head : Sha) :
    Idles (Outcomes.idle active head) head :=
  ⟨rfl, rfl, rfl, rfl, rfl, rfl, rfl, rfl⟩

theorem upToDate_iff_runs {active : List Service} {h : Host} :
    UpToDate active h ↔ Runs active h.stack h.head :=
  ⟨fun hu => hu _ rfl (Outcomes.idle_idles active h.head), fun hr _ _ _ => hr⟩

/-- What the `up -d`s of a run did, for the containers to match `HEAD` where it ends. -/
def Outcomes.Matches (o : Outcomes) : Stage → Prop
  | .before => True
  | .moved => ∀ s ∈ o.active, s.isApp = false
  | .deployed => ∀ s ∈ o.active, s.isApp = true → o.up.fate s = .recreated
  | .back => ∀ s ∈ o.active, s.isApp = true → o.up.fate s = .kept
  | .restored => ∀ s ∈ o.active, s.isApp = true →
      o.rollbackUp.fate s = .recreated ∨ (o.rollbackUp.fate s = .kept ∧ o.up.fate s = .kept)

/-- A run ends with `HEAD` and the containers together; a reboot brings up every application
service, with `HEAD` in `.env`, or leaves it alone. -/
def Settled {active : List Service} (h : Host) : HostAct active → Prop
  | .update o _ k => o.Matches (o.stage k h)
  | .reboot down up => ∀ s ∈ active, s.isApp = true →
      (up.fate s = .recreated ∧ h.envTag = h.head) ∨ (up.fate s = .kept ∧ down = false)

theorem Up.stack_eq_some {active : List Service} {up : Up active} {tag sha : Sha} {stack : Stack}
    {s : Service} : up.stack tag stack s = some sha
      ↔ (up.fate s = .recreated ∧ tag = sha) ∨ (up.fate s = .kept ∧ stack s = some sha) := by
  unfold Up.stack
  cases up.fate s <;> simp

section Steps

variable {o : Outcomes} {h : Host}

theorem leaves_runs_iff {stage : Stage} (hruns : Runs o.active h.stack h.head)
    (hadv : stage ≠ .before → o.target ≠ h.head) :
    Runs o.active (o.leaves h stage).2 (o.leaves h stage).1 ↔ o.Matches stage := by
  cases stage with
  | before => exact iff_of_true hruns trivial
  | moved =>
      -- `HEAD` is at the target and no container is: this is right only if none is active
      constructor
      · intro hr s hs
        by_contra happ
        rw [Bool.not_eq_false] at happ
        exact hadv (by simp) (Option.some.inj ((hr s hs happ).symm.trans (hruns s hs happ)))
      · intro hno s hs happ
        exact absurd happ (by simp [hno s hs])
  | deployed =>
      refine forall₂_congr fun s hs => forall_congr' fun happ => ?_
      change o.up.stack o.target h.stack s = _ ↔ _
      rw [Up.stack_eq_some, hruns s hs happ]
      simp [Outcomes.leaves, (hadv (by simp)).symm]
  | back =>
      refine forall₂_congr fun s hs => forall_congr' fun happ => ?_
      change o.up.stack o.target h.stack s = _ ↔ _
      rw [Up.stack_eq_some, hruns s hs happ]
      simp [Outcomes.leaves, hadv (by simp)]
  | restored =>
      refine forall₂_congr fun s hs => forall_congr' fun happ => ?_
      change o.rollbackUp.stack h.head (o.up.stack o.target h.stack) s = _ ↔ _
      rw [Up.stack_eq_some, Up.stack_eq_some, hruns s hs happ]
      simp [Outcomes.leaves, hadv (by simp)]

theorem update_runs_iff {k : Nat} (hruns : Runs o.active h.stack h.head) :
    Runs o.active (execFor k false (autoUpdate o) h).state.stack
        (execFor k false (autoUpdate o) h).state.head ↔ o.Matches (o.stage k h) := by
  have hl : (execFor k false (autoUpdate o) h).state.deployment = o.leaves h (o.stage k h) :=
    autoUpdate_leaves
  have hend := leaves_runs_iff (o := o) hruns (advanced_of_stage (k := k))
  rw [← hl] at hend
  exact hend

/-- **One step** from a host that is up to date. -/
theorem hostStep_upToDate {active : List Service} {a : HostAct active} {u : Host}
    (hu : UpToDate active h) (hstep : hostStep h a = some u) : UpToDate active u ↔ Settled h a := by
  rw [upToDate_iff_runs] at hu ⊢
  cases a with
  | update o tier k =>
      obtain rfl := Option.some.inj hstep
      have hend := update_runs_iff (o := o) (k := k) (tier ▸ hu)
      rw [tier] at hend
      exact hend
  | reboot down up =>
      obtain rfl := Option.some.inj hstep
      refine forall₂_congr fun s hs => forall_congr' fun happ => ?_
      change up.stack h.envTag _ s = _ ↔ _
      rw [Up.stack_eq_some]
      cases down with
      | false => simp [Host.boot, hu s hs happ]
      | true => simp [Host.boot]

end Steps

/--
**"Nothing to do" means deployed, all through the life of a host, exactly if it does at
its start, every run ends with `HEAD` and the containers together, and every reboot brings
up `HEAD`.**

By induction on the life of the host, with one step in `hostStep_upToDate`: a run may be killed
after any command, so what it leaves is looked at after each of them.
-/
theorem upToDate_iff {active : List Service} {h t : Host} {tr : List (Host × HostAct active)}
    (hp : Trace hostStep h tr t) :
    ((∀ x ∈ tr, UpToDate active x.1) ∧ UpToDate active t)
      ↔ UpToDate active h ∧ AllSteps Settled tr := by
  have hiff := hp.forall_iff' (G := Settled) (P := UpToDate active)
    (fun _ _ _ => hostStep_upToDate)
  constructor
  · intro hall
    have hfirst := hp.first hall
    exact ⟨hfirst, (hiff hfirst).mp hall⟩
  · rintro ⟨hfirst, hg⟩
    exact (hiff hfirst).mpr hg

/-- An update for which everything works. -/
def goodUpdate : Outcomes where
  active := [.postgres, .redis, .worker, .userbot, .bot]
  canary := false
  trackRef := some "new".toList
  up := ⟨0, fun _ => .recreated, fun _ _ _ _ => rfl⟩
  polls := [⟨true, true, fun _ => some (.healthy, true), fun _ => true⟩]
  rollbackUp := ⟨0, fun _ => .recreated, fun _ _ _ _ => rfl⟩
  rollbackPolls := []

def oldHost : Host := Host.boot "old".toList "old".toList (fun _ => some "old".toList)

theorem oldHost_upToDate : UpToDate goodUpdate.active oldHost :=
  upToDate_iff_runs.mpr (fun _ _ _ => rfl)

/-- After the update the host is up to date. -/
theorem upToDate_goodUpdate :
    ∃ t, hostStep oldHost (.update goodUpdate rfl 40) = some t ∧ UpToDate goodUpdate.active t := by
  have hp : Trace (@hostStep goodUpdate.active) oldHost _ _ :=
    .snoc (.nil oldHost) (a := .update goodUpdate rfl 40) rfl
  refine ⟨_, rfl, ((upToDate_iff hp).mpr ⟨oldHost_upToDate, ?_⟩).2⟩
  intro x hx
  rw [List.nil_append, List.mem_singleton] at hx
  rw [hx]
  change goodUpdate.Matches (goodUpdate.stage 40 oldHost)
  rw [show goodUpdate.stage 40 oldHost = .deployed from rfl]
  exact fun _ _ _ => rfl

/-- Killed right after `git reset --hard`, the update leaves `HEAD` at the new commit and
the old containers. -/
theorem killed_update :
    ¬ ∀ (active : List Service) (h t : Host) (tr : List (Host × HostAct active)),
      UpToDate active h → Trace hostStep h tr t →
        (∀ x ∈ tr, UpToDate active x.1) ∧ UpToDate active t := by
  intro hall
  have hp : Trace (@hostStep goodUpdate.active) oldHost _ _ :=
    .snoc (.nil oldHost) (a := .update goodUpdate rfl 15) rfl
  have hruns := upToDate_iff_runs.mp (hall _ _ _ _ oldHost_upToDate hp).2
  exact absurd (hruns .worker (by decide) rfl) (by decide)

end TelegramCms
