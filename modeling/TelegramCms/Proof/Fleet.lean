import TelegramCms.Model.Fleet

/-!
# What a canary promotes

`promote_stable` is called for the target commit when the health gate passed. The gate
looks at service names and health, not at image tags, and the script goes on to it after
an `up -d` that failed. So the promoted commit is the one whose images run only if `up -d`
got to every application container (`only_verified_iff`); one that fails before it
recreates any leaves the old, healthy stack to be waved through.
-/

namespace TelegramCms

open Shell

section Update

variable {o : Outcomes} {h : Host}

/-- `TARGET` -/
def Outcomes.target (o : Outcomes) : Sha := o.trackRef.getD []

/-- The commands before the update all work, and there is something to update to. -/
structure Begins (o : Outcomes) (head : Sha) : Prop where
  lockFree : o.lockFree = true
  confOk : o.confOk = true
  cd : o.cd = 0
  insideWorkTree : o.insideWorkTree = 0
  fetch : o.fetch = 0
  trackRef : o.trackRef.isSome = true
  revParseHead : o.revParseHead = 0
  advanced : o.target ≠ head

/-- Tree, tag and images of the target are there. -/
structure Fetched (o : Outcomes) : Prop where
  resetTarget : o.resetTarget = 0
  tagTarget : o.tagTarget = 0
  pull : o.pull = 0

theorem prologue_runs (hb : Begins o h.head) :
    exec false (prologue o) h = .returned { h with target := o.target, prev := h.head } 0 := by
  have hadv := hb.advanced
  rw [Outcomes.target] at hadv
  simp [prologue, Cmd.block, Cmd.ifNot, Cmd.when, Cmd.status, Cmd.test, Cmd.skip, Cmd.assign, exec,
    Result.andThen, Outcomes.target, hb.lockFree, hb.confOk, hb.cd, hb.insideWorkTree, hb.fetch,
    hb.trackRef, hb.revParseHead, hadv]

/-- A prologue that comes to its end has been through all its checks. -/
theorem begins_of_prologue {t : Host} {n : Nat} (hr : exec false (prologue o) h = .returned t n) :
    Begins o h.head := by
  rw [prologue] at hr
  -- one command of the prologue after the other, each of which went through
  obtain ⟨h1, _, c1, r1⟩ := returned_block hr
  obtain ⟨rfl, hlock⟩ := returned_test (returned_ifNot (Cmd.ends_exit _) c1)
  obtain ⟨h2, _, c2, r2⟩ := returned_block r1
  obtain ⟨rfl, hconf⟩ := returned_test (returned_ifNot (Cmd.ends_exit _) c2)
  obtain ⟨h3, _, c3, r3⟩ := returned_block r2
  obtain ⟨hcd, rfl⟩ := returned_status c3
  obtain ⟨h4, _, c4, r4⟩ := returned_block r3
  obtain ⟨htree, rfl⟩ := returned_status_zero (returned_ifNot (Cmd.ends_exit _) c4)
  obtain ⟨h5, _, c5, r5⟩ := returned_block r4
  obtain ⟨hfetch, rfl⟩ := returned_status_zero (returned_ifNot (Cmd.ends_exit _) c5)
  obtain ⟨h6, _, c6, r6⟩ := returned_block r5
  have hcall := returned_orElse (Cmd.ends_exit _) c6
  rw [exec_call, if_neg (by simp)] at hcall
  obtain ⟨rfl, href⟩ := Result.returned.inj hcall
  obtain ⟨h7, _, c7, r7⟩ := returned_block r6
  obtain ⟨hhead, rfl⟩ := returned_status c7
  obtain ⟨h8, _, c8, r8⟩ := returned_block r7
  obtain ⟨m, htest, hm⟩ := returned_when (Cmd.ends_exit _) c8
  obtain ⟨rfl, hsame⟩ := returned_test htest
  refine ⟨hlock.mp rfl, hconf.mp rfl, hcd, htree, hfetch, ?_, hhead, ?_⟩
  · by_contra hno
    simp [hno] at href
  · intro heq
    exact hm (hsame.mpr (by simpa [Outcomes.target] using heq))

theorem forward_runs (hf : Fetched o) (hm : h.target = o.target) :
    exec false (forward o) h
      = .returned { h with
          head := o.target
          imageTag := o.target
          envTag := o.target
          stack := o.up.stack o.target h.stack } 0 := by
  simp [forward, gitReset, writeImageTag, pullImages, deploy, Cmd.block, Cmd.ifNot, Cmd.status,
    Cmd.skip, Cmd.assign, exec, Result.andThen, hf.resetTarget, hf.tagTarget, hf.pull, hm]

theorem fetched_of_forward {t : Host} {n : Nat} (hr : exec false (forward o) h = .returned t n) :
    Fetched o := by
  rw [forward] at hr
  obtain ⟨h1, _, hreset, hr⟩ := returned_block hr
  obtain ⟨h2, _, htag, hr⟩ := returned_block hr
  obtain ⟨h3, _, hpull, -⟩ := returned_block hr
  obtain ⟨h4, _, -, htag⟩ := returned_block htag
  refine ⟨(returned_call hreset).1, (returned_call htag).1, ?_⟩
  have hends : (Cmd.block [gitReset o.resetPrev Host.prev, writeImageTag o.tagPrev Host.prev,
      .exit 0]).Ends := .inr (.inr trivial)
  exact (returned_status_zero (returned_ifNot hends hpull)).1

/-! ### Only the healthy path calls `promote_stable` -/

section Keeps

variable (l : List Promotion)

theorem gitReset_keeps (n : Nat) (f : Host → Sha) :
    (gitReset n f).Keeps (fun h => h.promotions = l) := by
  intro h hl
  dsimp only
  split
  · exact hl
  · exact hl

theorem runHealthGate_keeps (polls : List Poll) :
    (runHealthGate o polls).Keeps (fun h => h.promotions = l) := by
  intro h hl
  dsimp only
  split
  · exact hl
  · exact hl

theorem writeImageTag_keeps (n : Nat) (f : Host → Sha) :
    (writeImageTag n f).Keeps (fun h => h.promotions = l) := by
  refine ⟨fun _ hl => hl, ?_⟩
  intro h hl
  dsimp only
  split
  · exact hl
  · exact hl

theorem deploy_keeps (n : Nat) (up : Up o.active) :
    (deploy o n up).Keeps (fun h => h.promotions = l) :=
  ⟨⟨fun _ hl => hl, fun _ hl => hl⟩, fun _ hl => hl⟩

theorem prologue_keeps : (prologue o).Keeps (fun h => h.promotions = l) := by
  simp [prologue, Cmd.block, Cmd.ifNot, Cmd.when, Cmd.status, Cmd.test, Cmd.skip, Cmd.assign,
    Cmd.Keeps, die]

theorem forward_keeps : (forward o).Keeps (fun h => h.promotions = l) := by
  have hskip : (Cmd.skip : Cmd Host).Keeps (fun h => h.promotions = l) := fun _ hl => hl
  have hpull : (pullImages o.pull).Keeps (fun h => h.promotions = l) := fun _ hl => hl
  exact ⟨gitReset_keeps l _ _, writeImageTag_keeps l _ _,
    ⟨hpull, hskip, gitReset_keeps l _ _, writeImageTag_keeps l _ _, trivial⟩,
    deploy_keeps l _ _, hskip, hskip⟩

theorem rollback_keeps : (rollback o).Keeps (fun h => h.promotions = l) := by
  have hskip : (Cmd.skip : Cmd Host).Keeps (fun h => h.promotions = l) := fun _ hl => hl
  have hpull : (pullImages o.rollbackPull).Keeps (fun h => h.promotions = l) := fun _ hl => hl
  exact ⟨gitReset_keeps l _ _, writeImageTag_keeps l _ _, ⟨hpull, hskip⟩,
    ⟨deploy_keeps l _ _, hskip⟩, ⟨runHealthGate_keeps l _, hskip, hskip⟩, trivial⟩

end Keeps

/-! ### What a run promotes -/

/-- The containers after the forward `up -d`. -/
def Outcomes.deployed (o : Outcomes) (stack : Stack) : Stack := o.up.stack o.target stack

/-- The health gate of the forward update passes on these containers. -/
def Outcomes.gatePasses (o : Outcomes) (stack : Stack) : Prop :=
  healthGate (expectedServices o.active o.configOk) stack o.polls = 0

instance (stack : Stack) : Decidable (o.gatePasses stack) :=
  inferInstanceAs (Decidable (healthGate _ _ _ = 0))

/-- The script gets to its call of `promote_stable`. -/
structure Promotes (o : Outcomes) (head : Sha) (stack : Stack) : Prop where
  begins : Begins o head
  fetched : Fetched o
  gate : o.gatePasses (o.deployed stack)
  canary : o.canary = true

theorem updated_of_exited {s : Host} {n : Nat}
    (hx : exec false (autoUpdate o) h = .exited s n) : updated o h = s := by
  rw [updated, hx]; rfl

/-- A run that does not get to the gate promotes nothing. -/
theorem promotions_of_stopped (hl : h.promotions = [])
    (hstop : ¬ (Begins o h.head ∧ Fetched o)) : (updated o h).promotions = [] := by
  cases hp : exec false (prologue o) h with
  | exited s n =>
      rw [updated_of_exited (exec_block_exited hp)]
      have := exec_keeps (prologue_keeps (o := o) []) (g := false) hl
      rw [hp] at this
      exact this
  | returned s n =>
      have hb := begins_of_prologue hp
      rw [prologue_runs hb] at hp
      obtain ⟨rfl, rfl⟩ := Result.returned.inj hp
      cases hf : exec false (forward o) { h with target := o.target, prev := h.head } with
      | exited s n =>
          have hx : exec false (autoUpdate o) h = .exited s n := by
            rw [autoUpdate, exec_block_returned (prologue_runs hb)]
            exact exec_block_exited hf
          rw [updated_of_exited hx]
          have hkeep := exec_keeps (forward_keeps (o := o) []) (g := false)
            (s := { h with target := o.target, prev := h.head }) hl
          rw [hf] at hkeep
          exact hkeep
      | returned s n => exact absurd ⟨hb, fetched_of_forward hf⟩ hstop

/-- The run up to the gate. -/
theorem autoUpdate_reaches_gate (hb : Begins o h.head) (hf : Fetched o) :
    exec false (autoUpdate o) h
      = exec false (.block [.when (runHealthGate o o.polls) (healthyPath o), rollback o])
          { h with
            head := o.target
            imageTag := o.target
            envTag := o.target
            stack := o.deployed h.stack
            target := o.target
            prev := h.head } := by
  rw [autoUpdate, exec_block_returned (prologue_runs hb), exec_block_returned (forward_runs hf rfl)]
  rfl

theorem healthyPath_promotions (s : Host) :
    (exec false (healthyPath o) s).state.promotions
      = if o.canary = true then s.promotions ++ [⟨s.target, s.gate⟩] else s.promotions := by
  rw [healthyPath, exec_then_exit]
  have htest : exec true (.test (fun _ : Host => o.canary)) s
      = .returned s (if o.canary = true then 0 else 1) := by
    rw [Cmd.test, exec_call_guarded]
  cases hc : o.canary with
  | false =>
      rw [hc] at htest
      rw [exec_when_fail htest (by simp)]
      rfl
  | true =>
      rw [hc] at htest
      have hcall : ∀ f : Host → Host, exec false (.assign f) s = .returned (f s) 0 := by
        intro f
        rw [Cmd.assign, exec_call, if_neg (by simp)]
      rw [exec_when_ok htest, promoteStable, exec_block_returned (hcall _)]
      -- pushing leaves the record of the call alone
      refine @exec_keeps _ (fun h : Host => h.promotions = s.promotions ++ [⟨s.target, s.gate⟩])
        _ ?_ _ _ ?_
      · simp [Cmd.block, Cmd.when, Cmd.status, Cmd.test, Cmd.skip, Cmd.assign, Cmd.Keeps]
      · rfl

theorem promotions_of_gate (hl : h.promotions = []) (hb : Begins o h.head) (hf : Fetched o) :
    (updated o h).promotions
      = if o.gatePasses (o.deployed h.stack) ∧ o.canary = true then
          [⟨o.target, some (o.deployed h.stack)⟩]
        else [] := by
  rw [updated, autoUpdate_reaches_gate hb hf]
  generalize hs : ({ h with
      head := o.target
      imageTag := o.target
      envTag := o.target
      stack := o.deployed h.stack
      target := o.target
      prev := h.head } : Host) = s
  have hls : s.promotions = [] := by rw [← hs]; exact hl
  have hst : s.stack = o.deployed h.stack := by rw [← hs]
  have htg : s.target = o.target := by rw [← hs]
  have hgate : exec true (runHealthGate o o.polls) s
      = .returned (if o.gatePasses s.stack then { s with gate := some s.stack } else s)
          (healthGate (expectedServices o.active o.configOk) s.stack o.polls) := by
    rw [runHealthGate, exec_call_guarded]; rfl
  rw [← hst]
  by_cases hp : o.gatePasses s.stack
  · rw [if_pos hp, hp] at hgate
    have hends : (healthyPath o).Ends := .inr trivial
    -- the healthy path exits, so the rollback is not reached
    cases hx : exec false (healthyPath o) { s with gate := some s.stack } with
    | returned s' n => exact absurd hx hends.not_returned
    | exited s' n =>
        have hpath := healthyPath_promotions (o := o) { s with gate := some s.stack }
        rw [hx] at hpath
        rw [exec_block_exited (by rw [exec_when_ok hgate]; exact hx)]
        simpa [hls, htg, hp, Result.state] using hpath
  · rw [if_neg hp] at hgate
    rw [exec_block_returned (exec_when_fail hgate hp), if_neg (fun hcon => hp hcon.1)]
    exact exec_keeps (rollback_keeps (o := o) []) hls

/-- **What a run promotes**: the target, if it gets that far, and nothing else. -/
theorem updated_promotions (hl : h.promotions = []) :
    (Promotes o h.head h.stack
        ∧ (updated o h).promotions = [⟨o.target, some (o.deployed h.stack)⟩])
      ∨ (¬ Promotes o h.head h.stack ∧ (updated o h).promotions = []) := by
  by_cases hpre : Begins o h.head ∧ Fetched o
  · obtain ⟨hb, hf⟩ := hpre
    rw [promotions_of_gate hl hb hf]
    by_cases hg : o.gatePasses (o.deployed h.stack) ∧ o.canary = true
    · rw [if_pos hg]
      exact .inl ⟨⟨hb, hf, hg.1, hg.2⟩, rfl⟩
    · rw [if_neg hg]
      exact .inr ⟨fun hp => hg ⟨hp.gate, hp.canary⟩, rfl⟩
  · exact .inr ⟨fun hp => hpre ⟨hp.begins, hp.fetched⟩, promotions_of_stopped hl hpre⟩

end Update

/-! ## Only verified commits -/

/-- Every application service of the host's tier runs the images of `sha`. -/
def Runs (active : List Service) (stack : Stack) (sha : Sha) : Prop :=
  ∀ s ∈ active, s.isApp = true → stack s = some sha

instance (active : List Service) (stack : Stack) (sha : Sha) :
    Decidable (Runs active stack sha) :=
  inferInstanceAs (Decidable (∀ s ∈ active, s.isApp = true → stack s = some sha))

/-- Each call of `promote_stable` is for the images that ran when the gate passed. -/
def OnlyVerified (o : Outcomes) (h : Host) : Prop :=
  ∀ p ∈ (updated o h).promotions, ∃ stack, p.gate = some stack ∧ Runs o.active stack p.sha

/-- An `up -d` that succeeds gets to every application container. -/
theorem runs_of_up {o : Outcomes} (stack : Stack) (h : o.up.status = 0) :
    Runs o.active (o.deployed stack) o.target := by
  intro s hs happ
  rw [Outcomes.deployed, Up.stack, o.up.status_zero h s hs happ]

/--
**A run promotes only what it has verified exactly if the `up -d` that precedes a
promotion got to every application container.**

The script is executed in `updated_promotions`: it promotes its target or nothing, and the target
only if the gate passes on the containers that `up -d` left, whatever these run.
-/
theorem only_verified_iff (o : Outcomes) (head imageTag : Sha) (stack : Stack) :
    OnlyVerified o (Host.boot head imageTag stack)
      ↔ (Promotes o head stack → Runs o.active (o.deployed stack) o.target) := by
  rcases updated_promotions (o := o) (h := Host.boot head imageTag stack) rfl with
    ⟨hp, hl⟩ | ⟨hp, hl⟩
  · rw [OnlyVerified, hl]
    constructor
    · intro hv _
      obtain ⟨st, hst, hruns⟩ := hv _ (List.mem_singleton.mpr rfl)
      rw [← Option.some.inj hst] at hruns
      exact hruns
    · intro hruns p hmem
      rw [List.mem_singleton.mp hmem]
      exact ⟨_, rfl, hruns hp⟩
  · rw [OnlyVerified, hl]
    constructor
    · intro _ hp'; exact absurd hp' hp
    · intro _ p hmem; exact absurd hmem (by simp)

/-- A canary whose old containers are healthy, and an `up -d` that fails at once. -/
def failedUp : Outcomes where
  active := [.postgres, .redis, .worker, .userbot, .bot]
  canary := true
  trackRef := some "new".toList
  up := ⟨1, fun _ => .kept, by simp⟩
  polls := [⟨true, true, fun _ => some (.healthy, true), fun _ => true⟩]
  rollbackUp := ⟨0, fun _ => .recreated, by simp⟩
  rollbackPolls := []

/-- The new commit is promoted while the old images run. -/
theorem promoted_unverified :
    ¬ ∀ (o : Outcomes) (head imageTag : Sha) (stack : Stack),
      OnlyVerified o (Host.boot head imageTag stack) := by
  intro hall
  obtain ⟨st, hst, hruns⟩ := hall failedUp "old".toList "old".toList (fun _ => some "old".toList)
    ⟨"new".toList, some (fun _ => some "old".toList)⟩ (by
      show _ ∈ [_]
      exact List.mem_singleton.mpr rfl)
  have hworker := hruns .worker (by simp [failedUp]) rfl
  rw [← Option.some.inj hst] at hworker
  exact absurd hworker (by decide)

end TelegramCms
