import TelegramCms.Model.Admins

/-!
# An active super-admin

The guards of `PATCH /admins/{admin_id}` are sound for a request that nobody overtakes
(`served_alone`): the count they take is at least two, so another active super-admin
is left. Nothing holds the count to its value until the `UPDATE`, though. Two requests
that demote or disable each other's target both count two, and both go through
(`demoted_each_other`).

`always_active_super_iff` says exactly which runs are safe: those in which the count
would still pass at every `UPDATE` that takes an active super-admin away.
-/

namespace TelegramCms

open Transition Concurrent

/-- Some admin is an enabled super-admin. -/
def HasActiveSuper (t : Admins) : Prop := ∃ a ∈ t.rows, a.isActiveSuper = true

instance (t : Admins) : Decidable (HasActiveSuper t) :=
  inferInstanceAs (Decidable (∃ a ∈ t.rows, a.isActiveSuper = true))

/-! ## Counting -/

theorem rows_nodup (t : Admins) : t.rows.Nodup := List.Nodup.of_map Admin.id t.unique

/-- A count of two or more says that there is another one. -/
theorem count_two_iff {t : Admins} {a : Admin} (ha : a ∈ t.rows) (hact : a.isActiveSuper = true) :
    2 ≤ countActiveSuperAdmins t ↔ ∃ b ∈ t.rows, b.id ≠ a.id ∧ b.isActiveSuper = true := by
  rw [countActiveSuperAdmins, List.countP_eq_length_filter]
  have hnd : (t.rows.filter Admin.isActiveSuper).Nodup := (rows_nodup t).filter _
  have hmem : a ∈ t.rows.filter Admin.isActiveSuper := List.mem_filter.mpr ⟨ha, hact⟩
  have hlen := List.length_erase_of_mem hmem
  constructor
  · intro h
    obtain ⟨b, hb⟩ := List.exists_mem_of_length_pos (l := (t.rows.filter Admin.isActiveSuper).erase a)
      (by omega)
    obtain ⟨hne, hb⟩ := (List.Nodup.mem_erase_iff hnd).mp hb
    obtain ⟨hb, hbact⟩ := List.mem_filter.mp hb
    refine ⟨b, hb, ?_, hbact⟩
    intro hid
    exact hne (List.inj_on_of_nodup_map t.unique hb ha hid)
  · rintro ⟨b, hb, hid, hbact⟩
    have hne : b ≠ a := by intro h; exact hid (by rw [h])
    have hb' : b ∈ (t.rows.filter Admin.isActiveSuper).erase a :=
      (List.Nodup.mem_erase_iff hnd).mpr ⟨hne, List.mem_filter.mpr ⟨hb, hbact⟩⟩
    have := List.length_pos_of_mem hb'
    omega

/-- After an `UPDATE` of one row: somebody else is active, or the row still is. -/
theorem hasActiveSuper_update {t : Admins} {a : Admin} (ha : a ∈ t.rows) (s : AdminSet) :
    HasActiveSuper (t.update a.id s.apply s.apply_id)
      ↔ (∃ b ∈ t.rows, b.id ≠ a.id ∧ b.isActiveSuper = true) ∨ (s.apply a).isActiveSuper = true := by
  simp only [HasActiveSuper, Table.update, List.mem_map]
  constructor
  · rintro ⟨_, ⟨b, hb, rfl⟩, hact⟩
    by_cases hid : b.id = a.id
    · right
      rw [if_pos hid, List.inj_on_of_nodup_map t.unique hb ha hid] at hact
      exact hact
    · left
      rw [if_neg hid] at hact
      exact ⟨b, hb, hid, hact⟩
  · rintro (⟨b, hb, hid, hact⟩ | hact)
    · exact ⟨b, ⟨b, hb, by rw [if_neg hid]⟩, hact⟩
    · exact ⟨s.apply a, ⟨a, ha, by rw [if_pos rfl]⟩, hact⟩

/-! ## What one `UPDATE` does -/

section Update

variable {req : AdminRequest} {t : Admins} {now : Time} {adm : Admin}

/-- The `UPDATE` is carried out and takes an active super-admin away. -/
def TakesAway (req : AdminRequest) (t : Admins) (now : Time) (adm : Admin) : Prop :=
  tgUserIdTaken t req.adminId (req.set adm now) = false
    ∧ (t.get req.adminId).any
        (fun a => a.isActiveSuper && !((req.set adm now).apply a).isActiveSuper) = true

instance : Decidable (TakesAway req t now adm) :=
  inferInstanceAs (Decidable (_ ∧ _))

theorem updateAdmin_of_taken (h : tgUserIdTaken t req.adminId (req.set adm now) = true) :
    (updateAdmin req t now adm).1 = t := by
  unfold updateAdmin
  cases t.get req.adminId with
  | none => rfl
  | some a => simp only [h, if_true]

theorem updateAdmin_of_free {a : Admin} (ha : t.get req.adminId = some a)
    (h : tgUserIdTaken t req.adminId (req.set adm now) = false) :
    (updateAdmin req t now adm).1
      = t.update req.adminId (req.set adm now).apply (req.set adm now).apply_id := by
  unfold updateAdmin
  rw [ha]
  simp only [h, Bool.false_eq_true, if_false]

/-- An `UPDATE` keeps an active super-admin in the table exactly if it takes none away
or another one is counted. -/
theorem updateAdmin_iff (h : HasActiveSuper t) :
    HasActiveSuper (updateAdmin req t now adm).1
      ↔ (TakesAway req t now adm → 2 ≤ countActiveSuperAdmins t) := by
  cases htk : tgUserIdTaken t req.adminId (req.set adm now) with
  | true =>
      rw [updateAdmin_of_taken htk]
      constructor
      · intro _ htake
        rw [htake.1] at htk
        exact absurd htk (by simp)
      · intro _; exact h
  | false =>
      cases hg : t.get req.adminId with
      | none =>
          have hsame : (updateAdmin req t now adm).1 = t := by rw [updateAdmin, hg]
          rw [hsame]
          constructor
          · intro _ htake
            have := htake.2
            rw [hg] at this
            exact absurd this (by simp)
          · intro _; exact h
      | some a =>
          have ha : a ∈ t.rows := Table.mem_of_get hg
          have hid : a.id = req.adminId := Table.key_of_get hg
          rw [updateAdmin_of_free hg htk]
          have key := hasActiveSuper_update ha (req.set adm now)
          rw [hid] at key
          rw [key, ← hid]
          have htake : TakesAway req t now adm ↔ a.isActiveSuper = true
              ∧ ((req.set adm now).apply a).isActiveSuper = false := by
            simp [TakesAway, htk, hg]
          rw [htake]
          by_cases hact : a.isActiveSuper = true
          · rw [count_two_iff ha hact]
            cases hnew : ((req.set adm now).apply a).isActiveSuper with
            | true => simp
            | false => simp [hact]
          · -- whoever is active is somebody else
            obtain ⟨b, hb, hbact⟩ := h
            have hne : b.id ≠ a.id := by
              intro hba
              rw [List.inj_on_of_nodup_map t.unique hb ha hba] at hbact
              exact hact hbact
            constructor
            · intro _ hcon; exact absurd hcon.1 hact
            · intro _; exact .inl ⟨b, hb, hne, hbact⟩

theorem adminStep_cases {pc pc' : AdminPc} {t' : Admins}
    (h : adminStep req t now pc = some (t', pc')) :
    t' = t ∨ ∃ adm, pc = .update adm ∧ t' = (updateAdmin req t now adm).1 := by
  cases pc with
  | load =>
      left
      simp only [adminStep] at h
      split at h <;> exact (Prod.mk.inj (Option.some.inj h)).1.symm
  | countDemote adm =>
      left
      simp only [adminStep] at h
      split at h <;> exact (Prod.mk.inj (Option.some.inj h)).1.symm
  | countDisable adm =>
      left
      simp only [adminStep] at h
      split at h <;> exact (Prod.mk.inj (Option.some.inj h)).1.symm
  | update adm =>
      right
      simp only [adminStep] at h
      exact ⟨adm, rfl, by rw [Option.some.inj h]⟩
  | answered a => exact absurd h (by simp [adminStep])

end Update

/-! ## A request that nobody overtakes -/

/-- The handler's steps, taken one after the other on a table nobody else touches. -/
def serve (req : AdminRequest) (now : Time) : Nat → Admins × AdminPc → Admins × AdminPc
  | 0, x => x
  | n + 1, x =>
    match adminStep req x.1 now x.2 with
    | none => x
    | some y => serve req now n y

section Alone

variable {req : AdminRequest} {t : Admins} {now : Time} {adm : Admin}

/-- The guards that `req` is subject to have passed on the table `t`. -/
def Passed (req : AdminRequest) (t : Admins) (adm : Admin) : Prop :=
  (req.demotes adm = true → 2 ≤ countActiveSuperAdmins t)
    ∧ (req.disables adm = true → 2 ≤ countActiveSuperAdmins (req.flushed t adm))

theorem newRole_ne {role : Role} (h : req.newRole adm = some role) : role ≠ adm.role := by
  rw [AdminRequest.newRole] at h
  split at h
  · exact absurd h (by simp)
  · split at h
    · exact absurd h (by simp)
    · rename_i hne
      rw [← Option.some.inj h]
      exact hne

/-- The flush before the second count leaves the row of a super-admin who keeps the role. -/
theorem flushed_of_newRole (h : req.newRole adm = none) :
    (req.flushed t adm).rows = t.rows := by
  rw [AdminRequest.flushed]
  cases req.api with
  | go => rfl
  | python =>
      simp only [Table.update, h]
      have hid : ∀ a ∈ t.rows, (if a.id = req.adminId then AdminSet.apply {} a else a) = a := by
        intro a _
        split <;> rfl
      rw [List.map_congr_left hid, List.map_id']

/-- What the guards have passed on, the `UPDATE` may be done to. -/
theorem Passed.keeps (hp : Passed req t adm) (ha : t.get req.adminId = some adm)
    (h : HasActiveSuper t) : HasActiveSuper (updateAdmin req t now adm).1 := by
  rw [updateAdmin_iff h]
  rintro ⟨-, htake⟩
  rw [ha, Option.any_some, Bool.and_eq_true, Bool.not_eq_true'] at htake
  obtain ⟨hact, hnew⟩ := htake
  have hsuper : adm.role = .superAdmin ∧ adm.disabledAt = none := by
    simpa [Admin.isActiveSuper] using hact
  cases hr : req.newRole adm with
  | some role =>
      -- the role changes, so it is a demotion
      have hne := newRole_ne hr
      rw [hsuper.1] at hne
      exact hp.1 (by simp [AdminRequest.demotes, hsuper.1, hr, hne])
  | none =>
      -- the role stays, so the row is disabled
      have hcount : countActiveSuperAdmins (req.flushed t adm) = countActiveSuperAdmins t := by
        rw [countActiveSuperAdmins, flushed_of_newRole hr, countActiveSuperAdmins]
      rw [← hcount]
      apply hp.2
      have hseen : req.roleSeen adm = .superAdmin := by
        rw [AdminRequest.roleSeen]
        cases req.api with
        | go => exact hsuper.1
        | python => rw [hr]; exact hsuper.1
      have hdis : req.body.disabled = some true := by
        cases hd : req.body.disabled with
        | none =>
            cases hapi : req.api <;>
              simp [Admin.isActiveSuper, AdminRequest.set, hapi, hr, hd, hsuper] at hnew
        | some d =>
            cases d with
            | true => rfl
            | false =>
                cases hapi : req.api <;>
                  simp [Admin.isActiveSuper, AdminRequest.set, hapi, hr, hd, hsuper] at hnew
      simp [AdminRequest.disables, hdis, hseen, hsuper.2]

theorem serve_answered (n : Nat) (a : HttpAnswer) :
    serve req now n (t, .answered a) = (t, .answered a) := by
  cases n <;> rfl

theorem serve_succ {pc : AdminPc} {x : Admins × AdminPc}
    (hs : adminStep req t now pc = some x) (n : Nat) :
    serve req now (n + 1) (t, pc) = serve req now n x := by
  rw [serve, hs]

theorem serve_update (hp : Passed req t adm) (ha : t.get req.adminId = some adm)
    (h : HasActiveSuper t) (n : Nat) : HasActiveSuper (serve req now n (t, .update adm)).1 := by
  cases n with
  | zero => exact h
  | succ n =>
      have hk : HasActiveSuper (updateAdmin req t now adm).1 := hp.keeps ha h
      obtain ⟨a, hans⟩ : ∃ a, (updateAdmin req t now adm).2 = .answered a := by
        rw [updateAdmin, ha]
        dsimp only
        split
        · exact ⟨_, rfl⟩
        · exact ⟨_, rfl⟩
      have hx : adminStep req t now (.update adm)
          = some ((updateAdmin req t now adm).1, .answered a) := by
        rw [adminStep, ← hans]
      rw [serve_succ hx, serve_answered]
      exact hk

theorem serve_afterDisabled (hp : Passed req t adm) (ha : t.get req.adminId = some adm)
    (h : HasActiveSuper t) (n : Nat) :
    HasActiveSuper (serve req now n (t, afterDisabled req adm)).1 := by
  rw [afterDisabled]
  split
  · rw [serve_answered]; exact h
  · exact serve_update hp ha h n

theorem serve_afterRole (hp : req.demotes adm = true → 2 ≤ countActiveSuperAdmins t)
    (ha : t.get req.adminId = some adm) (h : HasActiveSuper t) (n : Nat) :
    HasActiveSuper (serve req now n (t, afterRole req adm)).1 := by
  rw [afterRole]
  split
  · cases n with
    | zero => exact h
    | succ n =>
        by_cases hc : countActiveSuperAdmins (req.flushed t adm) ≤ 1
        · rw [serve_succ (by rw [adminStep, if_pos hc]), serve_answered]
          exact h
        · rw [serve_succ (by rw [adminStep, if_neg hc])]
          have hpass : Passed req t adm := ⟨hp, fun _ => by omega⟩
          exact serve_afterDisabled hpass ha h n
  · rename_i hdis
    exact serve_afterDisabled ⟨hp, fun hd => absurd hd hdis⟩ ha h n

/-- **The guards are sound for a request that runs alone.** -/
theorem served_alone (h : HasActiveSuper t) (n : Nat) :
    HasActiveSuper (serve req now n (t, .load)).1 := by
  cases n with
  | zero => exact h
  | succ n =>
      cases ha : t.get req.adminId with
      | none =>
          rw [serve_succ (by rw [adminStep, ha]), serve_answered]
          exact h
      | some adm =>
          rw [serve_succ (by rw [adminStep, ha]), afterLoad]
          by_cases hd : req.demotes adm = true
          · rw [if_pos hd]
            cases n with
            | zero => exact h
            | succ n =>
                by_cases hc : countActiveSuperAdmins t ≤ 1
                · rw [serve_succ (by rw [adminStep, if_pos hc]), serve_answered]
                  exact h
                · rw [serve_succ (by rw [adminStep, if_neg hc])]
                  exact serve_afterRole (fun _ => by omega) ha h n
          · rw [if_neg hd]
            exact serve_afterRole (fun hd' => absurd hd' hd) ha h n

end Alone

/-! ## Runs -/

/-- A step that is not an `UPDATE` taking away an active super-admin, or is one in a
table with at least two of them. -/
def CountHolds (w : Pool Admins AdminCall) : Act AdminRequest Time → Prop
  | .move i now =>
    match w.party i with
    | some ⟨req, .update adm⟩ =>
      TakesAway req w.store now adm → 2 ≤ countActiveSuperAdmins w.store
    | _ => True
  | _ => True

theorem admin_move_iff {w : Pool Admins AdminCall} {i : Nat} {now : Time} {c : AdminCall}
    {x : Admins × Option AdminCall} (h : HasActiveSuper w.store) (hp : w.party i = some c)
    (hx : adminProgram.next w.store c now = some x) :
    HasActiveSuper x.1 ↔ CountHolds w (.move i now) := by
  obtain ⟨req, pc⟩ := c
  obtain ⟨⟨t', pc'⟩, hstep, rfl⟩ := Option.map_eq_some_iff.mp hx
  simp only [CountHolds, hp]
  cases pc with
  | update adm =>
      simp only [adminStep, Option.some.injEq] at hstep
      have ht : t' = (updateAdmin req w.store now adm).1 := by rw [hstep]
      rw [ht]
      exact updateAdmin_iff h
  | _ =>
      rcases adminStep_cases hstep with rfl | ⟨adm, hpc, -⟩
      · simp only [iff_true]
        exact h
      · exact absurd hpc (by simp)

/--
**A run keeps an active super-admin in every table it goes through exactly if the
count still passes whenever an `UPDATE` takes one away.**

Of all the moves only an `UPDATE` changes the table, and it takes the last super-admin away just
when a count made at that moment would refuse it (`admin_move_iff`). The count that was made is
older, and nothing about it has to be carried along.
-/
theorem always_active_super_iff {t : Admins} {w : Pool Admins AdminCall}
    {tr : List (Pool Admins AdminCall × Act AdminRequest Time)}
    (h : Trace adminProgram.step { store := t } tr w) (ht : HasActiveSuper t) :
    ((∀ x ∈ tr, HasActiveSuper x.1.store) ∧ HasActiveSuper w.store) ↔ AllSteps CountHolds tr := by
  refine Program.forall_store_iff ?_ ?_ ?_ h ht
  · intro _ _; trivial
  · intro _ _; trivial
  · intro w i now c x hw hp hx
    exact admin_move_iff hw hp hx

/-- Two super-admins. -/
def twoSupers : Admins :=
  ⟨[{ id := 1, username := "ada".toList, passwordHash := [], role := .superAdmin },
    { id := 2, username := "bob".toList, passwordHash := [], role := .superAdmin }], by decide⟩

/-- Two requests, each demoting one of them; both count before either writes. -/
def demotions : List (Act AdminRequest Time) :=
  [.start ⟨.go, 1, { role := some .editor }⟩, .start ⟨.go, 2, { role := some .editor }⟩,
    .move 0 0, .move 1 0, .move 0 0, .move 1 0, .move 0 0, .move 1 0]

theorem demotions_run :
    ∃ w, runs adminProgram.step { store := twoSupers } demotions = some w
      ∧ ¬ HasActiveSuper w.store := by
  refine ⟨_, rfl, ?_⟩
  decide

/-- Both demotions go through, and nobody is left. -/
theorem demoted_each_other :
    ¬ ∀ (t : Admins) (tr : List (Pool Admins AdminCall × Act AdminRequest Time))
      (w : Pool Admins AdminCall), HasActiveSuper t →
      Trace adminProgram.step { store := t } tr w → HasActiveSuper w.store := by
  intro hall
  obtain ⟨w, hw, hno⟩ := demotions_run
  exact hno (hall twoSupers _ w (by decide) (Trace.of_runs hw))

/-- Three super-admins. -/
def threeSupers : Admins :=
  ⟨{ id := 3, username := "cyd".toList, passwordHash := [], role := .superAdmin }
    :: twoSupers.rows, by decide⟩

/-- With three of them the counts still pass at both `UPDATE`s, and one is left; with two the
second `UPDATE` is not covered by its count any more. -/
theorem demotions_counted :
    AllSteps CountHolds (trail adminProgram.step { store := threeSupers } demotions)
      ∧ ¬ AllSteps CountHolds (trail adminProgram.step { store := twoSupers } demotions) := by
  constructor
  · obtain ⟨w, hw, hleft⟩ : ∃ w, runs adminProgram.step { store := threeSupers } demotions = some w
        ∧ HasActiveSuper w.store := ⟨_, rfl, by decide⟩
    have hthrough : ∀ x ∈ trail adminProgram.step { store := threeSupers } demotions,
        HasActiveSuper x.1.store := by decide
    exact (always_active_super_iff (Trace.of_runs hw) (by decide)).mp ⟨hthrough, hleft⟩
  · intro hsteps
    obtain ⟨w, hw, hno⟩ := demotions_run
    exact hno ((always_active_super_iff (Trace.of_runs hw) (by decide)).mpr hsteps).2

end TelegramCms
