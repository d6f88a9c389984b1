import TelegramCms.Model.Newsroom
import TelegramCms.Proof.Cleared
import TelegramCms.Proof.Sessions

/-!
# Nothing goes out that nobody let through

The doors look at an account once, the handlers behind them go on for as long as they like,
and their jobs for longer. Still every entry that a person is responsible for goes back to a
request that was let in for that person (`Vouched`), and every send to such an entry or to a
channel whose policy was `auto`.
-/

namespace TelegramCms

open Transition

/-! ## The doors -/

/-- The request is from this admin. -/
def Request.From (admin : Admin) : Request → Prop
  | .press _ u _ => admin.tgUserId = some u
  | .decide req => req.actor = admin.id
  | .editTags req => req.actor = admin.id
  | .bootWorker | .bootUserbot => False

/-- The entry names the admin, by the id of the account or by the one in Telegram. -/
def PostEvent.Names (e : PostEvent) (admin : Admin) : Prop :=
  e.actorAdminId = some admin.id
    ∨ ∃ u, admin.tgUserId = some u ∧ ("tg_user_id", .int u) ∈ e.payload

theorem Request.Wrote.names {req : Request} {e : PostEvent} {admin : Admin} (h : req.Wrote e)
    (hfrom : req.From admin) : e.Names admin := by
  cases req with
  | press b u p => exact .inr ⟨u, hfrom, h.2.2.2⟩
  | decide req =>
      have hactor : req.actor = admin.id := hfrom
      exact .inl (hactor ▸ h.2.2)
  | editTags req =>
      have hactor : req.actor = admin.id := hfrom
      exact .inl (hactor ▸ h.2.2)
  | bootWorker => exact absurd hfrom id
  | bootUserbot => exact absurd hfrom id

theorem authorized_some {env : Env} {t : Admins} {q : CallbackQuery} {admin : Admin}
    (h : authorized env t q = some admin) :
    admin ∈ t.rows ∧ admin.disabledAt = none ∧ admin.tgUserId = some q.fromUser := by
  unfold authorized at h
  split at h
  · cases h
  · split at h
    · cases h
    · split at h
      · cases h
      · rename_i a ha
        split at h
        · obtain rfl := Option.some.inj h
          have hrow := List.find?_some ha
          rw [decide_eq_true_eq] at hrow
          exact ⟨List.mem_of_find?_eq_some ha, hrow.2, hrow.1⟩
        · cases h

theorem authorize_ok {t : Admins} {min : Role} {claims : Option TokenClaims} {admin : Admin}
    (h : authorize t min claims = .ok admin) : admin ∈ t.rows ∧ admin.disabledAt = none := by
  rw [authorize.eq_def] at h
  split at h
  · cases h
  · split at h
    · cases h
    · split at h
      · cases h
      · rename_i a ha
        split at h
        · obtain rfl := Except.ok.inj h
          obtain ⟨hmem, -, hlive⟩ := Backend.getAdminByID_some ha
          exact ⟨hmem, hlive⟩
        · cases h

namespace Newsroom

variable {env : Env} {J : Jwt} {cfg : AuthConfig} {n n' n₀ : Newsroom} {a : NewsroomAction}
  {tr : List (Newsroom × NewsroomAction)}

theorem admits_some {c : Credential} {admin : Admin} (h : n.admits J cfg c = some admin) :
    admin ∈ n.admins.rows ∧ admin.disabledAt = none := by
  have hok : ∀ {x : Except HttpAnswer Admin}, x.toOption = some admin → x = .ok admin := by
    intro x hx
    cases x with
    | error e => cases hx
    | ok y => rw [Option.some.inj hx]
  cases c with
  | go header =>
      have hgo := hok h
      rw [Go.requireRole] at hgo
      split at hgo
      · cases hgo
      · exact authorize_ok hgo
  | python token =>
      obtain ⟨x, hx, hadmin⟩ := Option.bind_eq_some_iff.mp h
      obtain rfl := hok hadmin
      rw [Python.getCurrentAdmin, Python.requireRole] at hx
      split at hx
      · cases hx
      · obtain ⟨claims, -, hclaims⟩ := Option.map_eq_some_iff.mp hx
        exact authorize_ok hclaims

theorem lets_some {admin : Admin} {req : Request}
    (h : n.lets env J cfg a = some (admin, req)) :
    admin ∈ n.admins.rows ∧ admin.disabledAt = none ∧ req.From admin := by
  cases a with
  | run a => cases h
  | staff t => cases h
  | press q =>
      obtain ⟨x, hx, he⟩ := Option.map_eq_some_iff.mp h
      obtain ⟨rfl, rfl⟩ := Prod.mk.inj he
      exact authorized_some hx
  | decide c p d tags =>
      obtain ⟨x, hx, he⟩ := Option.map_eq_some_iff.mp h
      obtain ⟨rfl, rfl⟩ := Prod.mk.inj he
      exact ⟨(admits_some hx).1, (admits_some hx).2, rfl⟩
  | editTags c p tags =>
      obtain ⟨x, hx, he⟩ := Option.map_eq_some_iff.mp h
      obtain ⟨rfl, rfl⟩ := Prod.mk.inj he
      exact ⟨(admits_some hx).1, (admits_some hx).2, rfl⟩

/-! ## Runs -/

variable (env J cfg) in
/-- What an action comes to behind the doors. -/
def behind (n : Newsroom) : NewsroomAction → Option Action
  | .run a => if a.unattended then some a else none
  | a => (n.lets env J cfg a).map fun x => .request x.2

variable (env J cfg) in
/-- The steps of a run that the system behind the doors takes. -/
def worldSteps (tr : List (Newsroom × NewsroomAction)) : List (World × Action) :=
  tr.filterMap fun x => (x.1.behind env J cfg x.2).map fun b => (x.1.world, b)

theorem step_behind (h : n.step env J cfg a = some n') :
    (n.behind env J cfg a = none ∧ n'.world = n.world)
      ∨ ∃ b, n.behind env J cfg a = some b ∧ World.step env n.world b = some n'.world := by
  have hgo : ∀ b, n.go env b = some n' → World.step env n.world b = some n'.world := by
    intro b hb
    obtain ⟨w, hw, rfl⟩ := Option.map_eq_some_iff.mp hb
    exact hw
  cases a with
  | run b =>
      rw [step] at h
      split at h
      · rename_i hb
        exact .inr ⟨b, if_pos hb, hgo b h⟩
      · cases h
  | staff t =>
      obtain rfl := Option.some.inj h
      exact .inl ⟨rfl, rfl⟩
  | press | decide | editTags =>
      simp only [step] at h
      split at h
      · rename_i hnone
        obtain rfl := Option.some.inj h
        exact .inl ⟨by simp only [behind, hnone, Option.map_none], rfl⟩
      · rename_i admin req hlets
        exact .inr ⟨.request req, by simp only [behind, hlets, Option.map_some], hgo _ h⟩

theorem worldSteps_snoc (tr : List (Newsroom × NewsroomAction)) (n : Newsroom) (a : NewsroomAction) :
    worldSteps env J cfg (tr ++ [(n, a)])
      = worldSteps env J cfg tr ++ ((n.behind env J cfg a).map fun b => (n.world, b)).toList := by
  rw [worldSteps, List.filterMap_append]
  cases hb : n.behind env J cfg a <;> simp [worldSteps, hb]

theorem trace_world (h : Trace (step env J cfg) n₀ tr n) :
    Trace (World.step env) n₀.world (worldSteps env J cfg tr) n.world := by
  induction h with
  | nil => exact .nil _
  | @snoc t u tr a _ hu ih =>
      rw [worldSteps_snoc]
      rcases step_behind hu with ⟨hnone, hw⟩ | ⟨b, hb, hw⟩
      · rw [hnone, hw]
        simpa using ih
      · rw [hb]
        exact ih.snoc hw

/-! ## Who answers for an entry -/

variable (env J cfg) in
/-- In one of these steps, not after `t`, the request was let in. -/
def Entered (tr : List (Newsroom × NewsroomAction)) (req : Request) (t : Time) : Prop :=
  ∃ x ∈ tr, ∃ admin, x.1.lets env J cfg x.2 = some (admin, req) ∧ x.1.world.now ≤ t

theorem Entered.snoc {req : Request} {t t' : Time} (h : Entered env J cfg tr req t) (ht : t ≤ t')
    (x : Newsroom × NewsroomAction) : Entered env J cfg (tr ++ [x]) req t' := by
  obtain ⟨y, hy, admin, hlets, hat⟩ := h
  exact ⟨y, List.mem_append_left _ hy, admin, hlets, Int.le_trans hat ht⟩

variable (env J cfg) in
/-- Every run that serves a request, and every entry that such a run left, has its request. -/
structure Kept (tr : List (Newsroom × NewsroomAction)) (n : Newsroom) : Prop where
  numbered : World.Numbered n.world
  runs : ∀ i q req, n.world.proc i = some q → q.request? = some req →
    Entered env J cfg tr req n.world.now
  entries : ∀ e ∈ n.world.db.events, e.ByHand →
    ∃ req, req.Wrote e ∧ Entered env J cfg tr req e.createdAt

theorem kept_init (h : World.Init n.world) : Kept env J cfg [] n where
  numbered := World.numbered_init h
  runs := fun i q req hq => by
    rw [World.proc_init h] at hq
    cases hq
  entries := fun e he => by
    rw [h.events] at he
    exact absurd he List.not_mem_nil

/-- A run serves the request that it was started for. -/
theorem goes_request {v : View} {q q' : Proc} {r : Reply} (h : Goes env v q r q') :
    q'.request? = q.request? := by
  cases h <;> rfl

/-- Only a request that has to be let in starts a run that serves one. -/
theorem starts_request {w : World} {b : Action} {q : Proc} {req : Request}
    (hs : World.Starts w b q) (hreq : q.request? = some req) :
    b = .request req ∧ b.unattended = false := by
  cases hs <;> cases hreq <;> exact ⟨rfl, rfl⟩

/-- A step behind the doors is one of the services, or a request that was let in. -/
theorem behind_cases {b : Action} (hb : n.behind env J cfg a = some b) :
    (a = .run b ∧ b.unattended = true)
      ∨ ∃ admin req, b = .request req ∧ n.lets env J cfg a = some (admin, req) := by
  have hmap : ∀ {x : Option (Admin × Request)}, x.map (fun y => Action.request y.2) = some b →
      ∃ admin req, b = .request req ∧ x = some (admin, req) := by
    intro x hx
    obtain ⟨⟨admin, req⟩, rfl, rfl⟩ := Option.map_eq_some_iff.mp hx
    exact ⟨admin, req, rfl, rfl⟩
  cases a with
  | run b' =>
      rw [behind] at hb
      split at hb
      · rename_i hfree
        obtain rfl := Option.some.inj hb
        exact .inl ⟨rfl, hfree⟩
      · cases hb
  | staff t => exact .inr (hmap hb)
  | press q => exact .inr (hmap hb)
  | decide c p d tags => exact .inr (hmap hb)
  | editTags c p tags => exact .inr (hmap hb)

theorem kept_step (hk : Kept env J cfg tr n) (h : n.step env J cfg a = some n') :
    Kept env J cfg (tr ++ [(n, a)]) n' := by
  rcases step_behind h with ⟨-, hw⟩ | ⟨b, hb, hw⟩
  · refine ⟨hw ▸ hk.numbered, ?_, ?_⟩
    · intro i q req hq hreq
      rw [hw] at hq ⊢
      exact (hk.runs i q req hq hreq).snoc (Int.le_refl _) _
    · intro e he hhand
      rw [hw] at he
      obtain ⟨req, hwrote, hentered⟩ := hk.entries e he hhand
      exact ⟨req, hwrote, hentered.snoc (Int.le_refl _) _⟩
  · have hnow := World.now_step hw
    refine ⟨World.numbered_step hk.numbered hw, ?_, ?_⟩
    · intro i q req hq hreq
      rcases World.proc_step hk.numbered hw hq with hq | ⟨r, q₀, e, -, hq₀, he, hnx, -⟩ | ⟨-, -, hs⟩
      · exact (hk.runs i q req hq hreq).snoc hnow _
      · rw [goes_request (step_goes he hnx)] at hreq
        exact (hk.runs i q₀ req hq₀ hreq).snoc hnow _
      · -- the run starts in this step, so its request is let in here
        obtain ⟨rfl, hheld⟩ := starts_request hs hreq
        rcases behind_cases hb with ⟨-, hfree⟩ | ⟨admin, req', he, hlets⟩
        · exact absurd hfree (by rw [hheld]; simp)
        · obtain rfl := Action.request.inj he
          exact ⟨(n, a), List.mem_append_right _ (List.mem_singleton.mpr rfl), admin, hlets, hnow⟩
    · intro e he hhand
      obtain ⟨evs, hev, hsigned⟩ := World.events_step hw
      rw [hev] at he
      rcases List.mem_append.mp he with he | he
      · obtain ⟨req, hwrote, hentered⟩ := hk.entries e he hhand
        exact ⟨req, hwrote, hentered.snoc (Int.le_refl _) _⟩
      · rcases hsigned with hsigned | ⟨i, q, rfl, hq, hsigned⟩
        · exact absurd hhand (hsigned e he)
        · obtain ⟨hat, req, hreq, hwrote⟩ := hsigned.byHand e he hhand
          refine ⟨req, hwrote, ?_⟩
          rw [hat]
          exact (hk.runs i q req hq hreq).snoc (Int.le_refl _) _

theorem kept_trace (h0 : World.Init n₀.world) (h : Trace (step env J cfg) n₀ tr n) :
    Kept env J cfg tr n := by
  induction h with
  | nil => exact kept_init h0
  | snoc _ hu ih => exact kept_step ih hu

variable (env J cfg) in
/-- The entry was written for a request that one of these steps let in for the admin, whose
account was enabled, and names that admin. -/
def Vouched (tr : List (Newsroom × NewsroomAction)) (e : PostEvent) (admin : Admin) : Prop :=
  ∃ x ∈ tr, ∃ req, x.1.lets env J cfg x.2 = some (admin, req) ∧ admin ∈ x.1.admins.rows
    ∧ admin.disabledAt = none ∧ req.Wrote e ∧ e.Names admin ∧ x.1.world.now ≤ e.createdAt

theorem Kept.vouched (hk : Kept env J cfg tr n) {e : PostEvent} (he : e ∈ n.world.db.events)
    (hhand : e.ByHand) : ∃ admin, Vouched env J cfg tr e admin := by
  obtain ⟨req, hwrote, x, hx, admin, hlets, hat⟩ := hk.entries e he hhand
  obtain ⟨hmem, hlive, hfrom⟩ := lets_some hlets
  exact ⟨admin, x, hx, req, hlets, hmem, hlive, hwrote, hwrote.names hfrom, hat⟩

/-! ### An editor approves a post -/

def sampleEditor : Admin := { alice with role := .editor, tgUserId := some 5 }

def newsEnv : Env := sampleEnv { editorGroupId := -1002 }

def sampleNewsroom : Newsroom where
  world := World.sample sampleChannel
  admins := ⟨[sampleEditor], by decide⟩

/-- The editor presses Approve under the card of post 1, and the post goes out. -/
def approvedScript : List NewsroomAction :=
  (World.ingests 1 0).map .run ++ .press ⟨.approve, 1, some (-1002), 5⟩ ::
    (World.goes 1 5 ++ World.sends 1 2 0 4).map .run

def approvedSteps : List (Newsroom × NewsroomAction) :=
  trail (step newsEnv sampleJwt sampleConfig) sampleNewsroom approvedScript

/-- What the log has of the decision, and what was seen of the send. -/
theorem approved_run : ∃ n, runs (step newsEnv sampleJwt sampleConfig) sampleNewsroom approvedScript
      = some n
    ∧ (∃ e ∈ n.world.db.events, e.action = .approved)
    ∧ .sendBegan 2 1 2_000_000 ∈ n.world.log := by
  have hrun : (runs (step newsEnv sampleJwt sampleConfig) sampleNewsroom approvedScript).any
      (fun n => (∃ e ∈ n.world.db.events, e.action = .approved)
        ∧ .sendBegan 2 1 2_000_000 ∈ n.world.log) = true := by decide +kernel
  obtain ⟨n, hn, h⟩ := (Option.any_eq_true _ _).mp hrun
  exact ⟨n, hn, of_decide_eq_true h⟩

/--
**Every entry of the log that a person answers for (an approval, a schedule, a rejection, or
any that names an actor) was written for a request that was let in for an enabled account,
which the entry names.**

Along the run every request that is being served, and every entry that one has left, is kept
together with the call of the API it came from (`Kept`).
-/
theorem entries_vouched (h0 : World.Init n₀.world) (h : Trace (step env J cfg) n₀ tr n)
    {e : PostEvent} (he : e ∈ n.world.db.events) (hhand : e.ByHand) :
    ∃ admin, Vouched env J cfg tr e admin :=
  (kept_trace h0 h).vouched he hhand

/-- The approval is the editor's. -/
theorem entries_vouched_approved :
    ∃ e admin, e.action = .approved ∧ Vouched newsEnv sampleJwt sampleConfig approvedSteps e admin := by
  obtain ⟨n, hn, ⟨e, he, hact⟩, -⟩ := approved_run
  obtain ⟨admin, h⟩ := entries_vouched (World.sample_init _) (Trace.of_runs hn) he (.inr (.inl hact))
  exact ⟨e, admin, hact, h⟩

/--
**Nothing goes out that nobody let through: in every run, before a send of a post began,
`normalize` had read the policy `auto` in the row of its channel, or there was an approval or
a schedule of the post in the log that an enabled account answers for.**

Two runs are put together. The run of the services behind this one clears each send by a read of
`auto` or by an entry of the log (`World.cleared_trace`); and an entry of these kinds was written
for a request that the API let in (`kept_trace`).
-/
theorem sends_vouched (h0 : World.Init n₀.world) (h : Trace (step env J cfg) n₀ tr n) {i p : Nat}
    {t : Time} (hs : .sendBegan i p t ∈ n.world.log) :
    (∃ x ∈ tr, ∃ b, x.2 = .run b ∧ World.ReadsAuto p x.1.world b ∧ x.1.world.now ≤ t)
    ∨ ∃ e ∈ n.world.db.events, e.postId = p ∧ (e.action = .approved ∨ e.action = .scheduled)
        ∧ e.createdAt ≤ t ∧ ∃ admin, Vouched env J cfg tr e admin := by
  rcases (World.cleared_trace h0 (trace_world h)).sent i p t hs with
    ⟨x, hx, hauto, hat⟩ | ⟨e, he, hid, hact, hat⟩
  · obtain ⟨y, hy, hmap⟩ := List.mem_filterMap.mp hx
    obtain ⟨b, hb, rfl⟩ := Option.map_eq_some_iff.mp hmap
    refine .inl ⟨y, hy, b, ?_, hauto, hat⟩
    rcases behind_cases hb with ⟨hrun, -⟩ | ⟨admin, req, hreq, -⟩
    · exact hrun
    · obtain ⟨k, job, post, row, channel, hstep, -⟩ := hauto
      exact absurd (hreq.symm.trans hstep) (by simp)
  · refine .inr ⟨e, he, hid, hact, hat, (kept_trace h0 h).vouched he (.inr ?_)⟩
    rcases hact with hact | hact
    · exact .inl hact
    · exact .inr (.inl hact)

/-- No channel publishes by itself here, so the send goes back to the editor. -/
theorem sends_vouched_approved :
    ∃ e admin, e.postId = 1 ∧ e.createdAt ≤ 2_000_000
      ∧ Vouched newsEnv sampleJwt sampleConfig approvedSteps e admin := by
  obtain ⟨n, hn, -, hsent⟩ := approved_run
  have hqueue : ∀ x ∈ approvedSteps, ∀ c ∈ x.1.world.db.channels.rows, c.policy = .queue := by
    decide +kernel
  rcases sends_vouched (World.sample_init _) (Trace.of_runs hn) hsent with
    ⟨x, hx, b, -, ⟨_, _, _, _, channel, -, -, -, -, hch, hauto⟩, -⟩ | ⟨e, -, hid, -, hat, admin, h⟩
  · exact absurd (hauto.symm.trans (hqueue x hx channel (Table.mem_of_get hch))) (by simp)
  · exact ⟨e, admin, hid, hat, h⟩

end Newsroom

end TelegramCms
