import TelegramCms.Model.ArqWorld
import TelegramCms.Proof.Covers

/-!
# Approved posts and their jobs

An approval is committed first, and its job enqueued afterwards, in a step that can fail or
never come. A publish job can end without the post having left `approved`, and ARQ can give it
up.

`approved_queued_iff`: an approved post is covered in every state of a run, and an approve
request that fails has left everything alone, exactly if no last cover of an approved post is
lost and no request fails once it has committed.
-/

namespace TelegramCms

open Transition

/-! ## Requests that fail -/

/-- The run is a request to approve post `p`. -/
def Proc.approves (p : Nat) : Proc → Bool
  | .callback .approve _ q _ => q = p
  | .decide req _ => req.decision = .approve ∧ req.postId = p
  | _ => false

/-- And it has committed the approval. -/
def Proc.committed (p : Nat) : Proc → Bool
  | .callback .approve _ q (.answer _) | .callback .approve _ q (.enqueue _)
  | .callback .approve _ q (.card _) => q = p
  | .decide req (.enqueue _) | .decide req .refresh => req.decision = .approve ∧ req.postId = p
  | _ => false

/-- The exception is caught: only the edit of the card has a handler. -/
def Proc.catches (ex : PyError) : Proc → Bool
  | .callback _ _ _ (.card _) => ex.kind = .telegramAPIError
  | _ => false

/-- The answer to the request is an error. -/
def Outcome.isError : Outcome → Bool
  | .raised _ | .returned .notFound | .returned .noChannel => true
  | .returned _ => false

section Request

variable {env : Env} {v : View} {p : Nat} {q q' : Proc} {r : Reply} {e : Effect Proc}

theorem approves_of_committed (h : q.committed p = true) : q.approves p = true := by
  unfold Proc.committed at h
  split at h <;> first | exact h | exact absurd h (by simp)

/-- A run that is at work on an approval was so one step before. -/
theorem approves_of_goes (h : Goes env v q r q') (ha : q'.approves p = true) :
    q.approves p = true := by
  cases h with
  | pressed hrow =>
      rename_i b _ _ _ _
      cases b <;> exact ha
  | presses hrow =>
      rename_i b _ _ _
      cases b <;> exact ha
  | edits =>
      rename_i b _ _ _
      cases b <;> exact ha
  | _ => exact ha

/-- What a step of such a request does: it leaves everything alone before the commit,
commits, or goes on after the commit. -/
inductive ApproveStep (v : View) (p : Nat) (q : Proc) (r : Reply) (e : Effect Proc) : Prop where
  | before (hc : q.committed p = false) (hdb : e.db = v.db) (hj : e.jobs = [])
      (hn : ∀ q', e.next = .goto q' → q'.committed p = false)
  | commits (hc : q.committed p = false) (hdb : e.db ≠ v.db) (q' : Proc) (hn : e.next = .goto q')
      (hc' : q'.committed p = true)
  | after (hc : q.committed p = true) (q' : Proc) (hr : r = .ok) (hn : e.next = .goto q')
      (hc' : q'.committed p = true)
  | ends (hc : q.committed p = true) (o : Outcome) (hn : e.next = .stop o)
      (ho : o.isError = true ↔ ∃ ex, r = .raise ex ∧ q.catches ex = false)

/-- A write of the row adds an event, so it changes the tables. -/
theorem db_ne_of_write {db : Db} {id : Nat} {set : PostSet} {ev : PostEvent} :
    db.write id set [ev] ≠ db := by
  intro h
  have hlen := congrArg (fun d => d.events.length) h
  simp at hlen

/-- A press of the button: `approve_post` and then `enqueue_publish`. -/
theorem press_step {u : Int} {pc : CallbackPc} {e : Effect CallbackPc}
    (h : callbackStep v .approve u p pc r = some e) :
    ApproveStep v p (.callback .approve u p pc) r (e.map (.callback .approve u p)) := by
  cases pc with
  | load =>
      rcases Reply.await_cases h with ⟨-, rfl⟩ | ⟨ex, -, rfl⟩
      · unfold callbackLoad
        split
        · exact .before rfl rfl rfl (by simp [View.ret, Effect.map])
        · split
          · exact .before rfl rfl rfl (by simp [View.ret, Effect.map])
          · refine .before rfl rfl rfl fun q' hq => ?_
            obtain rfl := Next.goto.inj hq
            rfl
      · exact .before rfl rfl rfl (by simp [View.raise, Effect.map])
  | commit post =>
      -- a post that is gone by then raises; otherwise this is the commit
      rcases Reply.await_cases h with ⟨-, rfl⟩ | ⟨ex, -, rfl⟩
      · unfold callbackCommit
        rcases View.commit_cases with ⟨-, hc⟩ | ⟨row, -, hc⟩
        · rw [hc]; exact .before rfl rfl rfl (by simp [View.raise, Effect.map])
        · rw [hc]; exact .commits rfl db_ne_of_write _ rfl (decide_eq_true rfl)
      · exact .before rfl rfl rfl (by simp [View.raise, Effect.map])
  | answer =>
      rcases Reply.await_cases h with ⟨rfl, rfl⟩ | ⟨ex, rfl, rfl⟩
      · exact .after (decide_eq_true rfl) _ rfl rfl (decide_eq_true rfl)
      · exact .ends (decide_eq_true rfl) _ rfl ⟨fun _ => ⟨ex, rfl, rfl⟩, fun _ => rfl⟩
  | enqueue =>
      rcases Reply.await_cases h with ⟨rfl, rfl⟩ | ⟨ex, rfl, rfl⟩
      · exact .after (decide_eq_true rfl) _ rfl rfl (decide_eq_true rfl)
      · exact .ends (decide_eq_true rfl) _ rfl ⟨fun _ => ⟨ex, rfl, rfl⟩, fun _ => rfl⟩
  | card =>
      rcases Reply.await_cases h with ⟨rfl, rfl⟩ | ⟨ex, rfl, rfl⟩
      · exact .ends (decide_eq_true rfl) _ rfl (by simp [Outcome.isError])
      -- the edit of the card is the only call whose failure is caught
      · by_cases hk : ex.kind = .telegramAPIError
        · rw [if_pos hk]
          exact .ends (decide_eq_true rfl) _ rfl (by simp [Outcome.isError, Proc.catches, hk])
        · rw [if_neg hk]
          exact .ends (decide_eq_true rfl) _ rfl (by simp [Outcome.isError, Proc.catches, hk])

/-- A request to one of the endpoints that decide. -/
theorem request_step {req : DecisionRequest} {pc : DecidePc} {e : Effect DecidePc}
    (hreq : req.decision = .approve ∧ req.postId = p) (h : decideStep v req pc r = some e) :
    ApproveStep v p (.decide req pc) r (e.map (.decide req)) := by
  have hcomm : decide (req.decision = .approve ∧ req.postId = p) = true := decide_eq_true hreq
  obtain ⟨hd, rfl⟩ := hreq
  cases pc with
  | load =>
      rcases Reply.await_cases h with ⟨-, rfl⟩ | ⟨ex, -, rfl⟩
      · unfold decideLoad
        split
        · exact .before rfl rfl rfl (by simp [View.ret, Effect.map])
        · rw [hd]
          refine .before rfl rfl rfl fun q' hq => ?_
          obtain rfl := Next.goto.inj hq
          rfl
      · exact .before rfl rfl rfl (by simp [View.raise, Effect.map])
  | commit post now =>
      rcases Reply.await_cases h with ⟨-, rfl⟩ | ⟨ex, -, rfl⟩
      · unfold decideCommit
        rcases View.commit_cases with ⟨-, hc⟩ | ⟨row, -, hc⟩
        · rw [hc]; exact .before rfl rfl rfl (by simp [View.raise, Effect.map])
        · rw [hc, decideNext, hd]; exact .commits rfl db_ne_of_write _ rfl hcomm
      · exact .before rfl rfl rfl (by simp [View.raise, Effect.map])
  | enqueue delay =>
      rcases Reply.await_cases h with ⟨rfl, rfl⟩ | ⟨ex, rfl, rfl⟩
      · rw [decideAnswer]
        -- Python reads the post once more for its answer
        cases req.api with
        | python => exact .after hcomm _ rfl rfl hcomm
        | go => exact .ends hcomm _ rfl (by simp [Outcome.isError])
      · exact .ends hcomm _ rfl ⟨fun _ => ⟨ex, rfl, rfl⟩, fun _ => rfl⟩
  | refresh =>
      rcases Reply.await_cases h with ⟨rfl, rfl⟩ | ⟨ex, rfl, rfl⟩
      · exact .ends hcomm _ rfl (by simp [Outcome.isError])
      · exact .ends hcomm _ rfl ⟨fun _ => ⟨ex, rfl, rfl⟩, fun _ => rfl⟩

/-- **The steps of an approval**, whichever surface it came by. -/
theorem approve_step (ha : q.approves p = true) (h : q.step env v r = some e) :
    ApproveStep v p q r e := by
  unfold Proc.approves at ha
  split at ha
  · obtain rfl := of_decide_eq_true ha
    obtain ⟨e₀, he, rfl⟩ := Option.map_eq_some_iff.mp h
    exact press_step he
  · obtain ⟨e₀, he, rfl⟩ := Option.map_eq_some_iff.mp h
    exact request_step (of_decide_eq_true ha) he
  · exact absurd ha (by simp)

end Request

namespace World

variable {env : Env} {w w' w₀ : World} {a : Action} {i p : Nat} {tr : List (World × Action)}

/-- If the step is one of run `i`, it touches neither the database nor the queues. -/
def LeavesAlone (env : Env) (i : Nat) (x : World × Action) : Prop :=
  ∀ r w', x.2 = .advance i r → step env x.1 x.2 = some w' → w'.db = x.1.db ∧ w'.queue = x.1.queue

/-- In the run `tr`, a request to approve post `p` that answers with an error has left
everything alone. -/
def FailsClean (env : Env) (p : Nat) (tr : List (World × Action)) : Prop :=
  ∀ tr₁ w i r q e o, tr₁ ++ [(w, .advance i r)] <+: tr → w.proc i = some q → q.approves p = true →
    q.step env (w.view i) r = some e → e.next = .stop o → o.isError = true →
    ∀ x ∈ tr₁ ++ [(w, .advance i r)], LeavesAlone env i x

/-- No request to approve post `p` raises once it has committed. -/
def FailsEarly (p : Nat) (w : World) : Action → Prop
  | .advance i (.raise ex) => ∀ q ∈ w.proc i, q.committed p = true → q.catches ex = true
  | _ => True

instance (p : Nat) (w : World) : DecidablePred (FailsEarly p w) := fun a =>
  match a with
  | .advance i (.raise ex) =>
    inferInstanceAs (Decidable (∀ q ∈ w.proc i, q.committed p = true → q.catches ex = true))
  | .advance _ .ok | .advance _ (.retryAfter _) | .advance _ (.message _)
  | .advance _ .nothing | .advance _ (.transformed _) | .advance _ (.media _)
  | .tick _ | .crash _ | .startJob _ | .request _ | .arrive .. | .configure .. | .pruneDedupe _ =>
    inferInstanceAs (Decidable True)

theorem leavesAlone_other (h : ∀ r, a ≠ .advance i r) : LeavesAlone env i (w, a) :=
  fun r _ ha _ => absurd ha (h r)

/-- A step of the run leaves tables and queue alone exactly if its effect does. -/
theorem leavesAlone_advance {r : Reply} {q : Proc} {e : Effect Proc} (hq : w.proc i = some q)
    (he : q.step env (w.view i) r = some e) :
    LeavesAlone env i (w, .advance i r) ↔ e.db = w.db ∧ e.jobs = [] := by
  have hstep : step env w (.advance i r) = some (w.apply i e) := by
    rw [step, hq]
    simp only [he, Option.map_some]
  constructor
  · intro h
    obtain ⟨hdb, hj⟩ := h r _ rfl hstep
    exact ⟨hdb, List.append_right_eq_self.mp hj⟩
  · rintro ⟨hdb, hj⟩ r' w' ha h
    obtain rfl : w' = w.apply i e := Option.some.inj (h.symm.trans hstep)
    refine ⟨hdb, ?_⟩
    show w.queue ++ e.jobs = w.queue
    rw [hj, List.append_nil]

/-- What is known of the requests to approve post `p` after the steps `tr`. -/
structure Followed (env : Env) (p : Nat) (tr : List (World × Action)) (w : World) : Prop where
  numbered : Numbered w
  named : Named w
  /-- The steps are those of runs that have started. -/
  known : ∀ x ∈ tr, ∀ i r, x.2 = .advance i r → i < w.nextRun
  /-- A request that has not committed has left everything alone. -/
  clean : ∀ i q, w.proc i = some q → q.approves p = true →
    (q.committed p = false ↔ ∀ x ∈ tr, LeavesAlone env i x)

/-- What is known after one more step: of the steps of a request, its commit is the first that
does not leave everything alone. -/
theorem followed_snoc (hf : Followed env p tr w) (h : step env w a = some w') :
    Followed env p (tr ++ [(w, a)]) w' where
  numbered := numbered_step hf.numbered h
  named := named_step hf.numbered hf.named h
  known := by
    intro x hx i r ha
    refine Nat.lt_of_lt_of_le ?_ (nextRun_step h)
    rcases List.mem_append.mp hx with hx | hx
    · exact hf.known x hx i r ha
    · obtain rfl := List.mem_singleton.mp hx
      obtain rfl : a = .advance i r := ha
      obtain ⟨q, _, hq, -⟩ := advance_cases h
      exact lt_nextRun hf.numbered hq
  clean := by
    intro i q' hq' ha
    have hsnoc : (∀ x ∈ tr ++ [(w, a)], LeavesAlone env i x)
        ↔ (∀ x ∈ tr, LeavesAlone env i x) ∧ LeavesAlone env i (w, a) := by
      simp [or_imp, forall_and]
    rw [hsnoc]
    by_cases hadv : ∃ r, a = .advance i r
    · obtain ⟨r, rfl⟩ := hadv
      obtain ⟨q, e, hq, he, rfl⟩ := advance_cases h
      cases hnx : e.next with
      | stop o => rw [proc_apply_stop hnx] at hq'; exact absurd hq' (by simp)
      | goto q₁ =>
          rw [proc_apply_goto hq hnx] at hq'
          obtain rfl := Option.some.inj hq'
          have hqa := approves_of_goes (step_goes he hnx) ha
          rw [← hf.clean i q hq hqa, leavesAlone_advance hq he]
          cases approve_step hqa he with
          | before hc hdb hj hn => exact ⟨fun _ => ⟨hc, hdb, hj⟩, fun _ => hn q₁ hnx⟩
          | commits hc hdb q₂ hn hc' =>
              obtain rfl := Next.goto.inj (hnx.symm.trans hn)
              rw [hc']
              exact ⟨fun hf => absurd hf (by simp), fun ⟨_, hdb', _⟩ => absurd hdb' hdb⟩
          | after hc q₂ hr hn hc' =>
              obtain rfl := Next.goto.inj (hnx.symm.trans hn)
              rw [hc, hc']
              simp
          | ends hc o hn ho => rw [hnx] at hn; exact absurd hn (by simp)
    · have hother : ∀ r, a ≠ .advance i r := fun r hr => hadv ⟨r, hr⟩
      rw [and_iff_left (leavesAlone_other hother)]
      rcases proc_step hf.numbered h hq' with hq | ⟨r, _, _, har, -⟩ | ⟨-, rfl, hs⟩
      · exact hf.clean i q' hq ha
      · exact absurd har (hother r)
      · -- a run that has just started has done nothing
        refine iff_of_true ?_ fun x hx r _ hxa =>
          absurd (hf.known x hx _ r hxa) (Nat.lt_irrefl _)
        cases hs with
        | @press b _ _ => cases b <;> rfl
        | _ => rfl

theorem followed_init (h : Init w) : Followed env p [] w where
  numbered := numbered_init h
  named i job pc hq := by rw [proc_init h] at hq; exact absurd hq (by simp)
  known := by simp
  clean i q hq := by rw [proc_init h] at hq; exact absurd hq (by simp)

/-- Every run of `w'` is one of `w`, and so is the next. -/
def Shrinks (w w' : World) : Prop :=
  (∀ i q, w'.proc i = some q → w.proc i = some q) ∧ w'.nextRun = w.nextRun

theorem Shrinks.numbered (h : Shrinks w w') (hn : Numbered w) : Numbered w' := by
  intro i hi
  cases hq : w'.proc i with
  | none => rfl
  | some q =>
      have hnone := hn i (h.2 ▸ hi)
      rw [h.1 i q hq] at hnone
      exact absurd hnone (by simp)

theorem Shrinks.named (h : Shrinks w w') (hw : Named w) : Named w' :=
  fun i job pc hq => hw i job pc (h.1 i _ hq)

/-- What is known of the approvals survives the loss of jobs and runs. -/
theorem Followed.anti (hf : Followed env p tr w) (h : Shrinks w w') : Followed env p tr w' where
  numbered := h.numbered hf.numbered
  named := h.named hf.named
  known x hx i r ha := h.2 ▸ hf.known x hx i r ha
  clean i q hq := hf.clean i q (h.1 i q hq)

/-- **One step**: the requests fail clean after it exactly if they did and this one fails early. -/
theorem failsClean_snoc_iff (hf : Followed env p tr w) (h : step env w a = some w') :
    FailsClean env p (tr ++ [(w, a)]) ↔ FailsClean env p tr ∧ FailsEarly p w a := by
  constructor
  · intro hc
    refine ⟨fun tr₁ t i r q e o hpre => hc tr₁ t i r q e o (hpre.trans (List.prefix_append _ _)), ?_⟩
    unfold FailsEarly
    split
    · rename_i i ex
      intro q hq hcomm
      -- otherwise the request ends here with an error, after its commit
      by_contra hcatch
      obtain ⟨q', e, hq', he, rfl⟩ := advance_cases h
      obtain rfl := Option.some.inj (hq'.symm.trans hq)
      have hqa := approves_of_committed hcomm
      cases approve_step hqa he with
      | before hc' => rw [hcomm] at hc'; exact absurd hc' (by simp)
      | commits hc' => rw [hcomm] at hc'; exact absurd hc' (by simp)
      | after hc' q₂ hr => exact absurd hr (by simp)
      | ends hc' o hn ho =>
          have herr : o.isError = true := ho.mpr ⟨ex, rfl, by simpa using hcatch⟩
          have hclean := hc tr w i (.raise ex) q' e o (List.prefix_refl _) hq' hqa he hn herr
          have hno := (hf.clean i q' hq' hqa).mpr fun x hx => hclean x (List.mem_append_left _ hx)
          rw [hcomm] at hno
          exact absurd hno (by simp)
    · trivial
  · rintro ⟨hc, hearly⟩ tr₁ t i r q e o hpre hq hqa he hn herr
    rcases List.prefix_concat_iff.mp hpre with heq | hpre
    · obtain ⟨rfl, hx⟩ := List.append_inj' heq rfl
      obtain ⟨rfl, rfl⟩ := Prod.mk.inj (List.singleton_inj.mp hx)
      -- the new step is the one that ends a request: it has not committed, or its error is caught
      cases approve_step hqa he with
      | before hc' hdb hj hgo =>
          intro x hx
          rcases List.mem_append.mp hx with hx | hx
          · exact (hf.clean i q hq hqa).mp hc' x hx
          · rw [List.mem_singleton.mp hx]
            exact (leavesAlone_advance hq he).mpr ⟨hdb, hj⟩
      | commits hc' hdb q₂ hgo => rw [hn] at hgo; exact absurd hgo (by simp)
      | after hc' q₂ hr hgo => rw [hn] at hgo; exact absurd hgo (by simp)
      | ends hc' o' hgo ho =>
          obtain rfl := Next.stop.inj (hn.symm.trans hgo)
          obtain ⟨ex, rfl, hcatch⟩ := ho.mp herr
          rw [hearly q hq hc'] at hcatch
          exact absurd hcatch (by simp)
    · exact hc tr₁ t i r q e o hpre hq hqa he hn herr

theorem failsClean_nil : FailsClean env p [] := by
  intro tr₁ t i r q e o hpre
  exact absurd (List.prefix_nil.mp hpre) (by simp)

/-- An admin approves post 1 through the Go API; run `i` takes `n` steps. -/
def approvesWeb (i n : Nat) : List Action :=
  .request (.decide ⟨.go, 1, 1, .approve, none⟩) :: goes i n

def redisError : PyError := ⟨.other, "Connection refused".toList⟩

end World

/-! ## Runs under ARQ -/

/-- The step of the system, if it is one. -/
def ArqAction.sys? : ArqAction → Option Action
  | .sys a => some a
  | _ => none

namespace ArqWorld

open World

variable {env : Env} {s s' s₀ : ArqWorld} {a : ArqAction} {late : Bool} {p : Nat}
  {tr : List (ArqWorld × ArqAction)}

/-- The steps of the system in a run. -/
def sysSteps (tr : List (ArqWorld × ArqAction)) : List (World × Action) :=
  tr.filterMap (fun x => x.2.sys?.map (fun a => (x.1.world, a)))

theorem sysSteps_snoc_sys {a : Action} :
    sysSteps (tr ++ [(s, .sys a)]) = sysSteps tr ++ [(s.world, a)] := by
  simp [sysSteps, ArqAction.sys?]

theorem sysSteps_snoc_none (h : a.sys? = none) : sysSteps (tr ++ [(s, a)]) = sysSteps tr := by
  simp [sysSteps, h]

@[simp] theorem world_move (a : Action) (w : World) : (s.move a w).world = w := by
  cases a <;> rfl

/-- A step of the services is one of the world without ARQ. -/
theorem sys_cases {a : Action} (h : step env s (.sys a) = some s') :
    World.step env s.world a = some s'.world := by
  obtain ⟨w', hw, rfl⟩ := Option.map_eq_some_iff.mp h
  rw [world_move]
  exact hw

theorem drop_cases {job : Job} (h : step env s (.drop job) = some s') :
    s'.world = { s.world with queue := s.world.queue.erase job } := by
  rw [step] at h
  split at h
  · rw [← Option.some.inj h]
  · exact absurd h (by simp)

theorem timeout_cases {i : Nat} (h : step env s (.timeout i) = some s') :
    s'.world = { s.world with runs := s.world.runs.delete i } := by
  rw [step] at h
  split at h
  · exact absurd h (by simp)
  · split at h
    · rw [← Option.some.inj h]
    · exact absurd h (by simp)

/-- While post `p` is approved, its last cover does not end for good, nor is it given up. -/
def KeepsCover (env : Env) (late : Bool) (p : Nat) (s : ArqWorld) : ArqAction → Prop
  | .sys a => CoverKept env late p s.world a
  | .drop job => job.publishes p = true → (s.world.row p).map Post.state = some .approved →
    (∃ j ∈ s.world.queue.erase job, j.publishes p = true)
      ∨ ∃ r ∈ s.world.runs.rows, r.proc.covers late p = true
  | .timeout i => (s.world.proc i).any (Proc.covers late p) = true →
    (s.world.row p).map Post.state = some .approved → HasOtherCover late s.world p i

instance (env : Env) (late : Bool) (p : Nat) (s : ArqWorld) :
    DecidablePred (KeepsCover env late p s) := fun a =>
  match a with
  | .sys a => inferInstanceAs (Decidable (CoverKept env late p s.world a))
  | .drop job => inferInstanceAs (Decidable (job.publishes p = true →
    (s.world.row p).map Post.state = some .approved →
    (∃ j ∈ s.world.queue.erase job, j.publishes p = true)
      ∨ ∃ r ∈ s.world.runs.rows, r.proc.covers late p = true))
  | .timeout i => inferInstanceAs (Decidable ((s.world.proc i).any (Proc.covers late p) = true →
    (s.world.row p).map Post.state = some .approved → HasOtherCover late s.world p i))

/-- ARQ takes jobs and runs away, and does nothing else. -/
theorem shrinks_of_none (h : step env s a = some s') (ha : a.sys? = none) :
    Shrinks s.world s'.world := by
  cases a with
  | sys a => exact absurd ha (by simp [ArqAction.sys?])
  | drop job =>
      rw [drop_cases h]
      exact ⟨fun _ _ hq => hq, rfl⟩
  | timeout i =>
      rw [timeout_cases h]
      refine ⟨fun j q hq => ?_, rfl⟩
      by_cases hj : j = i
      · rw [hj, proc_crash_self] at hq
        exact absurd hq (by simp)
      · rwa [proc_crash_ne hj] at hq

/-- Runs keep their numbers and their names under ARQ. -/
theorem numbered_named_step (h : step env s a = some s') (hI : Numbered s.world ∧ Named s.world) :
    Numbered s'.world ∧ Named s'.world := by
  cases ha : a.sys? with
  | none =>
      have hs := shrinks_of_none h ha
      exact ⟨hs.numbered hI.1, hs.named hI.2⟩
  | some b =>
      cases a <;> cases ha
      exact ⟨numbered_step hI.1 (sys_cases h), named_step hI.1 hI.2 (sys_cases h)⟩

theorem followed_snoc (hf : Followed env p (sysSteps tr) s.world) (h : step env s a = some s') :
    Followed env p (sysSteps (tr ++ [(s, a)])) s'.world := by
  cases ha : a.sys? with
  | none =>
      rw [sysSteps_snoc_none ha]
      exact hf.anti (shrinks_of_none h ha)
  | some b =>
      cases a <;> cases ha
      rw [sysSteps_snoc_sys]
      exact World.followed_snoc hf (sys_cases h)

/-- In every run under ARQ the approvals are followed as in the run of the services behind it. -/
theorem followed_trace (h0 : Init s₀.world) (h : Trace (step env) s₀ tr s) :
    Followed env p (sysSteps tr) s.world := by
  induction h with
  | nil => exact followed_init h0
  | snoc _ hu ih => exact followed_snoc ih hu

/-- **The requests of a run fail clean exactly if each of its steps fails early.** -/
theorem failsClean_iff (h0 : Init s₀.world) (h : Trace (step env) s₀ tr s) :
    FailsClean env p (sysSteps tr)
      ↔ AllSteps (fun s a => ∀ b ∈ a.sys?, FailsEarly p s.world b) tr := by
  induction h with
  | nil => exact iff_of_true failsClean_nil (allSteps_nil _)
  | @snoc s s' tr a hp hu ih =>
      rw [allSteps_snoc, ← ih]
      cases ha : a.sys? with
      | none => simp [sysSteps_snoc_none ha]
      | some b =>
          cases a <;> cases ha
          rw [sysSteps_snoc_sys, failsClean_snoc_iff (followed_trace h0 hp) (sys_cases hu)]
          simp

/-- A step keeps an approved post covered exactly if it keeps its last cover. -/
theorem approvedCovered_step_iff (hn : Numbered s.world) (hw : Named s.world)
    (hP : ApprovedCovered late p s.world) (h : step env s a = some s') :
    ApprovedCovered late p s'.world
      ↔ (∀ b ∈ a.sys?, late = true ∨ ApprovesQueued env p s.world b) ∧ KeepsCover env late p s a := by
  cases a with
  | sys a =>
      rw [World.approvedCovered_step_iff hn hw hP (sys_cases h)]
      simp [ArqAction.sys?, KeepsCover]
  | drop job =>
      rw [and_iff_right (by simp [ArqAction.sys?]), drop_cases h, KeepsCover]
      refine ⟨fun hP' _ => hP', fun hk hst => ?_⟩
      by_cases hp : job.publishes p = true
      · exact hk hp hst
      · -- another job is given up
        refine (hP hst).imp_left ?_
        rintro ⟨j, hj, hjp⟩
        have hne : j ≠ job := by
          rintro rfl
          exact hp hjp
        exact ⟨j, (List.mem_erase_of_ne hne).mpr hj, hjp⟩
  | timeout i =>
      rw [and_iff_right (by simp [ArqAction.sys?]), timeout_cases h, KeepsCover]
      have hother : ∀ {w : World}, HasCover late { w with runs := w.runs.delete i } p
          ↔ HasOtherCover late w p i := by
        intro w
        rw [hasCover_iff, hasOtherCover_iff]
        refine or_congr_right ⟨?_, ?_⟩
        · rintro ⟨j, q, hq, hc⟩
          have hj : j ≠ i := by
            rintro rfl
            rw [proc_crash_self] at hq
            exact absurd hq (by simp)
          exact ⟨j, q, by rwa [proc_crash_ne hj] at hq, hj, hc⟩
        · rintro ⟨j, q, hq, hj, hc⟩
          exact ⟨j, q, by rwa [proc_crash_ne hj], hc⟩
      refine ⟨fun hP' _ hst => hother.mp (hP' hst), fun hk hst => hother.mpr ?_⟩
      cases hc : (s.world.proc i).any (Proc.covers late p) with
      | true => exact hk hc hst
      | false =>
          rcases hasCover_iff.mp (hP hst) with hj | ⟨j, q, hq, hcov⟩
          · exact .inl hj
          · refine hasOtherCover_iff.mpr (.inr ⟨j, q, hq, ?_, hcov⟩)
            rintro rfl
            rw [hq, Option.any_some, hcov] at hc
            exact absurd hc (by simp)

/-- **An approved post is covered in every state of a run, and failed requests have left
everything alone, exactly if no last cover of an approved post is lost and no request raises
after its commit.**

With `late`, a request that has committed an approval and is to enqueue its job covers the post,
as it does in every approval that goes well. Without, only jobs count, and approvals
must be committed while one is there. What one step does to the cover is
`approvedCovered_step_iff`; the two halves go through the run side by side. -/
theorem approved_queued_iff (late : Bool) (h0 : Init s₀.world) (h : Trace (step env) s₀ tr s) :
    (((∀ x ∈ tr, ApprovedCovered late p x.1.world) ∧ ApprovedCovered late p s.world)
        ∧ FailsClean env p (sysSteps tr))
      ↔ AllSteps (fun s a =>
        ((∀ b ∈ a.sys?, late = true ∨ ApprovesQueued env p s.world b) ∧ KeepsCover env late p s a)
          ∧ ∀ b ∈ a.sys?, FailsEarly p s.world b) tr := by
  have hstart : ApprovedCovered late p s₀.world := by
    intro hst
    rw [row_init h0] at hst
    exact absurd hst (by simp)
  have hfollowed : Followed env p [] s₀.world := followed_init h0
  have hcover := h.forall_iff (H := fun _ _ => True)
    (I := fun s => Numbered s.world ∧ Named s.world) (P := fun s => ApprovedCovered late p s.world)
    (fun _ _ _ hI _ _ _ hu => numbered_named_step hu hI)
    (fun _ _ _ hI hP _ hu => approvedCovered_step_iff hI.1 hI.2 hP hu)
    (fun _ _ => trivial) ⟨hfollowed.numbered, hfollowed.named⟩ hstart
  rw [hcover, failsClean_iff h0 h]
  exact forall₂_and.symm

/-! ### Approvals in two channels -/

/-- A system with one channel, where no job was ever started. -/
def start (channel : SourceChannel) : ArqWorld := { world := sample channel }

/-- The system after a script, if every action of it is enabled. -/
def after (env : Env) (s : ArqWorld) (script : List ArqAction) : Option ArqWorld :=
  Transition.runs (step env) s script

/-- A post of a queue channel is approved. The run of its publish job dies and is started again,
and a draft card that nobody could send for a day is given up. -/
def approvedInTime : List ArqAction :=
  List.map .sys (ingests 1 0 ++ normalizes 1 1 0 ++ approvesWeb 2 3
    ++ [.startJob ⟨.publish, 1, 0⟩, .advance 3 .ok, .crash 3, .tick (days 1).toNat])
  ++ [.drop ⟨.postDraft, 1, 0⟩, .sys (.startJob ⟨.publish, 1, 0⟩)]

/-- The channel is an `auto` one, so there is a job before anybody approves. -/
def approvedTooLate : List ArqAction :=
  List.map .sys (ingests 1 0 ++ normalizes 1 1 0 ++ approvesWeb 2 3)

theorem approved_queued_iff_web :
    (∃ s, after (sampleEnv {}) (start sampleChannel) approvedInTime = some s
      ∧ (s.world.row 1).map Post.state = some .approved ∧ ApprovedCovered true 1 s.world)
    ∧ ∃ s, after (sampleEnv {}) (start autoChannel) approvedTooLate = some s
      ∧ (s.world.row 1).map Post.state = some .approved ∧ ApprovedCovered false 1 s.world := by
  constructor
  · have hrun : (after (sampleEnv {}) (start sampleChannel)
        approvedInTime).map (fun s => (s.world.row 1).map Post.state) = some (some .approved) := by
      decide +kernel
    obtain ⟨s, hs, hst⟩ := Option.map_eq_some_iff.mp hrun
    obtain ⟨⟨-, hcover⟩, -⟩ := (approved_queued_iff (p := 1) true (sample_init _)
      (Trace.of_runs hs)).mpr (by decide +kernel)
    exact ⟨s, hs, hst, hcover⟩
  · have hrun : (after (sampleEnv {}) (start autoChannel)
        approvedTooLate).map (fun s => (s.world.row 1).map Post.state) = some (some .approved) := by
      decide +kernel
    obtain ⟨s, hs, hst⟩ := Option.map_eq_some_iff.mp hrun
    obtain ⟨⟨-, hcover⟩, -⟩ := (approved_queued_iff (p := 1) false (sample_init _)
      (Trace.of_runs hs)).mpr (by decide +kernel)
    exact ⟨s, hs, hst, hcover⟩

/-- The approval is committed, and its job cannot be enqueued. -/
def approvedUnqueued : List ArqAction :=
  List.map .sys (ingests 1 0 ++ approvesWeb 1 2 ++ [.advance 1 (.raise redisError)])

/-- The post is approved, the job never gets into the queue, and the request fails. -/
theorem approvedUnqueued_fails :
    ∃ s tr, Trace (step (sampleEnv {})) (start sampleChannel) tr s
      ∧ Init (sample sampleChannel) ∧ .ended 1 (.raised redisError) ∈ s.world.log
      ∧ (∀ late, ¬ ApprovedCovered late 1 s.world) ∧ ¬ FailsClean (sampleEnv {}) 1 (sysSteps tr) := by
  have hrun : (after (sampleEnv {}) (start sampleChannel)
      approvedUnqueued).map (fun s => Decidable.decide (.ended 1 (.raised redisError) ∈ s.world.log
        ∧ (s.world.row 1).map Post.state = some .approved
        ∧ ¬ HasCover true s.world 1 ∧ ¬ HasCover false s.world 1)) = some true := by
    decide +kernel
  obtain ⟨s, hs, hd⟩ := Option.map_eq_some_iff.mp hrun
  obtain ⟨hend, hst, htrue, hfalse⟩ := of_decide_eq_true hd
  refine ⟨s, _, Trace.of_runs hs, sample_init _, hend, ?_, ?_⟩
  · rintro (_ | _) hcovered
    · exact hfalse (hcovered hst)
    · exact htrue (hcovered hst)
  · rw [failsClean_iff (sample_init _) (Trace.of_runs hs)]
    decide +kernel

end ArqWorld

end TelegramCms
