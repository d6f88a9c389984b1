import TelegramCms.Model.SendPost
import TelegramCms.Proof.Steps

/-!
# The parts of a post

Both retry layers start `_send_post` from its first call, whatever its earlier calls have
already put into the channel: the retry after `TelegramRetryAfter` inside the job, and a
further job after the failure handler.

`parts_once`: a post whose sends begin only while nothing of it is in the channel has each
of its parts delivered at most once. One send is never the problem: its calls are of three
different parts, and `_send_lock` keeps two sends apart.
-/

namespace TelegramCms

open Transition

/-! ## One call of `_send_post` -/

section Send

variable {onDisk : List Text} {text : Text} {pc pc' : SendPc} {answer : Answer}

theorem sendText_call {mid : Nat} (h : sendText text mid = .call pc') : pc'.part = .followUp := by
  unfold sendText at h
  split at h
  · obtain rfl := SendNext.call.inj h
    rfl
  · exact absurd h (by simp)

/-- A call is followed by one for a later part, and only if it did not raise. -/
theorem sendStep_call (h : sendStep onDisk text pc answer = .call pc') :
    (∃ id, answer = .message id) ∧ pc.part.rank < pc'.part.rank := by
  cases answer with
  | raise e => exact absurd h (by simp [sendStep])
  | retryAfter s => exact absurd h (by simp [sendStep])
  | message id =>
    refine ⟨⟨id, rfl⟩, ?_⟩
    cases pc with
    | message t => exact absurd h (by simp [sendStep])
    | media method file cap extra =>
      simp only [sendStep] at h
      unfold sendGroup at h
      split at h
      · rw [sendText_call h]
        exact Nat.zero_lt_succ 1
      · obtain rfl := SendNext.call.inj h
        exact Nat.zero_lt_succ 0
    | group mid items =>
      simp only [sendStep] at h
      rw [sendText_call h]
      exact Nat.lt_succ_self 1
    | followUp mid t => exact absurd h (by simp [sendStep])

end Send

/-! ## The lock -/

/-- The run is about to begin a send of post `p`. -/
def Proc.begins (p : Nat) : Proc → Bool
  | .publish job (.spacing ..) | .publish job (.backoff ..) => job.postId = p
  | _ => false

section Move

variable {env : Env} {v : View} {postId : Nat} {pc pc' : PublishPc} {r : Reply}
  {e : Effect PublishPc}

/-- A run that holds the lock held it before, or found it free. -/
theorem move_lock (hm : PublishMove env v postId pc r e) (hn : e.next = .goto pc')
    (hl : pc'.holdsLock = true) : pc.holdsLock = true ∨ v.lockFree = true := by
  cases hm with
  | locks hfree => exact .inr hfree
  | begins hpc hu => rcases hpc with rfl | rfl <;> exact .inl rfl
  | backsOff => exact .inl rfl
  | card hpc =>
    obtain rfl := Next.goto.inj hn
    rcases hpc with ⟨_, _, -, rfl⟩ | ⟨-, _, rfl, -⟩ <;> exact absurd hl (by simp [PublishPc.holdsLock])
  | stops o => exact absurd hn (by simp)
  | duplicates hrow => exact absurd hn (by simp)
  | _ => obtain rfl := Next.goto.inj hn; exact absurd hl (by simp [PublishPc.holdsLock])

/-- A run gets inside `_send_post` from its sleep. -/
theorem move_sending {ctx : SendCtx} {retried : Bool} (hm : PublishMove env v postId pc r e)
    (hn : e.next = .goto (.sending ctx retried)) :
    r = .ok ∧ ∃ until_, pc = .spacing ctx until_ ∨ pc = .backoff ctx until_ := by
  cases hm with
  | begins hpc hu =>
    obtain ⟨rfl, -⟩ := PublishPc.sending.inj (Next.goto.inj hn)
    exact ⟨rfl, _, hpc⟩
  | card hpc => rcases hpc with ⟨_, _, -, rfl⟩ | ⟨-, _, rfl, -⟩ <;> exact absurd hn (by simp [View.goto])
  | stops o => exact absurd hn (by simp)
  | duplicates hrow => exact absurd hn (by simp)
  | _ => exact absurd (Next.goto.inj hn) (by simp)

end Move

namespace World

variable {env : Env} {w w' : World} {a : Action} {i p : Nat} {ctx : SendCtx}

theorem not_holdsLock_of_lockFree {q : Proc} (h : w.lockFree = true) (hq : w.proc i = some q) :
    q.holdsLock = false := by
  obtain ⟨r, hr, rfl⟩ := Option.map_eq_some_iff.mp hq
  simpa using List.all_eq_true.mp h r (Table.mem_of_get hr)

/-- At most one run holds `_send_lock`. -/
def Exclusive (w : World) : Prop :=
  ∀ i j q q', w.proc i = some q → w.proc j = some q' → q.holdsLock = true → q'.holdsLock = true →
    i = j

theorem lock_origin {q : Proc} (hn : Numbered w) (h : step env w a = some w')
    (hq : w'.proc i = some q) (hl : q.holdsLock = true) :
    (∃ q₀, w.proc i = some q₀ ∧ q₀.holdsLock = true)
      ∨ (w.lockFree = true ∧ ∃ r, a = .advance i r) := by
  cases q with
  | publish job pc =>
    rcases publish_origin hn h hq with hp | ⟨r, pc₀, e, rfl, hp, hm, hnx, -⟩ | ⟨rfl, -⟩
    · exact .inl ⟨_, hp, hl⟩
    · rcases move_lock hm hnx hl with hl | hfree
      · exact .inl ⟨_, hp, hl⟩
      · exact .inr ⟨hfree, r, rfl⟩
    · exact absurd hl (by simp [Proc.holdsLock, PublishPc.holdsLock])
  | _ => exact absurd hl (by simp [Proc.holdsLock])

theorem exclusive_step (hn : Numbered w) (hx : Exclusive w) (h : step env w a = some w') :
    Exclusive w' := by
  intro i j q q' hq hq' hl hl'
  rcases lock_origin hn h hq hl with ⟨q₀, hp, hl⟩ | ⟨hfree, r, ha⟩
  · rcases lock_origin hn h hq' hl' with ⟨q₀', hp', hl'⟩ | ⟨hfree, -⟩
    · exact hx i j _ _ hp hp' hl hl'
    · exact absurd hl (by simp [not_holdsLock_of_lockFree hfree hp])
  · rcases lock_origin hn h hq' hl' with ⟨q₀', hp', hl'⟩ | ⟨-, r', ha'⟩
    · exact absurd hl' (by simp [not_holdsLock_of_lockFree hfree hp'])
    · rw [ha] at ha'; cases ha'; rfl

theorem sendingOf_eq_some :
    w.sendingOf i = some (p, ctx)
      ↔ ∃ job retried, w.proc i = some (.publish job (.sending ctx retried)) ∧ job.postId = p := by
  unfold sendingOf
  constructor
  · intro h
    split at h
    · rename_i hp
      obtain ⟨rfl, rfl⟩ := Prod.mk.inj (Option.some.inj h)
      exact ⟨_, _, hp, rfl⟩
    · exact absurd h (by simp)
  · rintro ⟨job, retried, hp, rfl⟩
    rw [hp]

theorem sendingOf_lock (h : w.sendingOf i = some (p, ctx)) :
    ∃ q, w.proc i = some q ∧ q.holdsLock = true := by
  obtain ⟨job, retried, hp, -⟩ := sendingOf_eq_some.mp h
  exact ⟨_, hp, rfl⟩

theorem Exclusive.sending {j p' : Nat} {ctx' : SendCtx} (hx : Exclusive w)
    (hi : w.sendingOf i = some (p, ctx)) (hj : w.sendingOf j = some (p', ctx')) : i = j := by
  obtain ⟨q, hq, hl⟩ := sendingOf_lock hi
  obtain ⟨q', hq', hl'⟩ := sendingOf_lock hj
  exact hx i j q q' hq hq' hl hl'

/-- A run that is inside `_send_post` after a step was there before and waits on, or has
just begun. -/
theorem sending_origin (hn : Numbered w) (h : step env w a = some w')
    (hs : w'.sendingOf i = some (p, ctx)) :
    (w.sendingOf i = some (p, ctx) ∧ ∀ r, a ≠ .advance i r)
      ∨ (a = .advance i .ok ∧ ∃ q, w.proc i = some q ∧ q.begins p = true) := by
  obtain ⟨job, retried, hq, rfl⟩ := sendingOf_eq_some.mp hs
  rcases publish_origin hn h hq with hp | ⟨r, pc₀, e, rfl, hp, hm, hnx, -⟩ | ⟨hpc, -⟩
  · refine .inl ⟨sendingOf_eq_some.mpr ⟨job, retried, hp, rfl⟩, ?_⟩
    rintro r rfl
    -- no answer leaves the run where it was
    obtain ⟨q, e, hq', he, rfl⟩ := advance_cases h
    obtain rfl := Option.some.inj (hp.symm.trans hq')
    obtain ⟨e₀, hm, rfl⟩ := publish_step he
    cases hnx : e₀.next with
    | goto pc' =>
      have hnx' : (e₀.map (Proc.publish job)).next = .goto (.publish job pc') := by
        rw [Effect.map, hnx]
      rw [proc_apply_goto hp hnx'] at hq
      obtain ⟨-, rfl⟩ := Proc.publish.inj (Option.some.inj hq)
      obtain ⟨-, _, hpc⟩ := move_sending hm hnx
      rcases hpc with hpc | hpc <;> exact absurd hpc (by simp)
    | stop o =>
      have hnx' : (e₀.map (Proc.publish job)).next = .stop o := by rw [Effect.map, hnx]
      rw [proc_apply_stop hnx'] at hq
      exact absurd hq (by simp)
  · obtain ⟨rfl, _, hpc⟩ := move_sending hm hnx
    refine .inr ⟨rfl, _, hp, ?_⟩
    rcases hpc with rfl | rfl <;> simp [Proc.begins]
  · exact absurd hpc (by simp)

end World

/-! ## The system, call by call -/

namespace Wire

variable {env : Env} {s s' : Wire} {a : WireAction} {p : Nat}

theorem step_cases (h : s.step env a = some s') :
    (∃ onDisk b w, a = .act onDisk b ∧ Answers s.world b = false
        ∧ World.step env s.world b = some w
        ∧ s' = { s with world := w, sends := s.sendsAfter env onDisk b w })
    ∨ ∃ onDisk i answer q ctx pc, a = .answer onDisk i answer
        ∧ s.world.sendingOf i = some (q, ctx) ∧ s.sends i = some pc
        ∧ ((∃ pc', sendStep onDisk ctx.text pc answer = .call pc' ∧ s' = { s with
              sends := Function.update s.sends i (some pc'), shown := s.shownAfter q pc answer })
          ∨ ∃ r w, sendStep onDisk ctx.text pc answer = .over r
              ∧ World.step env s.world (.advance i r) = some w
              ∧ s' = { s with world := w, shown := s.shownAfter q pc answer }) := by
  cases a with
  | act onDisk b =>
    rw [step] at h
    split at h
    · exact absurd h (by simp)
    · rename_i hb
      obtain ⟨w, hw, rfl⟩ := Option.map_eq_some_iff.mp h
      exact .inl ⟨onDisk, b, w, rfl, by simpa using hb, hw, rfl⟩
  | answer onDisk i answer =>
    rw [step] at h
    split at h
    · rename_i q ctx pc hq hpc
      refine .inr ⟨onDisk, i, answer, q, ctx, pc, rfl, hq, hpc, ?_⟩
      split at h
      · rename_i pc' hnext
        exact .inl ⟨pc', hnext, (Option.some.inj h).symm⟩
      · rename_i r hnext
        obtain ⟨w, hw, rfl⟩ := Option.map_eq_some_iff.mp h
        exact .inr ⟨r, w, hnext, hw, rfl⟩
    · exact absurd h (by simp)

/-- Seen without the calls inside `_send_post`, a step is one of the system, or none. -/
theorem step_world (h : s.step env a = some s') :
    s'.world = s.world ∨ ∃ b, World.step env s.world b = some s'.world := by
  rcases step_cases h with ⟨_, b, w, -, -, hw, rfl⟩ |
    ⟨_, i, _, _, _, _, -, -, -, ⟨_, -, rfl⟩ | ⟨r, w, -, hw, rfl⟩⟩
  · exact .inr ⟨b, hw⟩
  · exact .inl rfl
  · exact .inr ⟨.advance i r, hw⟩

/-- **A run of the system call by call is a run of the system.** -/
theorem trace_world {t : Wire} {tr : List (Wire × WireAction)} (h : Trace (step env) s tr t) :
    ∃ tr', Trace (World.step env) s.world tr' t.world := by
  obtain ⟨tr', h', -⟩ := h.map (G := fun _ _ => True) (H := fun _ _ => True) (I := fun _ => True)
    world (fun _ _ _ _ _ _ => trivial)
    (fun t a u _ _ hu => (step_world hu).imp_right fun ⟨b, hb⟩ => ⟨b, trivial, hb⟩)
    (fun _ _ => trivial) trivial
  exact ⟨tr', h'⟩

/-- A send waits where it did while other runs move on. -/
theorem sendsAfter_of_ne {onDisk : List Text} {b : Action} {w : World} {i : Nat}
    (hne : ∀ r, b ≠ .advance i r) : s.sendsAfter env onDisk b w i = s.sends i := by
  cases b with
  | advance j r =>
    have hij : i ≠ j := by
      rintro rfl
      exact hne r rfl
    simp only [sendsAfter]
    cases w.sendingOf j with
    | none => rfl
    | some x => exact Function.update_of_ne hij _ _
  | _ => rfl

/-- The parts of post `p` in the channel. -/
def partsOf (s : Wire) (p : Nat) : List Part := (s.shown.filter (fun x => x.post = p)).map Shown.part

/-- A send of post `p` begins only while nothing of it is in the channel. -/
def BeginsFresh (p : Nat) (s : Wire) : WireAction → Prop
  | .act _ b => World.OnOk (fun _ _ q => q.begins p = true → s.partsOf p = []) s.world b
  | .answer .. => True

instance (p : Nat) (s : Wire) : DecidablePred (BeginsFresh p s) := fun a =>
  match a with
  | .act _ b =>
    inferInstanceAs (Decidable
      (World.OnOk (fun _ _ q => q.begins p = true → s.partsOf p = []) s.world b))
  | .answer .. => inferInstanceAs (Decidable True)

/-- Where the sends of post `p` are. -/
structure Single (p : Nat) (s : Wire) : Prop where
  numbered : World.Numbered s.world
  exclusive : World.Exclusive s.world
  /-- A send waits for a part that comes after all that is in the channel. -/
  ahead : ∀ i ctx pc, s.world.sendingOf i = some (p, ctx) → s.sends i = some pc →
    ∀ x ∈ s.partsOf p, x.rank < pc.part.rank
  once : (s.partsOf p).Nodup

theorem mem_partsOf_shownAfter {q : Nat} {pc : SendPc} {answer : Answer} {x : Part}
    {s₁ : Wire} (hs : s₁.shown = s.shownAfter q pc answer) (hx : x ∈ s₁.partsOf p) :
    x ∈ s.partsOf p ∨ (q = p ∧ x = pc.part) := by
  rw [partsOf, hs] at hx
  unfold shownAfter at hx
  split at hx
  · rw [List.filter_cons] at hx
    split at hx
    · rename_i hqp
      rcases List.mem_cons.mp hx with rfl | hx
      · exact .inr ⟨by simpa using hqp, rfl⟩
      · exact .inl hx
    · exact .inl hx
  · exact .inl hx

/-- The answer to a call adds no part twice. -/
theorem Single.nodup_shownAfter (hs : Single p s) {i q : Nat} {ctx : SendCtx} {pc : SendPc}
    {answer : Answer} (hi : s.world.sendingOf i = some (q, ctx)) (hpc : s.sends i = some pc)
    {s₁ : Wire} (hs₁ : s₁.shown = s.shownAfter q pc answer) : (s₁.partsOf p).Nodup := by
  rw [partsOf, hs₁]
  unfold shownAfter
  split
  · rw [List.filter_cons]
    split
    · rename_i hqp
      obtain rfl : q = p := by simpa using hqp
      refine List.nodup_cons.mpr ⟨fun hx => ?_, hs.once⟩
      exact Nat.lt_irrefl _ (hs.ahead i ctx pc hi hpc _ hx)
    · exact hs.once
  · exact hs.once

theorem single_act {onDisk : List Text} {b : Action} {w : World} (hs : Single p s)
    (hb : Answers s.world b = false) (hg : BeginsFresh p s (.act onDisk b))
    (hw : World.step env s.world b = some w) :
    Single p { s with world := w, sends := s.sendsAfter env onDisk b w } where
  numbered := World.numbered_step hs.numbered hw
  exclusive := World.exclusive_step hs.numbered hs.exclusive hw
  once := hs.once
  ahead := by
    intro i ctx pc hi hpc x hx
    rcases World.sending_origin hs.numbered hw hi with ⟨hold, hne⟩ | ⟨rfl, q, hq, hbeg⟩
    · exact hs.ahead i ctx pc hold ((sendsAfter_of_ne hne).symm.trans hpc) x hx
    · have hnone : s.partsOf p = [] := hg q hq hbeg
      change x ∈ s.partsOf p at hx
      rw [hnone] at hx
      exact absurd hx (by simp)

theorem single_step (hs : Single p s) (hg : BeginsFresh p s a) (h : s.step env a = some s') :
    Single p s' := by
  rcases step_cases h with ⟨onDisk, b, w, rfl, hb, hw, rfl⟩ |
    ⟨onDisk, i, answer, q, ctx, pc, rfl, hi, hpc, ⟨pc', hnext, rfl⟩ | ⟨r, w, -, hw, rfl⟩⟩
  · exact single_act hs hb hg hw
  · obtain ⟨-, hlt⟩ := sendStep_call hnext
    refine ⟨hs.numbered, hs.exclusive, ?_, hs.nodup_shownAfter hi hpc rfl⟩
    intro j ctx' pc'' hj hpc'' x hx
    -- no other run is inside `_send_post`
    obtain rfl := hs.exclusive.sending hi hj
    obtain ⟨rfl, rfl⟩ := Prod.mk.inj (Option.some.inj (hi.symm.trans hj))
    dsimp only at hpc''
    rw [Function.update_self] at hpc''
    obtain rfl := Option.some.inj hpc''
    rcases mem_partsOf_shownAfter rfl hx with hx | ⟨-, rfl⟩
    · exact Nat.lt_trans (hs.ahead i ctx pc hi hpc x hx) hlt
    · exact hlt
  · refine ⟨World.numbered_step hs.numbered hw, World.exclusive_step hs.numbered hs.exclusive hw,
      ?_, hs.nodup_shownAfter hi hpc rfl⟩
    intro j ctx' pc'' hj hpc'' x hx
    rcases World.sending_origin hs.numbered hw hj with ⟨hold, hne⟩ | ⟨ha, q', hq', hbeg⟩
    · exact absurd (congrArg (Action.advance · r) (hs.exclusive.sending hi hold)).symm (hne r ∘ Eq.symm)
    · -- a run inside `_send_post` is past its sleep
      cases ha
      obtain ⟨job, retried, hp, -⟩ := World.sendingOf_eq_some.mp hi
      obtain rfl := Option.some.inj (hp.symm.trans hq')
      exact absurd hbeg (by simp [Proc.begins])

/--
**No part of a post is delivered twice in a run in which its sends begin only while
nothing of it is in the channel.**

A send goes through the parts of a post in the order of their ranks, and while it is under way
it waits for a part that comes after all that is in the channel (`Single`). Only one run at a time
is inside `_send_post`, and the next one begins while the channel has nothing of the post.
-/
theorem parts_once {tr : List (Wire × WireAction)} {t : Wire} (h0 : World.Init s.world)
    (hc : s.shown = []) (h : Trace (step env) s tr t) (hg : AllSteps (BeginsFresh p) tr) :
    (t.partsOf p).Nodup := by
  have hinit : Single p s := by
    refine ⟨World.numbered_init h0, ?_, ?_, ?_⟩
    · intro i j q q' hq
      rw [World.proc_init h0] at hq
      exact absurd hq (by simp)
    · intro i ctx pc _ _ x hx
      rw [partsOf, hc] at hx
      exact absurd hx (by simp)
    · rw [partsOf, hc]
      exact List.nodup_nil
  exact (h.invariant (fun _ _ _ hs hga hu => single_step hs hga hu) hg hinit).once

/-! ### A photo with a long text -/

def onePhoto : MediaRef where
  type := "photo".toList
  file := some "/media/1_0_photo.bin".toList
  size := some 0

/-- Actions while that photo is on disk. -/
def acts (l : List Action) : List WireAction := l.map (.act ["/media/1_0_photo.bin".toList])

/-- The answer to a call of run 2. -/
def answered (answer : Answer) : WireAction := .answer ["/media/1_0_photo.bin".toList] 2 answer

/-- A photo comes with a text that no caption can hold, and an admin approves the post; run
2 is to send it. -/
def longPhotoSend : List WireAction := acts (
  .arrive 1 1 (some (List.replicate 1025 'a')) :: .advance 0 (.media (some onePhoto)) ::
  World.goes 0 3 ++ .request (.decide ⟨.go, 1, 1, .approve, none⟩) :: World.goes 1 3 ++
  World.sends 1 2 0 4)

def sample : Wire where
  world := World.sample sampleChannel

/-- Photo and text are sent, one after the other. -/
theorem parts_once_longPhoto :
    ∃ s, runs (step (sampleEnv {})) sample
        (longPhotoSend ++ [answered (.message 7), answered (.message 8)]) = some s
      ∧ s.partsOf 1 = [.followUp, .primary] ∧ (s.partsOf 1).Nodup := by
  have hrun : (runs (step (sampleEnv {})) sample
      (longPhotoSend ++ [answered (.message 7), answered (.message 8)])).map (partsOf · 1)
        = some [.followUp, .primary] := by decide +kernel
  obtain ⟨s, hs, hparts⟩ := Option.map_eq_some_iff.mp hrun
  exact ⟨s, hs, hparts, parts_once (World.sample_init _) rfl (.of_runs hs) (by decide +kernel)⟩

/-- The text meets `TelegramRetryAfter`, and the job sends the photo once more. -/
theorem longPhoto_twice :
    ∃ s tr, World.Init sample.world ∧ sample.shown = []
      ∧ Trace (step (sampleEnv {})) sample tr s ∧ s.partsOf 1 = [.primary, .primary]
      ∧ ¬ (s.partsOf 1).Nodup := by
  have hrun : (runs (step (sampleEnv {})) sample
      (longPhotoSend ++ [answered (.message 7), answered (.retryAfter 1)]
        ++ acts [.tick 2_000_000, .advance 2 .ok] ++ [answered (.message 8)])).map (partsOf · 1)
        = some [.primary, .primary] := by decide +kernel
  obtain ⟨s, hs, hparts⟩ := Option.map_eq_some_iff.mp hrun
  exact ⟨s, _, World.sample_init _, rfl, .of_runs hs, hparts, by rw [hparts]; decide⟩

end Wire

end TelegramCms
