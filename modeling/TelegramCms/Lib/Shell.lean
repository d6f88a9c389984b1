import Mathlib.Tactic.Common

/-!
# Shell scripts under `set -e`

A script is a tree of commands over a state `S`. A simple command is a function that
changes the state and has an exit status, 0 for success. Under `errexit` a failing
command ends the script, except where its status is looked at: in the condition of an
`if`, on the left of `||`, and anywhere below such a place, function bodies included.
`exec guarded` runs a command; `guarded` says that it stands in such a place.

`Cmd.Keeps` is the invariant rule: what every simple command of a script keeps, the
script keeps, however it ends.

A script can also be killed at any time. `execFor k` runs it until it has been through `k`
simple commands; given enough of them it is `exec` (`execFor_finishes`).
-/

namespace Shell

variable {S : Type}

inductive Cmd (S : Type) where
  /-- A simple command. -/
  | call (f : S → S × Nat)
  /-- `c; d` -/
  | seq (c d : Cmd S)
  /-- `c || d` -/
  | orElse (c d : Cmd S)
  /-- `if c; then t; else e; fi` -/
  | cond (c t e : Cmd S)
  | exit (status : Nat)

inductive Result (S : Type) where
  /-- The command is through, and the script goes on. -/
  | returned (s : S) (status : Nat)
  /-- The script has ended. -/
  | exited (s : S) (status : Nat)

def Result.state : Result S → S
  | .returned s _ => s
  | .exited s _ => s

/-- Go on after a command that has returned. -/
def Result.andThen (r : Result S) (k : S → Nat → Result S) : Result S :=
  match r with
  | .returned s n => k s n
  | .exited s n => .exited s n

def exec : (guarded : Bool) → Cmd S → S → Result S
  | guarded, .call f, s =>
    if (f s).2 ≠ 0 ∧ guarded = false then .exited (f s).1 (f s).2 else .returned (f s).1 (f s).2
  | guarded, .seq c d, s => (exec guarded c s).andThen (fun s' _ => exec guarded d s')
  | guarded, .orElse c d, s =>
    (exec true c s).andThen (fun s' n => if n = 0 then .returned s' 0 else exec guarded d s')
  | guarded, .cond c t e, s =>
    (exec true c s).andThen (fun s' n => if n = 0 then exec guarded t s' else exec guarded e s')
  | _, .exit n, s => .exited s n

section Exec

variable {g : Bool} {c d t e : Cmd S} {s : S}

theorem exec_call {f : S → S × Nat} : exec g (.call f) s
    = if (f s).2 ≠ 0 ∧ g = false then .exited (f s).1 (f s).2 else .returned (f s).1 (f s).2 := rfl

theorem exec_seq :
    exec g (.seq c d) s = (exec g c s).andThen (fun s' _ => exec g d s') := rfl

theorem exec_orElse : exec g (.orElse c d) s
    = (exec true c s).andThen (fun s' n => if n = 0 then .returned s' 0 else exec g d s') := rfl

theorem exec_cond : exec g (.cond c t e) s
    = (exec true c s).andThen (fun s' n => if n = 0 then exec g t s' else exec g e s') := rfl

theorem exec_exit {n : Nat} : exec g (.exit n : Cmd S) s = .exited s n := rfl

end Exec

namespace Cmd

/-- A command that does nothing but have a status. -/
def status (n : Nat) : Cmd S := .call (fun s => (s, n))

def skip : Cmd S := status 0

/-- An assignment. -/
def assign (f : S → S) : Cmd S := .call (fun s => (f s, 0))

/-- `[[ p ]]` -/
def test (p : S → Bool) : Cmd S := .call (fun s => (s, if p s then 0 else 1))

/-- `if c; then t; fi` -/
def when (c t : Cmd S) : Cmd S := .cond c t skip

/-- `if ! c; then t; fi` -/
def ifNot (c t : Cmd S) : Cmd S := .cond c skip t

/-- Commands on lines of their own. -/
def block : List (Cmd S) → Cmd S
  | [] => skip
  | [c] => c
  | c :: cs => .seq c (block cs)

/-- Every simple command in the script keeps `I`. -/
def Keeps (I : S → Prop) : Cmd S → Prop
  | .call f => ∀ s, I s → I (f s).1
  | .seq c d => c.Keeps I ∧ d.Keeps I
  | .orElse c d => c.Keeps I ∧ d.Keeps I
  | .cond c t e => c.Keeps I ∧ t.Keeps I ∧ e.Keeps I
  | .exit _ => True

end Cmd

theorem Result.andThen_keeps {I : S → Prop} {r : Result S} {k : S → Nat → Result S}
    (hr : I r.state) (hk : ∀ s n, I s → I (k s n).state) : I (r.andThen k).state := by
  cases r with
  | returned s n => exact hk s n hr
  | exited s n => exact hr

/-- **The invariant rule.** -/
theorem exec_keeps {I : S → Prop} {c : Cmd S} (hc : c.Keeps I) {g : Bool} {s : S} (hs : I s) :
    I (exec g c s).state := by
  induction c generalizing g s with
  | call f =>
      rw [exec_call]
      split
      · exact hc s hs
      · exact hc s hs
  | seq c d ihc ihd =>
      rw [exec_seq]
      exact Result.andThen_keeps (ihc hc.1 hs) (fun s' _ hs' => ihd hc.2 hs')
  | orElse c d ihc ihd =>
      rw [exec_orElse]
      refine Result.andThen_keeps (ihc hc.1 hs) (fun s' n hs' => ?_)
      split
      · exact hs'
      · exact ihd hc.2 hs'
  | cond c t e ihc iht ihe =>
      rw [exec_cond]
      refine Result.andThen_keeps (ihc hc.1 hs) (fun s' n hs' => ?_)
      split
      · exact iht hc.2.1 hs'
      · exact ihe hc.2.2 hs'
  | exit n => exact hs

/-! ## Running a block line by line -/

section Block

variable {g : Bool} {c d t : Cmd S} {cs : List (Cmd S)} {s s' : S} {n : Nat}

theorem exec_block_returned (h : exec g c s = .returned s' n) :
    exec g (.block (c :: d :: cs)) s = exec g (.block (d :: cs)) s' := by
  change exec g (.seq c (.block (d :: cs))) s = _
  rw [exec_seq, h]; rfl

theorem exec_block_exited (h : exec g c s = .exited s' n) :
    exec g (.block (c :: d :: cs)) s = .exited s' n := by
  change exec g (.seq c (.block (d :: cs))) s = _
  rw [exec_seq, h]; rfl

/-- `c; exit k` ends in the state that `c` leaves. -/
theorem exec_then_exit (k : Nat) :
    (exec g (.block [c, .exit k]) s).state = (exec g c s).state := by
  change (exec g (.seq c (.exit k)) s).state = _
  rw [exec_seq]
  cases exec g c s <;> rfl

/-- A guarded command goes on with its status. -/
theorem exec_call_guarded (f : S → S × Nat) :
    exec true (.call f) s = .returned (f s).1 (f s).2 := by
  rw [exec_call, if_neg (by simp)]

theorem exec_skip : exec g .skip s = .returned s 0 := by
  rw [Cmd.skip, Cmd.status, exec_call, if_neg (by simp)]

theorem exec_when_ok (h : exec true c s = .returned s' 0) :
    exec g (.when c t) s = exec g t s' := by
  rw [Cmd.when, exec_cond, h]; rfl

theorem exec_when_fail (h : exec true c s = .returned s' n) (hn : n ≠ 0) :
    exec g (.when c t) s = .returned s' 0 := by
  rw [Cmd.when, exec_cond, h]
  change (if n = 0 then _ else _) = _
  rw [if_neg hn, exec_skip]

end Block

/-! ## What a script that goes on has been through -/

/-- The command never hands back: it ends in `exit` on every way through. -/
def Cmd.Ends : Cmd S → Prop
  | .call _ => False
  | .seq c d => c.Ends ∨ d.Ends
  | .orElse c _ => c.Ends
  | .cond c t e => c.Ends ∨ (t.Ends ∧ e.Ends)
  | .exit _ => True

section Returned

variable {g : Bool} {c d t : Cmd S} {cs : List (Cmd S)} {s s' : S} {n k : Nat}

theorem Result.andThen_returned {r : Result S} {f : S → Nat → Result S}
    (h : r.andThen f = .returned s' n) : ∃ s₁ m, r = .returned s₁ m ∧ f s₁ m = .returned s' n := by
  cases r with
  | returned s₁ m => exact ⟨s₁, m, rfl, h⟩
  | exited s₁ m => exact absurd h (by simp [Result.andThen])

theorem Cmd.ends_exit (k : Nat) : (Cmd.exit k : Cmd S).Ends := trivial

theorem Cmd.Ends.not_returned (hc : c.Ends) : exec g c s ≠ .returned s' n := by
  induction c generalizing g s s' n with
  | call f => exact hc.elim
  | seq c d ihc ihd =>
      intro h
      rw [exec_seq] at h
      obtain ⟨s₁, m, h1, h2⟩ := Result.andThen_returned h
      rcases hc with hc | hd
      · exact ihc hc h1
      · exact ihd hd h2
  | orElse c d ihc _ =>
      intro h
      rw [exec_orElse] at h
      obtain ⟨s₁, m, h1, -⟩ := Result.andThen_returned h
      exact ihc hc h1
  | cond c t e ihc iht ihe =>
      intro h
      rw [exec_cond] at h
      obtain ⟨s₁, m, h1, h2⟩ := Result.andThen_returned h
      rcases hc with hc | ⟨ht, he⟩
      · exact ihc hc h1
      · split at h2
        · exact iht ht h2
        · exact ihe he h2
  | exit k => intro h; exact absurd h (by simp [exec_exit])

theorem returned_block (h : exec g (.block (c :: d :: cs)) s = .returned s' n) :
    ∃ s₁ m, exec g c s = .returned s₁ m ∧ exec g (.block (d :: cs)) s₁ = .returned s' n := by
  have hseq : exec g (.seq c (.block (d :: cs))) s = .returned s' n := h
  rw [exec_seq] at hseq
  exact Result.andThen_returned hseq

theorem returned_skip (h : exec g .skip s = .returned s' n) : s' = s ∧ n = 0 := by
  rw [exec_skip] at h
  obtain ⟨hs, hn⟩ := Result.returned.inj h
  exact ⟨hs.symm, hn.symm⟩

/-- A command whose status nobody looks at went well. -/
theorem returned_call {f : S → S × Nat} (h : exec false (.call f) s = .returned s' n) :
    (f s).2 = 0 ∧ s' = (f s).1 := by
  rw [exec_call] at h
  by_cases hf : (f s).2 = 0
  · rw [if_neg (by simp [hf])] at h
    exact ⟨hf, (Result.returned.inj h).1.symm⟩
  · rw [if_pos ⟨hf, rfl⟩] at h
    exact absurd h (by simp)

theorem returned_status (h : exec false (.status k) s = .returned s' n) : k = 0 ∧ s' = s :=
  returned_call h

theorem returned_status_zero (h : exec g (.status k) s = .returned s' 0) : k = 0 ∧ s' = s := by
  rw [Cmd.status, exec_call] at h
  split at h
  · exact absurd h (by simp)
  · obtain ⟨hs, hk⟩ := Result.returned.inj h
    exact ⟨hk, hs.symm⟩

theorem returned_test {p : S → Bool} (h : exec true (.test p) s = .returned s' n) :
    s' = s ∧ (n = 0 ↔ p s = true) := by
  rw [Cmd.test, exec_call, if_neg (by simp)] at h
  obtain ⟨hs, hn⟩ := Result.returned.inj h
  refine ⟨hs.symm, ?_⟩
  rw [← hn]
  cases p s <;> simp

/-- `if ! c; then t; fi`, where `t` ends the script. -/
theorem returned_ifNot (ht : t.Ends) (h : exec g (.ifNot c t) s = .returned s' n) :
    exec true c s = .returned s' 0 := by
  rw [Cmd.ifNot, exec_cond] at h
  obtain ⟨s₁, m, hc, h⟩ := Result.andThen_returned h
  by_cases hm : m = 0
  · rw [if_pos hm] at h
    rw [hc, hm, (returned_skip h).1]
  · rw [if_neg hm] at h
    exact absurd h ht.not_returned

/-- `if c; then t; fi`, where `t` ends the script. -/
theorem returned_when (ht : t.Ends) (h : exec g (.when c t) s = .returned s' n) :
    ∃ m, exec true c s = .returned s' m ∧ m ≠ 0 := by
  rw [Cmd.when, exec_cond] at h
  obtain ⟨s₁, m, hc, h⟩ := Result.andThen_returned h
  by_cases hm : m = 0
  · rw [if_pos hm] at h
    exact absurd h ht.not_returned
  · rw [if_neg hm] at h
    rw [← (returned_skip h).1] at hc
    exact ⟨m, hc, hm⟩

/-- `c || t`, where `t` ends the script. -/
theorem returned_orElse (ht : t.Ends) (h : exec g (.orElse c t) s = .returned s' n) :
    exec true c s = .returned s' 0 := by
  rw [exec_orElse] at h
  obtain ⟨s₁, m, hc, h⟩ := Result.andThen_returned h
  by_cases hm : m = 0
  · rw [if_pos hm] at h
    rw [hc, hm, (Result.returned.inj h).1]
  · rw [if_neg hm] at h
    exact absurd h ht.not_returned

end Returned

/-! ## Scripts that are killed -/

/-- What has become of a script that is killed after some number of simple commands. -/
inductive Cut (S : Type) where
  | killed (s : S)
  /-- It was through before, with so many of them to spare. -/
  | through (r : Result S) (left : Nat)

def Cut.state : Cut S → S
  | .killed s => s
  | .through r _ => r.state

/-- Go on after a command that has returned. -/
def Cut.andThen (c : Cut S) (f : Nat → S → Nat → Cut S) : Cut S :=
  match c with
  | .killed s => .killed s
  | .through (.returned s n) k => f k s n
  | .through (.exited s n) k => .through (.exited s n) k

/-- `f`, if the command has returned, and `stopped` if the script ends in it. -/
def Cut.next {A : Type} (c : Cut S) (stopped : A) (f : Nat → S → A) : A :=
  match c with
  | .through (.returned s _) k => f k s
  | _ => stopped

/-- Run a command that is killed after `k` simple commands. -/
def execFor : Nat → (guarded : Bool) → Cmd S → S → Cut S
  | 0, _, .call _, s => .killed s
  | k + 1, g, .call f, s => .through (exec g (.call f) s) k
  | k, g, .seq c d, s => (execFor k g c s).andThen (fun k' s' _ => execFor k' g d s')
  | k, g, .orElse c d, s =>
    (execFor k true c s).andThen (fun k' s' n =>
      if n = 0 then .through (.returned s' 0) k' else execFor k' g d s')
  | k, g, .cond c t e, s =>
    (execFor k true c s).andThen (fun k' s' n =>
      if n = 0 then execFor k' g t s' else execFor k' g e s')
  | k, _, .exit n, s => .through (.exited s n) k

section Killed

variable {g : Bool} {c d t e : Cmd S} {cs : List (Cmd S)} {s : S} {k : Nat}

theorem execFor_seq : execFor k g (.seq c d) s
    = (execFor k g c s).andThen (fun k' s' _ => execFor k' g d s') := by
  cases k <;> rfl

theorem execFor_orElse : execFor k g (.orElse c d) s
    = (execFor k true c s).andThen (fun k' s' n =>
      if n = 0 then .through (.returned s' 0) k' else execFor k' g d s') := by
  cases k <;> rfl

theorem execFor_cond : execFor k g (.cond c t e) s
    = (execFor k true c s).andThen (fun k' s' n =>
      if n = 0 then execFor k' g t s' else execFor k' g e s') := by
  cases k <;> rfl

theorem execFor_exit {n : Nat} : execFor k g (.exit n) s = .through (.exited s n) k := by
  cases k <;> rfl

theorem execFor_block : execFor k g (.block (c :: d :: cs)) s
    = (execFor k g c s).andThen (fun k' s' _ => execFor k' g (.block (d :: cs)) s') :=
  execFor_seq

theorem Cut.andThen_keeps {I : S → Prop} {r : Cut S} {f : Nat → S → Nat → Cut S} (hr : I r.state)
    (hf : ∀ k s n, I s → I (f k s n).state) : I (r.andThen f).state := by
  match r with
  | .killed s => exact hr
  | .through (.returned s n) k => exact hf k s n hr
  | .through (.exited s n) k => exact hr

theorem andThen_of_through {r r' : Result S} {left : Nat} {C : Cut S} {f : Nat → S → Nat → Cut S}
    {F : S → Nat → Result S} (h : C.andThen f = .through r left)
    (hC : ∀ r₁ l, C = .through r₁ l → r' = r₁)
    (hf : ∀ k s n r₁ l, f k s n = .through r₁ l → F s n = r₁) : r'.andThen F = r := by
  match C, hC with
  | .killed s, _ => exact absurd h (by simp [Cut.andThen])
  | .through (.returned s n) k, hC =>
      rw [hC _ _ rfl]
      exact hf k s n r left h
  | .through (.exited s n) k, hC =>
      rw [hC _ _ rfl]
      exact (Cut.through.inj h).1

/-- What is through before it is killed ends as it would have ended anyway. -/
theorem exec_of_through {r : Result S} {left : Nat} (h : execFor k g c s = .through r left) :
    exec g c s = r := by
  induction c generalizing k g s r left with
  | call f =>
      -- only the calls are counted; the rest passes on what is left
      cases k with
      | zero => exact absurd h (by simp [execFor])
      | succ k => exact (Cut.through.inj h).1
  | seq c d ihc ihd =>
      rw [execFor_seq] at h
      exact andThen_of_through h (fun _ _ hc => ihc hc) (fun _ _ _ _ _ hd => ihd hd)
  | orElse c d ihc ihd =>
      rw [execFor_orElse] at h
      refine andThen_of_through h (fun _ _ hc => ihc hc) (fun k' s' n r₁ l hd => ?_)
      split at hd
      · rw [if_pos ‹_›]
        exact (Cut.through.inj hd).1
      · rw [if_neg ‹_›]
        exact ihd hd
  | cond c t e ihc iht ihe =>
      rw [execFor_cond] at h
      refine andThen_of_through h (fun _ _ hc => ihc hc) (fun k' s' n r₁ l hd => ?_)
      split at hd
      · rw [if_pos ‹_›]
        exact iht hd
      · rw [if_neg ‹_›]
        exact ihe hd
  | exit n =>
      rw [execFor_exit] at h
      exact (Cut.through.inj h).1

/-- The script ends in the command, in this state. -/
def Cut.Stops (r : Cut S) (s : S) : Prop := r = .killed s ∨ ∃ n k, r = .through (.exited s n) k

theorem Cut.Stops.state_eq {r : Cut S} (h : r.Stops s) : r.state = s := by
  rcases h with rfl | ⟨n, k, rfl⟩ <;> rfl

/-- A run goes on from where a command returns, or has ended in it. -/
theorem Cut.andThen_cases {A : Type} {r : Cut S} {f : Nat → S → Nat → Cut S} {I : S → A → Prop}
    {stopped : A} {next : Nat → S → A} (hstop : ∀ s, r.Stops s → I s stopped)
    (hgo : ∀ s n k, r = .through (.returned s n) k → I (f k s n).state (next k s)) :
    I (r.andThen f).state (r.next stopped next) := by
  match r with
  | .killed s => exact hstop s (.inl rfl)
  | .through (.returned s n) k => exact hgo s n k rfl
  | .through (.exited s n) k => exact hstop s (.inr ⟨n, k, rfl⟩)

theorem Cut.andThen_state {r : Cut S} {f : Nat → S → Nat → Cut S} {I : S → Prop}
    (hstop : ∀ s, r.Stops s → I s)
    (hgo : ∀ s n k, r = .through (.returned s n) k → I (f k s n).state) : I (r.andThen f).state :=
  @Cut.andThen_cases _ Unit r f (fun s _ => I s) () (fun _ _ => ()) hstop hgo

theorem Cut.andThen_assoc {r : Cut S} {f f' : Nat → S → Nat → Cut S} :
    (r.andThen f).andThen f' = r.andThen (fun k s n => (f k s n).andThen f') := by
  match r with
  | .killed s => rfl
  | .through (.returned s n) k => rfl
  | .through (.exited s n) k => rfl

/-- Nothing follows a command that never hands back. -/
theorem Cmd.Ends.andThen (hc : c.Ends) {f : Nat → S → Nat → Cut S} :
    (execFor k g c s).andThen f = execFor k g c s := by
  cases h : execFor k g c s with
  | killed s' => rfl
  | through r left =>
      cases r with
      | returned s' n => exact absurd (exec_of_through h) hc.not_returned
      | exited s' n => rfl

theorem stops_seq {s' : S} (h : (execFor k g (.seq c d) s).Stops s') :
    (execFor k g c s).Stops s'
      ∨ ∃ k' s₁ n, execFor k g c s = .through (.returned s₁ n) k' ∧ (execFor k' g d s₁).Stops s' := by
  rw [execFor_seq] at h
  cases hc : execFor k g c s with
  | killed s₁ => rw [hc] at h; exact .inl h
  | through r k' =>
      rw [hc] at h
      cases r with
      | returned s₁ n => exact .inr ⟨k', s₁, n, rfl, h⟩
      | exited s₁ n => exact .inl h

/-- A simple command that ends the script was not run, or failed. -/
theorem stops_call {f : S → S × Nat} {s' : S} (h : (execFor k g (.call f) s).Stops s') :
    s' = s ∨ (g = false ∧ (f s).2 ≠ 0 ∧ s' = (f s).1) := by
  cases k with
  | zero =>
      rcases h with h | ⟨n, k', h⟩
      · exact .inl (Cut.killed.inj h).symm
      · exact absurd h (by simp [execFor])
  | succ k =>
      rcases h with h | ⟨n, k', h⟩
      · exact absurd h (by simp [execFor])
      · obtain ⟨hr, -⟩ := Cut.through.inj h
        rw [exec_call] at hr
        split at hr
        · rename_i hf
          exact .inr ⟨hf.2, hf.1, (Result.exited.inj hr).1.symm⟩
        · exact absurd hr (by simp)

theorem returns_call {f : S → S × Nat} {s' : S} {n k' : Nat}
    (h : execFor k g (.call f) s = .through (.returned s' n) k') :
    s' = (f s).1 ∧ n = (f s).2 ∧ (g = false → (f s).2 = 0) := by
  have hr := exec_of_through h
  rw [exec_call] at hr
  split at hr
  · exact absurd hr (by simp)
  · rename_i hf
    obtain ⟨hs, hn⟩ := Result.returned.inj hr
    exact ⟨hs.symm, hn.symm, fun hg => by_contra fun hne => hf ⟨hne, hg⟩⟩

/-- **The invariant rule.** -/
theorem execFor_keeps {I : S → Prop} (hc : c.Keeps I) (hs : I s) : I (execFor k g c s).state := by
  induction c generalizing k g s with
  | call f =>
      cases k with
      | zero => exact hs
      | succ k => exact exec_keeps hc hs
  | seq c d ihc ihd =>
      rw [execFor_seq]
      exact Cut.andThen_keeps (ihc hc.1 hs) (fun k' s' _ hs' => ihd hc.2 hs')
  | orElse c d ihc ihd =>
      rw [execFor_orElse]
      refine Cut.andThen_keeps (ihc hc.1 hs) (fun k' s' n hs' => ?_)
      split
      · exact hs'
      · exact ihd hc.2 hs'
  | cond c t e ihc iht ihe =>
      rw [execFor_cond]
      refine Cut.andThen_keeps (ihc hc.1 hs) (fun k' s' n hs' => ?_)
      split
      · exact iht hc.2.1 hs'
      · exact ihe hc.2.2 hs'
  | exit n => rw [execFor_exit]; exact hs

theorem andThen_finishes (f : Nat → S → Nat → Cut S) (F : S → Nat → Result S)
    (hc : ∃ n, ∀ k, execFor (n + k) g c s = .through (exec g c s) k)
    (hf : ∀ s m, ∃ n, ∀ k, f (n + k) s m = .through (F s m) k) :
    ∃ n, ∀ k, (execFor (n + k) g c s).andThen f = .through ((exec g c s).andThen F) k := by
  obtain ⟨n, hn⟩ := hc
  cases hr : exec g c s with
  | returned s' m =>
      obtain ⟨n', hn'⟩ := hf s' m
      refine ⟨n + n', fun k => ?_⟩
      rw [Nat.add_assoc, hn, hr]
      exact hn' k
  | exited s' m => exact ⟨n, fun k => by rw [hn, hr]; rfl⟩

/-- Given enough time, a script is not killed. -/
theorem execFor_finishes (g : Bool) (c : Cmd S) (s : S) :
    ∃ n, ∀ k, execFor (n + k) g c s = .through (exec g c s) k := by
  induction c generalizing g s with
  | call f =>
      refine ⟨1, fun k => ?_⟩
      rw [Nat.add_comm]
      rfl
  | seq c d ihc ihd =>
      simp only [execFor_seq, exec_seq]
      exact andThen_finishes (fun k' s' _ => execFor k' g d s') (fun s' _ => exec g d s')
        (ihc g s) (fun s' _ => ihd g s')
  | orElse c d ihc ihd =>
      simp only [execFor_orElse, exec_orElse]
      refine andThen_finishes
        (fun k' s' n => if n = 0 then .through (.returned s' 0) k' else execFor k' g d s')
        (fun s' n => if n = 0 then .returned s' 0 else exec g d s') (ihc true s) (fun s' n => ?_)
      by_cases hn : n = 0
      · exact ⟨0, fun k => by rw [if_pos hn, if_pos hn, Nat.zero_add]⟩
      · simp only [if_neg hn]
        exact ihd g s'
  | cond c t e ihc iht ihe =>
      simp only [execFor_cond, exec_cond]
      refine andThen_finishes
        (fun k' s' n => if n = 0 then execFor k' g t s' else execFor k' g e s')
        (fun s' n => if n = 0 then exec g t s' else exec g e s') (ihc true s) (fun s' n => ?_)
      by_cases hn : n = 0
      · simp only [if_pos hn]
        exact iht g s'
      · simp only [if_neg hn]
        exact ihe g s'
  | exit n => exact ⟨0, fun k => by rw [execFor_exit, exec_exit, Nat.zero_add]⟩

end Killed

end Shell
