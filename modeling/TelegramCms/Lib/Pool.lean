import TelegramCms.Lib.Transition

/-!
# Parties at work on a shared store

A *pool* is a store and the parties that work on it. A party stands at some place of
its program; from there it takes one atomic step on the store when the call it waits
for answers, and stands at the next place or is through. Parties come in at any time,
move in any order, and may die where they stand.

A `Program` says where a request enters and what one step does. `Program.step` is the
step function of the whole pool, so the rules on runs apply to it; `Program.step_cases`
is all that an argument about a step of the pool has to look at.
-/

namespace Concurrent

open Transition

variable {D P Q R : Type}

/-- What a party does: where a request enters, and what one step does to the store and
to the party. A party that is through has no place. -/
structure Program (D P Q R : Type) where
  enter : Q → P
  next : D → P → R → Option (D × Option P)

structure Pool (D P : Type) where
  store : D
  /-- In the order they came in; a party that is through leaves `none`. -/
  parties : List (Option P) := []

inductive Act (Q R : Type) where
  /-- A request comes in. -/
  | start (q : Q)
  /-- The call party `i` waits for answers. -/
  | move (i : Nat) (r : R)
  /-- Party `i` dies. -/
  | die (i : Nat)

/-- Where party `i` stands. -/
def Pool.party (w : Pool D P) (i : Nat) : Option P := (w.parties[i]?).join

def Program.step (prog : Program D P Q R) (w : Pool D P) : Act Q R → Option (Pool D P)
  | .start q => some { w with parties := w.parties ++ [some (prog.enter q)] }
  | .move i r =>
    match w.party i with
    | none => none
    | some p => (prog.next w.store p r).map (fun x => ⟨x.1, w.parties.set i x.2⟩)
  | .die i => some { w with parties := w.parties.set i none }

variable {prog : Program D P Q R} {w w' : Pool D P}

theorem Program.step_start {q : Q} (h : prog.step w (.start q) = some w') :
    w' = { w with parties := w.parties ++ [some (prog.enter q)] } :=
  (Option.some.inj h).symm

theorem Program.step_move {i : Nat} {r : R} (h : prog.step w (.move i r) = some w') :
    ∃ p x, w.party i = some p ∧ prog.next w.store p r = some x
      ∧ w' = ⟨x.1, w.parties.set i x.2⟩ := by
  rw [Program.step] at h
  cases hp : w.party i with
  | none => rw [hp] at h; exact absurd h (by simp)
  | some p =>
      rw [hp] at h
      obtain ⟨x, hx, rfl⟩ := Option.map_eq_some_iff.mp h
      exact ⟨p, x, rfl, hx, rfl⟩

theorem Program.step_of_next {i : Nat} {p : P} {r : R} {x : D × Option P}
    (hp : w.party i = some p) (hx : prog.next w.store p r = some x) :
    prog.step w (.move i r) = some ⟨x.1, w.parties.set i x.2⟩ := by
  simp only [Program.step, hp, hx, Option.map_some]

/-- Only a move of a party touches the store. -/
theorem Program.step_cases {a : Act Q R} (h : prog.step w a = some w') :
    w'.store = w.store ∨ ∃ i r p x, a = .move i r ∧ w.party i = some p
      ∧ prog.next w.store p r = some x ∧ w' = ⟨x.1, w.parties.set i x.2⟩ := by
  cases a with
  | start q => left; rw [step_start h]
  | die i => left; rw [← Option.some.inj h]
  | move i r =>
      obtain ⟨p, x, hp, hx, hw⟩ := step_move h
      exact .inr ⟨i, r, p, x, rfl, hp, hx, hw⟩

/-- The store has the property `I` throughout a run exactly if every move of the run meets
`G`, provided a move from a good store leads to a good one exactly if it meets `G`. -/
theorem Program.forall_store_iff {I : D → Prop} {G : Pool D P → Act Q R → Prop}
    (hstart : ∀ w q, G w (.start q)) (hdie : ∀ w i, G w (.die i))
    (hmove : ∀ w i r p x, I w.store → w.party i = some p → prog.next w.store p r = some x →
      (I x.1 ↔ G w (.move i r)))
    {w₀ : Pool D P} {tr : List (Pool D P × Act Q R)} (h : Trace prog.step w₀ tr w)
    (h0 : I w₀.store) :
    ((∀ x ∈ tr, I x.1.store) ∧ I w.store) ↔ AllSteps G tr := by
  refine h.forall_iff' (P := fun w => I w.store) ?_ h0
  intro w a w' hI hs
  cases a with
  | start q =>
      rw [step_start hs]
      exact iff_of_true hI (hstart w q)
  | die i =>
      rw [← Option.some.inj hs]
      exact iff_of_true hI (hdie w i)
  | move i r =>
      obtain ⟨p, x, hp, hx, rfl⟩ := step_move hs
      exact hmove w i r p x hI hp hx

/-! ## What holds of every party -/

theorem Pool.party_append {p : P} {i : Nat} {q : P}
    (h : Pool.party ⟨w.store, w.parties ++ [some p]⟩ i = some q) : w.party i = some q ∨ q = p := by
  rw [Pool.party, List.getElem?_append] at h
  split at h
  · exact .inl h
  · refine .inr ?_
    rw [List.getElem?_singleton] at h
    split at h
    · exact (Option.some.inj h).symm
    · cases h

theorem Pool.party_set {d : D} {i j : Nat} {x : Option P} {q : P}
    (h : Pool.party ⟨d, w.parties.set i x⟩ j = some q) : w.party j = some q ∨ x = some q := by
  rw [Pool.party, List.getElem?_set] at h
  split at h
  · split at h
    · exact .inr h
    · cases h
  · exact .inl h

/-- What a party has from the first and keeps in its own moves holds of every party of a run,
whatever the store and the others do. -/
theorem Program.forall_party {I : P → Prop} (henter : ∀ q, I (prog.enter q))
    (hnext : ∀ d p r x, I p → prog.next d p r = some x → ∀ p' ∈ x.2, I p')
    {w₀ : Pool D P} {tr : List (Pool D P × Act Q R)} (h : Trace prog.step w₀ tr w)
    (h0 : ∀ i p, w₀.party i = some p → I p) : ∀ i p, w.party i = some p → I p := by
  refine h.invariant' (I := fun w => ∀ i p, w.party i = some p → I p) ?_ h0
  intro w a w' hI hs j q hq
  cases a with
  | start q' =>
      rw [step_start hs] at hq
      rcases Pool.party_append hq with hold | rfl
      · exact hI j q hold
      · exact henter q'
  | die i =>
      rw [← Option.some.inj hs] at hq
      rcases Pool.party_set hq with hold | hnew
      · exact hI j q hold
      · cases hnew
  | move i r =>
      obtain ⟨p, x, hp, hx, rfl⟩ := step_move hs
      rcases Pool.party_set hq with hold | hnew
      · exact hI j q hold
      · exact hnext w.store p r x (hI i p hp) hx q hnew

end Concurrent
