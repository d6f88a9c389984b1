import Mathlib.Data.List.Basic
import Mathlib.Tactic.Common

/-!
# Runs of a partial step function

A system is a function `step : S → A → Option S`: in state `s` the action `a` is
either not enabled (`none`) or leads to one state. A *trace* records the steps a run
took, each as the state it started from and the action, so that a condition on the
steps of a run is a condition on the members of a list.

Two rules carry every argument about runs. `Trace.invariant` proves a property of the
last state from what one step preserves; `Trace.map` carries a run along an abstraction
function, letting a step of the concrete system be a step of the abstract one or
nothing at all.
-/

namespace Transition

variable {S A T B : Type}

/-- `Trace step s tr t`: the steps `tr`, oldest first, lead from `s` to `t`. -/
inductive Trace (step : S → A → Option S) : S → List (S × A) → S → Prop where
  | nil (s : S) : Trace step s [] s
  | snoc {s t u : S} {tr : List (S × A)} {a : A} :
      Trace step s tr t → step t a = some u → Trace step s (tr ++ [(t, a)]) u

/-- Every step of the run meets the condition `G`. -/
def AllSteps (G : S → A → Prop) (tr : List (S × A)) : Prop :=
  ∀ x ∈ tr, G x.1 x.2

instance (G : S → A → Prop) [∀ s, DecidablePred (G s)] (tr : List (S × A)) :
    Decidable (AllSteps G tr) :=
  inferInstanceAs (Decidable (∀ x ∈ tr, G x.1 x.2))

@[simp] theorem allSteps_nil (G : S → A → Prop) : AllSteps G [] := by
  intro x hx; simp at hx

@[simp] theorem allSteps_snoc {G : S → A → Prop} {tr : List (S × A)} {s : S} {a : A} :
    AllSteps G (tr ++ [(s, a)]) ↔ AllSteps G tr ∧ G s a := by
  constructor
  · intro h
    exact ⟨fun x hx => h x (List.mem_append_left _ hx),
      h (s, a) (List.mem_append_right _ (List.mem_singleton.mpr rfl))⟩
  · rintro ⟨h, ha⟩ x hx
    rcases List.mem_append.mp hx with hx | hx
    · exact h x hx
    · rw [List.mem_singleton.mp hx]; exact ha

theorem AllSteps.mono {G H : S → A → Prop} {tr : List (S × A)} (h : AllSteps G tr)
    (himp : ∀ s a, G s a → H s a) : AllSteps H tr :=
  fun x hx => himp x.1 x.2 (h x hx)

namespace Trace

variable {step : S → A → Option S} {step' : T → B → Option T}

/-- **The invariant rule.** What holds at the start and is kept by every step that
meets the condition holds at the end of a run all of whose steps meet it. -/
theorem invariant {G : S → A → Prop} {I : S → Prop} {s t : S} {tr : List (S × A)}
    (hstep : ∀ t a u, I t → G t a → step t a = some u → I u)
    (hp : Trace step s tr t) (hg : AllSteps G tr) (hs : I s) : I t := by
  induction hp with
  | nil => exact hs
  | snoc _ hu ih =>
      obtain ⟨hg, ha⟩ := allSteps_snoc.mp hg
      exact hstep _ _ _ (ih hg) ha hu

/-- The unconditional form of the invariant rule. -/
theorem invariant' {I : S → Prop} {s t : S} {tr : List (S × A)}
    (hstep : ∀ t a u, I t → step t a = some u → I u)
    (hp : Trace step s tr t) (hs : I s) : I t :=
  hp.invariant (G := fun _ _ => True) (fun t a u h _ => hstep t a u h) (fun _ _ => trivial) hs

/-- The invariant holds of every state that a step of the run was taken from. -/
theorem invariant_steps {G : S → A → Prop} {I : S → Prop} {s t : S} {tr : List (S × A)}
    (hstep : ∀ t a u, I t → G t a → step t a = some u → I u)
    (hp : Trace step s tr t) (hg : AllSteps G tr) (hs : I s) : ∀ x ∈ tr, I x.1 := by
  induction hp with
  | nil => simp
  | @snoc t u tr a hp hu ih =>
      obtain ⟨hg, ha⟩ := allSteps_snoc.mp hg
      intro x hx
      rcases List.mem_append.mp hx with hx | hx
      · exact ih hg x hx
      · rw [List.mem_singleton.mp hx]
        exact hp.invariant hstep hg hs

theorem append {s t u : S} {tr tr' : List (S × A)}
    (h : Trace step s tr t) (h' : Trace step t tr' u) : Trace step s (tr ++ tr') u := by
  induction h' with
  | nil => simpa using h
  | snoc _ hu ih => rw [← List.append_assoc]; exact .snoc ih hu

/-- A run can be cut at any of its steps. -/
theorem split {s u : S} {tr : List (S × A)} (h : Trace step s tr u) {t : S} {a : A}
    (hmem : (t, a) ∈ tr) :
    ∃ tr₁ tr₂ t', tr = tr₁ ++ (t, a) :: tr₂ ∧ Trace step s tr₁ t ∧ step t a = some t'
      ∧ Trace step t' tr₂ u := by
  induction h with
  | nil => simp at hmem
  | @snoc t₀ u tr a₀ hp hu ih =>
      rcases List.mem_append.mp hmem with hm | hm
      · obtain ⟨tr₁, tr₂, t', rfl, h1, h2, h3⟩ := ih hm
        exact ⟨tr₁, tr₂ ++ [(t₀, a₀)], t', by simp, h1, h2, .snoc h3 hu⟩
      · obtain ⟨rfl, rfl⟩ := Prod.mk.inj (List.mem_singleton.mp hm)
        exact ⟨tr, [], u, rfl, hp, hu, .nil u⟩

/-- What every state of a run satisfies, its first one does. -/
theorem first {P : S → Prop} {s t : S} {tr : List (S × A)} (hp : Trace step s tr t)
    (h : (∀ x ∈ tr, P x.1) ∧ P t) : P s := by
  induction hp with
  | nil => exact h.2
  | @snoc t u tr a hp hu ih =>
      refine ih ⟨fun x hx => h.1 x (List.mem_append_left _ hx), ?_⟩
      exact h.1 (t, a) (List.mem_append_right _ (List.mem_singleton.mpr rfl))

/-- Among the runs all of whose steps meet `H`: every state a run goes through, its last
one included, satisfies `P` exactly when every step meets `G`, provided one step from a
good state leads to a good one exactly when it meets `G`. The invariant `I` is what the
argument may use about reachable states. -/
theorem forall_iff {G H : S → A → Prop} {I P : S → Prop} {s t : S} {tr : List (S × A)}
    (hI : ∀ t a u, I t → P t → H t a → G t a → step t a = some u → I u)
    (hstep : ∀ t a u, I t → P t → H t a → step t a = some u → (P u ↔ G t a))
    (hp : Trace step s tr t) (hh : AllSteps H tr) (hs : I s) (hP : P s) :
    ((∀ x ∈ tr, P x.1) ∧ P t) ↔ AllSteps G tr := by
  suffices h : (((∀ x ∈ tr, P x.1) ∧ P t) ↔ AllSteps G tr) ∧ (AllSteps G tr → I t) from h.1
  induction hp with
  | nil => simp [hs, hP]
  | @snoc t u tr a hp hu ih =>
      obtain ⟨hh, hha⟩ := allSteps_snoc.mp hh
      obtain ⟨ih, hIt⟩ := ih hh
      constructor
      · rw [allSteps_snoc, ← ih]
        constructor
        · rintro ⟨hall, hPu⟩
          -- `t` is the state the last step was taken from
          have hpre : (∀ x ∈ tr, P x.1) ∧ P t :=
            ⟨fun x hx => hall x (List.mem_append_left _ hx),
              hall (t, a) (List.mem_append_right _ (List.mem_singleton.mpr rfl))⟩
          exact ⟨hpre, (hstep t a u (hIt (ih.mp hpre)) hpre.2 hha hu).mp hPu⟩
        · rintro ⟨⟨hall, hPt⟩, hga⟩
          refine ⟨?_, (hstep t a u (hIt (ih.mp ⟨hall, hPt⟩)) hPt hha hu).mpr hga⟩
          intro x hx
          rcases List.mem_append.mp hx with hx | hx
          · exact hall x hx
          · rw [List.mem_singleton.mp hx]; exact hPt
      · intro hg
        obtain ⟨hg, ha⟩ := allSteps_snoc.mp hg
        exact hI t a u (hIt hg) (ih.mpr hg).2 hha ha hu

/-- The unconditional form: nothing but `P` is known of the states, and any step will do. -/
theorem forall_iff' {G : S → A → Prop} {P : S → Prop} {s t : S} {tr : List (S × A)}
    (hstep : ∀ t a u, P t → step t a = some u → (P u ↔ G t a))
    (hp : Trace step s tr t) (hP : P s) : ((∀ x ∈ tr, P x.1) ∧ P t) ↔ AllSteps G tr :=
  hp.forall_iff (H := fun _ _ => True) (I := fun _ => True) (fun _ _ _ _ _ _ _ _ => trivial)
    (fun t a u _ h _ => hstep t a u h) (fun _ _ => trivial) trivial hP

/-- **The simulation rule.** If every step of `step` is, seen through `f`, either
nothing or one step of `step'` that meets `H`, then every run maps to a run. The
invariant `I` of the concrete system may be used to match the steps. -/
theorem map {G : S → A → Prop} {H : T → B → Prop} {I : S → Prop} (f : S → T)
    (hI : ∀ t a u, I t → G t a → step t a = some u → I u)
    (hstep : ∀ t a u, I t → G t a → step t a = some u →
      f u = f t ∨ ∃ b, H (f t) b ∧ step' (f t) b = some (f u))
    {s t : S} {tr : List (S × A)} (hp : Trace step s tr t) (hg : AllSteps G tr) (hs : I s) :
    ∃ tr', Trace step' (f s) tr' (f t) ∧ AllSteps H tr' := by
  suffices h : (∃ tr', Trace step' (f s) tr' (f t) ∧ AllSteps H tr') ∧ I t from h.1
  induction hp with
  | nil => exact ⟨⟨[], .nil _, allSteps_nil H⟩, hs⟩
  | @snoc t u tr a _ hu ih =>
      obtain ⟨hg, ha⟩ := allSteps_snoc.mp hg
      obtain ⟨⟨tr', hp', hg'⟩, hIt⟩ := ih hg
      refine ⟨?_, hI t a u hIt ha hu⟩
      rcases hstep t a u hIt ha hu with he | ⟨b, hb, hu'⟩
      · exact ⟨tr', by rw [he]; exact hp', hg'⟩
      · exact ⟨tr' ++ [(f t, b)], .snoc hp' hu', allSteps_snoc.mpr ⟨hg', hb⟩⟩

end Trace

/-! ## Running a list of actions -/

/-- Run the actions in order; `none` as soon as one is not enabled. -/
def runs (step : S → A → Option S) : S → List A → Option S
  | s, [] => some s
  | s, a :: as => (step s a).bind (fun s' => runs step s' as)

/-- A run of two lists of actions is a run of the first and, from where it ends, one of the
second. -/
theorem runs_append {step : S → A → Option S} {as bs : List A} {s u : S} :
    runs step s (as ++ bs) = some u ↔ ∃ t, runs step s as = some t ∧ runs step t bs = some u := by
  induction as generalizing s with
  | nil => simp [runs]
  | cons a as ih =>
      simp only [List.cons_append, runs, Option.bind_eq_some_iff, ih]
      constructor
      · rintro ⟨s', hs, t, ht, hu⟩
        exact ⟨t, ⟨s', hs, ht⟩, hu⟩
      · rintro ⟨t, ⟨s', hs, ht⟩, hu⟩
        exact ⟨s', hs, t, ht, hu⟩

/-- Each state an action was taken from, with the action. -/
def trail (step : S → A → Option S) : S → List A → List (S × A)
  | _, [] => []
  | s, a :: as => (s, a) :: ((step s a).map (fun s' => trail step s' as)).getD []

/-- The actions of the steps are the ones on the list. -/
theorem mem_trail {step : S → A → Option S} {as : List A} {s : S} {x : S × A}
    (h : x ∈ trail step s as) : x.2 ∈ as := by
  induction as generalizing s with
  | nil => exact absurd h (by simp [trail])
  | cons a as ih =>
      rcases List.mem_cons.mp h with rfl | h
      · exact List.mem_cons_self
      · cases hs : step s a with
        | none => rw [hs] at h; exact absurd h (by simp)
        | some t => rw [hs] at h; exact List.mem_cons_of_mem _ (ih h)

theorem Trace.of_runs {step : S → A → Option S} :
    ∀ {as : List A} {s t : S}, runs step s as = some t → Trace step s (trail step s as) t
  | [], s, t, h => by
      obtain rfl : s = t := Option.some.inj h
      exact .nil s
  | a :: as, s, t, h => by
      obtain ⟨s', hs', ht⟩ := Option.bind_eq_some_iff.mp h
      have h1 : Trace step s [(s, a)] s' := .snoc (.nil s) hs'
      have h2 := h1.append (Trace.of_runs ht)
      simpa [trail, hs'] using h2

end Transition
