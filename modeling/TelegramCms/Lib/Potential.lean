import Mathlib
import TelegramCms.Lib.Table
import TelegramCms.Lib.Transition

/-!
# Potentials

A potential pays for the work of a system: a step that works lowers it, and what comes from
outside raises it by no more than its cost. So the work of a run is bounded by the potential
it starts with and the costs of what came from outside (`Trace.work_le`); and where work can
be done as long as the system is not at rest, it comes to rest (`exists_rest`).

`Table.weight` is the potential of a table, the sum of those of its rows.
-/

namespace Transition

variable {S A : Type} {step : S → A → Option S}

/-- The sum of a number over the steps of a run. -/
def total (f : S → A → Nat) (tr : List (S × A)) : Nat := (tr.map fun x => f x.1 x.2).sum

@[simp] theorem total_nil (f : S → A → Nat) : total f [] = 0 := rfl

@[simp] theorem total_snoc (f : S → A → Nat) (tr : List (S × A)) (s : S) (a : A) :
    total f (tr ++ [(s, a)]) = total f tr + f s a := by
  simp [total]

/-- **The amortised rule.** -/
theorem Trace.work_le {Φ : S → Nat} {work cost : S → A → Nat}
    (hstep : ∀ s a t, step s a = some t → work s a + Φ t ≤ Φ s + cost s a)
    {s t : S} {tr : List (S × A)} (hp : Trace step s tr t) :
    total work tr + Φ t ≤ Φ s + total cost tr := by
  induction hp with
  | nil => simp
  | @snoc t u tr a _ hu ih =>
      have h := hstep t a u hu
      rw [total_snoc, total_snoc]
      omega

/-- **The rest rule.** A system that can lower its potential as long as it is not at rest can
come to rest. -/
theorem exists_rest {Φ : S → Nat} {G : S → A → Prop} {Rest : S → Prop}
    (hgo : ∀ s, ¬ Rest s → ∃ tr t, Trace step s tr t ∧ AllSteps G tr ∧ Φ t < Φ s) (s : S) :
    ∃ tr t, Trace step s tr t ∧ AllSteps G tr ∧ Rest t := by
  induction hn : Φ s using Nat.strongRecOn generalizing s with
  | ind n ih =>
      subst hn
      by_cases hrest : Rest s
      · exact ⟨[], s, .nil s, allSteps_nil G, hrest⟩
      · obtain ⟨tr, t, htr, hg, hlt⟩ := hgo s hrest
        obtain ⟨tr', u, htr', hg', hu⟩ := ih (Φ t) hlt t rfl
        refine ⟨tr ++ tr', u, htr.append htr', ?_, hu⟩
        intro x hx
        rcases List.mem_append.mp hx with hx | hx
        · exact hg x hx
        · exact hg' x hx

end Transition

namespace Table

variable {κ ρ : Type} [DecidableEq κ] {key : ρ → κ} {t : Table κ ρ key} {k : κ} {r : ρ} {f : ρ → Nat}

/-- The sum over the rows. -/
def weight (f : ρ → Nat) (t : Table κ ρ key) : Nat := (t.rows.map f).sum

/-- A table around the row with key `k`. -/
theorem exists_around (h : t.get k = some r) :
    ∃ l₁ l₂, t.rows = l₁ ++ r :: l₂ ∧ (t.delete k).rows = l₁ ++ l₂
      ∧ ∀ g hg, (t.update k g hg).rows = l₁ ++ g r :: l₂ := by
  obtain rfl := key_of_get h
  obtain ⟨l₁, l₂, hrows⟩ := List.append_of_mem (mem_of_get h)
  have hu := t.unique
  rw [hrows, List.map_append, List.map_cons, List.nodup_append] at hu
  have h₁ : ∀ x ∈ l₁, key x ≠ key r := fun x hx =>
    hu.2.2 _ (List.mem_map_of_mem hx) _ List.mem_cons_self
  have h₂ : ∀ x ∈ l₂, key x ≠ key r := fun x hx he =>
    (List.nodup_cons.mp hu.2.1).1 (he ▸ List.mem_map_of_mem hx)
  refine ⟨l₁, l₂, hrows, ?_, ?_⟩
  · have hf₁ : l₁.filter (fun x => decide (key x ≠ key r)) = l₁ :=
      List.filter_eq_self.mpr fun x hx => decide_eq_true (h₁ x hx)
    have hf₂ : l₂.filter (fun x => decide (key x ≠ key r)) = l₂ :=
      List.filter_eq_self.mpr fun x hx => decide_eq_true (h₂ x hx)
    show t.rows.filter (fun x => decide (key x ≠ key r)) = l₁ ++ l₂
    rw [hrows, List.filter_append, List.filter_cons_of_neg (by simp), hf₁, hf₂]
  · intro g hg
    have hm : ∀ l : List ρ, (∀ x ∈ l, key x ≠ key r) →
        l.map (fun x => if key x = key r then g x else x) = l := by
      intro l hl
      refine (List.map_congr_left fun x hx => if_neg (hl x hx)).trans (List.map_id' l)
    show t.rows.map (fun x => if key x = key r then g x else x) = l₁ ++ g r :: l₂
    rw [hrows, List.map_append, List.map_cons, hm l₁ h₁, hm l₂ h₂, if_pos rfl]

theorem weight_delete (h : t.get k = some r) : (t.delete k).weight f + f r = t.weight f := by
  obtain ⟨l₁, l₂, hrows, hdel, -⟩ := exists_around h
  simp only [weight, hrows, hdel, List.map_append, List.map_cons, List.sum_append, List.sum_cons]
  omega

theorem weight_update {g : ρ → ρ} {hg : ∀ r, key (g r) = key r} (h : t.get k = some r) :
    (t.update k g hg).weight f + f r = t.weight f + f (g r) := by
  obtain ⟨l₁, l₂, hrows, -, hup⟩ := exists_around h
  simp only [weight, hrows, hup g hg, List.map_append, List.map_cons, List.sum_append,
    List.sum_cons]
  omega

theorem weight_insert_le : (t.insert r).weight f ≤ t.weight f + f r := by
  rw [insert]
  split
  · exact Nat.le_add_right _ _
  · simp [weight]

end Table
