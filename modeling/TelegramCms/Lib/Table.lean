import Mathlib.Data.List.Nodup
import Mathlib.Tactic.Common

/-!
# Tables with a unique key

A table is a list of rows no two of which share a key: the uniqueness constraint is a
field, so a table with a duplicate cannot be built. The operations are the ones SQL
statements on a keyed table need: look a row up, update it in place, insert it if its
key is free, delete the rows that fail a test.
-/

/-- Rows of type `ρ`, unique by `key`. -/
structure Table (κ ρ : Type) (key : ρ → κ) where
  rows : List ρ
  /-- No two rows share a key. -/
  unique : (rows.map key).Nodup

namespace Table

variable {κ ρ : Type} [DecidableEq κ] {key : ρ → κ}

/-- The empty table. -/
def empty : Table κ ρ key := ⟨[], List.nodup_nil⟩

/-- The row with key `k`. -/
def get (t : Table κ ρ key) (k : κ) : Option ρ :=
  t.rows.find? (fun r => key r = k)

/-- Replace the row with key `k`, if there is one, by its image under `f`. -/
def update (t : Table κ ρ key) (k : κ) (f : ρ → ρ) (hf : ∀ r, key (f r) = key r) :
    Table κ ρ key where
  rows := t.rows.map (fun r => if key r = k then f r else r)
  unique := by
    rw [List.map_map]
    have he : key ∘ (fun r => if key r = k then f r else r) = key := by
      funext r; simp only [Function.comp]; split
      · exact hf r
      · rfl
    rw [he]; exact t.unique

/-- Replace every row by its image under `f`. -/
def mapRows (t : Table κ ρ key) (f : ρ → ρ) (hf : ∀ r, key (f r) = key r) : Table κ ρ key where
  rows := t.rows.map f
  unique := by
    have he : key ∘ f = key := by funext r; exact hf r
    rw [List.map_map, he]; exact t.unique

/-- Add a row at the end; an existing row with its key wins. -/
def insert (t : Table κ ρ key) (r : ρ) : Table κ ρ key :=
  if h : key r ∈ t.rows.map key then t
  else
    { rows := t.rows ++ [r]
      unique := by
        rw [List.map_append, List.nodup_append]
        refine ⟨t.unique, by simp, ?_⟩
        intro a ha b hb he
        simp only [List.map_cons, List.map_nil, List.mem_singleton] at hb
        subst hb; subst he; exact h ha }

/-- Keep the rows that pass the test. -/
def filter (t : Table κ ρ key) (p : ρ → Bool) : Table κ ρ key where
  rows := t.rows.filter p
  unique := t.unique.sublist (List.filter_sublist.map key)

/-- Drop the row with key `k`. -/
def delete (t : Table κ ρ key) (k : κ) : Table κ ρ key :=
  t.filter (fun r => key r ≠ k)

/-- A key no row has. -/
def fresh {key : ρ → Nat} (t : Table Nat ρ key) : Nat := (t.rows.map key).foldr max 0 + 1

variable {t : Table κ ρ key} {k k' : κ} {r : ρ}

/-! ## Keys -/

theorem le_foldr_max {l : List Nat} {x : Nat} (h : x ∈ l) : x ≤ l.foldr max 0 := by
  induction l with
  | nil => simp at h
  | cons y ys ih =>
    rcases List.mem_cons.mp h with rfl | h
    · exact Nat.le_max_left _ _
    · exact Nat.le_trans (ih h) (Nat.le_max_right _ _)

theorem lt_fresh {key : ρ → Nat} {t : Table Nat ρ key} {r : ρ} (h : r ∈ t.rows) :
    key r < t.fresh :=
  Nat.lt_succ_of_le (le_foldr_max (List.mem_map_of_mem h))

/-! ## Looking up -/

@[simp] theorem get_empty : (empty : Table κ ρ key).get k = none := rfl

theorem key_of_get (h : t.get k = some r) : key r = k := by
  simpa using List.find?_some h

theorem mem_of_get (h : t.get k = some r) : r ∈ t.rows :=
  List.mem_of_find?_eq_some h

theorem get_eq_none : t.get k = none ↔ ∀ r ∈ t.rows, key r ≠ k := by
  simp [get, List.find?_eq_none]

theorem get_of_mem (h : r ∈ t.rows) : t.get (key r) = some r := by
  cases hg : t.get (key r) with
  | none => exact absurd rfl (get_eq_none.mp hg r h)
  | some q =>
      have hq := mem_of_get hg
      rw [List.inj_on_of_nodup_map t.unique hq h (key_of_get hg)]

/-! ## Looking up after a statement -/

theorem get_update_self {f : ρ → ρ} {hf : ∀ r, key (f r) = key r} :
    (t.update k f hf).get k = (t.get k).map f := by
  simp only [get, update, List.find?_map]
  have he : ((fun r => decide (key r = k)) ∘ fun r => if key r = k then f r else r)
      = fun r => decide (key r = k) := by
    funext r; simp only [Function.comp]; split
    · rw [hf]
    · rfl
  rw [he]
  cases h : t.rows.find? (fun r => decide (key r = k)) with
  | none => rfl
  | some q =>
      have hq : key q = k := by simpa using List.find?_some h
      simp [hq]

theorem get_update_ne {f : ρ → ρ} {hf : ∀ r, key (f r) = key r} (h : k' ≠ k) :
    (t.update k f hf).get k' = t.get k' := by
  simp only [get, update, List.find?_map]
  have he : ((fun r => decide (key r = k')) ∘ fun r => if key r = k then f r else r)
      = fun r => decide (key r = k') := by
    funext r; simp only [Function.comp]; split
    · rw [hf]
    · rfl
  rw [he]
  cases hg : t.rows.find? (fun r => decide (key r = k')) with
  | none => rfl
  | some q =>
      have hq : key q = k' := by simpa using List.find?_some hg
      have : key q ≠ k := by rw [hq]; exact h
      simp [this]

theorem get_mapRows {f : ρ → ρ} {hf : ∀ r, key (f r) = key r} :
    (t.mapRows f hf).get k = (t.get k).map f := by
  simp only [get, mapRows, List.find?_map]
  have he : ((fun r => decide (key r = k)) ∘ f) = fun r => decide (key r = k) := by
    funext r; simp only [Function.comp, hf]
  rw [he]

theorem get_insert_self (h : t.get (key r) = none) : (t.insert r).get (key r) = some r := by
  have hn : key r ∉ t.rows.map key := by
    intro hm
    obtain ⟨q, hq, he⟩ := List.mem_map.mp hm
    exact get_eq_none.mp h q hq he
  rw [insert, dif_neg hn]
  simp only [get] at h ⊢
  rw [List.find?_append, h]
  simp

theorem get_insert_ne (h : k ≠ key r) : (t.insert r).get k = t.get k := by
  rw [insert]
  split
  · rfl
  · simp only [get, List.find?_append]
    have : ([r] : List ρ).find? (fun r => decide (key r = k)) = none := by
      simp [Ne.symm h]
    rw [this, Option.or_none]

/-- An insert leaves the rows that are there. -/
theorem get_insert_of_some {q : ρ} (h : t.get k = some q) : (t.insert r).get k = some q := by
  by_cases hk : k = key r
  · have hmem : key r ∈ t.rows.map key := by
      rw [← hk, ← key_of_get h]
      exact List.mem_map_of_mem (mem_of_get h)
    rw [insert, dif_pos hmem]
    exact h
  · rw [get_insert_ne hk]
    exact h

theorem mem_insert {q : ρ} (h : q ∈ (t.insert r).rows) : q ∈ t.rows ∨ q = r := by
  rw [insert] at h
  split at h
  · exact .inl h
  · exact (List.mem_append.mp h).imp_right List.mem_singleton.mp

omit [DecidableEq κ] in
theorem filter_eq_self {p : ρ → Bool} : t.filter p = t ↔ ∀ r ∈ t.rows, p r = true := by
  constructor
  · intro h
    exact List.filter_eq_self.mp (congrArg Table.rows h)
  · intro h
    cases t
    simp only [filter, mk.injEq]
    exact List.filter_eq_self.mpr h

theorem get_filter {p : ρ → Bool} : (t.filter p).get k = (t.get k).filter p := by
  cases hg : t.get k with
  | none =>
      rw [get_eq_none] at hg
      simp only [Option.filter_none, get_eq_none, filter]
      exact fun r hr => hg r (List.mem_of_mem_filter hr)
  | some q =>
      have hk := key_of_get hg
      cases hp : p q with
      | true =>
          have hm : q ∈ (t.filter p).rows := List.mem_filter.mpr ⟨mem_of_get hg, hp⟩
          rw [Option.filter_some, if_pos hp, ← hk, get_of_mem hm]
      | false =>
          rw [Option.filter_some, if_neg (by rw [hp]; simp), get_eq_none]
          intro r hr he
          obtain ⟨hr, hpr⟩ := List.mem_filter.mp hr
          have : r = q := by
            have := get_of_mem hr
            rw [he, hg] at this
            exact (Option.some.inj this).symm
          rw [this, hp] at hpr
          exact Bool.noConfusion hpr

@[simp] theorem get_delete_self : (t.delete k).get k = none := by
  rw [delete, get_filter]
  cases hg : t.get k with
  | none => rfl
  | some q => simp [key_of_get hg]

theorem get_delete_ne (h : k' ≠ k) : (t.delete k).get k' = t.get k' := by
  rw [delete, get_filter]
  cases hg : t.get k' with
  | none => rfl
  | some q => simp [key_of_get hg, h]

end Table
