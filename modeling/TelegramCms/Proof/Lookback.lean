import TelegramCms.Model.World

/-!
# The lookback window of the two duplicate checks

`normalize` asks for a row within the lookback window; `publish` asks for a row, and
inserts one if its hash is free. A row leaves the window at a moment and the table with the
next daily prune, so until then `publish` drops what `normalize` has let through.

`duplicateChecks_agree_iff`: the two agree on a hash exactly if no row of it has left the
window.
-/

namespace TelegramCms

/-- `publish` takes its post for a duplicate: `_dedupe_exists` finds the hash, or
`_reserve_dedupe` does not get it. -/
def PublishDuplicate (v : View) (postId : Nat) (ctx : SendCtx) (h : Digest) : Prop :=
  (dedupeExists v ctx h).next = .goto (.duplicateLoad h)
    ∨ (dedupeExists v ctx h).next = .goto (.reserve ctx h)
      ∧ (reserveDedupe v postId ctx h).next = .goto (.duplicateLoad h)

/-- The row has left the lookback window. -/
def PublishedDedupe.Old (env : Env) (now : Time) (d : PublishedDedupe) : Prop :=
  d.publishedAt < now - days env.settings.dedupeLookbackDays

section Agreement

variable {env : Env} {v : View} {postId : Nat} {ctx : SendCtx} {h : Digest}

/-- What counts for `publish` is that there is a row. -/
theorem publishDuplicate_iff :
    PublishDuplicate v postId ctx h ↔ ∃ d ∈ v.db.dedupe.rows, d.dedupeHash = h := by
  unfold PublishDuplicate dedupeExists reserveDedupe
  cases hrow : v.db.dedupe.get h with
  | some d =>
      exact iff_of_true (.inl rfl) ⟨d, Table.mem_of_get hrow, Table.key_of_get hrow⟩
  | none =>
      refine iff_of_false ?_ (fun ⟨d, hd, hh⟩ => Table.get_eq_none.mp hrow d hd hh)
      rintro (hdup | ⟨-, hdup⟩)
      · exact absurd hdup (by simp [View.goto])
      · exact absurd hdup (by simp)

/-- What counts for `normalize` is that there is a row in the window. -/
theorem isDuplicate_iff_recent :
    isDuplicate env v.now v.db h = true
      ↔ ∃ d ∈ v.db.dedupe.rows, d.dedupeHash = h ∧ ¬ d.Old env v.now := by
  rw [isDuplicate, Option.any_eq_true]
  constructor
  · rintro ⟨d, hd, hin⟩
    exact ⟨d, Table.mem_of_get hd, Table.key_of_get hd, not_lt.mpr (of_decide_eq_true hin)⟩
  · rintro ⟨d, hd, rfl, hin⟩
    exact ⟨d, Table.get_of_mem hd, decide_eq_true (not_lt.mp hin)⟩

/--
**The two checks agree on a hash exactly if no row of it has left the window.**

`publish` asks whether there is a row at all, `normalize` whether there is one in the window.
Since the hash is the key of the table, a row in the window is the row there is.
-/
theorem duplicateChecks_agree_iff (env : Env) (v : View) (postId : Nat) (ctx : SendCtx)
    (h : Digest) :
    (PublishDuplicate v postId ctx h ↔ isDuplicate env v.now v.db h = true)
      ↔ ∀ d ∈ v.db.dedupe.rows, d.dedupeHash = h → ¬ d.Old env v.now := by
  rw [publishDuplicate_iff, isDuplicate_iff_recent]
  constructor
  · intro hagree d hd hh
    obtain ⟨d', hd', hh', hin⟩ := hagree.mp ⟨d, hd, hh⟩
    -- the hash is the key
    have hget := Table.get_of_mem hd'
    rw [hh', ← hh, Table.get_of_mem hd] at hget
    rw [Option.some.inj hget]
    exact hin
  · intro hnew
    constructor
    · rintro ⟨d, hd, hh⟩
      exact ⟨d, hd, hh, hnew d hd hh⟩
    · rintro ⟨d, hd, hh, -⟩
      exact ⟨d, hd, hh⟩

/-- A row that has just left the window still blocks `publish`. -/
theorem duplicateChecks_disagree :
    ¬ ∀ (env : Env) (v : View) (postId : Nat) (ctx : SendCtx) (h : Digest),
      PublishDuplicate v postId ctx h ↔ isDuplicate env v.now v.db h = true := by
  intro hall
  have hiff := hall (sampleEnv {})
    ⟨days 8, { dedupe := Table.empty.insert ⟨digestOfPair, 0, 0, 1⟩ }, 1, true⟩ 2
    ⟨[], [], some digestOfPair, none⟩ digestOfPair
  exact absurd (hiff.mp (.inl (by decide +kernel))) (by decide +kernel)

end Agreement

/-- They agree on every hash exactly if the prune has nothing to do. -/
theorem duplicateChecks_agree_iff_pruned (env : Env) (w : World) (i : Nat) :
    (∀ (postId : Nat) (ctx : SendCtx) (h : Digest),
        PublishDuplicate (w.view i) postId ctx h ↔ isDuplicate env w.now w.db h = true)
      ↔ w.pruneDedupeRows (w.now - days env.settings.dedupeLookbackDays) = w := by
  have hagree : ∀ postId ctx h,
      (PublishDuplicate (w.view i) postId ctx h ↔ isDuplicate env w.now w.db h = true)
        ↔ ∀ d ∈ w.db.dedupe.rows, d.dedupeHash = h → ¬ d.Old env w.now :=
    duplicateChecks_agree_iff env (w.view i)
  simp only [hagree]
  constructor
  · intro hnew
    have hkept := Table.filter_eq_self.mpr (fun d hd =>
      decide_eq_true (not_lt.mp (hnew 0 ⟨[], [], none, none⟩ d.dedupeHash d hd rfl)))
    rw [World.pruneDedupeRows, hkept]
  · intro hsame _ _ h d hd _
    have hkept := Table.filter_eq_self.mp (congrArg (fun w => w.db.dedupe) hsame) d hd
    exact not_lt.mpr (of_decide_eq_true hkept)

end TelegramCms
