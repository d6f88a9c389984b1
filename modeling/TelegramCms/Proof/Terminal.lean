import TelegramCms.Proof.Rows

/-!
# Published is terminal

`_mark_published` alone writes `published_message_id`, and writes the state with it. The
other writers of the state go by the row they loaded, if they look at it at all. So the
two columns agree in every state of a run exactly where no commit of the run gives
another state to a row that is marked as published (`coherent_iff`).
-/

namespace TelegramCms

open Transition

namespace World

variable {env : Env} {w w' : World} {a : Action} {q : Nat} {row : Post}

/-- A post has a message id exactly when it is `published`. -/
def Coherent (w : World) : Prop :=
  ∀ q row, w.row q = some row → (row.publishedMessageId.isSome ↔ row.state = .published)

/-- No step gives another state to a post that has a message id. -/
abbrev Respectful (env : Env) : World → Action → Prop :=
  OnOk fun w i p => ∀ x ∈ p.assigns env (w.view i),
    ∀ row ∈ w.row x.1, row.publishedMessageId = none

/-! ## A message id stays -/

theorem changed_ne_none {α : Type} [DecidableEq α] {old : Option α} {b : α} :
    changed old (some b) ≠ some none := by
  intro h
  exact absurd (changed_eq_some h) (by simp)

/-- No assignment clears a message id. -/
theorem set_publishedMessageId {v : View} {p : Proc} {set : PostSet}
    (hs : p.set env v = some (q, set)) : set.publishedMessageId ≠ some none := by
  rcases set_cases hs with ⟨_, _, _, _, -, -, -, hm⟩ | ⟨hm, -⟩
  · rw [hm]; exact changed_ne_none
  · rw [hm]; simp

theorem isSome_apply {set : PostSet} (hs : set.publishedMessageId ≠ some none)
    (hr : row.publishedMessageId.isSome) : (set.apply row).publishedMessageId.isSome := by
  rw [PostSet.apply_publishedMessageId]
  match set.publishedMessageId, hs with
  | none, _ => exact hr
  | some (some _), _ => rfl

/-- So a post that has one keeps it. -/
theorem marked_step (h : step env w a = some w') (hrow : w.row q = some row)
    (hm : row.publishedMessageId.isSome) :
    ∃ row', w'.row q = some row' ∧ row'.publishedMessageId.isSome := by
  rcases row_step q h with he | ⟨i, p, set, row₀, -, -, hs, hr, he⟩ | ⟨_, _, _, -, hn, -⟩
  · exact ⟨row, by rw [he, hrow], hm⟩
  · obtain rfl := Option.some.inj (hrow.symm.trans hr)
    exact ⟨_, he, isSome_apply (set_publishedMessageId hs) hm⟩
  · rw [hn] at hrow; exact absurd hrow (by simp)

/-! ## The snapshot `_mark_published` goes by -/

/-- What a run is about to mark was loaded after the last mark. -/
def Fresh (w : World) : Prop :=
  ∀ i job ctx mid post, w.proc i = some (.publish job (.markCommit ctx mid post)) →
    (post.publishedMessageId.isSome ∨ post.state = .published) →
    ∃ row, w.row job.postId = some row ∧ row.publishedMessageId.isSome

/-- **One step**: a run comes to its commit by loading the post, and a mark that is there by then
stays. -/
theorem fresh_step (hn : Numbered w) (hf : Fresh w) (hc : Coherent w)
    (h : step env w a = some w') : Fresh w' := by
  intro i job ctx mid post hq hpost
  rcases publish_origin hn h hq with hp | ⟨r, pc, e, rfl, hp, hm, hnx, rfl⟩ | ⟨hpc, -, -⟩
  · obtain ⟨row, hrow, hm⟩ := hf i job ctx mid post hp hpost
    exact marked_step h hrow hm
  · cases hm with
    | markLoads hrow =>
        -- the snapshot is the row itself, where the two columns agree
        obtain ⟨-, -, rfl⟩ := PublishPc.markCommit.inj (Next.goto.inj hnx)
        refine ⟨_, hrow, ?_⟩
        rcases hpost with hpost | hpost
        · exact hpost
        · exact (hc _ _ hrow).mpr hpost
    | card hpc =>
        rcases hpc with ⟨_, _, -, rfl⟩ | ⟨-, _, rfl, -⟩ <;> exact absurd hnx (by simp [View.goto])
    | _ => exact absurd hnx (by simp [View.goto, publishFail, sendBegins, sendDelivered,
        releaseDedupe])
  · exact absurd hpc (by simp)

/-! ## One step -/

/-- A commit keeps the two columns together exactly when it respects the mark. -/
theorem coherent_row (hf : Fresh w) (hc : Coherent w) {i : Nat} {p : Proc} {set : PostSet}
    (hp : w.proc i = some p) (hs : p.set env (w.view i) = some (q, set))
    (hrow : w.row q = some row) :
    ((set.apply row).publishedMessageId.isSome ↔ (set.apply row).state = .published)
      ↔ ∀ s, p.assigns env (w.view i) = some (q, s) → row.publishedMessageId = none := by
  rw [PostSet.apply_publishedMessageId, PostSet.apply_state]
  rcases set_cases hs with ⟨job, ctx, mid, post, rfl, rfl, hst, hmid⟩ | ⟨hmid, ha⟩
  · -- `_mark_published` leaves both set
    have hmarked : (post.publishedMessageId.isSome ∨ post.state = .published) →
        row.publishedMessageId.isSome := by
      intro hpost
      obtain ⟨row', hr', hm'⟩ := hf i job ctx mid post hp hpost
      obtain rfl := Option.some.inj (hrow.symm.trans hr')
      exact hm'
    have h1 : (set.publishedMessageId.getD row.publishedMessageId).isSome := by
      rw [hmid, changed]
      split
      · rename_i he
        exact hmarked (.inl (by rw [← he]; rfl))
      · rfl
    have h2 : set.state.getD row.state = .published := by
      rw [hst, changed]
      split
      · rename_i he
        exact (hc _ _ hrow).mp (hmarked (.inr he.symm))
      · rfl
    exact iff_of_true (iff_of_true h1 h2) (fun s ha => absurd ha (by simp [Proc.assigns]))
  · rw [hmid, ha, Option.getD_none]
    cases hst : set.state with
    | none => exact iff_of_true (hc _ _ hrow) (fun s hs => absurd hs (by simp))
    | some s =>
        -- any other statement leaves the message id and gives another state
        have hne : s ≠ .published := assigns_ne_published (ha.trans (by rw [hst]; rfl))
        constructor
        · intro hiff _ _
          cases hm : row.publishedMessageId with
          | none => rfl
          | some m => rw [hm] at hiff; exact absurd (hiff.mp rfl) hne
        · intro hno
          rw [hno s rfl]
          exact iff_of_false (by simp) hne

/-- **One step**: a commit keeps a marked post published exactly if it respects the mark. -/
theorem coherent_step (hf : Fresh w) (hc : Coherent w)
    (h : step env w a = some w') : Coherent w' ↔ Respectful env w a := by
  constructor
  · intro hc'
    unfold Respectful OnOk
    split
    · rename_i i
      rintro p hp ⟨q, s⟩ ha row hrow
      obtain ⟨set, hs⟩ := set_of_assigns ha
      exact (coherent_row hf hc hp hs hrow).mp (hc' q _ (row_writes h hp hs hrow)) s ha
    · trivial
  · intro hg q row' hrow'
    rcases row_step q h with he | ⟨i, p, set, row, rfl, hp, hs, hr, he⟩ | ⟨c, m, text, -, -, he⟩
    · exact hc q row' (he ▸ hrow')
    · obtain rfl := Option.some.inj (hrow'.symm.trans he)
      refine (coherent_row hf hc hp hs hr).mpr fun s ha => ?_
      exact hg p hp (q, s) ha row hr
    · obtain rfl := Option.some.inj (hrow'.symm.trans he)
      exact iff_of_false (by simp [ingestedPost]) (by simp [ingestedPost])

/--
**Published is terminal and coherent exactly in the runs that respect the mark.**

One step keeps a coherent table coherent exactly if it respects the mark (`coherent_step`).
That a session which is about to mark a post published has loaded it unpublished (`Fresh`) is
carried along, since the commit writes what the session holds.
-/
theorem coherent_iff {w₀ : World} {tr : List (World × Action)} (h0 : Init w₀)
    (hp : Trace (step env) w₀ tr w) :
    ((∀ x ∈ tr, Coherent x.1) ∧ Coherent w) ↔ AllSteps (Respectful env) tr := by
  refine hp.forall_iff (H := fun _ _ => True) (I := fun w => Numbered w ∧ Fresh w) ?_ ?_
    (fun _ _ => trivial) ⟨numbered_init h0, ?_⟩ ?_
  · rintro t a u ⟨hn, hf⟩ hc - - hu
    exact ⟨numbered_step hn hu, fresh_step hn hf hc hu⟩
  · rintro t a u ⟨-, hf⟩ hc - hu
    exact coherent_step hf hc hu
  · intro i job ctx mid post hq
    rw [proc_init h0] at hq
    exact absurd hq (by simp)
  · intro q row hrow
    rw [row_init h0] at hrow
    exact absurd hrow (by simp)

/-- A post is approved before it is normalized, and published. -/
def earlyApproval : List Action :=
  ingests 1 0 ++ presses .approve 1 1 5 ++ sends 1 2 0 4 ++ .advance 2 (.message 7) :: goes 2 3

theorem coherent_iff_published :
    ∃ w, (sample sampleChannel).after (sampleEnv {}) earlyApproval = some w
      ∧ (w.row 1).map (fun row => (row.state, row.publishedMessageId)) = some (.published, some 7)
      ∧ (∀ x ∈ stepsOf (sampleEnv {}) (sample sampleChannel) earlyApproval, Coherent x.1)
      ∧ Coherent w := by
  have hrun : ((sample sampleChannel).after (sampleEnv {}) earlyApproval).map (fun w =>
      (w.row 1).map (fun row => (row.state, row.publishedMessageId)))
        = some (some (.published, some 7)) := by decide +kernel
  obtain ⟨w, hw, hrow⟩ := Option.map_eq_some_iff.mp hrun
  exact ⟨w, hw, hrow,
    (coherent_iff (sample_init _) (path_after hw)).mpr (by decide +kernel)⟩

/-- Then somebody presses Reject on its card. -/
theorem published_rejected :
    ∃ w tr, Init (sample sampleChannel)
      ∧ Trace (step (sampleEnv {})) (sample sampleChannel) tr w ∧ ¬ Coherent w := by
  have hrun : ((sample sampleChannel).after (sampleEnv {})
      (earlyApproval ++ presses .reject 1 3 2)).map (fun w =>
        (w.row 1).map (fun row => (row.state, row.publishedMessageId)))
        = some (some (.rejected, some 7)) := by decide +kernel
  obtain ⟨w, hw, hrow⟩ := Option.map_eq_some_iff.mp hrun
  obtain ⟨row, hr, he⟩ := Option.map_eq_some_iff.mp hrow
  obtain ⟨hstate, hid⟩ := Prod.mk.inj he
  refine ⟨w, _, sample_init _, path_after hw, fun hc => ?_⟩
  have hpub := (hc 1 row hr).mp (by rw [hid]; rfl)
  rw [hstate] at hpub
  exact absurd hpub (by simp)

end World

end TelegramCms
