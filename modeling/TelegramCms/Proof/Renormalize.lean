import TelegramCms.Proof.Rows
import TelegramCms.Proof.Snapshots

/-!
# Normalizing a post again

A `normalize` run goes by the row it loaded and by the channel as it is configured now:
it writes the channel's tags, takes any row of `published_dedupe` for a duplicate, and
routes the post by the channel's policy. `spared_iff` says when none of this harms a post
that was normalized before.
-/

namespace TelegramCms

open Transition

/-- The post that a run is normalizing again. -/
def Proc.again? : Proc → Option Nat
  | .normalize job pc =>
    if pc.post?.any (fun post => post.normalizedText.isSome) then some job.postId else none
  | _ => none

/-- States in which a post is on its way to the destination channel. -/
def onItsWay : List PostState := [.approved, .scheduled, .publishing]

/-- What a step must not do to post `q`. -/
structure Harmless (v : View) (q : Nat) (e : Effect Proc) : Prop where
  row : ∀ row row', v.db.posts.get q = some row → e.db.posts.get q = some row' →
    row'.tagIds = row.tagIds ∧ row'.state = row.state ∧ row'.scheduledFor = row.scheduledFor
  jobs : ∀ j ∈ e.jobs, j.name = .publish →
    ∀ row, v.db.posts.get j.postId = some row → row.state ∉ onItsWay
  own : ∀ h, .duplicate q h ∈ e.seen → ∀ d, v.db.dedupe.get h = some d → d.reservedFor ≠ q

/-- When a run that normalizes a post again does it no harm. The commit: the channel's tags
are those the run loaded, or those the row has by now, and no hash row counts. The
enqueue: the route is not `auto`, or the post is not on its way. -/
def Proc.Spares (env : Env) (v : View) : Proc → Prop
  | .normalize job (.commit post ctx _) =>
    post.normalizedText.isSome → ∀ row ∈ v.db.posts.get job.postId,
      (ctx.tagIds = post.tagIds ∨ ctx.tagIds = row.tagIds)
      ∧ ∀ d ∈ v.db.dedupe.get (computeDedupeHash env post.rawText post.rawMediaRefs),
        v.now - days env.settings.dedupeLookbackDays ≤ d.publishedAt →
          row.state = .rejected ∧ d.reservedFor ≠ job.postId
  | .normalize job (.enqueue post .auto) =>
    post.normalizedText.isSome → ∀ row ∈ v.db.posts.get job.postId, row.state ∉ onItsWay
  | _ => True

instance (env : Env) (v : View) : DecidablePred (Proc.Spares env v) := fun p =>
  match p with
  | .normalize job (.commit post ctx _) =>
    inferInstanceAs (Decidable (post.normalizedText.isSome → ∀ row ∈ v.db.posts.get job.postId,
      (ctx.tagIds = post.tagIds ∨ ctx.tagIds = row.tagIds)
      ∧ ∀ d ∈ v.db.dedupe.get (computeDedupeHash env post.rawText post.rawMediaRefs),
        v.now - days env.settings.dedupeLookbackDays ≤ d.publishedAt →
          row.state = .rejected ∧ d.reservedFor ≠ job.postId))
  | .normalize job (.enqueue post .auto) =>
    inferInstanceAs (Decidable (post.normalizedText.isSome →
      ∀ row ∈ v.db.posts.get job.postId, row.state ∉ onItsWay))
  | .normalize _ .load | .normalize _ (.context _) | .normalize _ (.transform ..)
  | .normalize _ (.enqueue _ .queue) | .publish .. | .postDraft .. | .callback .. | .decide ..
  | .editTags .. | .reconcileScheduled _ | .reconcilePending _ | .ingest .. =>
    inferInstanceAs (Decidable True)

section Step

variable {env : Env} {v : View} {job : Job} {post row : Post} {ctx : RenderCtx} {ai : AiOutcome}
  {r : Reply} {e : Effect Proc}

/-! ## The commit -/

/-- `normalize` finds a duplicate by the row of the hash, if it is in the window. -/
theorem isDuplicate_iff {now : Time} {db : Db} {h : Digest} :
    isDuplicate env now db h = true
      ↔ ∃ d, db.dedupe.get h = some d
        ∧ now - days env.settings.dedupeLookbackDays ≤ d.publishedAt := by
  rw [isDuplicate, Option.any_eq_true]
  simp only [decide_eq_true_eq]

theorem changed_getD_iff {α : Type} [DecidableEq α] {old new cur : α} :
    (changed old new).getD cur = cur ↔ new = old ∨ new = cur := by
  unfold changed
  split
  · rename_i h; simp [h]
  · rename_i h; simp [h]

/-- The state a run rejects with is written if it did not load it. -/
theorem apply_state_normalizeResult (hst : post.state ≠ .rejected) :
    ((flush post (normalizeResult env v post ctx ai)).apply row).state = row.state
      ↔ (isDuplicate env v.now v.db (computeDedupeHash env post.rawText post.rawMediaRefs) = true →
        row.state = .rejected) := by
  rw [PostSet.apply_state, normalizeResult]
  split
  · rename_i hd
    rw [flush, changed_getD_iff]
    constructor
    · rintro (h | h) -
      · exact absurd h.symm hst
      · exact h.symm
    · exact fun h => .inr (h hd).symm
  · rename_i hd
    simp only [flush, normalizedPost, changed_self, Option.getD_none, hd, Bool.false_eq_true,
      false_implies]

theorem apply_tagIds_normalizeResult :
    ((flush post (normalizeResult env v post ctx ai)).apply row).tagIds = row.tagIds
      ↔ ctx.tagIds = post.tagIds ∨ ctx.tagIds = row.tagIds := by
  have htags : (normalizeResult env v post ctx ai).tagIds = ctx.tagIds := by
    rw [normalizeResult]; split <;> rfl
  rw [PostSet.apply_tagIds, flush, htags, changed_getD_iff]

theorem apply_scheduledFor_normalizeResult :
    ((flush post (normalizeResult env v post ctx ai)).apply row).scheduledFor
      = row.scheduledFor := by
  have hsched : (normalizeResult env v post ctx ai).scheduledFor = post.scheduledFor := by
    rw [normalizeResult]; split <;> rfl
  rw [PostSet.apply_scheduledFor, flush, hsched, changed_self, Option.getD_none]

/-- What is seen of a commit that rejects the post. -/
theorem seen_of_isDuplicate (hrow : v.db.posts.get job.postId = some row)
    (he : (Proc.normalize job (.commit post ctx ai)).step env v .ok = some e)
    (hd : isDuplicate env v.now v.db (computeDedupeHash env post.rawText post.rawMediaRefs) = true) :
    e.seen = [.duplicate job.postId (computeDedupeHash env post.rawText post.rawMediaRefs)] := by
  rw [Proc.step, normalizeStep, Reply.await, normalizeCommit, if_pos hd,
    View.commit_found hrow] at he
  obtain rfl := Option.some.inj he
  rfl

/-- A duplicate is seen of a commit that found a row. -/
theorem isDuplicate_of_seen {q : Nat} {h : Digest}
    (hs : .duplicate q h ∈ (Proc.normalize job (.commit post ctx ai)).sees env v) :
    h = computeDedupeHash env post.rawText post.rawMediaRefs ∧ isDuplicate env v.now v.db h = true := by
  simp only [Proc.sees] at hs
  split at hs
  · rename_i hd
    obtain ⟨-, rfl⟩ : q = _ ∧ h = _ := by simpa using hs
    exact ⟨rfl, hd⟩
  · exact absurd hs (by simp)

/-- A commit enqueues nothing. -/
theorem commit_jobs (he : (Proc.normalize job (.commit post ctx ai)).step env v r = some e) :
    e.jobs = [] := by
  have hd := step_does he
  cases hd with
  | enqueues hj => exact absurd hj (by simp [Proc.enqueues])
  | _ => rfl

/-- The commit of a post that was normalized before: what it writes over the row, and when that
changes nothing. -/
theorem commit_harmless_iff (hst : post.state ≠ .rejected) (hn : post.normalizedText.isSome)
    (he : (Proc.normalize job (.commit post ctx ai)).step env v .ok = some e) :
    Harmless v job.postId e ↔ (Proc.normalize job (.commit post ctx ai)).Spares env v := by
  constructor
  · intro hh _ row hrow
    have hrow' := step_writes (p := .normalize job (.commit post ctx ai)) rfl hrow he
    obtain ⟨htags, hstate, -⟩ := hh.row row _ hrow hrow'
    refine ⟨apply_tagIds_normalizeResult.mp htags, fun d hd hin => ?_⟩
    have hdup := isDuplicate_iff.mpr ⟨d, hd, hin⟩
    refine ⟨(apply_state_normalizeResult hst).mp hstate hdup, hh.own _ ?_ d hd⟩
    rw [seen_of_isDuplicate hrow he hdup]
    exact List.mem_singleton.mpr rfl
  · intro hs
    refine ⟨?_, ?_, ?_⟩
    · intro row row' hrow hrow'
      obtain rfl := Option.some.inj (hrow'.symm.trans
        (step_writes (p := .normalize job (.commit post ctx ai)) rfl hrow he))
      obtain ⟨htags, hdup⟩ := hs hn row hrow
      refine ⟨apply_tagIds_normalizeResult.mpr htags, ?_, apply_scheduledFor_normalizeResult⟩
      refine (apply_state_normalizeResult hst).mpr fun hd => ?_
      obtain ⟨d, hd, hin⟩ := isDuplicate_iff.mp hd
      exact (hdup d hd hin).1
    · intro j hj
      rw [commit_jobs he] at hj
      exact absurd hj (by simp)
    · intro h hseen d hd
      have hdoes := step_does he
      obtain ⟨rfl, hdup⟩ := isDuplicate_of_seen (hdoes.sees hseen (by simp) (by simp)).1
      obtain ⟨d', hd', hin⟩ := isDuplicate_iff.mp hdup
      obtain rfl := Option.some.inj (hd.symm.trans hd')
      -- what is seen was committed, so the row of the post is there
      cases hdoes with
      | writes hset hrow =>
          obtain ⟨rfl, -⟩ := Prod.mk.inj (Option.some.inj hset)
          exact ((hs hn _ hrow).2 d hd hin).2
      | quiet => exact absurd hseen (by simp)
      | enqueues hj => exact absurd hseen (by simp)

/-! ## The other steps -/

/-- The job that it enqueues after that, and when the post is on its way already. -/
theorem enqueue_harmless_iff {route : Policy} (hn : post.normalizedText.isSome)
    (he : (Proc.normalize job (.enqueue post route)).step env v .ok = some e) :
    Harmless v job.postId e ↔ (Proc.normalize job (.enqueue post route)).Spares env v := by
  obtain rfl := Option.some.inj he
  have hrow : ∀ row row', v.db.posts.get job.postId = some row →
      v.db.posts.get job.postId = some row' →
      row'.tagIds = row.tagIds ∧ row'.state = row.state ∧ row'.scheduledFor = row.scheduledFor := by
    intro row row' h h'
    obtain rfl := Option.some.inj (h.symm.trans h')
    exact ⟨rfl, rfl, rfl⟩
  cases route with
  | auto =>
      constructor
      · intro hh _ row hr
        exact hh.jobs _ (List.mem_singleton.mpr rfl) rfl row hr
      · intro hs
        refine ⟨hrow, ?_, fun h hh => absurd hh (by simp [Effect.map, normalizeEnqueue])⟩
        intro j hj _ row hr
        obtain rfl := List.mem_singleton.mp hj
        exact hs hn row hr
  | queue =>
      -- a draft is no publish job
      refine iff_of_true ⟨hrow, ?_, fun h hh => absurd hh (by simp [Effect.map, normalizeEnqueue])⟩
        trivial
      intro j hj hname
      obtain rfl := List.mem_singleton.mp hj
      exact absurd hname (by simp [enqueuePostDraft])

/-- A step that is neither does no harm. -/
theorem harmless_of_quiet {pc : NormalizePc} (hd : Does env v (.normalize job pc) r e)
    (hset : r = .ok → (Proc.normalize job pc).set env v = none)
    (hj : r = .ok → (Proc.normalize job pc).enqueues v.now = none) : Harmless v job.postId e := by
  cases hd with
  | quiet =>
      refine ⟨?_, fun j hj => absurd hj (by simp), fun h hh => absurd hh (by simp)⟩
      intro row row' h h'
      obtain rfl := Option.some.inj (h.symm.trans h')
      exact ⟨rfl, rfl, rfl⟩
  | writes hs hrow => rw [hset rfl] at hs; exact absurd hs (by simp)
  | enqueues he => rw [hj rfl] at he; exact absurd he (by simp)

theorem again_cases {p : Proc} {q : Nat} (h : p.again? = some q) :
    ∃ job pc post, p = .normalize job pc ∧ q = job.postId ∧ pc.post? = some post
      ∧ post.normalizedText.isSome := by
  unfold Proc.again? at h
  split at h
  · split at h
    · rename_i job pc hn
      obtain ⟨post, hpost, hn⟩ := (Option.any_eq_true _ _).mp hn
      exact ⟨job, pc, post, rfl, (Option.some.inj h).symm, hpost, hn⟩
    · exact absurd h (by simp)
  · exact absurd h (by simp)

/-- Of the places of such a run only these two can do harm. -/
theorem harmless_iff_spares {pc : NormalizePc} (hpost : pc.post? = some post)
    (hst : post.state ≠ .rejected) (hn : post.normalizedText.isSome)
    (he : (Proc.normalize job pc).step env v r = some e) :
    Harmless v job.postId e ↔ (r = .ok → (Proc.normalize job pc).Spares env v) := by
  by_cases hr : r = .ok
  · subst hr
    refine Iff.trans ?_ ⟨fun h _ => h, fun h => h rfl⟩
    cases pc with
    | commit post' ctx ai =>
        obtain rfl := Option.some.inj hpost
        exact commit_harmless_iff hst hn he
    | enqueue post' route =>
        obtain rfl := Option.some.inj hpost
        exact enqueue_harmless_iff hn he
    | _ =>
        exact iff_of_true (harmless_of_quiet (step_does he) (fun _ => rfl) (fun _ => rfl)) trivial
  · exact iff_of_true (harmless_of_quiet (step_does he) (absurd · hr) (absurd · hr)) (absurd · hr)

end Step

namespace World

variable {env : Env} {w w' : World} {a : Action}

/-- A run that normalizes a post again does it no harm in this step. -/
def Unharmed (env : Env) (w : World) : Action → Prop
  | .advance i r => ∀ p q e, w.proc i = some p → p.again? = some q →
    p.step env (w.view i) r = some e → Harmless (w.view i) q e
  | _ => True

/-- The condition on the step a run is about to take. -/
abbrev Spared (env : Env) : World → Action → Prop :=
  OnOk fun w i p => p.Spares env (w.view i)

/-- No `normalize` run works on a post that it loaded as rejected. -/
def LoadedOpen (w : World) : Prop :=
  ∀ i job pc post, w.proc i = some (.normalize job pc) → pc.post? = some post →
    post.state ≠ .rejected

/-- What `normalize` has loaded was not rejected then. -/
theorem loadedOpen_step (hn : Numbered w) (hl : LoadedOpen w) (h : step env w a = some w') :
    LoadedOpen w' := by
  intro i job pc post hq hpost
  rcases normalize_copy_step hn h hq hpost with ⟨pc₀, hp, hpost⟩ | ⟨-, -, -, hr⟩
  · exact hl i job pc₀ post hp hpost
  · exact hr

theorem loadedOpen_trace {w₀ : World} {tr : List (World × Action)} (h0 : Init w₀)
    (hp : Trace (step env) w₀ tr w) : Numbered w ∧ LoadedOpen w := by
  refine hp.invariant' (I := fun w => Numbered w ∧ LoadedOpen w) ?_ ⟨numbered_init h0, ?_⟩
  · rintro t a u ⟨hn, hl⟩ hu
    exact ⟨numbered_step hn hu, loadedOpen_step hn hl hu⟩
  · intro i job pc post hq
    rw [proc_init h0] at hq
    exact absurd hq (by simp)

theorem spares_of_not_again {v : View} {p : Proc} (ha : p.again? = none) : p.Spares env v := by
  have hn : ∀ {job : Job} {pc : NormalizePc} {post : Post}, p = .normalize job pc →
      pc.post? = some post → post.normalizedText.isSome → False := by
    rintro job pc post rfl hpost hn
    rw [Proc.again?, hpost, Option.any_some, if_pos hn] at ha
    exact absurd ha (by simp)
  cases p with
  | normalize job pc =>
      cases pc with
      | commit post ctx ai => exact fun h => (hn rfl rfl h).elim
      | enqueue post route =>
          cases route with
          | auto => exact fun h => (hn rfl rfl h).elim
          | queue => trivial
      | _ => trivial
  | _ => trivial

/-- **One step**, of whichever run. -/
theorem unharmed_iff (hl : LoadedOpen w) (h : step env w a = some w') :
    Unharmed env w a ↔ Spared env w a := by
  cases a with
  | advance i r =>
      obtain ⟨p, e, hp, he, -⟩ := advance_cases h
      rw [Spared, onOk_advance]
      -- only a run that normalizes again can do harm
      have key : ∀ q, p.again? = some q →
          (Harmless (w.view i) q e ↔ (r = .ok → p.Spares env (w.view i))) := by
        intro q hq
        obtain ⟨job, pc, post, rfl, rfl, hpost, hn⟩ := again_cases hq
        exact harmless_iff_spares hpost (hl i job pc post hp hpost) hn he
      constructor
      · intro hu hr p' hp'
        obtain rfl := Option.some.inj (hp.symm.trans hp')
        cases hq : p.again? with
        | none => exact spares_of_not_again hq
        | some q => exact (key q hq).mp (hu p q e hp hq he) hr
      · intro hs p' q e' hp' hq he'
        obtain rfl := Option.some.inj (hp.symm.trans hp')
        obtain rfl := Option.some.inj (he.symm.trans he')
        exact (key q hq).mpr fun hr => hs hr p hp
  | _ => exact Iff.rfl

/--
**Normalizing again is harmless exactly in the runs that spare the post.**

A statement about single steps, of which only those of a normalize run that commits or enqueues
matter. The invariant is that such a run has loaded a post that was open (`loadedOpen_trace`).
-/
theorem spared_iff {w₀ : World} {tr : List (World × Action)} (h0 : Init w₀)
    (hp : Trace (step env) w₀ tr w) : AllSteps (Unharmed env) tr ↔ AllSteps (Spared env) tr := by
  have hiff : ∀ x ∈ tr, Unharmed env x.1 x.2 ↔ Spared env x.1 x.2 := by
    intro x hx
    obtain ⟨_, _, _, -, hpre, hu, -⟩ := hp.split (t := x.1) (a := x.2) hx
    exact unharmed_iff (loadedOpen_trace h0 hpre).2 hu
  constructor
  · exact fun h x hx => (hiff x hx).mp (h x hx)
  · exact fun h x hx => (hiff x hx).mpr (h x hx)

/-- A queued post is normalized; five minutes later the userbot boots, and its post is
normalized again, up to the commit. -/
def rebooted (edits : List Action) (i : Nat) : List Action :=
  ingests 1 0 ++ normalizes 1 1 0 ++ edits ++
  .tick 300_000_000 :: .request .bootUserbot :: goes i 2 ++
  .startJob ⟨.normalize, 1, 300_000⟩ :: goes (i + 1) 2

theorem spared_iff_rebooted :
    ∃ w, (sample sampleChannel).after (sampleEnv {}) (rebooted [] 2 ++ goes 3 2) = some w
      ∧ AllSteps (Unharmed (sampleEnv {}))
        (stepsOf (sampleEnv {}) (sample sampleChannel) (rebooted [] 2 ++ goes 3 2)) := by
  have hrun : ((sample sampleChannel).after (sampleEnv {}) (rebooted [] 2 ++ goes 3 2)).isSome := by
    decide +kernel
  obtain ⟨w, hw⟩ := Option.isSome_iff_exists.mp hrun
  exact ⟨w, hw, (spared_iff (sample_init _) (path_after hw)).mpr (by decide +kernel)⟩

/-- In between an editor gives the post a tag. -/
def tagged : List Action :=
  rebooted (.request (.editTags ⟨.python, 1, 9, [4]⟩) :: goes 2 2) 3

/-- The second run takes the tag away again. -/
theorem tagged_harmed :
    ∃ w w' tr, Init (sample sampleChannel)
      ∧ Trace (step (sampleEnv {})) (sample sampleChannel) tr w
      ∧ step (sampleEnv {}) w (.advance 4 .ok) = some w'
      ∧ (w.row 1).map Post.tagIds = some [4] ∧ (w'.row 1).map Post.tagIds = some []
      ∧ ¬ Unharmed (sampleEnv {}) w (.advance 4 .ok) := by
  have hrun : ((sample sampleChannel).after (sampleEnv {}) tagged).bind (fun w =>
      (step (sampleEnv {}) w (.advance 4 .ok)).map (fun w' =>
        ((w.proc 4).bind Proc.again?, (w.row 1).map Post.tagIds, (w'.row 1).map Post.tagIds)))
      = some (some 1, some [4], some []) := by decide +kernel
  obtain ⟨w, hw, hw'⟩ := Option.bind_eq_some_iff.mp hrun
  obtain ⟨w', hstep, he⟩ := Option.map_eq_some_iff.mp hw'
  obtain ⟨hagain, he⟩ := Prod.mk.inj he
  obtain ⟨htags, htags'⟩ := Prod.mk.inj he
  refine ⟨w, w', _, sample_init _, path_after hw, hstep, htags, htags', fun hu => ?_⟩
  obtain ⟨p, hp, hq⟩ := Option.bind_eq_some_iff.mp hagain
  obtain ⟨row, hrow, ht⟩ := Option.map_eq_some_iff.mp htags
  obtain ⟨row', hrow', ht'⟩ := Option.map_eq_some_iff.mp htags'
  rw [step, hp] at hstep
  obtain ⟨e, hs, rfl⟩ := Option.map_eq_some_iff.mp hstep
  have hsame := ((hu p 1 e hp hq hs).row row row' hrow hrow').1
  rw [ht, ht'] at hsame
  exact absurd hsame (by simp)

end World

end TelegramCms
