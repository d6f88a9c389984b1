import TelegramCms.Proof.Approved

/-!
# The audit log

Every transaction that decides about a post adds an entry to the log, and most of these
entries stand for a state. The entry is added in any case. The state is written by a
session only if it is not the one the session loaded, and the row may have got a third
state since. `audited_iff` says that this is the only way in which the log and the states
come apart.
-/

namespace TelegramCms

open Transition

/-! ## What the log says -/

/-- The state an entry stands for. A duplicate is rejected. -/
def EventAction.implies : EventAction → Option PostState
  | .approved => some .approved
  | .rejected | .duplicate => some .rejected
  | .scheduled => some .scheduled
  | .published => some .published
  | .publishFailed => some .publishFailed
  | .ingested | .edited | .mediaOmitted | .draftPosted | .aiTransformed | .aiFailed => none

/-- The states the entries about post `q` stand for, oldest first. -/
def statesOf (q : Nat) (evs : List PostEvent) : List PostState :=
  evs.filterMap (fun e => if e.postId = q then e.action.implies else none)

/-- The state the log gives to post `q`. -/
def Db.auditState (db : Db) (q : Nat) : Option PostState := (statesOf q db.events).getLast?

section Log

variable {q : Nat} {evs evs' : List PostEvent}

theorem statesOf_append : statesOf q (evs ++ evs') = statesOf q evs ++ statesOf q evs' :=
  List.filterMap_append

theorem statesOf_nothing (h : ∀ x ∈ evs, x.action.implies = none) : statesOf q evs = [] := by
  rw [statesOf, List.filterMap_eq_nil_iff]
  intro x hx
  rw [h x hx, ite_self]

/-- The entries among these that stand for a state are about post `q`. -/
def Concern (q : Nat) (evs : List PostEvent) : Prop :=
  ∀ x ∈ evs, x.postId = q ∨ x.action.implies = none

theorem statesOf_self (h : Concern q evs) :
    statesOf q evs = evs.filterMap (fun x => x.action.implies) := by
  refine List.filterMap_congr fun x hx => ?_
  rcases h x hx with hq | hn
  · rw [if_pos hq]
  · rw [hn, ite_self]

theorem statesOf_other {q' : Nat} (h : Concern q evs) (hne : q' ≠ q) : statesOf q' evs = [] := by
  rw [statesOf, List.filterMap_eq_nil_iff]
  intro x hx
  rcases h x hx with hq | hn
  · rw [if_neg fun he => hne (he.symm.trans hq)]
  · rw [hn, ite_self]

end Log

/-! ## What a commit adds to it -/

/-- The state that the entry of the transaction a run is about to commit stands for. -/
def Proc.concludes (env : Env) (v : View) : Proc → Option PostState
  | .publish _ (.markCommit ..) => some .published
  | .publish _ (.duplicateCommit ..) => some .rejected
  | .publish _ (.failureCommit ..) => some .publishFailed
  | .normalize _ (.commit post _ _) =>
    if isDuplicate env v.now v.db (computeDedupeHash env post.rawText post.rawMediaRefs) then
      some .rejected
    else none
  | .callback b _ _ (.commit _) => some b.state
  | .decide req (.commit ..) => some (decisionState req.decision)
  | _ => none

/-- The state of the post as the session that is about to commit loaded it. The Go handler
names the column in its `UPDATE`, whatever it loaded. -/
def Proc.loaded : Proc → Option PostState
  | .publish _ (.markCommit _ _ post) | .publish _ (.duplicateCommit _ post)
  | .publish _ (.failureCommit _ post) | .normalize _ (.commit post _ _)
  | .callback _ _ _ (.commit post) => some post.state
  | .decide req (.commit post _) =>
    match req.api with
    | .python => some post.state
    | .go => none
  | _ => none

section Commit

variable {env : Env} {v : View} {p : Proc} {q : Nat} {set : PostSet} {row : Post} {e : Effect Proc}

theorem changed_eq_ite {α : Type} [DecidableEq α] (old new : α) :
    changed old new = if some old = some new then none else some new := by
  rw [changed]
  by_cases h : new = old
  · rw [if_pos h, if_pos (congrArg some h.symm)]
  · rw [if_neg h, if_neg fun he => h (Option.some.inj he).symm]

/-- A claim gives the state `publishing`. Any other transaction gives the state its entry
stands for, unless its session loaded the post in it. -/
theorem set_state (hs : p.set env v = some (q, set)) :
    (p.concludes env v = none ∧ (set.state = none ∨ set.state = some .publishing))
    ∨ ∃ s, p.concludes env v = some s
        ∧ set.state = if p.loaded = some s then none else some s := by
  cases issues_of_set hs with
  | mark hh => exact .inr ⟨_, rfl, changed_eq_ite _ _⟩
  | duplicate => exact .inr ⟨_, rfl, changed_eq_ite _ _⟩
  | failure => exact .inr ⟨_, rfl, changed_eq_ite _ _⟩
  | button => exact .inr ⟨_, rfl, changed_eq_ite _ _⟩
  | claim =>
      left
      refine ⟨rfl, ?_⟩
      simp only [flush, changed]
      split
      · exact .inl rfl
      · exact .inr rfl
  | normalize =>
      rw [Proc.concludes, normalizeResult]
      split
      · exact .inr ⟨_, rfl, changed_eq_ite _ _⟩
      · exact .inl ⟨rfl, .inl (changed_self _)⟩
  | decision =>
      rename_i req post now
      right
      refine ⟨_, rfl, ?_⟩
      rw [decideSet, Proc.loaded]
      cases req.api with
      | python => exact changed_eq_ite _ _
      | go => rfl
  | tags =>
      rename_i req post
      left
      refine ⟨rfl, .inl ?_⟩
      rw [tagsSet]
      cases req.api with
      | python => exact changed_self _
      | go => rfl
  | card => exact .inl ⟨rfl, .inl (changed_self _)⟩
  | store => exact .inl ⟨rfl, .inl (changed_self _)⟩

theorem aiEvents_implies {now : Time} {post : Post} {channel : SourceChannel} {ai : AiOutcome}
    {x : PostEvent} (hx : x ∈ aiEvents now post channel ai) : x.action.implies = none := by
  cases ai with
  | off => exact absurd hx (by simp [aiEvents])
  | transformed r => rw [List.mem_singleton.mp hx]; rfl
  | failed e => rw [List.mem_singleton.mp hx]; rfl

/-- What `normalize` adds for the AI stage stands for nothing. -/
theorem normalize_events {now : Time} {post : Post} {channel : SourceChannel} {ai : AiOutcome}
    {x : PostEvent} (hq : x.postId = q) :
    Concern q (aiEvents now post channel ai ++ [x])
      ∧ (aiEvents now post channel ai ++ [x]).filterMap (fun x => x.action.implies)
        = x.action.implies.toList := by
  constructor
  · intro y hy
    rcases List.mem_append.mp hy with hy | hy
    · exact .inr (aiEvents_implies hy)
    · rw [List.mem_singleton.mp hy]
      exact .inl hq
  · have hnil : (aiEvents now post channel ai).filterMap (fun x => x.action.implies) = [] :=
      List.filterMap_eq_nil_iff.mpr fun y hy => aiEvents_implies hy
    rw [List.filterMap_append, hnil, List.nil_append]
    cases h : x.action.implies <;> simp [h]

theorem concern_one {x : PostEvent} (hq : x.postId = q) : Concern q [x] := by
  intro y hy
  rw [List.mem_singleton.mp hy]
  exact .inl hq

/-- A commit adds entries of which at most one stands for a state, and that one is about
the post it writes. -/
theorem step_commits (hs : p.set env v = some (q, set)) (hrow : v.db.posts.get q = some row)
    (he : p.step env v .ok = some e) :
    ∃ evs, e.db = v.db.write q set evs ∧ Concern q evs
      ∧ evs.filterMap (fun x => x.action.implies) = (p.concludes env v).toList := by
  cases issues_of_set hs with
  | claim => exact ⟨_, commit_db (fun _ => rfl) hrow he, fun x hx => absurd hx (by simp), rfl⟩
  | mark hh =>
      rename_i job ctx mid post
      have hadd : (markPublishedItems env v.now job.postId mid none).mapM sessionAdd
          = .ok [{
            postId := job.postId
            action := .published
            payload := [("published_message_id", .int mid),
              ("chat_id", .int env.settings.destinationChannelId)]
            createdAt := v.now }] := rfl
      rw [Proc.step, publishStep, Reply.await, markPublished, hh, hadd] at he
      exact ⟨_, commit_db (fun _ => rfl) hrow he, concern_one rfl, rfl⟩
  | normalize =>
      rw [Proc.step, normalizeStep, Reply.await, normalizeCommit] at he
      rw [normalizeResult, Proc.concludes]
      -- a duplicate, or a post that goes on by its policy
      split at he
      · rename_i hd
        rw [if_pos hd, if_pos hd]
        obtain ⟨hc, hi⟩ := normalize_events rfl
        exact ⟨_, commit_db (fun _ => rfl) hrow he, hc, hi⟩
      · rename_i hd
        rw [if_neg hd, if_neg hd]
        obtain ⟨hc, hi⟩ := normalize_events rfl
        exact ⟨_, commit_db (fun _ => rfl) hrow he, hc, hi⟩
  | button =>
      rename_i b _ _
      refine ⟨_, commit_db (fun _ => rfl) hrow he, concern_one rfl, ?_⟩
      cases b <;> rfl
  | decision =>
      rename_i req post now
      refine ⟨_, commit_db (fun _ => rfl) hrow he, concern_one rfl, ?_⟩
      rw [Proc.concludes]
      cases req.decision <;> rfl
  | store =>
      refine ⟨_, commit_db (fun _ => rfl) hrow he, concern_one rfl, ?_⟩
      simp only [storeEvent]
      split <;> rfl
  | _ => exact ⟨_, commit_db (fun _ => rfl) hrow he, concern_one rfl, rfl⟩

/-- The log after a commit. -/
theorem auditState_commit (hs : p.set env v = some (q, set)) (hrow : v.db.posts.get q = some row)
    (he : p.step env v .ok = some e) :
    e.db.auditState q = (p.concludes env v).or (v.db.auditState q)
      ∧ ∀ q', q' ≠ q → e.db.auditState q' = v.db.auditState q' := by
  obtain ⟨evs, hdb, hc, hi⟩ := step_commits hs hrow he
  constructor
  · rw [Db.auditState, hdb, Db.write_events, statesOf_append, statesOf_self hc, hi,
      List.getLast?_append]
    cases p.concludes env v <;> rfl
  · intro q' hne
    rw [Db.auditState, hdb, Db.write_events, statesOf_append, statesOf_other hc hne,
      List.append_nil]
    rfl

end Commit

theorem auditState_insert {db db' : Db} {now : Time} {c m q : Nat} {text : Option Text}
    (h : db.insertPost now c m text = some db') : db'.auditState q = db.auditState q := by
  unfold Db.insertPost at h
  split at h
  · exact absurd h (by simp)
  · rw [← Option.some.inj h, Db.auditState, statesOf_append]
    have hnil : ∀ x : PostEvent, x.action = .ingested → statesOf q [x] = [] := by
      intro x hx
      refine statesOf_nothing fun y hy => ?_
      rw [List.mem_singleton.mp hy, hx]
      rfl
    rw [hnil _ rfl, List.append_nil]
    rfl

namespace World

variable {env : Env} {w w' : World} {a : Action} {q : Nat} {row : Post}

/-- The state of a post that is neither waiting nor on its way is the one the log gives. -/
def Audited (w : World) : Prop :=
  ∀ q row, w.row q = some row → row.state ≠ .pending → row.state ≠ .publishing →
    w.db.auditState q = some row.state

/-- Post `q` is in the state `s`, or waiting, or on its way. -/
def Finds (w : World) (s : PostState) (q : Nat) : Prop :=
  ∀ row ∈ w.row q, row.state = s ∨ row.state = .pending ∨ row.state = .publishing

instance (w : World) (s : PostState) (q : Nat) : Decidable (Finds w s q) :=
  inferInstanceAs (Decidable (∀ row ∈ w.row q,
    row.state = s ∨ row.state = .pending ∨ row.state = .publishing))

/-- A commit whose session loaded the post in the state that its entry stands for finds the
post in it, or waiting, or on its way. -/
abbrev Current (env : Env) : World → Action → Prop :=
  OnOk fun w i p => ∀ s ∈ p.concludes env (w.view i), p.loaded = some s →
    ∀ x ∈ p.set env (w.view i), Finds w s x.1

/-- The other rows, and what the log says about them, are after a commit as before. -/
theorem audited_commit_iff {i : Nat} {p : Proc} {set : PostSet} {e : Effect Proc}
    (hw : Audited w) (hs : p.set env (w.view i) = some (q, set)) (hrow : w.row q = some row)
    (he : p.step env (w.view i) .ok = some e) :
    Audited (w.apply i e) ↔ ((set.apply row).state ≠ .pending →
      (set.apply row).state ≠ .publishing → e.db.auditState q = some (set.apply row).state) := by
  obtain ⟨evs, hdb, -, -⟩ := step_commits hs hrow he
  obtain ⟨-, hother⟩ := auditState_commit hs hrow he
  have hself : (w.apply i e).row q = some (set.apply row) := step_writes hs hrow he
  have hne : ∀ q', q' ≠ q → (w.apply i e).row q' = w.row q' := by
    intro q' hq'
    show e.db.posts.get q' = _
    rw [hdb]
    exact Db.write_row_ne hq'
  constructor
  · intro hw' hp hq
    exact hw' q _ hself hp hq
  · intro hrow' q' row' hget hp hq
    by_cases hq' : q' = q
    · subst hq'
      obtain rfl := Option.some.inj (hself.symm.trans hget)
      exact hrow' hp hq
    · rw [hne q' hq'] at hget
      exact (hother q' hq').trans (hw q' row' hget hp hq)

/-- What a commit makes of its own row. -/
theorem audited_row {i : Nat} {p : Proc} {set : PostSet} {e : Effect Proc}
    (hw : Audited w) (hs : p.set env (w.view i) = some (q, set)) (hrow : w.row q = some row)
    (he : p.step env (w.view i) .ok = some e) :
    ((set.apply row).state ≠ .pending → (set.apply row).state ≠ .publishing →
        e.db.auditState q = some (set.apply row).state)
      ↔ ∀ s, p.concludes env (w.view i) = some s → p.loaded = some s →
          row.state = s ∨ row.state = .pending ∨ row.state = .publishing := by
  obtain ⟨hlog, -⟩ := auditState_commit hs hrow he
  rw [hlog, PostSet.apply_state]
  rcases set_state hs with ⟨hno, hst⟩ | ⟨s, hs', hst⟩
  · -- no entry stands for a state, and at most `publishing` is assigned
    rw [hno, Option.none_or]
    refine iff_of_true ?_ (fun s hs => absurd hs (by simp))
    rcases hst with hst | hst
    · rw [hst, Option.getD_none]
      exact hw q row hrow
    · rw [hst, Option.getD_some]
      intro _ hne
      exact absurd rfl hne
  · rw [hs', hst, Option.some_or]
    by_cases hl : p.loaded = some s
    · -- the state is not written
      rw [if_pos hl, Option.getD_none]
      constructor
      · intro h s' hs' _
        obtain rfl := Option.some.inj hs'
        by_cases hp : row.state = .pending
        · exact .inr (.inl hp)
        by_cases hq : row.state = .publishing
        · exact .inr (.inr hq)
        · exact .inl (Option.some.inj (h hp hq)).symm
      · intro h hp hq
        rcases h s rfl hl with h | h | h
        · rw [h]
        · exact absurd h hp
        · exact absurd h hq
    · rw [if_neg hl, Option.getD_some]
      refine iff_of_true (fun _ _ => rfl) ?_
      intro s' hs' hl'
      obtain rfl := Option.some.inj hs'
      exact absurd hl' hl

/-- A step that commits nothing leaves rows and log alone. -/
theorem quiet_step {i : Nat} {p : Proc} {r : Reply} {e : Effect Proc}
    (he : p.step env (w.view i) r = some e)
    (hno : r = .ok → ∀ q set, p.set env (w.view i) = some (q, set) → w.row q = none) :
    e.db.posts = w.db.posts ∧ e.db.events = w.db.events := by
  cases step_does he with
  | writes hs hrow =>
      have hnone := hno rfl _ _ hs
      exact absurd (hrow.symm.trans hnone) (by simp)
  | _ => exact ⟨rfl, rfl⟩

theorem audited_of_eq (hw : Audited w) (hp : w'.db.posts = w.db.posts)
    (he : w'.db.events = w.db.events) : Audited w' := by
  intro q row hrow
  have hrow : w.row q = some row := by
    rw [World.row, ← hp]
    exact hrow
  rw [Db.auditState, he]
  exact hw q row hrow

/-- **A step keeps states and log together exactly if a commit that does not write its
state finds it written.** -/
theorem audited_step (hw : Audited w) (h : step env w a = some w') :
    Audited w' ↔ Current env w a := by
  rcases step_cases h with ⟨d, rfl, rfl⟩ | ⟨i, r, p, e, rfl, hp, he, rfl⟩ | ⟨k, p, rfl, hp, rfl⟩ |
    ⟨job, rfl, _, _, rfl⟩ | ⟨req, rfl, rfl⟩ | ⟨c, m, text, db, rfl, hdb, rfl⟩ |
    ⟨ch, te, ta, rfl, rfl⟩ | ⟨at_, rfl, _, rfl⟩
  · exact iff_of_true (audited_of_eq hw rfl rfl) trivial
  · rw [Current, onOk_advance]
    by_cases hc : r = .ok ∧ ∃ q set row, p.set env (w.view i) = some (q, set) ∧ w.row q = some row
    · obtain ⟨rfl, q, set, row, hs, hrow⟩ := hc
      rw [audited_commit_iff hw hs hrow he, audited_row hw hs hrow he]
      constructor
      · intro hr _ p' hp' s hcon hl x hx row' hrow'
        obtain rfl := Option.some.inj (hp.symm.trans hp')
        obtain rfl := Option.some.inj (hs.symm.trans hx)
        obtain rfl := Option.some.inj (hrow.symm.trans hrow')
        exact hr s hcon hl
      · intro hg s hcon hl
        exact hg rfl p hp s hcon hl (q, set) hs row hrow
    · have hno : r = .ok → ∀ q set, p.set env (w.view i) = some (q, set) → w.row q = none := by
        intro hr q set hs
        cases hrow : w.row q with
        | none => rfl
        | some row => exact absurd ⟨hr, q, set, row, hs, hrow⟩ hc
      obtain ⟨hposts, hevents⟩ := quiet_step he hno
      refine iff_of_true (audited_of_eq hw hposts hevents) ?_
      intro hr p' hp' s _ _ x hx row hrow
      obtain rfl := Option.some.inj (hp.symm.trans hp')
      exact absurd (hrow.symm.trans (hno hr x.1 x.2 hx)) (by simp)
  · exact iff_of_true (audited_of_eq hw rfl rfl) trivial
  · exact iff_of_true (audited_of_eq hw rfl rfl) trivial
  · exact iff_of_true (audited_of_eq hw rfl rfl) trivial
  · -- the new post is `pending`, and its entry stands for nothing
    refine iff_of_true ?_ trivial
    intro q row hrow hpend hpub
    rcases insertPost_row (q := q) hdb with hr | ⟨-, -, hr⟩
    · exact (auditState_insert hdb).trans (hw q row (hr.symm.trans hrow) hpend hpub)
    · obtain rfl := Option.some.inj (hrow.symm.trans hr)
      exact absurd rfl hpend
  · exact iff_of_true (audited_of_eq hw rfl rfl) trivial
  · exact iff_of_true (audited_of_eq hw rfl rfl) trivial

/--
**States and log agree throughout a run exactly if every commit that does not write its
state, because its session loaded the post in it, finds the post in it, or waiting, or on
its way.**

By induction on the run from a table without posts. A commit that writes its state adds the
entry that goes with it, so one step can only separate the two by an entry without the state
(`audited_step`).
-/
theorem audited_iff {w₀ : World} {tr : List (World × Action)} (h0 : Init w₀)
    (hp : Trace (step env) w₀ tr w) :
    ((∀ x ∈ tr, Audited x.1) ∧ Audited w) ↔ AllSteps (Current env) tr := by
  refine hp.forall_iff' ?_ ?_
  · intro w a w' hw hs
    exact audited_step hw hs
  · intro q row hrow
    rw [row_init h0] at hrow
    exact absurd hrow (by simp)

/-- A post is approved twice under its card, then rejected. -/
def secondThoughts : List Action :=
  ingests 1 0 ++ presses .approve 1 1 2 ++ presses .approve 1 2 2 ++ presses .reject 1 3 2

theorem audited_iff_rejected :
    ∃ w, (sample sampleChannel).after (sampleEnv {}) secondThoughts = some w
      ∧ (w.row 1).map Post.state = some .rejected ∧ w.db.auditState 1 = some .rejected
      ∧ (∀ x ∈ stepsOf (sampleEnv {}) (sample sampleChannel) secondThoughts, Audited x.1)
      ∧ Audited w := by
  have hrun : ((sample sampleChannel).after (sampleEnv {}) secondThoughts).map (fun w =>
      ((w.row 1).map Post.state, w.db.auditState 1)) = some (some .rejected, some .rejected) := by
    decide +kernel
  obtain ⟨w, hw, hrow⟩ := Option.map_eq_some_iff.mp hrun
  obtain ⟨hstate, hlog⟩ := Prod.mk.inj hrow
  exact ⟨w, hw, hstate, hlog,
    (audited_iff (sample_init _) (path_after hw)).mpr (by decide +kernel)⟩

/-- The second press has loaded the approved post when somebody rejects it. -/
def overtakenPress : List Action :=
  ingests 1 0 ++ presses .approve 1 1 2 ++ presses .approve 1 2 1 ++ presses .reject 1 3 2 ++
  goes 2 1

/-- The press writes no state and adds its entry: the post is rejected, and the log ends in an
approval. -/
theorem overtakenPress_unaudited :
    ∃ w tr, Init (sample sampleChannel)
      ∧ Trace (step (sampleEnv {})) (sample sampleChannel) tr w ∧ ¬ Audited w := by
  have hrun : ((sample sampleChannel).after (sampleEnv {}) overtakenPress).map (fun w =>
      ((w.row 1).map Post.state, w.db.auditState 1)) = some (some .rejected, some .approved) := by
    decide +kernel
  obtain ⟨w, hw, hrow⟩ := Option.map_eq_some_iff.mp hrun
  obtain ⟨hstate, hlog⟩ := Prod.mk.inj hrow
  obtain ⟨row, hr, hst⟩ := Option.map_eq_some_iff.mp hstate
  refine ⟨w, _, sample_init _, path_after hw, fun hall => ?_⟩
  have hsays := hall 1 row hr (by rw [hst]; simp) (by rw [hst]; simp)
  rw [hlog, hst] at hsays
  exact absurd hsays (by simp)

end World

end TelegramCms
