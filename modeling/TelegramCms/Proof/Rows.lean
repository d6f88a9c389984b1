import TelegramCms.Proof.Steps

/-!
# The row of a post

Three things can happen to a row of `posts` in one step: nothing, the commit of the
statement a run was about to issue, or its insertion (`row_step`). Of a statement it is
enough to know which state it assigns (`Proc.assigns`, `set_cases`).
-/

namespace TelegramCms

theorem View.commit_found {Pc : Type} {v : View} {id : Nat} {set : PostSet} {evs : List PostEvent}
    {f : PyError → Effect Pc} {k : Db → Effect Pc} {row : Post}
    (h : v.db.posts.get id = some row) : v.commit id set evs f k = k (v.db.write id set evs) := by
  rw [View.commit, Db.commit_some h]

/-! ## The statements -/

/-- The statements runs issue, one constructor for each kind. -/
inductive Issues (env : Env) (v : View) : Proc → Nat → PostSet → Prop where
  | claim {job post} : Issues env v (.publish job (.claim post)) job.postId
      (flush post { post with state := .publishing })
  | mark {job ctx mid post} (hh : ctx.dedupeHash = none) :
      Issues env v (.publish job (.markCommit ctx mid post)) job.postId
        (flush post { post with
          state := .published, publishedMessageId := some mid, publishedAt := some v.now })
  | duplicate {job h post} : Issues env v (.publish job (.duplicateCommit h post)) job.postId
      (flush post { post with state := .rejected })
  | failure {job e post} : Issues env v (.publish job (.failureCommit e post)) job.postId
      (flush post { post with state := .publishFailed })
  | normalize {job post ctx ai} : Issues env v (.normalize job (.commit post ctx ai)) job.postId
      (flush post (normalizeResult env v post ctx ai))
  | card {job mid post} : Issues env v (.postDraft job (.storeCommit mid post)) job.postId
      (flush post { post with draftMessageId := some mid })
  | button {b u q post} : Issues env v (.callback b u q (.commit post)) q
      (flush post { post with state := b.state })
  | decision {req post now} : Issues env v (.decide req (.commit post now)) req.postId
      (decideSet req post)
  | tags {req post} : Issues env v (.editTags req (.commit post)) req.postId (tagsSet req post)
  | store {q refs post} : Issues env v (.ingest q (.storeCommit refs post)) q
      (flush post { post with rawMediaRefs := refs })

theorem issues_of_set {env : Env} {v : View} {p : Proc} {q : Nat} {set : PostSet}
    (h : p.set env v = some (q, set)) : Issues env v p q set := by
  cases p with
  | reconcileScheduled pc => exact absurd h (by simp [Proc.set])
  | reconcilePending pc => exact absurd h (by simp [Proc.set])
  | publish job pc =>
      obtain ⟨s, hset, hq⟩ := Option.map_eq_some_iff.mp h
      obtain ⟨rfl, rfl⟩ := Prod.mk.inj hq
      cases pc with
      | claim post => obtain rfl := Option.some.inj hset; exact .claim
      | markCommit ctx mid post =>
          simp only [PublishPc.set] at hset
          -- with a hash the session fails before it writes the row
          split at hset
          · rename_i hh
            obtain rfl := Option.some.inj hset; exact .mark hh
          · exact absurd hset (by simp)
      | duplicateCommit h post => obtain rfl := Option.some.inj hset; exact .duplicate
      | failureCommit e post => obtain rfl := Option.some.inj hset; exact .failure
      | _ => exact absurd hset (by simp [PublishPc.set])
  | normalize job pc =>
      obtain ⟨s, hset, hq⟩ := Option.map_eq_some_iff.mp h
      obtain ⟨rfl, rfl⟩ := Prod.mk.inj hq
      cases pc with
      | commit post ctx ai => obtain rfl := Option.some.inj hset; exact .normalize
      | _ => exact absurd hset (by simp [NormalizePc.set])
  | postDraft job pc =>
      obtain ⟨s, hset, hq⟩ := Option.map_eq_some_iff.mp h
      obtain ⟨rfl, rfl⟩ := Prod.mk.inj hq
      cases pc with
      | storeCommit mid post => obtain rfl := Option.some.inj hset; exact .card
      | _ => exact absurd hset (by simp [DraftPc.set])
  | callback b u id pc =>
      obtain ⟨s, hset, hq⟩ := Option.map_eq_some_iff.mp h
      obtain ⟨rfl, rfl⟩ := Prod.mk.inj hq
      cases pc with
      | commit post => obtain rfl := Option.some.inj hset; exact .button
      | _ => exact absurd hset (by simp [CallbackPc.set])
  | decide req pc =>
      obtain ⟨s, hset, hq⟩ := Option.map_eq_some_iff.mp h
      obtain ⟨rfl, rfl⟩ := Prod.mk.inj hq
      cases pc with
      | commit post now => obtain rfl := Option.some.inj hset; exact .decision
      | _ => exact absurd hset (by simp [DecidePc.set])
  | editTags req pc =>
      obtain ⟨s, hset, hq⟩ := Option.map_eq_some_iff.mp h
      obtain ⟨rfl, rfl⟩ := Prod.mk.inj hq
      cases pc with
      | commit post => obtain rfl := Option.some.inj hset; exact .tags
      | _ => exact absurd hset (by simp [TagsPc.set])
  | ingest id pc =>
      obtain ⟨s, hset, hq⟩ := Option.map_eq_some_iff.mp h
      obtain ⟨rfl, rfl⟩ := Prod.mk.inj hq
      cases pc with
      | storeCommit refs post => obtain rfl := Option.some.inj hset; exact .store
      | _ => exact absurd hset (by simp [IngestPc.set])

/-- Only `normalize` and the second commit of an ingest write the media of a post, its
texts or the list of its media files. -/
theorem set_content {env : Env} {v : View} {p : Proc} {q : Nat} {set : PostSet}
    (hs : p.set env v = some (q, set)) :
    (∃ job post ctx ai, p = .normalize job (.commit post ctx ai) ∧ q = job.postId
        ∧ set = flush post (normalizeResult env v post ctx ai))
    ∨ (∃ refs post, p = .ingest q (.storeCommit refs post)
        ∧ set = flush post { post with rawMediaRefs := refs })
    ∨ (set.rawMediaRefs = none ∧ set.normalizedText = none ∧ set.aiTransformedText = none
        ∧ set.mediaPaths = none) := by
  cases issues_of_set hs with
  | normalize => exact .inl ⟨_, _, _, _, rfl, rfl, rfl⟩
  | store => exact .inr (.inl ⟨_, _, rfl, rfl⟩)
  | decision =>
      rename_i req post now
      rw [decideSet]
      cases req.api with
      | python => exact .inr (.inr ⟨changed_self _, changed_self _, changed_self _, changed_self _⟩)
      | go => exact .inr (.inr ⟨rfl, rfl, rfl, rfl⟩)
  | tags =>
      rename_i req post
      rw [tagsSet]
      cases req.api with
      | python => exact .inr (.inr ⟨changed_self _, changed_self _, changed_self _, changed_self _⟩)
      | go => exact .inr (.inr ⟨rfl, rfl, rfl, rfl⟩)
  | _ => exact .inr (.inr ⟨changed_self _, changed_self _, changed_self _, changed_self _⟩)

section Statement

variable {env : Env} {v : View} {q : Nat} {row : Post} {e : Effect Proc}

/-- The commit of a statement, as the answer to a call that succeeded. -/
theorem commit_db {Pc : Type} {g : Pc → Proc} {set : PostSet} {evs : List PostEvent}
    {f : PyError → Effect Pc} {k : Db → Effect Pc} (hk : ∀ db, (k db).db = db)
    (hrow : v.db.posts.get q = some row)
    (he : (some (v.commit q set evs f k)).map (Effect.map g) = some e) :
    e.db = v.db.write q set evs := by
  rw [View.commit_found hrow, Option.map_some] at he
  rw [← Option.some.inj he]
  exact hk _

theorem commit_writes {Pc : Type} {g : Pc → Proc} {set : PostSet} {evs : List PostEvent}
    {f : PyError → Effect Pc} {k : Db → Effect Pc} (hk : ∀ db, (k db).db = db)
    (hrow : v.db.posts.get q = some row)
    (he : (some (v.commit q set evs f k)).map (Effect.map g) = some e) :
    e.db.posts.get q = some (set.apply row) := by
  rw [commit_db hk hrow he]
  exact Db.write_row hrow

/-- A run whose call succeeds commits the statement it was about to issue. -/
theorem step_writes {p : Proc} {set : PostSet} (hs : p.set env v = some (q, set))
    (hrow : v.db.posts.get q = some row) (he : p.step env v .ok = some e) :
    e.db.posts.get q = some (set.apply row) := by
  cases issues_of_set hs with
  | mark hh =>
      -- without a hash all items of the session are mapped instances
      rename_i job ctx mid post
      obtain ⟨events, hadd⟩ :
          ∃ events, (markPublishedItems env v.now job.postId mid none).mapM sessionAdd
            = .ok events := ⟨_, rfl⟩
      rw [Proc.step, publishStep, Reply.await, markPublished, hh, hadd] at he
      exact commit_writes (fun _ => rfl) hrow he
  | normalize =>
      rw [Proc.step, normalizeStep, Reply.await, normalizeCommit] at he
      rw [normalizeResult]
      split at he
      · rename_i hd
        rw [if_pos hd]; exact commit_writes (fun _ => rfl) hrow he
      · rename_i hd
        rw [if_neg hd]; exact commit_writes (fun _ => rfl) hrow he
  | _ => exact commit_writes (fun _ => rfl) hrow he

end Statement

/-! ## The state a run is about to assign -/

/-- The state, other than `published`, that a run is about to give to a post. A session
writes it if it is not the one it loaded, the Go handler in any case. -/
def Proc.assigns (env : Env) (v : View) : Proc → Option (Nat × PostState)
  | .publish job (.claim post) => (changed post.state .publishing).map (job.postId, ·)
  | .publish job (.duplicateCommit _ post) => (changed post.state .rejected).map (job.postId, ·)
  | .publish job (.failureCommit _ post) =>
    (changed post.state .publishFailed).map (job.postId, ·)
  | .normalize job (.commit post _ _) =>
    if isDuplicate env v.now v.db (computeDedupeHash env post.rawText post.rawMediaRefs) then
      (changed post.state .rejected).map (job.postId, ·)
    else none
  | .callback b _ p (.commit post) => (changed post.state b.state).map (p, ·)
  | .decide req (.commit post _) =>
    match req.api with
    | .python => (changed post.state (decisionState req.decision)).map (req.postId, ·)
    | .go => some (req.postId, decisionState req.decision)
  | _ => none

section Assigns

variable {env : Env} {v : View} {p : Proc} {q : Nat} {set : PostSet} {s : PostState}

theorem decisionState_ne_published (d : Decision) : decisionState d ≠ .published := by
  cases d <;> simp [decisionState]

theorem changed_eq_some {α : Type} [DecidableEq α] {old new a : α}
    (h : changed old new = some a) : a = new := by
  unfold changed at h
  split at h
  · exact absurd h (by simp)
  · exact (Option.some.inj h).symm

theorem changed_assigns {old new s : PostState} {id : Nat} :
    (changed old new).map (id, ·) = some (q, s) ↔ id = q ∧ s = new ∧ old ≠ new := by
  unfold changed
  split
  · rename_i h
    simp [h]
  · rename_i h
    rw [Option.map_some, Option.some.injEq, Prod.mk.injEq, eq_comm (a := new)]
    exact and_congr_right fun _ => ⟨fun hs => ⟨hs, fun ho => h ho.symm⟩, fun hs => hs.1⟩

/-- What gives a post a state, one constructor for each kind of statement. -/
inductive Assigns (env : Env) (v : View) : Proc → Nat → PostState → Prop where
  | claim {job post} (hne : post.state ≠ .publishing) :
      Assigns env v (.publish job (.claim post)) job.postId .publishing
  | duplicate {job h post} (hne : post.state ≠ .rejected) :
      Assigns env v (.publish job (.duplicateCommit h post)) job.postId .rejected
  | failure {job e post} (hne : post.state ≠ .publishFailed) :
      Assigns env v (.publish job (.failureCommit e post)) job.postId .publishFailed
  | normalize {job post ctx ai}
      (hd : isDuplicate env v.now v.db (computeDedupeHash env post.rawText post.rawMediaRefs) = true)
      (hne : post.state ≠ .rejected) :
      Assigns env v (.normalize job (.commit post ctx ai)) job.postId .rejected
  | button {b u q post} (hne : post.state ≠ b.state) :
      Assigns env v (.callback b u q (.commit post)) q b.state
  | decision {req post now} (hne : req.api = .python → post.state ≠ decisionState req.decision) :
      Assigns env v (.decide req (.commit post now)) req.postId (decisionState req.decision)

theorem assigns_iff : p.assigns env v = some (q, s) ↔ Assigns env v p q s := by
  constructor
  · intro h
    unfold Proc.assigns at h
    split at h
    · obtain ⟨rfl, rfl, hne⟩ := changed_assigns.mp h; exact .claim hne
    · obtain ⟨rfl, rfl, hne⟩ := changed_assigns.mp h; exact .duplicate hne
    · obtain ⟨rfl, rfl, hne⟩ := changed_assigns.mp h; exact .failure hne
    · split at h
      · rename_i hd
        obtain ⟨rfl, rfl, hne⟩ := changed_assigns.mp h; exact .normalize hd hne
      · exact absurd h (by simp)
    · obtain ⟨rfl, rfl, hne⟩ := changed_assigns.mp h; exact .button hne
    · split at h
      · obtain ⟨rfl, rfl, hne⟩ := changed_assigns.mp h; exact .decision fun _ => hne
      · rename_i hapi
        obtain ⟨rfl, rfl⟩ := Prod.mk.inj (Option.some.inj h)
        exact .decision fun hp => absurd (hapi.symm.trans hp) (by simp)
    · exact absurd h (by simp)
  · intro h
    cases h with
    | claim hne => exact changed_assigns.mpr ⟨rfl, rfl, hne⟩
    | duplicate hne => exact changed_assigns.mpr ⟨rfl, rfl, hne⟩
    | failure hne => exact changed_assigns.mpr ⟨rfl, rfl, hne⟩
    | normalize hd hne => rw [Proc.assigns, if_pos hd]; exact changed_assigns.mpr ⟨rfl, rfl, hne⟩
    | button hne => exact changed_assigns.mpr ⟨rfl, rfl, hne⟩
    | decision hne =>
        rename_i req post now
        rw [Proc.assigns]
        cases hapi : req.api with
        | python => exact changed_assigns.mpr ⟨rfl, rfl, hne hapi⟩
        | go => rfl

theorem assigns_ne_published (h : p.assigns env v = some (q, s)) : s ≠ .published := by
  cases assigns_iff.mp h with
  | button hne =>
      rename_i b _ _
      cases b <;> simp [Button.state]
  | decision hne => exact decisionState_ne_published _
  | _ => simp

/-- `_mark_published` sets state and message id; any other statement sets at most the
state. -/
theorem set_cases (hs : p.set env v = some (q, set)) :
    (∃ job ctx mid post, p = .publish job (.markCommit ctx mid post) ∧ q = job.postId
        ∧ set.state = changed post.state .published
        ∧ set.publishedMessageId = changed post.publishedMessageId (some mid))
    ∨ (set.publishedMessageId = none ∧ p.assigns env v = set.state.map (q, ·)) := by
  cases issues_of_set hs with
  | mark hh => exact .inl ⟨_, _, _, _, rfl, rfl, rfl, rfl⟩
  | claim => exact .inr ⟨changed_self _, rfl⟩
  | duplicate => exact .inr ⟨changed_self _, rfl⟩
  | failure => exact .inr ⟨changed_self _, rfl⟩
  | normalize =>
      rw [normalizeResult, Proc.assigns]
      split
      · exact .inr ⟨changed_self _, rfl⟩
      · refine .inr ⟨changed_self _, ?_⟩
        simp only [flush, normalizedPost, changed_self, Option.map_none]
  | card =>
      refine .inr ⟨changed_self _, ?_⟩
      simp only [flush, changed_self, Option.map_none, Proc.assigns]
  | button => exact .inr ⟨changed_self _, rfl⟩
  | decision =>
      rename_i req post now
      rw [decideSet, Proc.assigns]
      cases req.api with
      | python => exact .inr ⟨changed_self _, rfl⟩
      -- Go writes the column, whatever it loaded
      | go => exact .inr ⟨rfl, rfl⟩
  | tags =>
      rename_i req post
      rw [tagsSet]
      cases req.api with
      | python =>
          refine .inr ⟨changed_self _, ?_⟩
          simp only [flush, changed_self, Option.map_none, Proc.assigns]
      | go => exact .inr ⟨rfl, rfl⟩
  | store =>
      refine .inr ⟨changed_self _, ?_⟩
      simp only [flush, changed_self, Option.map_none, Proc.assigns]

/-- A state that is about to be assigned is in the statement. -/
theorem set_of_assigns (h : p.assigns env v = some (q, s)) :
    ∃ set, p.set env v = some (q, set) := by
  cases assigns_iff.mp h <;> exact ⟨_, rfl⟩

end Assigns

/-! ## One step of the system -/

theorem insertPost_row {db db' : Db} {now : Time} {c m q : Nat} {text : Option Text}
    (h : db.insertPost now c m text = some db') :
    db'.posts.get q = db.posts.get q
    ∨ (q = db.nextPostId ∧ db.posts.get q = none
        ∧ db'.posts.get q = some (ingestedPost now q c m text)) := by
  unfold Db.insertPost at h
  split at h
  · exact absurd h (by simp)
  · obtain rfl := Option.some.inj h
    by_cases hq : q = db.nextPostId
    · subst hq
      refine .inr ⟨rfl, db.nextPostId_fresh, ?_⟩
      exact Table.get_insert_self (r := ingestedPost now db.nextPostId c m text)
        db.nextPostId_fresh
    · exact .inl (Table.get_insert_ne hq)

/-- What a step of a run does to one row. -/
theorem Does.row {env : Env} {v : View} {p : Proc} {r : Reply} {e : Effect Proc}
    (h : Does env v p r e) (q : Nat) :
    e.db.posts.get q = v.db.posts.get q
    ∨ ∃ set row, r = .ok ∧ p.set env v = some (q, set) ∧ v.db.posts.get q = some row
        ∧ e.db.posts.get q = some (set.apply row) := by
  cases h with
  | @writes p id set evs row n hs hrow =>
      by_cases hq : q = id
      · subst hq
        exact .inr ⟨set, row, rfl, hs, hrow, Db.write_row hrow⟩
      · exact .inl (Db.write_row_ne hq)
  | _ => exact .inl rfl

namespace World

variable {env : Env} {w w' : World} {a : Action} {q : Nat}

theorem row_step (q : Nat) (h : step env w a = some w') :
    w'.row q = w.row q
    ∨ (∃ i p set row, a = .advance i .ok ∧ w.proc i = some p
        ∧ p.set env (w.view i) = some (q, set) ∧ w.row q = some row
        ∧ w'.row q = some (set.apply row))
    ∨ (∃ c m text, a = .arrive c m text ∧ w.row q = none
        ∧ w'.row q = some (ingestedPost w.now q c m text)) := by
  rcases step_cases h with ⟨d, rfl, rfl⟩ | ⟨i, r, p, e, rfl, hp, he, rfl⟩ | ⟨k, p, rfl, hp, rfl⟩ |
    ⟨job, rfl, _, _, rfl⟩ | ⟨req, rfl, rfl⟩ | ⟨c, m, text, db, rfl, hdb, rfl⟩ |
    ⟨ch, te, ta, rfl, rfl⟩ | ⟨at_, rfl, _, rfl⟩
  · exact .inl rfl
  · rcases (step_does he).row q with hr | ⟨set, row, rfl, hs, hrow, hr⟩
    · exact .inl hr
    · exact .inr (.inl ⟨i, p, set, row, rfl, hp, hs, hrow, hr⟩)
  · exact .inl rfl
  · exact .inl rfl
  · exact .inl rfl
  · rcases insertPost_row (q := q) hdb with hr | ⟨-, hn, hr⟩
    · exact .inl hr
    · exact .inr (.inr ⟨c, m, text, rfl, hn, hr⟩)
  · exact .inl rfl
  · exact .inl rfl

theorem row_init (h : Init w) : w.row q = none := by
  rw [row, Table.get_eq_none, h.posts]
  intro r hr
  exact absurd hr (by simp)

/-- A row that was not there before a message arrived is the row of the message. -/
theorem arrive_id {c m : Nat} {text : Option Text} {row : Post}
    (h : step env w (.arrive c m text) = some w') (hn : w.row q = none)
    (hrow : w'.row q = some row) : w.db.nextPostId = q := by
  rcases step_cases h with ⟨_, ha, _⟩ | ⟨_, _, _, _, ha, _⟩ | ⟨_, _, ha, _⟩ | ⟨_, ha, _⟩ |
    ⟨_, ha, _⟩ | ⟨_, _, _, db, ha, hdb, rfl⟩ | ⟨_, _, _, ha, _⟩ | ⟨_, ha, _⟩ <;> cases ha
  rcases insertPost_row (q := q) hdb with hr | ⟨hq, -⟩
  · exact absurd (hr.symm.trans hrow) (by rw [show w.db.posts.get q = none from hn]; simp)
  · exact hq.symm

/-- The channel and the raw text of a post never change. -/
theorem row_fixed {row : Post} (h : step env w a = some w') (hrow : w.row q = some row) :
    ∃ row', w'.row q = some row' ∧ row'.sourceChannelId = row.sourceChannelId
      ∧ row'.rawText = row.rawText := by
  rcases row_step q h with he | ⟨_, _, set, row₀, -, -, -, hr, he⟩ | ⟨_, _, _, -, hr, -⟩
  · exact ⟨row, he.trans hrow, rfl, rfl⟩
  · obtain rfl := Option.some.inj (hr.symm.trans hrow)
    exact ⟨_, he, rfl, rfl⟩
  · rw [hr] at hrow
    exact absurd hrow (by simp)

/-- A step of a run whose calls succeed leaves its statement in the row. -/
theorem row_writes {i : Nat} {p : Proc} {set : PostSet} {row : Post}
    (h : step env w (.advance i .ok) = some w') (hp : w.proc i = some p)
    (hs : p.set env (w.view i) = some (q, set)) (hrow : w.row q = some row) :
    w'.row q = some (set.apply row) := by
  obtain ⟨p', e, hp', he, rfl⟩ := advance_cases h
  obtain rfl := Option.some.inj (hp.symm.trans hp')
  exact step_writes hs hrow he

/-- A run whose call succeeds gives the post the state it was about to assign. -/
theorem row_assigns {i : Nat} {p : Proc} {s : PostState} {row : Post}
    (h : step env w (.advance i .ok) = some w') (hp : w.proc i = some p)
    (ha : p.assigns env (w.view i) = some (q, s)) (hrow : w.row q = some row) :
    ∃ row', w'.row q = some row' ∧ row'.state = s := by
  obtain ⟨set, hs⟩ := set_of_assigns ha
  refine ⟨_, row_writes h hp hs hrow, ?_⟩
  rcases set_cases hs with ⟨_, _, _, _, rfl, -⟩ | ⟨-, hst⟩
  · exact absurd ha (by simp [Proc.assigns])
  · obtain ⟨t, ht, he⟩ := Option.map_eq_some_iff.mp (hst.symm.trans ha)
    rw [PostSet.apply_state, ht, Option.getD_some, (Prod.mk.inj he).2]

/-- Where a state other than `pending` and `published` comes from. -/
theorem state_origin {row : Post} (h : step env w a = some w') (hrow : w'.row q = some row)
    (hpending : row.state ≠ .pending) (hpub : row.state ≠ .published) :
    (∃ row₀, w.row q = some row₀ ∧ row₀.state = row.state)
    ∨ ∃ i p row₀, a = .advance i .ok ∧ w.proc i = some p
        ∧ p.assigns env (w.view i) = some (q, row.state) ∧ w.row q = some row₀ := by
  rcases row_step q h with he | ⟨i, p, set, row₀, rfl, hp, hs, hr, he⟩ | ⟨_, _, _, -, -, he⟩
  · exact .inl ⟨row, he ▸ hrow, rfl⟩
  · obtain rfl := Option.some.inj (hrow.symm.trans he)
    rw [PostSet.apply_state] at hpub ⊢
    cases hset : set.state with
    | none => exact .inl ⟨row₀, hr, rfl⟩
    | some s =>
        rw [hset, Option.getD_some] at hpub
        rcases set_cases hs with ⟨_, _, _, _, -, -, hmark, -⟩ | ⟨-, hass⟩
        · exact absurd (changed_eq_some (hmark.symm.trans hset)) hpub
        · rw [hset] at hass
          exact .inr ⟨i, p, row₀, rfl, hp, hass, hr⟩
  · obtain rfl := Option.some.inj (hrow.symm.trans he)
    exact absurd rfl hpending

/-- A decision is recorded by the commit of its statement. -/
theorem decided_step {seen : List Obs} {p : Nat} {d : Decision} (h : step env w a = some w')
    (hlog : w'.log = seen ++ w.log) (hd : .decided p d ∈ seen) :
    ∃ i proc q set row, a = .advance i .ok ∧ w.proc i = some proc
      ∧ .decided p d ∈ proc.sees env (w.view i) ∧ proc.set env (w.view i) = some (q, set)
      ∧ w.row q = some row ∧ w'.row q = some (set.apply row) := by
  rcases log_step h with he | ⟨i, r, proc, e, rfl, hproc, he, rfl, he'⟩
  · obtain rfl : seen = [] :=
      List.append_cancel_right (hlog.symm.trans he : seen ++ w.log = [] ++ w.log)
    exact absurd hd (by simp)
  · obtain rfl : seen = seenOf i e := List.append_cancel_right (hlog.symm.trans he')
    have hdoes := step_does he
    have ho := mem_seenOf hd (by simp)
    obtain ⟨hsees, rfl⟩ := hdoes.sees ho (by simp) (by simp)
    cases hdoes with
    | writes hs hrow =>
        exact ⟨i, proc, _, _, _, rfl, hproc, hsees, hs, hrow, Db.write_row hrow⟩
    | _ => exact absurd ho (by simp)

end World

end TelegramCms
