import TelegramCms.Model.World

/-!
# The decision surfaces

An approve or a reject can be taken with an inline button, through the Python API or
through the Go API. Each of the three handlers updates its own selection of columns. Run
one after the other they agree on `state`, on `tag_ids` and on the jobs they enqueue
(`take_spec`); they differ in `scheduled_for`, which the web approve clears and the
button leaves (`surfaces_agree_iff`).
-/

namespace TelegramCms

/-! ## Decisions taken one after the other -/

/-- A decision as an editor takes it. Scheduling has no button. -/
inductive Taken where
  | press (now : Time) (button : Button) (tgUserId : Int)
  | web (now : Time) (api : Api) (actor : Nat) (decision : Decision)
deriving DecidableEq

namespace Taken

def now : Taken → Time
  | press now _ _ => now
  | web now _ _ _ => now

def decision : Taken → Decision
  | press _ button _ => button.decision
  | web _ _ _ decision => decision

/-- The handler that is run for it. -/
def start (postId : Nat) : Taken → Proc
  | press _ button tgUserId => .callback button tgUserId postId .load
  | web _ api actor decision => .decide ⟨api, postId, actor, decision, none⟩ .load

/-- The same decision, at the same time, if perhaps on another surface. -/
def Same (t u : Taken) : Prop := t.now = u.now ∧ t.decision = u.decision

instance : DecidableRel Same := fun t u =>
  inferInstanceAs (Decidable (t.now = u.now ∧ t.decision = u.decision))

end Taken

/-- Run a handler to its end, every call of it answering; `none` if `fuel` steps do not
get there. -/
def runAlone (env : Env) (now : Time) : (fuel : Nat) → Db → List Job → Proc → Option (Db × List Job)
  | 0, _, _, _ => none
  | fuel + 1, db, jobs, p =>
    match p.step env ⟨now, db, 0, true⟩ .ok with
    | none => none
    | some e =>
      match e.next with
      | .goto q => runAlone env now fuel e.db (jobs ++ e.jobs) q
      | .stop _ => some (e.db, jobs ++ e.jobs)

/-- Take one decision on a post. -/
def take (env : Env) (postId : Nat) (x : Db × List Job) (t : Taken) : Option (Db × List Job) :=
  runAlone env t.now 5 x.1 x.2 (t.start postId)

/-- Take decisions on a post, one after the other. -/
def takeAll (env : Env) (postId : Nat) (x : Db × List Job) (ts : List Taken) :
    Option (Db × List Job) :=
  ts.foldlM (take env postId) x

/-! ## What one decision does -/

namespace Taken

/-- The time an accepted schedule sets. -/
def sets : Taken → Option Time
  | web now _ _ (.schedule at_) => if at_ ≤ now then none else some at_
  | _ => none

/-- What a decision taken at `now` sets, on whichever surface. -/
def setBy (decision : Decision) (now : Time) : Option Time :=
  match decision with
  | .schedule at_ => if at_ ≤ now then none else some at_
  | _ => none

/-- An approve taken on the web. -/
def clears : Taken → Bool
  | web _ _ _ .approve => true
  | _ => false

/-- The row after the decision. -/
def onRow : Taken → Post → Post
  | press _ button _, p => { p with state := button.state }
  | web _ _ _ .approve, p => { p with state := .approved, scheduledFor := none }
  | web now _ _ (.schedule at_), p =>
    if at_ ≤ now then p else { p with state := .scheduled, scheduledFor := some at_ }
  | web _ _ _ .reject, p => { p with state := .rejected }

/-- The jobs the decision enqueues. -/
def jobs (postId : Nat) (t : Taken) : List Job :=
  match t.decision with
  | .approve => [enqueuePublish t.now postId]
  | .schedule at_ => if at_ ≤ t.now then [] else [enqueuePublish t.now postId (at_ - t.now)]
  | .reject => []

/-- The event the decision appends. -/
def event (postId : Nat) (row : Post) : Taken → PostEvent
  | press now button u =>
    { postId := postId
      action := button.action
      payload := [("via", .str "inline".toList), ("tg_user_id", .int u)]
      createdAt := now }
  | web now api actor decision =>
    { postId := postId
      actorAdminId := some actor
      action := decisionAction decision
      payload := decidePayload ⟨api, postId, actor, decision, none⟩ row
      createdAt := now }

end Taken

section Take

variable {env : Env} {postId : Nat} {db : Db} {jobs : List Job} {row : Post} {t : Taken}

/-- A press writes the state, and an approve enqueues the job. -/
theorem press_alone {now : Time} {button : Button} {u : Int} {ch : SourceChannel}
    (hrow : db.posts.get postId = some row) (hch : db.channels.get row.sourceChannelId = some ch) :
    take env postId (db, jobs) (.press now button u)
      = some (db.write postId (flush row { row with state := button.state })
            [(Taken.press now button u).event postId row],
          jobs ++ (Taken.press now button u).jobs postId) := by
  cases button with
  | approve =>
      simp only [take, Taken.start, Taken.now, runAlone, Proc.step, callbackStep, Reply.await,
        callbackLoad, hrow, hch, View.goto, View.ret, callbackCommit, View.commit,
        Db.commit_some hrow, Option.map_some, Effect.map, Taken.jobs, Taken.decision,
        Button.decision, List.append_nil]
      rfl
  | reject =>
      simp only [take, Taken.start, Taken.now, runAlone, Proc.step, callbackStep, Reply.await,
        callbackLoad, hrow, hch, View.goto, View.ret, callbackCommit, View.commit,
        Db.commit_some hrow, Option.map_some, Effect.map, Taken.jobs, Taken.decision,
        Button.decision, List.append_nil]
      rfl

/-- A schedule for a time that is past is refused. -/
theorem refused_alone {now at_ : Time} {api : Api} {actor : Nat}
    (hrow : db.posts.get postId = some row) (h : at_ ≤ now) :
    take env postId (db, jobs) (.web now api actor (.schedule at_)) = some (db, jobs) := by
  simp only [take, Taken.start, Taken.now, runAlone, Proc.step, decideStep, Reply.await, decideLoad,
    hrow, h, if_true, View.raise, Option.map_some, Effect.map, List.append_nil]

/-- Any other web decision writes its columns and enqueues its job. -/
theorem web_alone {now : Time} {api : Api} {actor : Nat} {decision : Decision}
    (hrow : db.posts.get postId = some row) (h : ∀ at_, decision = .schedule at_ → ¬ at_ ≤ now) :
    take env postId (db, jobs) (.web now api actor decision)
      = some (db.write postId (decideSet ⟨api, postId, actor, decision, none⟩ row)
            [(Taken.web now api actor decision).event postId row],
          jobs ++ (Taken.web now api actor decision).jobs postId) := by
  cases decision with
  | approve =>
      cases api <;>
        simp only [take, Taken.start, Taken.now, runAlone, Proc.step, decideStep, Reply.await,
          decideLoad, hrow, View.goto, View.ret, decideCommit, View.commit, decideNext, decideAnswer,
          Db.commit_some hrow, Option.map_some, Effect.map, Taken.jobs, Taken.decision,
          List.append_nil] <;> rfl
  | schedule at_ =>
      have hat := h at_ rfl
      cases api <;>
        simp only [take, Taken.start, Taken.now, runAlone, Proc.step, decideStep, Reply.await,
          decideLoad, hrow, hat, if_false, View.goto, View.ret, decideCommit, View.commit,
          decideNext, decideAnswer, Db.commit_some hrow, Option.map_some, Effect.map, Taken.jobs,
          Taken.decision, List.append_nil] <;> rfl
  | reject =>
      cases api <;>
        simp only [take, Taken.start, Taken.now, runAlone, Proc.step, decideStep, Reply.await,
          decideLoad, hrow, View.goto, View.ret, decideCommit, View.commit, decideNext, decideAnswer,
          Db.commit_some hrow, Option.map_some, Effect.map, Taken.jobs, Taken.decision,
          List.append_nil] <;> rfl

/-- On a row nobody has touched since, both APIs write the same. -/
theorem decideSet_apply (api : Api) (actor : Nat) (decision : Decision) (row : Post) :
    (decideSet ⟨api, postId, actor, decision, none⟩ row).apply row
      = { row with
          state := decisionState decision
          scheduledFor := (decisionSchedule decision).getD row.scheduledFor } := by
  cases api with
  | python =>
      rw [decideSet]
      exact flush_apply rfl rfl rfl rfl rfl
  | go => rfl

/-- One decision, run alone, leaves the row as `onRow` says and enqueues `jobs`. -/
theorem take_spec (hrow : db.posts.get postId = some row)
    (hch : db.channels.get row.sourceChannelId ≠ none) :
    ∃ db', take env postId (db, jobs) t = some (db', jobs ++ t.jobs postId)
      ∧ db'.posts.get postId = some (t.onRow row) ∧ db'.channels = db.channels := by
  obtain ⟨ch, hch⟩ := Option.ne_none_iff_exists'.mp hch
  cases t with
  | press now button u =>
      refine ⟨_, press_alone hrow hch, ?_, rfl⟩
      have hf : (flush row { row with state := button.state }).apply row
          = { row with state := button.state } := flush_apply rfl rfl rfl rfl rfl
      rw [Db.write_row hrow, hf, Taken.onRow]
  | web now api actor decision =>
      -- a time that is over is refused and leaves the row alone
      by_cases hpast : ∃ at_, decision = .schedule at_ ∧ at_ ≤ now
      · obtain ⟨at_, rfl, hle⟩ := hpast
        refine ⟨db, ?_, ?_, rfl⟩
        · rw [refused_alone hrow hle]
          simp only [Taken.jobs, Taken.decision, Taken.now, hle, if_true, List.append_nil]
        · simp only [Taken.onRow, hle, if_true]
          exact hrow
      · have hfut : ∀ at_, decision = .schedule at_ → ¬ at_ ≤ now :=
          fun at_ hd hle => hpast ⟨at_, hd, hle⟩
        refine ⟨_, web_alone hrow hfut, ?_, rfl⟩
        rw [Db.write_row hrow, decideSet_apply]
        cases decision with
        | schedule at_ => simp only [Taken.onRow, hfut at_ rfl, if_false]; rfl
        | _ => rfl

end Take

/-! ## What a sequence does -/

/-- The row after the decisions. -/
def rowAfter (row : Post) (ts : List Taken) : Post := ts.foldl (fun p t => t.onRow p) row

/-- The time last set: by the last accepted schedule, or else the one the row came with. -/
def timeSet (row : Post) (ts : List Taken) : Option Time :=
  (ts.reverse.findSome? Taken.sets).or row.scheduledFor

/-- A web approve came since the last accepted schedule. -/
def clearedSince (ts : List Taken) : Bool :=
  (ts.reverse.takeWhile (fun t => t.sets.isNone)).any Taken.clears

namespace Taken

variable {t u : Taken} {p q : Post}

@[simp] theorem onRow_sourceChannelId : (t.onRow p).sourceChannelId = p.sourceChannelId := by
  cases t with
  | press => rfl
  | web now api actor decision =>
      cases decision with
      | schedule at_ => simp only [onRow]; split <;> rfl
      | _ => rfl

@[simp] theorem onRow_tagIds : (t.onRow p).tagIds = p.tagIds := by
  cases t with
  | press => rfl
  | web now api actor decision =>
      cases decision with
      | schedule at_ => simp only [onRow]; split <;> rfl
      | _ => rfl

/-- The state is decided by the decision alone. -/
theorem onRow_state : (t.onRow p).state
    = match t.decision with
      | .approve => .approved
      | .schedule at_ => if at_ ≤ t.now then p.state else .scheduled
      | .reject => .rejected := by
  cases t with
  | press now button u => cases button <;> rfl
  | web now api actor decision =>
      cases decision with
      | schedule at_ =>
          simp only [onRow]
          by_cases h : at_ ≤ now
          · rw [if_pos h]
            exact (if_pos h).symm
          · rw [if_neg h]
            exact (if_neg h).symm
      | _ => rfl

theorem onRow_scheduledFor : (t.onRow p).scheduledFor
    = match t.sets with
      | some at_ => some at_
      | none => if t.clears then none else p.scheduledFor := by
  cases t with
  | press => rfl
  | web now api actor decision =>
      cases decision with
      | schedule at_ =>
          simp only [onRow, sets, clears]
          by_cases h : at_ ≤ now
          · simp only [if_pos h, Bool.false_eq_true, if_false]
          · simp only [if_neg h]
      | _ => rfl

theorem Same.onRow_state (h : t.Same u) (hp : p.state = q.state) :
    (t.onRow p).state = (u.onRow q).state := by
  rw [Taken.onRow_state, Taken.onRow_state, h.1, h.2, hp]

theorem Same.jobs (h : t.Same u) (postId : Nat) : t.jobs postId = u.jobs postId := by
  rw [Taken.jobs, Taken.jobs, h.1, h.2]

/-- A schedule is taken on the web, so it is accepted on both sides or on neither. -/
theorem Same.sets (h : t.Same u) : t.sets = u.sets := by
  have hsets : ∀ v : Taken, v.sets = setBy v.decision v.now := by
    intro v
    cases v with
    | press now button u => cases button <;> rfl
    | web now api actor decision => cases decision <;> rfl
  rw [hsets t, hsets u, h.1, h.2]

end Taken

section TakeAll

variable {env : Env} {postId : Nat} {row : Post} {ts us : List Taken}

theorem rowAfter_snoc (t : Taken) : rowAfter row (ts ++ [t]) = t.onRow (rowAfter row ts) := by
  rw [rowAfter, List.foldl_append]; rfl

/-- The decisions leave the row as `rowAfter` says and enqueue their jobs in turn. -/
theorem takeAll_spec {db : Db} {jobs : List Job} (hrow : db.posts.get postId = some row)
    (hch : db.channels.get row.sourceChannelId ≠ none) :
    ∃ db', takeAll env postId (db, jobs) ts = some (db', jobs ++ ts.flatMap (Taken.jobs postId))
      ∧ db'.posts.get postId = some (rowAfter row ts) := by
  induction ts generalizing db jobs row with
  | nil => exact ⟨db, by rw [takeAll, List.flatMap_nil, List.append_nil]; rfl, hrow⟩
  | cons t ts ih =>
      obtain ⟨db₁, h1, hrow1, hch1⟩ := @take_spec env postId db jobs row t hrow hch
      have hch' : db₁.channels.get (t.onRow row).sourceChannelId ≠ none := by
        rw [hch1, Taken.onRow_sourceChannelId]
        exact hch
      obtain ⟨db₂, h2, hrow2⟩ := @ih (t.onRow row) db₁ (jobs ++ t.jobs postId) hrow1 hch'
      refine ⟨db₂, ?_, hrow2⟩
      rw [takeAll, List.foldlM_cons, h1, List.flatMap_cons, ← List.append_assoc]
      exact h2

theorem rowAfter_tagIds : (rowAfter row ts).tagIds = row.tagIds := by
  induction ts using List.reverseRecOn with
  | nil => rfl
  | append_singleton ts t ih => rw [rowAfter_snoc, Taken.onRow_tagIds, ih]

theorem rowAfter_scheduledFor :
    (rowAfter row ts).scheduledFor = if clearedSince ts then none else timeSet row ts := by
  induction ts using List.reverseRecOn with
  | nil => rfl
  | append_singleton ts t ih =>
      rw [rowAfter_snoc, Taken.onRow_scheduledFor]
      cases hs : t.sets with
      | some at_ =>
          -- an accepted schedule starts afresh
          simp [clearedSince, timeSet, hs]
      | none =>
          have hc : clearedSince (ts ++ [t]) = (t.clears || clearedSince ts) := by
            simp [clearedSince, hs]
          have ht : timeSet row (ts ++ [t]) = timeSet row ts := by
            simp [timeSet, hs]
          rw [hc, ht]
          cases t.clears with
          | true => rfl
          | false => exact ih

theorem Same.rowAfter_state (h : List.Forall₂ Taken.Same ts us) {p q : Post}
    (hp : p.state = q.state) : (rowAfter p ts).state = (rowAfter q us).state := by
  induction h generalizing p q with
  | nil => exact hp
  | cons ht _ ih => exact ih (ht.onRow_state hp)

theorem Same.flatMap_jobs (h : List.Forall₂ Taken.Same ts us) :
    ts.flatMap (Taken.jobs postId) = us.flatMap (Taken.jobs postId) := by
  induction h with
  | nil => rfl
  | cons ht _ ih => rw [List.flatMap_cons, List.flatMap_cons, ht.jobs, ih]

theorem Same.timeSet (h : List.Forall₂ Taken.Same ts us) : timeSet row ts = timeSet row us := by
  have hfind : ∀ {xs ys : List Taken}, List.Forall₂ Taken.Same xs ys →
      xs.findSome? Taken.sets = ys.findSome? Taken.sets := by
    intro xs ys hxy
    induction hxy with
    | nil => rfl
    | cons ht _ ih => rw [List.findSome?_cons, List.findSome?_cons, ht.sets, ih]
  rw [TelegramCms.timeSet, TelegramCms.timeSet, hfind (List.forall₂_reverse_iff.mpr h)]

/-- Two runs of decisions agree on the post and on the jobs. -/
def Agree (postId : Nat) (x y : Option (Db × List Job)) : Prop :=
  ∃ a b p q, x = some a ∧ y = some b ∧ a.1.posts.get postId = some p
    ∧ b.1.posts.get postId = some q ∧ p.state = q.state ∧ p.scheduledFor = q.scheduledFor
    ∧ p.tagIds = q.tagIds ∧ a.2.Perm b.2

/-- What the surfaces can disagree about is the time the post is scheduled for. -/
theorem agree_iff_scheduledFor {db : Db} (hrow : db.posts.get postId = some row)
    (hch : db.channels.get row.sourceChannelId ≠ none) (h : List.Forall₂ Taken.Same ts us) :
    Agree postId (takeAll env postId (db, []) ts) (takeAll env postId (db, []) us)
      ↔ (rowAfter row ts).scheduledFor = (rowAfter row us).scheduledFor := by
  obtain ⟨db₁, h1, hrow1⟩ := @takeAll_spec env postId row ts db [] hrow hch
  obtain ⟨db₂, h2, hrow2⟩ := @takeAll_spec env postId row us db [] hrow hch
  constructor
  · rintro ⟨a, b, p, q, ha, hb, hp, hq, -, hsched, -, -⟩
    rw [h1] at ha
    rw [h2] at hb
    rw [← Option.some.inj ha, hrow1] at hp
    rw [← Option.some.inj hb, hrow2] at hq
    rw [Option.some.inj hp, Option.some.inj hq]
    exact hsched
  · intro hsched
    refine ⟨_, _, _, _, h1, h2, hrow1, hrow2, Same.rowAfter_state h rfl, hsched, ?_, ?_⟩
    · rw [rowAfter_tagIds, rowAfter_tagIds]
    · rw [Same.flatMap_jobs h]

/--
**The surfaces agree on a sequence of decisions exactly if it leaves no time to
forget, or a web approve came since the last accepted schedule in both or in neither.**

State, tags and events come out the same on every surface, so that only `scheduled_for` is left
(`agree_iff_scheduledFor`): the time of the last accepted schedule, unless a web approve has
cleared it since.
-/
theorem surfaces_agree_iff {db : Db} (hrow : db.posts.get postId = some row)
    (hch : db.channels.get row.sourceChannelId ≠ none) (h : List.Forall₂ Taken.Same ts us) :
    Agree postId (takeAll env postId (db, []) ts) (takeAll env postId (db, []) us)
      ↔ timeSet row ts = none ∨ clearedSince ts = clearedSince us := by
  rw [agree_iff_scheduledFor hrow hch h, rowAfter_scheduledFor, rowAfter_scheduledFor,
    ← Same.timeSet h]
  cases timeSet row ts with
  | none => simp
  | some at_ => cases clearedSince ts <;> cases clearedSince us <;> simp

end TakeAll

def deskPost : Post where
  id := 1
  sourceChannelId := 1
  sourceMessageId := 1
  rawText := none
  receivedAt := 0

/-- One post of one channel. -/
def deskDb : Db where
  posts := Table.empty.insert deskPost
  channels := Table.empty.insert { id := 1, telegramChannelId := 7, title := [] }

/-- Scheduled for time 10, then approved. -/
def scheduleThen (approve : Taken) : List Taken := [.web 0 .go 1 (.schedule 10), approve]

/-- The button leaves the time that the web approve clears. -/
theorem inline_approve_keeps_time :
    ¬ ∀ (env : Env) (db : Db) (postId : Nat) (row : Post) (ts us : List Taken),
      db.posts.get postId = some row → db.channels.get row.sourceChannelId ≠ none →
      List.Forall₂ Taken.Same ts us →
      Agree postId (takeAll env postId (db, []) ts) (takeAll env postId (db, []) us) := by
  intro hall
  have h := hall (sampleEnv {}) deskDb 1 deskPost (scheduleThen (.press 1 .approve 5))
    (scheduleThen (.web 1 .python 1 .approve)) rfl (by decide) (by decide)
  rw [agree_iff_scheduledFor rfl (by decide) (by decide)] at h
  exact absurd h (by decide)

/-- Two web approves agree after a schedule. -/
theorem web_approves_agree :
    Agree 1 (takeAll (sampleEnv {}) 1 (deskDb, []) (scheduleThen (.web 1 .go 1 .approve)))
      (takeAll (sampleEnv {}) 1 (deskDb, []) (scheduleThen (.web 1 .python 1 .approve))) :=
  have hrow : deskDb.posts.get 1 = some deskPost := rfl
  (surfaces_agree_iff hrow (by decide) (by decide)).mpr (.inr (by decide))

end TelegramCms
