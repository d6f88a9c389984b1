import TelegramCms.Model.World
import TelegramCms.Proof.PublishMoves

/-!
# What a step of a run can do

A run writes to one post at a time, and each kind of run has one place at which it does.
`Proc.set` is the statement a run is about to issue, `Proc.sees` what an observer
records when it commits, `Proc.enqueues` the job it is about to enqueue. A step then
either touches nothing, or commits that statement, or enqueues that job, or is one of
the four steps only a publish run takes (`step_does`).
-/

namespace TelegramCms

/-! ## What a run is about to write -/

def PublishPc.set (now : Time) : PublishPc → Option PostSet
  | .claim post => some (flush post { post with state := .publishing })
  | .markCommit ctx mid post =>
    if ctx.dedupeHash = none then
      some (flush post { post with
        state := .published, publishedMessageId := some mid, publishedAt := some now })
    else none
  | .duplicateCommit _ post => some (flush post { post with state := .rejected })
  | .failureCommit _ post => some (flush post { post with state := .publishFailed })
  | _ => none

/-- The row a `normalize` run holds when it commits. -/
def normalizeResult (env : Env) (v : View) (post : Post) (ctx : RenderCtx) (ai : AiOutcome) : Post :=
  if isDuplicate env v.now v.db (computeDedupeHash env post.rawText post.rawMediaRefs) then
    { normalizedPost env post ctx ai with state := .rejected }
  else normalizedPost env post ctx ai

def NormalizePc.set (env : Env) (v : View) : NormalizePc → Option PostSet
  | .commit post ctx ai => some (flush post (normalizeResult env v post ctx ai))
  | _ => none

def CallbackPc.set (button : Button) : CallbackPc → Option PostSet
  | .commit post => some (flush post { post with state := button.state })
  | _ => none

def DecidePc.set (req : DecisionRequest) : DecidePc → Option PostSet
  | .commit post _ => some (decideSet req post)
  | _ => none

def TagsPc.set (req : TagsRequest) : TagsPc → Option PostSet
  | .commit post => some (tagsSet req post)
  | _ => none

def DraftPc.set : DraftPc → Option PostSet
  | .storeCommit mid post => some (flush post { post with draftMessageId := some mid })
  | _ => none

def IngestPc.set : IngestPc → Option PostSet
  | .storeCommit refs post => some (flush post { post with rawMediaRefs := refs })
  | _ => none

/-- The post a run is about to update, and the statement. -/
def Proc.set (env : Env) (v : View) : Proc → Option (Nat × PostSet)
  | .publish job pc => (pc.set v.now).map (job.postId, ·)
  | .normalize job pc => (pc.set env v).map (job.postId, ·)
  | .postDraft job pc => pc.set.map (job.postId, ·)
  | .callback b _ p pc => (pc.set b).map (p, ·)
  | .decide req pc => (pc.set req).map (req.postId, ·)
  | .editTags req pc => (pc.set req).map (req.postId, ·)
  | .ingest p pc => pc.set.map (p, ·)
  | .reconcileScheduled _ | .reconcilePending _ => none

/-- What is recorded when the statement is committed. -/
def Proc.sees (env : Env) (v : View) : Proc → List Obs
  | .publish job (.duplicateCommit h _) => [.duplicate job.postId h]
  | .normalize job (.commit post _ _) =>
    let h := computeDedupeHash env post.rawText post.rawMediaRefs
    if isDuplicate env v.now v.db h then [.duplicate job.postId h] else []
  | .callback b _ p (.commit _) => [.decided p b.decision]
  | .decide req (.commit _ _) => [.decided req.postId req.decision]
  | _ => []

/-- The job a run is about to enqueue. -/
def Proc.enqueues (now : Time) : Proc → Option Job
  | .normalize job (.enqueue _ .auto) => some (enqueuePublish now job.postId)
  | .normalize job (.enqueue _ .queue) => some (enqueuePostDraft now job.postId)
  | .callback _ _ p (.enqueue _) => some (enqueuePublish now p)
  | .decide req (.enqueue delay) => some (enqueuePublish now req.postId delay)
  | .reconcileScheduled (.enqueue (id :: _)) => some (enqueuePublish now id)
  | .reconcilePending (.enqueue (id :: _)) => some (enqueueNormalize now id)
  | .ingest p .enqueue => some (enqueueNormalize now p)
  | _ => none

/-! ## What a step does -/

/-- What a step of a run does to the database and the queues, and what is seen of it. -/
inductive Does (env : Env) (v : View) : Proc → Reply → Effect Proc → Prop where
  | quiet {p r n} : Does env v p r { db := v.db, next := n }
  | writes {p id set evs row n} (hs : p.set env v = some (id, set))
      (hrow : v.db.posts.get id = some row) :
      Does env v p .ok { db := v.db.write id set evs, seen := p.sees env v, next := n }
  | enqueues {p job n} (hj : p.enqueues v.now = some job) :
      Does env v p .ok { db := v.db, jobs := [job], next := n }
  | begins {job pc ctx until_ n} (hpc : pc = .spacing ctx until_ ∨ pc = .backoff ctx until_)
      (hu : until_ ≤ v.now) :
      Does env v (.publish job pc) .ok {
        db := v.db, seen := [.sendBegan v.run job.postId v.now], next := n }
  | delivers {job ctx retried id n} (hid : id ≠ 0) :
      Does env v (.publish job (.sending ctx retried)) (.message id) {
        db := v.db, seen := (sendDelivered v job.postId ctx id).seen, next := n }
  | reserves {job ctx h n} (hf : v.db.dedupe.get h = none) :
      Does env v (.publish job (.reserve ctx h)) .ok {
        db := { v.db with dedupe := v.db.dedupe.insert ⟨h, v.now, v.run, job.postId⟩ }
        next := n }
  | releases {job ctx h e n} :
      Does env v (.publish job (.release ctx h e)) .ok {
        db := { v.db with dedupe := v.db.dedupe.delete h }, next := n }

variable {env : Env} {v : View} {r : Reply}

theorem Effect.map_goto {α β : Type} {f : α → β} {e : Effect α} {q : β}
    (h : (e.map f).next = .goto q) : ∃ pc, e.next = .goto pc ∧ q = f pc := by
  unfold Effect.map at h
  dsimp only at h
  split at h
  · exact ⟨_, ‹_›, (Next.goto.inj h).symm⟩
  · exact absurd h (by simp)

/-- A run keeps its job. -/
theorem publish_step {job : Job} {pc : PublishPc} {e : Effect Proc}
    (h : (Proc.publish job pc).step env v r = some e) :
    ∃ e₀, PublishMove env v job.postId pc r e₀ ∧ e = e₀.map (.publish job) := by
  obtain ⟨e₀, he, rfl⟩ := Option.map_eq_some_iff.mp h
  exact ⟨e₀, publishStep_move he, rfl⟩

/-- What a move of a publish run does, in the terms of all runs. -/
theorem publish_does {job : Job} {pc : PublishPc} {e : Effect PublishPc}
    (h : PublishMove env v job.postId pc r e) :
    Does env v (.publish job pc) r (e.map (.publish job)) := by
  cases h with
  | stops o => exact .quiet
  | fails ex hr => exact .quiet
  | loads hrow hm hs => exact .quiet
  | claims hrow => exact .writes (p := .publish job (.claim _)) rfl hrow
  | unhashed hh => exact .quiet
  | hashed hh => exact .quiet
  | absent hf => exact .quiet
  | taken hpc hrow => exact .quiet
  | reserves hf => exact .reserves hf
  | locks hl => exact .quiet
  | begins hpc hu => exact .begins hpc hu
  | delivers hid => exact .delivers hid
  | sendFails ex hh => exact .quiet
  | backsOff => exact .quiet
  | releases => exact .releases
  | markLoads hrow => exact .quiet
  | marks hh hrow =>
      refine .writes (p := .publish job (.markCommit _ _ _)) ?_ hrow
      simp [Proc.set, PublishPc.set, hh]
  | card hpc => exact .quiet
  | duplicateLoads hrow => exact .quiet
  | duplicates hrow => exact .writes (p := .publish job (.duplicateCommit _ _)) rfl hrow
  | failureLoads hrow => exact .quiet
  | failureCommits hrow => exact .writes (p := .publish job (.failureCommit _ _)) rfl hrow

/-! ## The other runs -/

/-- What a step of any other run can do, in terms of the statement it is about to commit,
what is then seen, and the job it is about to enqueue. -/
inductive Plain {Pc : Type} (v : View) (set : Option (Nat × PostSet)) (sees : List Obs)
    (job : Option Job) : Reply → Effect Pc → Prop where
  | quiet {r n} : Plain v set sees job r { db := v.db, next := n }
  | writes {id s evs row n} (hs : set = some (id, s)) (hrow : v.db.posts.get id = some row) :
      Plain v set sees job .ok { db := v.db.write id s evs, seen := sees, next := n }
  | enqueues {j n} (hj : job = some j) : Plain v set sees job .ok { db := v.db, jobs := [j], next := n }

section Plain

variable {Pc : Type} {set : Option (Nat × PostSet)} {sees : List Obs} {job : Option Job}
  {e x : Effect Pc}

/-- A call fails, or the rest of the step is taken. -/
theorem plain_await {f : PyError → Effect Pc} (h : r.await f x = some e)
    (hf : ∀ ex, ∃ n, f ex = { db := v.db, next := n }) (hx : Plain v set sees job .ok x) :
    Plain v set sees job r e := by
  rcases Reply.await_cases h with ⟨rfl, rfl⟩ | ⟨ex, rfl, rfl⟩
  · exact hx
  · obtain ⟨n, hn⟩ := hf ex
    rw [hn]; exact .quiet

theorem plain_await_raise (h : r.await v.raise x = some e) (hx : Plain v set sees job .ok x) :
    Plain v set sees job r e :=
  plain_await h (fun _ => ⟨_, rfl⟩) hx

theorem plain_commit {id : Nat} {s : PostSet} {evs : List PostEvent} {n : Db → Next Pc}
    (hs : set = some (id, s)) :
    Plain v set sees job .ok
      (v.commit id s evs v.raise (fun db => { db := db, seen := sees, next := n db })) := by
  rcases View.commit_cases with ⟨-, h⟩ | ⟨row, hrow, h⟩
  · rw [h]; exact .quiet
  · rw [h]; exact .writes hs hrow

end Plain

theorem normalizeStep_plain {job : Job} {pc : NormalizePc} {e : Effect NormalizePc}
    (h : normalizeStep env v job.postId pc r = some e) :
    Plain v ((Proc.normalize job pc).set env v) ((Proc.normalize job pc).sees env v)
      ((Proc.normalize job pc).enqueues v.now) r e := by
  cases pc with
  | load =>
      refine plain_await_raise h ?_
      unfold normalizeLoad
      split
      · exact .quiet
      · split <;> exact .quiet
  | context post =>
      refine plain_await_raise h ?_
      unfold normalizeContext
      split
      · exact .quiet
      · split
        · exact .quiet
        · dsimp only
          split <;> exact .quiet
  | transform post ctx =>
      simp only [normalizeStep] at h
      unfold normalizeTransformed at h
      split at h
      · obtain rfl := Option.some.inj h; exact .quiet
      · obtain rfl := Option.some.inj h; exact .quiet
      · exact absurd h (by simp)
  | commit post ctx ai =>
      -- both branches commit what `normalizeResult` makes of the session
      refine plain_await_raise h ?_
      unfold normalizeCommit
      simp only [Proc.set, NormalizePc.set, Proc.sees, normalizeResult]
      split
      · exact plain_commit rfl
      · exact plain_commit rfl
  | enqueue post route =>
      refine plain_await_raise h ?_
      cases route <;> exact .enqueues rfl

theorem draftStep_plain {job : Job} {pc : DraftPc} {e : Effect DraftPc}
    (h : draftStep env v job.postId pc r = some e) :
    Plain v ((Proc.postDraft job pc).set env v) ((Proc.postDraft job pc).sees env v)
      ((Proc.postDraft job pc).enqueues v.now) r e := by
  cases pc with
  | load =>
      refine plain_await_raise h ?_
      unfold draftLoad
      split
      · exact .quiet
      · split
        · exact .quiet
        · split
          · exact .quiet
          · split <;> exact .quiet
  | send post =>
      simp only [draftStep] at h
      unfold draftSent at h
      split at h
      · split at h
        · obtain rfl := Option.some.inj h; exact .quiet
        · exact absurd h (by simp)
      · split at h
        · exact absurd h (by simp)
        · obtain rfl := Option.some.inj h; exact .quiet
      · obtain rfl := Option.some.inj h
        split <;> exact .quiet
      · exact absurd h (by simp)
  | storeLoad mid =>
      refine plain_await_raise h ?_
      split <;> exact .quiet
  | storeCommit mid post =>
      refine plain_await_raise h ?_
      exact plain_commit rfl

theorem callbackStep_plain {b : Button} {u : Int} {p : Nat} {pc : CallbackPc}
    {e : Effect CallbackPc} (h : callbackStep v b u p pc r = some e) :
    Plain v ((Proc.callback b u p pc).set env v) ((Proc.callback b u p pc).sees env v)
      ((Proc.callback b u p pc).enqueues v.now) r e := by
  cases pc with
  | load =>
      refine plain_await_raise h ?_
      unfold callbackLoad
      split
      · exact .quiet
      · split <;> exact .quiet
  | commit post => exact plain_await_raise h (plain_commit rfl)
  | answer post =>
      refine plain_await_raise h ?_
      cases b <;> exact .quiet
  | enqueue post => exact plain_await_raise h (.enqueues rfl)
  | card post =>
      -- a failing card edit is caught or raised; neither touches the database
      refine plain_await h (fun ex => ?_) .quiet
      split <;> exact ⟨_, rfl⟩

theorem decideStep_plain {req : DecisionRequest} {pc : DecidePc} {e : Effect DecidePc}
    (h : decideStep v req pc r = some e) :
    Plain v ((Proc.decide req pc).set env v) ((Proc.decide req pc).sees env v)
      ((Proc.decide req pc).enqueues v.now) r e := by
  cases pc with
  | load =>
      refine plain_await_raise h ?_
      unfold decideLoad
      split
      · exact .quiet
      · split
        · split <;> exact .quiet
        · exact .quiet
  | commit post now => exact plain_await_raise h (plain_commit rfl)
  | enqueue delay => exact plain_await_raise h (.enqueues rfl)
  | refresh => exact plain_await_raise h .quiet

theorem tagsStep_plain {req : TagsRequest} {pc : TagsPc} {e : Effect TagsPc}
    (h : tagsStep v req pc r = some e) :
    Plain v ((Proc.editTags req pc).set env v) ((Proc.editTags req pc).sees env v)
      ((Proc.editTags req pc).enqueues v.now) r e := by
  cases pc with
  | load =>
      refine plain_await_raise h ?_
      split <;> exact .quiet
  | commit post => exact plain_await_raise h (plain_commit rfl)

theorem ingestStep_plain {p : Nat} {pc : IngestPc} {e : Effect IngestPc}
    (h : ingestStep v p pc r = some e) :
    Plain v ((Proc.ingest p pc).set env v) ((Proc.ingest p pc).sees env v)
      ((Proc.ingest p pc).enqueues v.now) r e := by
  cases pc with
  | download =>
      cases r <;> simp only [ingestStep, reduceCtorEq] at h <;>
        (obtain rfl := Option.some.inj h; exact .quiet)
  | storeLoad refs =>
      refine plain_await_raise h ?_
      split <;> exact .quiet
  | storeCommit refs post => exact plain_await_raise h (plain_commit rfl)
  | enqueue => exact plain_await_raise h (.enqueues rfl)

theorem reconcileStep_plain {select : Time → Db → List Nat} {job : Time → Nat → Job}
    {pc : ReconcilePc} {e : Effect ReconcilePc} {enqueues : Option Job}
    (henq : ∀ id ids, pc = .enqueue (id :: ids) → enqueues = some (job v.now id))
    (h : reconcileStep select job v pc r = some e) :
    Plain v none [] enqueues r e := by
  cases pc with
  | query => exact plain_await_raise h .quiet
  | enqueue ids =>
      cases ids with
      | nil =>
          cases r <;> simp only [reconcileStep, reduceCtorEq] at h
          obtain rfl := Option.some.inj h; exact .quiet
      | cons id ids => exact plain_await_raise h (.enqueues (henq id ids rfl))

theorem does_of_plain {Pc : Type} {p : Proc} {f : Pc → Proc} {e : Effect Pc}
    (h : Plain v (p.set env v) (p.sees env v) (p.enqueues v.now) r e) :
    Does env v p r (e.map f) := by
  cases h with
  | quiet => exact .quiet
  | writes hs hrow => exact .writes hs hrow
  | enqueues hj => exact .enqueues hj

/-- **Every step of a run touches nothing, commits the statement the run was about to
commit, enqueues the job it was about to enqueue, or is one of the four steps only a
publish run takes.** -/
theorem step_does {p : Proc} {e : Effect Proc} (h : p.step env v r = some e) :
    Does env v p r e := by
  cases p with
  | publish job pc =>
      obtain ⟨e₀, hm, rfl⟩ := publish_step h
      exact publish_does hm
  | normalize job pc =>
      obtain ⟨e₀, he, rfl⟩ := Option.map_eq_some_iff.mp h
      exact does_of_plain (normalizeStep_plain he)
  | postDraft job pc =>
      obtain ⟨e₀, he, rfl⟩ := Option.map_eq_some_iff.mp h
      exact does_of_plain (draftStep_plain he)
  | callback b u p pc =>
      obtain ⟨e₀, he, rfl⟩ := Option.map_eq_some_iff.mp h
      exact does_of_plain (callbackStep_plain he)
  | decide req pc =>
      obtain ⟨e₀, he, rfl⟩ := Option.map_eq_some_iff.mp h
      exact does_of_plain (decideStep_plain he)
  | editTags req pc =>
      obtain ⟨e₀, he, rfl⟩ := Option.map_eq_some_iff.mp h
      exact does_of_plain (tagsStep_plain he)
  | reconcileScheduled pc =>
      obtain ⟨e₀, he, rfl⟩ := Option.map_eq_some_iff.mp h
      refine does_of_plain (p := .reconcileScheduled pc) (reconcileStep_plain ?_ he)
      rintro id ids rfl; rfl
  | reconcilePending pc =>
      obtain ⟨e₀, he, rfl⟩ := Option.map_eq_some_iff.mp h
      refine does_of_plain (p := .reconcilePending pc) (reconcileStep_plain ?_ he)
      rintro id ids rfl; rfl
  | ingest p pc =>
      obtain ⟨e₀, he, rfl⟩ := Option.map_eq_some_iff.mp h
      exact does_of_plain (ingestStep_plain he)

/-! ## What is seen of a step -/

section Seen

variable {p : Proc} {e : Effect Proc} {o : Obs}

theorem sees_eq (ho : o ∈ p.sees env v) :
    (∃ q h, o = .duplicate q h) ∨ ∃ q d, o = .decided q d := by
  unfold Proc.sees at ho
  split at ho
  · exact .inl ⟨_, _, List.mem_singleton.mp ho⟩
  · dsimp only at ho
    split at ho
    · exact .inl ⟨_, _, List.mem_singleton.mp ho⟩
    · exact absurd ho (by simp)
  · exact .inr ⟨_, _, List.mem_singleton.mp ho⟩
  · exact .inr ⟨_, _, List.mem_singleton.mp ho⟩
  · exact absurd ho (by simp)

/-- A decision is recorded by the commit of a button press or of a web request. -/
theorem sees_decided {q : Nat} {d : Decision} (h : .decided q d ∈ p.sees env v) :
    (∃ b u post, p = .callback b u q (.commit post) ∧ d = b.decision)
    ∨ ∃ req post now, p = .decide req (.commit post now) ∧ req.postId = q ∧ d = req.decision := by
  unfold Proc.sees at h
  split at h
  · exact absurd h (by simp)
  · dsimp only at h
    split at h <;> exact absurd h (by simp)
  · rename_i b u _ post
    obtain ⟨rfl, hd⟩ : q = _ ∧ d = b.decision := by simpa using h
    exact .inl ⟨b, u, post, rfl, hd⟩
  · rename_i req post now
    obtain ⟨hq, hd⟩ : q = req.postId ∧ d = req.decision := by simpa using h
    exact .inr ⟨req, post, now, rfl, hq.symm, hd⟩
  · exact absurd h (by simp)

/-- A delivery is made by a publish run inside `_send_post`. -/
theorem Does.delivered {d : Delivery} (h : Does env v p r e) (ho : .delivered d ∈ e.seen) :
    ∃ job ctx retried id, p = .publish job (.sending ctx retried) ∧ r = .message id
      ∧ d = ⟨v.run, job.postId, ctx.dedupeHash, ctx.reservedAt, ctx.text, ctx.mediaRefs, id⟩ := by
  cases h with
  | quiet => exact absurd ho (by simp)
  | writes hs hrow => rcases sees_eq ho with ⟨_, _, h⟩ | ⟨_, _, h⟩ <;> exact absurd h (by simp)
  | enqueues hj => exact absurd ho (by simp)
  | begins hpc hu => exact absurd ho (by simp)
  | @delivers job ctx retried id n hid =>
      refine ⟨job, ctx, retried, id, rfl, rfl, ?_⟩
      simpa [sendDelivered] using ho
  | reserves hf => exact absurd ho (by simp)
  | releases => exact absurd ho (by simp)

/-- A send begins when the sleep before it is over. -/
theorem Does.sendBegan {run q : Nat} {at_ : Time} (h : Does env v p r e)
    (ho : .sendBegan run q at_ ∈ e.seen) :
    ∃ job pc ctx until_, p = .publish job pc ∧ (pc = .spacing ctx until_ ∨ pc = .backoff ctx until_)
      ∧ until_ ≤ v.now ∧ r = .ok ∧ run = v.run ∧ q = job.postId ∧ at_ = v.now := by
  cases h with
  | quiet => exact absurd ho (by simp)
  | writes hs hrow => rcases sees_eq ho with ⟨_, _, h⟩ | ⟨_, _, h⟩ <;> exact absurd h (by simp)
  | enqueues hj => exact absurd ho (by simp)
  | @begins job pc ctx until_ n hpc hu =>
      have ho : run = v.run ∧ q = job.postId ∧ at_ = v.now := by simpa using ho
      exact ⟨job, pc, ctx, until_, rfl, hpc, hu, rfl, ho⟩
  | delivers hid => exact absurd ho (by simp [sendDelivered])
  | reserves hf => exact absurd ho (by simp)
  | releases => exact absurd ho (by simp)

/-- Duplicates and decisions are recorded by the commit that makes them. -/
theorem Does.sees (h : Does env v p r e) (ho : o ∈ e.seen)
    (hd : ∀ d, o ≠ .delivered d) (hb : ∀ run q at_, o ≠ .sendBegan run q at_) :
    o ∈ p.sees env v ∧ r = .ok := by
  cases h with
  | quiet => exact absurd ho (by simp)
  | writes hs hrow => exact ⟨ho, rfl⟩
  | enqueues hj => exact absurd ho (by simp)
  | begins hpc hu => exact absurd (List.mem_singleton.mp ho) (hb _ _ _)
  | delivers hid => exact absurd (List.mem_singleton.mp ho) (hd _)
  | reserves hf => exact absurd ho (by simp)
  | releases => exact absurd ho (by simp)

/-- A job is enqueued by a run whose call succeeded. -/
theorem Does.jobs {job : Job} (h : Does env v p r e) (hj : job ∈ e.jobs) :
    r = .ok ∧ p.enqueues v.now = some job := by
  cases h with
  | enqueues he => exact ⟨rfl, by rw [he, List.mem_singleton.mp hj]⟩
  | _ => exact absurd hj (by simp)

end Seen

end TelegramCms
