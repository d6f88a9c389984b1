import TelegramCms.Proof.Approved
import TelegramCms.Proof.Media
import TelegramCms.Proof.Snapshots

/-!
# What a publication goes back to

A publish job can be enqueued by four kinds of run, can be lost with the run that works on it
and be queued again, and is enqueued a second time by `reconcile_scheduled`. `Bound` is what
all of these leave behind of a post that may go out. Nothing becomes bound by itself: the
step that makes a post bound reads `auto` in the row of its channel, or commits an approval
or a schedule (`bound_step`). So every send goes back to one of the two (`cleared_trace`).
-/

namespace TelegramCms

open Transition

/-! ## Runs that lead to a send -/

/-- The run sends post `p`, or is on the way to enqueue a job that does. -/
def Proc.Bound (p : Nat) : Proc → Prop
  | .publish job _ => job.postId = p
  | .normalize job (.transform _ ctx) | .normalize job (.commit _ ctx _) =>
    job.postId = p ∧ ctx.channel.policy = .auto
  | .normalize job (.enqueue _ route) => job.postId = p ∧ route = .auto
  | .callback .approve _ q (.answer _) => q = p
  | .callback _ _ q (.enqueue _) => q = p
  | .decide req (.enqueue _) => req.postId = p
  | .reconcileScheduled (.enqueue ids) => p ∈ ids
  | _ => False

def Decision.publishes : Decision → Bool
  | .approve | .schedule _ => true
  | .reject => false

theorem publishes_of_ne {d : Decision} (h : d ≠ .reject) : d.publishes = true := by
  cases d with
  | reject => exact absurd rfl h
  | _ => rfl

section Step

variable {env : Env} {v : View} {p : Nat} {q q' : Proc} {r : Reply}

/-- A run becomes bound to a post when it reads `auto`, commits a decision to publish, or finds
the post scheduled. -/
theorem goes_bound (h : Goes env v q r q') (hb : q'.Bound p) :
    q.Bound p
    ∨ (r = .ok ∧ ∃ job post channel, q = .normalize job (.context post) ∧ job.postId = p
        ∧ v.db.channels.get post.sourceChannelId = some channel ∧ channel.policy = .auto)
    ∨ (r = .ok ∧ ∃ d row, d.publishes = true ∧ .decided p d ∈ q.sees env v
        ∧ v.db.posts.get p = some row)
    ∨ ∃ row, v.db.posts.get p = some row ∧ row.state = .scheduled := by
  cases h with
  | publish hm hn => exact .inl hb
  | renders hch ht hctx hpc =>
      -- `normalize` binds the post by the policy it has just read
      have hauto := hb
      rcases hpc with rfl | rfl <;>
        exact .inr (.inl ⟨rfl, _, _, _, rfl, hauto.1, hch, by rw [hctx] at hauto; exact hauto.2⟩)
  | transforms hai => exact .inl hb
  | routes hrow => exact .inl hb
  | @pressed b u q post row hrow =>
      cases b with
      | approve =>
          obtain rfl : q = p := hb
          exact .inr (.inr (.inl ⟨rfl, .approve, row, rfl, List.mem_singleton.mpr rfl, hrow⟩))
      | reject => exact absurd hb (by simp [Proc.Bound])
  | approves => exact .inl hb
  | @decides req post now pc row hrow hn =>
      -- a decision binds it, unless it is to reject
      cases hd : req.decision with
      | reject =>
          rw [decideNext, hd] at hn
          simp only [decideAnswer] at hn
          split at hn
          · obtain rfl := Next.goto.inj hn
            exact absurd hb (by simp [Proc.Bound])
          · exact absurd hn (by simp)
      | approve =>
          rw [decideNext, hd] at hn
          obtain rfl := Next.goto.inj hn
          obtain rfl : req.postId = p := hb
          exact .inr (.inr (.inl ⟨rfl, req.decision, row, publishes_of_ne (by rw [hd]; simp),
            List.mem_singleton.mpr rfl, hrow⟩))
      | schedule t =>
          rw [decideNext, hd] at hn
          obtain rfl := Next.goto.inj hn
          obtain rfl : req.postId = p := hb
          exact .inr (.inr (.inl ⟨rfl, req.decision, row, publishes_of_ne (by rw [hd]; simp),
            List.mem_singleton.mpr rfl, hrow⟩))
  | overdue => exact .inr (.inr (.inr (World.mem_overduePosts hb)))
  | nextOverdue => exact .inl (List.mem_cons_of_mem _ hb)
  | _ => exact absurd hb (by simp [Proc.Bound])

/-- A publish job is enqueued by a run that is bound to its post. -/
theorem bound_of_enqueues {now : Time} {job : Job} (h : q.enqueues now = some job)
    (hp : job.publishes p = true) : q.Bound p := by
  obtain ⟨hname, rfl⟩ := of_decide_eq_true hp
  unfold Proc.enqueues at h
  split at h
  · obtain rfl := Option.some.inj h
    exact ⟨rfl, rfl⟩
  · obtain rfl := Option.some.inj h
    exact absurd hname (by simp [enqueuePostDraft])
  · obtain rfl := Option.some.inj h
    rename_i b _ _ _
    cases b <;> rfl
  · obtain rfl := Option.some.inj h
    rfl
  · obtain rfl := Option.some.inj h
    exact List.mem_cons_self
  · obtain rfl := Option.some.inj h
    exact absurd hname (by simp [enqueueNormalize])
  · obtain rfl := Option.some.inj h
    exact absurd hname (by simp [enqueueNormalize])
  · exact absurd h (by simp)

end Step

/-! ## Entries of the log -/

/-- The entry stands for what a person did. -/
def PostEvent.ByHand (x : PostEvent) : Prop :=
  x.actorAdminId ≠ none ∨ x.action = .approved ∨ x.action = .scheduled ∨ x.action = .rejected

/-- The request that a run serves. -/
def Proc.request? : Proc → Option Request
  | .callback b u p _ => some (.press b u p)
  | .decide req _ => some (.decide req)
  | .editTags req _ => some (.editTags req)
  | _ => none

/-- The entry is one that the handler of the request writes. -/
def Request.Wrote : Request → PostEvent → Prop
  | .press b u p, x => x.postId = p ∧ x.action = b.action ∧ x.actorAdminId = none
      ∧ ("tg_user_id", .int u) ∈ x.payload
  | .decide req, x => x.postId = req.postId ∧ x.action = decisionAction req.decision
      ∧ x.actorAdminId = some req.actor
  | .editTags req, x => x.postId = req.postId ∧ x.action = .edited
      ∧ x.actorAdminId = some req.actor
  | _, _ => False

section Entries

variable {env : Env} {v : View} {p : Nat} {q : Proc} {set : PostSet} {row : Post} {e : Effect Proc}

/-- The entries of the services stand for nobody. -/
def Unsigned (evs : List PostEvent) : Prop := ∀ x ∈ evs, ¬ x.ByHand

theorem unsigned_one {x : PostEvent} (ha : x.actorAdminId = none) (h1 : x.action ≠ .approved)
    (h2 : x.action ≠ .scheduled) (h3 : x.action ≠ .rejected) : Unsigned [x] := by
  intro y hy hb
  obtain rfl := List.mem_singleton.mp hy
  rcases hb with hb | hb | hb | hb
  · exact hb ha
  · exact h1 hb
  · exact h2 hb
  · exact h3 hb

theorem unsigned_append {evs evs' : List PostEvent} (h : Unsigned evs) (h' : Unsigned evs') :
    Unsigned (evs ++ evs') := by
  intro x hx
  rcases List.mem_append.mp hx with hx | hx
  · exact h x hx
  · exact h' x hx

/-- The entries of `normalize` about its AI call name nobody. -/
theorem aiEvents_unsigned (now : Time) (post : Post) (channel : SourceChannel) (ai : AiOutcome) :
    Unsigned (aiEvents now post channel ai) := by
  cases ai with
  | off => exact fun x hx => absurd hx (by simp [aiEvents])
  | transformed r => exact unsigned_one rfl (by simp) (by simp) (by simp)
  | failed e => exact unsigned_one rfl (by simp) (by simp) (by simp)

/-- What the run of `q` adds to the log in one commit: what it does for a person is in the name
of that person, and a decision is in it. -/
structure Signed (env : Env) (v : View) (q : Proc) (evs : List PostEvent) : Prop where
  byHand : ∀ x ∈ evs, x.ByHand → x.createdAt = v.now ∧ ∃ req, q.request? = some req ∧ req.Wrote x
  decided : ∀ p d, .decided p d ∈ q.sees env v →
    ∃ x ∈ evs, x.createdAt = v.now ∧ x.postId = p ∧ x.action = decisionAction d

theorem Unsigned.signed {evs : List PostEvent} (h : Unsigned evs)
    (hd : ∀ p d, .decided p d ∉ q.sees env v) : Signed env v q evs where
  byHand := fun x hx hb => absurd hb (h x hx)
  decided := fun p d ho => absurd ho (hd p d)

/-- An entry is signed by the request that is being served. -/
theorem signed_one {x : PostEvent} (req : Request) (hreq : q.request? = some req)
    (hx : req.Wrote x) (hat : x.createdAt = v.now)
    (hd : ∀ p d, .decided p d ∈ q.sees env v → x.postId = p ∧ x.action = decisionAction d) :
    Signed env v q [x] where
  byHand := fun y hy _ => by
    obtain rfl := List.mem_singleton.mp hy
    exact ⟨hat, req, hreq, hx⟩
  decided := fun p d ho => ⟨x, List.mem_singleton.mpr rfl, hat, hd p d ho⟩

theorem normalize_undecided {job : Job} {pc : NormalizePc} (p : Nat) (d : Decision) :
    .decided p d ∉ (Proc.normalize job pc).sees env v := by
  intro ho
  rcases sees_decided ho with ⟨_, _, _, hq, -⟩ | ⟨_, _, _, hq, -, -⟩ <;> exact absurd hq (by simp)

/-- A decision is committed with the row of its post. -/
theorem set_of_decided {d : Decision} (h : .decided p d ∈ q.sees env v) :
    ∃ set, q.set env v = some (p, set) := by
  rcases sees_decided h with ⟨b, u, post, rfl, -⟩ | ⟨req, post, now, rfl, rfl, -⟩
  · exact ⟨_, rfl⟩
  · exact ⟨_, rfl⟩

/-- The entries of a commit, one case for each kind of statement. -/
theorem commit_signed (hs : q.set env v = some (p, set)) (hrow : v.db.posts.get p = some row)
    (he : q.step env v .ok = some e) :
    ∃ evs, e.db = v.db.write p set evs ∧ Signed env v q evs := by
  have hnone : ∀ p d, .decided p d ∉ ([] : List Obs) := fun p d => List.not_mem_nil
  cases issues_of_set hs with
  | claim =>
      have hnil : Unsigned [] := fun x hx => absurd hx List.not_mem_nil
      exact ⟨_, commit_db (fun _ => rfl) hrow he, hnil.signed hnone⟩
  | mark hh =>
      rename_i job ctx mid post
      -- without a hash the two items are added to the session, and one of them is the entry
      have hadd : (markPublishedItems env v.now job.postId mid none).mapM sessionAdd
          = .ok [{
            postId := job.postId
            action := .published
            payload := [("published_message_id", .int mid),
              ("chat_id", .int env.settings.destinationChannelId)]
            createdAt := v.now }] := rfl
      rw [Proc.step, publishStep, Reply.await, markPublished, hh, hadd] at he
      exact ⟨_, commit_db (fun _ => rfl) hrow he,
        (unsigned_one rfl (by simp) (by simp) (by simp)).signed hnone⟩
  | duplicate =>
      refine ⟨_, commit_db (fun _ => rfl) hrow he,
        (unsigned_one rfl (by simp) (by simp) (by simp)).signed ?_⟩
      intro p d ho
      exact absurd (List.mem_singleton.mp ho) (by simp)
  | failure =>
      exact ⟨_, commit_db (fun _ => rfl) hrow he,
        (unsigned_one rfl (by simp) (by simp) (by simp)).signed hnone⟩
  | normalize =>
      rw [Proc.step, normalizeStep, Reply.await, normalizeCommit] at he
      rw [normalizeResult]
      -- a duplicate, or a text that was rendered
      split at he
      · rename_i hd
        rw [if_pos hd]
        exact ⟨_, commit_db (fun _ => rfl) hrow he, (unsigned_append (aiEvents_unsigned _ _ _ _)
          (unsigned_one rfl (by simp) (by simp) (by simp))).signed normalize_undecided⟩
      · rename_i hd
        rw [if_neg hd]
        exact ⟨_, commit_db (fun _ => rfl) hrow he, (unsigned_append (aiEvents_unsigned _ _ _ _)
          (unsigned_one rfl (by simp) (by simp) (by simp))).signed normalize_undecided⟩
  | card =>
      exact ⟨_, commit_db (fun _ => rfl) hrow he,
        (unsigned_one rfl (by simp) (by simp) (by simp)).signed hnone⟩
  | store =>
      refine ⟨_, commit_db (fun _ => rfl) hrow he, (unsigned_one rfl ?_ ?_ ?_).signed hnone⟩ <;>
        (rw [storeEvent]; split <;> simp)
  | @button b u p post =>
      -- from here on a person answers for the entry
      refine ⟨_, commit_db (fun _ => rfl) hrow he,
        signed_one (.press b u p) rfl ⟨rfl, rfl, rfl, by simp⟩ rfl ?_⟩
      intro p' d ho
      obtain ⟨rfl, rfl⟩ : p' = p ∧ d = b.decision := by simpa [Proc.sees] using ho
      exact ⟨rfl, by cases b <;> rfl⟩
  | @decision req post now =>
      refine ⟨_, commit_db (fun _ => rfl) hrow he,
        signed_one (.decide req) rfl ⟨rfl, rfl, rfl⟩ rfl ?_⟩
      intro p' d ho
      obtain ⟨rfl, rfl⟩ : p' = req.postId ∧ d = req.decision := by simpa [Proc.sees] using ho
      exact ⟨rfl, rfl⟩
  | @tags req post =>
      exact ⟨_, commit_db (fun _ => rfl) hrow he,
        signed_one (.editTags req) rfl ⟨rfl, rfl, rfl⟩ rfl fun p d ho => absurd ho (hnone p d)⟩

/-- A step adds entries only with a commit to a row. -/
theorem Does.events {r : Reply} (h : Does env v q r e) :
    e.db.events = v.db.events
    ∨ ∃ p set row, r = .ok ∧ q.set env v = some (p, set) ∧ v.db.posts.get p = some row := by
  cases h with
  | writes hs hrow => exact .inr ⟨_, _, _, rfl, hs, hrow⟩
  | _ => exact .inl rfl

end Entries

namespace World

variable {env : Env} {w w' w₀ : World} {a : Action} {p : Nat} {tr : List (World × Action)}

/-! ## What binds a post -/

/-- The step is one of `normalize` for post `p`, and reads `auto` in the row of the channel. -/
def ReadsAuto (p : Nat) (w : World) (a : Action) : Prop :=
  ∃ i job post row channel, a = .advance i .ok
    ∧ w.proc i = some (.normalize job (.context post)) ∧ job.postId = p
    ∧ w.row p = some row ∧ w.db.channels.get row.sourceChannelId = some channel
    ∧ channel.policy = .auto

/-- A publish job runs under its own name. -/
def Titled (w : World) : Prop :=
  ∀ i q job, w.proc i = some q → q.job? = some job → job.name = .publish →
    ∃ pc, q = .publish job pc

theorem titled_init (h : Init w) : Titled w := by
  intro i q job hq
  rw [proc_init h] at hq
  exact absurd hq (by simp)

/-- A run that is started for a publish job is one of publishing. -/
theorem titled_step (hn : Numbered w) (hw : Titled w) (h : step env w a = some w') : Titled w' := by
  intro i q job hq hjob hname
  rcases proc_step hn h hq with hq | ⟨r, q₀, e, -, hq₀, he, hnx, -⟩ | ⟨-, -, hs⟩
  · exact hw i q job hq hjob hname
  · cases step_goes he hnx with
    | publish hm hpc =>
        obtain rfl := Option.some.inj hjob
        exact ⟨_, rfl⟩
    | normalizes | renders | transforms | routes | drafts | posts | cardLoads =>
        -- a run keeps its kind
        obtain ⟨pc, hpc⟩ := hw i _ job hq₀ hjob hname
        exact absurd hpc (by simp)
    | _ => exact absurd hjob (by simp [Proc.job?])
  · cases hs with
    | publish hname' =>
        obtain rfl := Option.some.inj hjob
        exact ⟨_, rfl⟩
    | normalize hname' =>
        obtain rfl := Option.some.inj hjob
        exact absurd (hname.symm.trans hname') (by simp)
    | postDraft hname' =>
        obtain rfl := Option.some.inj hjob
        exact absurd (hname.symm.trans hname') (by simp)
    | _ => exact absurd hjob (by simp [Proc.job?])

/-- Post `p` has gone out, or something is there that sends it. -/
inductive Bound (p : Nat) (w : World) : Prop where
  | queued {job} (hj : job ∈ w.queue) (hp : job.publishes p = true)
  | running {i q} (hq : w.proc i = some q) (hp : q.Bound p)
  | scheduled {row} (hrow : w.row p = some row) (hs : row.state = .scheduled)

theorem not_bound_init (h : Init w) : ¬ Bound p w := by
  intro hb
  cases hb with
  | queued hj => rw [h.queue] at hj; exact absurd hj (by simp)
  | running hq => rw [proc_init h] at hq; exact absurd hq (by simp)
  | scheduled hrow => rw [row_init h] at hrow; exact absurd hrow (by simp)

/-! ## The log -/

/-- The log after a step is the one before with the entries of a commit, or with that of an
arrival. -/
theorem events_step (h : step env w a = some w') :
    ∃ evs, w'.db.events = w.db.events ++ evs
      ∧ (Unsigned evs ∨ ∃ i q, a = .advance i .ok ∧ w.proc i = some q
          ∧ Signed env (w.view i) q evs) := by
  -- a step that leaves the log alone
  have hsame : ∀ {w' : World}, w'.db.events = w.db.events →
      ∃ evs, w'.db.events = w.db.events ++ evs
        ∧ (Unsigned evs ∨ ∃ i q, a = .advance i .ok ∧ w.proc i = some q
            ∧ Signed env (w.view i) q evs) := by
    intro w' he
    refine ⟨[], by rw [he, List.append_nil], .inl ?_⟩
    exact fun x hx => absurd hx List.not_mem_nil
  rcases step_cases h with ⟨d, rfl, rfl⟩ | ⟨i, r, q, e, rfl, hq, he, rfl⟩ | ⟨k, q, rfl, hq, rfl⟩ |
    ⟨job, rfl, _, _, rfl⟩ | ⟨req, rfl, rfl⟩ | ⟨c, m, text, db, rfl, hdb, rfl⟩ |
    ⟨ch, te, ta, rfl, rfl⟩ | ⟨at_, rfl, _, rfl⟩
  · exact hsame rfl
  · rcases (step_does he).events with hev | ⟨p, set, row, rfl, hs, hrow⟩
    · exact hsame hev
    · obtain ⟨evs, hdb, hsigned⟩ := commit_signed hs hrow he
      exact ⟨evs, congrArg Db.events hdb, .inr ⟨i, q, rfl, hq, hsigned⟩⟩
  · exact hsame rfl
  · exact hsame rfl
  · exact hsame rfl
  · unfold Db.insertPost at hdb
    split at hdb
    · exact absurd hdb (by simp)
    · obtain rfl := Option.some.inj hdb
      exact ⟨_, rfl, .inl (unsigned_one rfl (by simp) (by simp) (by simp))⟩
  · exact hsame rfl
  · exact hsame rfl

/-- A decision to publish that is committed is in the log. -/
theorem decided_entry {i : Nat} {q : Proc} {d : Decision} {row : Post}
    (h : step env w (.advance i .ok) = some w') (hq : w.proc i = some q)
    (hd : d.publishes = true) (hsees : .decided p d ∈ q.sees env (w.view i))
    (hrow : w.row p = some row) :
    ∃ x ∈ w'.db.events, x.postId = p ∧ (x.action = .approved ∨ x.action = .scheduled)
      ∧ x.createdAt = w.now := by
  obtain ⟨set, hs⟩ := set_of_decided hsees
  obtain ⟨q', e, hq', he, rfl⟩ := advance_cases h
  obtain rfl := Option.some.inj (hq.symm.trans hq')
  obtain ⟨evs, hdb, hsigned⟩ := commit_signed hs hrow he
  obtain ⟨x, hx, hat, hid, hact⟩ := hsigned.decided p d hsees
  refine ⟨x, ?_, hid, ?_, hat⟩
  · show x ∈ e.db.events
    rw [hdb]
    exact List.mem_append_right _ hx
  · rw [hact]
    cases d with
    | approve => exact .inl rfl
    | schedule t => exact .inr rfl
    | reject => exact absurd hd (by simp [Decision.publishes])

/-- What a step makes of a post that was not bound. -/
theorem bound_step (hn : Numbered w) (ht : Titled w) (hc : Copied w) (h : step env w a = some w')
    (hb : Bound p w') :
    Bound p w ∨ ReadsAuto p w a
    ∨ ∃ x ∈ w'.db.events, x.postId = p ∧ (x.action = .approved ∨ x.action = .scheduled)
        ∧ x.createdAt = w.now := by
  cases hb with
  | queued hj hp =>
      rcases queue_step h hj with hj | ⟨i, q, -, hq, henq⟩ | ⟨i, q, -, hq, hjob⟩
      · exact .inl (.queued hj hp)
      · exact .inl (.running hq (bound_of_enqueues henq hp))
      · -- the job of a run that died
        obtain ⟨hname, hpost⟩ := of_decide_eq_true hp
        obtain ⟨pc, rfl⟩ := ht i q _ hq hjob hname
        exact .inl (.running hq hpost)
  | @running i q hq hp =>
      rcases proc_step hn h hq with hq | ⟨r, q₀, e, rfl, hq₀, he, hnx, -⟩ | ⟨-, -, hs⟩
      · exact .inl (.running hq hp)
      · rcases goes_bound (step_goes he hnx) hp with hp₀
          | ⟨rfl, job, post, channel, rfl, rfl, hch, hauto⟩ | ⟨rfl, d, row, hd, hsees, hrow⟩
          | ⟨row, hrow, hs⟩
        · exact .inl (.running hq₀ hp₀)
        · obtain ⟨row, hrow, hid, -⟩ := hc i _ job.postId post hq₀ rfl
          exact .inr (.inl ⟨i, job, post, row, channel, rfl, hq₀, rfl, hrow, hid ▸ hch, hauto⟩)
        · exact .inr (.inr (decided_entry h hq₀ hd hsees hrow))
        · exact .inl (.scheduled hrow hs)
      · cases hs with
        | publish hname =>
            obtain ⟨hj, -, -⟩ := startJob_cases h
            exact .inl (.queued hj (decide_eq_true ⟨hname, hp⟩))
        | _ => exact absurd hp (by simp [Proc.Bound])
  | @scheduled row hrow hs =>
      rcases state_origin h hrow (by rw [hs]; simp) (by rw [hs]; simp) with
        ⟨row₀, hrow₀, hs₀⟩ | ⟨i, q, row₀, rfl, hq, hassigns, hrow₀⟩
      · exact .inl (.scheduled hrow₀ (hs₀.trans hs))
      · rw [hs] at hassigns
        obtain ⟨req, post, now, rfl, rfl, hne⟩ := assigns_scheduled hassigns
        exact .inr (.inr (decided_entry h hq (publishes_of_ne hne)
          (List.mem_singleton.mpr rfl) hrow₀))

/-! ## Every run -/

/-- By the time `t`, `normalize` had read `auto` for post `p`, or there was an entry of the log
that approves or schedules it. -/
def Cleared (tr : List (World × Action)) (w : World) (p : Nat) (t : Time) : Prop :=
  (∃ x ∈ tr, ReadsAuto p x.1 x.2 ∧ x.1.now ≤ t)
  ∨ ∃ x ∈ w.db.events, x.postId = p ∧ (x.action = .approved ∨ x.action = .scheduled)
      ∧ x.createdAt ≤ t

/-- What has been cleared stays so. -/
theorem Cleared.snoc {t t' : Time} (hc : Cleared tr w p t) (ht : t ≤ t')
    (h : step env w a = some w') : Cleared (tr ++ [(w, a)]) w' p t' := by
  obtain ⟨evs, hev, -⟩ := events_step h
  rcases hc with ⟨x, hx, hauto, hat⟩ | ⟨x, hx, hp, hact, hat⟩
  · exact .inl ⟨x, List.mem_append_left _ hx, hauto, Int.le_trans hat ht⟩
  · refine .inr ⟨x, ?_, hp, hact, Int.le_trans hat ht⟩
    rw [hev]
    exact List.mem_append_left _ hx

structure Provenance (tr : List (World × Action)) (w : World) : Prop where
  numbered : Numbered w
  titled : Titled w
  copied : Copied w
  bound : ∀ p, Bound p w → Cleared tr w p w.now
  sent : ∀ i p t, .sendBegan i p t ∈ w.log → Cleared tr w p t

theorem provenance_init (h : Init w) : Provenance [] w where
  numbered := numbered_init h
  titled := titled_init h
  copied := copied_init h
  bound := fun p hb => absurd hb (not_bound_init h)
  sent := fun i p t ho => by
    rw [h.log] at ho
    exact absurd ho List.not_mem_nil

/-- A post is bound for the channel once it has been cleared, -/
theorem Provenance.bound_step (hw : Provenance tr w) (h : step env w a = some w')
    (hb : Bound p w') : Cleared (tr ++ [(w, a)]) w' p w'.now := by
  rcases World.bound_step hw.numbered hw.titled hw.copied h hb with hb | hauto
    | ⟨x, hx, hid, hact, hat⟩
  · exact (hw.bound p hb).snoc (now_step h) h
  · exact .inl ⟨(w, a), List.mem_append_right _ (List.mem_singleton.mpr rfl), hauto, now_step h⟩
  · refine .inr ⟨x, hx, hid, hact, ?_⟩
    rw [hat]
    exact now_step h

/-- **One step**: a send begins only with a post that is bound for the channel. -/
theorem provenance_step (hw : Provenance tr w) (h : step env w a = some w') :
    Provenance (tr ++ [(w, a)]) w' where
  numbered := numbered_step hw.numbered h
  titled := titled_step hw.numbered hw.titled h
  copied := copied_step hw.numbered hw.copied h
  bound := fun p hb => hw.bound_step h hb
  sent := fun i p t ho => by
    rcases mem_log_step h ho (by simp) with hold | ⟨k, r, q, e, rfl, hq, he, -, hseen⟩
    · exact (hw.sent i p t hold).snoc (Int.le_refl _) h
    · obtain ⟨job, pc, ctx, until_, rfl, -, -, -, -, rfl, rfl⟩ := (step_does he).sendBegan hseen
      exact (hw.bound job.postId (.running hq rfl)).snoc (Int.le_refl _) h

/-- **Nothing goes out by itself: before a send of a post began, `normalize` had read the policy
`auto` in the row of its channel, or an approval or a schedule was in the log.** -/
theorem cleared_trace (h0 : Init w₀) (h : Trace (step env) w₀ tr w) : Provenance tr w := by
  induction h with
  | nil => exact provenance_init h0
  | snoc _ hu ih => exact provenance_step ih hu

end World

end TelegramCms
