import TelegramCms.Proof.Orphans
import TelegramCms.Proof.Rows
import TelegramCms.Proof.Snapshots

/-!
# Media after a crash

An empty `raw_media_refs` stands for a text post and for a download that is not finished
yet, and nothing downstream can tell them apart. What `reconcile_pending` makes up for is
the missing job, not the missing download.

`normalized_with_media`: a post whose message carries media is normalized, drafted and
published with them, as long as `download_media` returned something, no reconcile run
takes the post for an orphan, and no editor approves or schedules it before its media are
there.
-/

namespace TelegramCms

open Transition

/-! ## The download -/

/-- A message that carries media yields a reference, unless `download_media` returned
nothing. -/
theorem downloadMedia_ne_none {env : Env} {out : DownloadEnv} {message : Message} {q : Nat}
    {channel : SourceChannel} {ref : Option MediaRef} (hk : (mediaKind message).isSome)
    (ha : out.answer ≠ .empty) (h : downloadMedia env out message q channel = .ok ref) :
    ref ≠ none := by
  rintro rfl
  obtain ⟨kind, hkind⟩ := Option.isSome_iff_exists.mp hk
  unfold downloadMedia at h
  rw [hkind] at h
  dsimp only at h
  split at h
  · exact absurd h (by simp)
  · split at h
    · exact absurd h (by simp)
    · rename_i he
      exact ha he
    · exact absurd h (by simp)
    · exact absurd h (by simp)

/-! ## Runs that take the ingest of a post for finished -/

/-- The run works on post `q` in a way that presupposes that its ingest is over. -/
def Proc.follows (q : Nat) : Proc → Bool
  | .publish job _ | .normalize job _ | .postDraft job _ => job.postId = q
  | .callback b _ p (.answer _) => b = .approve ∧ p = q
  | .callback _ _ p (.enqueue _) => p = q
  | .decide req (.enqueue _) => req.postId = q
  | .reconcileScheduled (.enqueue ids) | .reconcilePending (.enqueue ids) => q ∈ ids
  | .ingest p .enqueue => p = q
  | _ => false

/-- The run is about to become one of these. -/
inductive Proc.Enters (v : View) (q : Nat) : Proc → Prop where
  | approves {u post} : Enters v q (.callback .approve u q (.commit post))
  | decides {req post now} (hq : req.postId = q) (hd : req.decision ≠ .reject) :
      Enters v q (.decide req (.commit post now))
  | overdue (hq : q ∈ overduePosts v.now v.db) : Enters v q (.reconcileScheduled .query)
  | orphaned (hq : q ∈ orphanedPosts v.now v.db) : Enters v q (.reconcilePending .query)
  | stores {refs post row} (hrow : v.db.posts.get q = some row) :
      Enters v q (.ingest q (.storeCommit refs post))

section Follows

variable {env : Env} {v : View} {r : Reply} {q : Nat}

/-- A run comes to follow the ingest of a post only by entering it. -/
theorem follows_step {p p' : Proc} (h : Goes env v p r p') (hf : p'.follows q = true) :
    p.follows q = true ∨ (r = .ok ∧ p.Enters v q) := by
  cases h with
  | publish hm hn => exact .inl hf
  | normalizes hrow hp hr => exact .inl hf
  | renders hch ht hctx hpc => exact .inl hf
  | transforms hai => exact .inl hf
  | routes hrow => exact .inl hf
  | drafts hrow ht => exact .inl hf
  | posts => exact .inl hf
  | cardLoads hrow => exact .inl hf
  | pressed hrow =>
      obtain ⟨rfl, rfl⟩ := of_decide_eq_true hf
      exact .inr ⟨rfl, .approves⟩
  | approves => exact .inl (decide_eq_true ⟨rfl, of_decide_eq_true hf⟩)
  | decides hrow hn =>
      rename_i req post now pc row
      cases pc with
      | enqueue delay =>
          refine .inr ⟨rfl, .decides (of_decide_eq_true hf) fun hd => ?_⟩
          rw [decideNext, hd] at hn
          simp only [decideAnswer] at hn
          split at hn <;> exact absurd hn (by simp)
      | _ => exact absurd hf (by simp [Proc.follows])
  | overdue => exact .inr ⟨rfl, .overdue (of_decide_eq_true hf)⟩
  | orphaned => exact .inr ⟨rfl, .orphaned (of_decide_eq_true hf)⟩
  | nextOverdue =>
      exact .inl (decide_eq_true (List.mem_cons_of_mem _ (of_decide_eq_true hf)))
  | nextOrphan =>
      exact .inl (decide_eq_true (List.mem_cons_of_mem _ (of_decide_eq_true hf)))
  | stores hrow =>
      obtain rfl := of_decide_eq_true hf
      exact .inr ⟨rfl, .stores hrow⟩
  | _ => exact absurd hf (by simp [Proc.follows])

/-- The job that such a run enqueues is for the same post, and only such a run enqueues. -/
theorem follows_of_enqueues {p : Proc} {now : Time} {job : Job} (h : p.enqueues now = some job)
    (hq : job.postId = q) : p.follows q = true := by
  subst hq
  unfold Proc.enqueues at h
  split at h
  case h_8 => exact absurd h (by simp)
  all_goals
    obtain rfl := Option.some.inj h
    simp [Proc.follows, enqueuePublish, enqueuePostDraft, enqueueNormalize]

theorem follows_of_job {p : Proc} {job : Job} (h : p.job? = some job) (hq : job.postId = q) :
    p.follows q = true := by
  subst hq
  unfold Proc.job? at h
  split at h
  · obtain rfl := Option.some.inj h; simp [Proc.follows]
  · obtain rfl := Option.some.inj h; simp [Proc.follows]
  · obtain rfl := Option.some.inj h; simp [Proc.follows]
  · exact absurd h (by simp)

end Follows

/-- Only the second commit of an ingest writes `raw_media_refs`. -/
theorem set_rawMediaRefs {env : Env} {v : View} {p : Proc} {q : Nat} {set : PostSet}
    (hs : p.set env v = some (q, set)) :
    set.rawMediaRefs = none
    ∨ ∃ refs post, p = .ingest q (.storeCommit refs post)
        ∧ set.rawMediaRefs = changed post.rawMediaRefs refs := by
  rcases set_content hs with ⟨job, post, ctx, ai, -, -, rfl⟩ | ⟨refs, post, rfl, rfl⟩ | ⟨he, -⟩
  · rw [normalizeResult]
    split <;> exact .inl (changed_self _)
  · exact .inr ⟨refs, post, rfl, rfl⟩
  · exact .inl he

/-- Only a `normalize` run writes `normalized_text`. -/
theorem set_normalizedText {env : Env} {v : View} {p : Proc} {q : Nat} {set : PostSet}
    (hs : p.set env v = some (q, set)) :
    set.normalizedText = none ∨ ∃ job pc, p = .normalize job pc ∧ q = job.postId := by
  rcases set_content hs with ⟨job, post, ctx, ai, rfl, hq, -⟩ | ⟨refs, post, -, rfl⟩ | ⟨-, he, -⟩
  · exact .inr ⟨job, _, rfl, hq⟩
  · exact .inl (changed_self _)
  · exact .inl he

/-- Only a schedule decision makes a post `scheduled`. -/
theorem assigns_scheduled {env : Env} {v : View} {p : Proc} {q : Nat}
    (h : p.assigns env v = some (q, .scheduled)) :
    ∃ req post now, p = .decide req (.commit post now) ∧ req.postId = q ∧ req.decision ≠ .reject := by
  generalize hs : PostState.scheduled = s at h
  cases assigns_iff.mp h with
  | button hne =>
      rename_i b _ _
      cases b <;> exact absurd hs (by simp [Button.state])
  | decision hne =>
      refine ⟨_, _, _, rfl, rfl, fun hr => ?_⟩
      rw [hr] at hs
      exact absurd hs (by simp [decisionState])
  | _ => exact absurd hs (by simp)

namespace World

variable {env : Env} {w w' : World} {a : Action} {q : Nat}

/-- The media of post `q` are in its row. -/
def Filled (q : Nat) (w : World) : Prop := ∃ row ∈ w.row q, row.rawMediaRefs ≠ []

instance (q : Nat) (w : World) : Decidable (Filled q w) :=
  inferInstanceAs (Decidable (∃ row ∈ w.row q, row.rawMediaRefs ≠ []))

/-- The download of post `q` by run `i` answers what `_download_media` makes of `message`
and of the outside `out i`. -/
def Downloads (env : Env) (message : Message) (channel : SourceChannel) (out : Nat → DownloadEnv)
    (q : Nat) (w : World) : Action → Prop
  | .advance i (.media ref) =>
    w.proc i = some (.ingest q .download) → downloadMedia env (out i) message q channel = .ok ref
  | _ => True

/-- `download_media` does not return nothing when it is called for post `q`. -/
def Fetched (out : Nat → DownloadEnv) (q : Nat) (w : World) : Action → Prop
  | .advance i (.media _) => w.proc i = some (.ingest q .download) → (out i).answer ≠ .empty
  | _ => True

/-- What a run must not do to post `q` while its media are missing: take it for an orphan,
or approve or schedule it. -/
def Waits (q : Nat) (w : World) : Proc → Prop
  | .reconcilePending .query =>
    ∀ row ∈ w.row q, ¬ (row.Orphan w.now ∧ w.db.orphansBefore w.now row < 200)
  | .callback .approve _ p (.commit _) => p = q → Filled q w
  | .decide req (.commit _ _) => req.postId = q → req.decision ≠ .reject → Filled q w
  | _ => True

/-- The condition on a step. -/
def MediaSafe (out : Nat → DownloadEnv) (q : Nat) (w : World) (a : Action) : Prop :=
  Fetched out q w a ∧ OnOk (fun w _ p => Waits q w p) w a

instance (env : Env) (message : Message) (channel : SourceChannel) (out : Nat → DownloadEnv)
    (q : Nat) (w : World) : DecidablePred (Downloads env message channel out q w) := fun a =>
  match a with
  | .advance i (.media ref) => inferInstanceAs (Decidable (w.proc i = some (.ingest q .download) →
      downloadMedia env (out i) message q channel = .ok ref))
  | .advance _ .ok | .advance _ (.raise _) | .advance _ (.retryAfter _) | .advance _ (.message _)
  | .advance _ .nothing | .advance _ (.transformed _)
  | .tick _ | .crash _ | .startJob _ | .request _ | .arrive .. | .configure .. | .pruneDedupe _ =>
    inferInstanceAs (Decidable True)

instance (out : Nat → DownloadEnv) (q : Nat) (w : World) : DecidablePred (Fetched out q w) := fun a =>
  match a with
  | .advance i (.media _) => inferInstanceAs (Decidable (w.proc i = some (.ingest q .download) →
      (out i).answer ≠ .empty))
  | .advance _ .ok | .advance _ (.raise _) | .advance _ (.retryAfter _) | .advance _ (.message _)
  | .advance _ .nothing | .advance _ (.transformed _)
  | .tick _ | .crash _ | .startJob _ | .request _ | .arrive .. | .configure .. | .pruneDedupe _ =>
    inferInstanceAs (Decidable True)

instance (q : Nat) (w : World) : DecidablePred (Waits q w) := fun p =>
  match p with
  | .reconcilePending .query => inferInstanceAs (Decidable
      (∀ row ∈ w.row q, ¬ (row.Orphan w.now ∧ w.db.orphansBefore w.now row < 200)))
  | .callback .approve _ p (.commit _) => inferInstanceAs (Decidable (p = q → Filled q w))
  | .decide req (.commit _ _) =>
    inferInstanceAs (Decidable (req.postId = q → req.decision ≠ .reject → Filled q w))
  | .callback .reject _ _ _ | .callback .approve _ _ .load | .callback .approve _ _ (.answer _)
  | .callback .approve _ _ (.enqueue _) | .callback .approve _ _ (.card _) | .decide _ .load
  | .decide _ (.enqueue _) | .decide _ .refresh | .reconcilePending (.enqueue _) | .reconcileScheduled _ | .publish ..
  | .normalize .. | .postDraft .. | .editTags .. | .ingest .. => inferInstanceAs (Decidable True)

instance (out : Nat → DownloadEnv) (q : Nat) (w : World) : DecidablePred (MediaSafe out q w) :=
  fun a => inferInstanceAs (Decidable (Fetched out q w a ∧ OnOk (fun w _ p => Waits q w p) w a))

/-- Post `q` is worked on with its media: whatever is normalized, drafted or delivered has
some. -/
structure WithMedia (q : Nat) (w : World) : Prop where
  /-- No `normalize` run works on a copy without media. -/
  normalizing : ∀ i job pc post, w.proc i = some (.normalize job pc) → job.postId = q →
    pc.post? = some post → post.rawMediaRefs ≠ []
  normalized : ∀ row, w.row q = some row → row.normalizedText.isSome → row.rawMediaRefs ≠ []
  /-- No draft card is sent for a copy without media. -/
  drafting : ∀ i job pc post, w.proc i = some (.postDraft job pc) → job.postId = q →
    pc.post? = some post → post.rawMediaRefs ≠ []
  delivered : ∀ d, .delivered d ∈ w.log → d.post = q → d.mediaRefs ≠ []

/-- What keeps it so. -/
structure Complete (q : Nat) (w : World) : Prop extends WithMedia q w where
  numbered : Numbered w
  inOrder : w.db.InOrder
  queued : ∀ job ∈ w.queue, job.postId = q → Filled q w
  running : ∀ i p, w.proc i = some p → p.follows q = true → Filled q w
  scheduled : ∀ row, w.row q = some row → row.state = .scheduled → row.rawMediaRefs ≠ []
  storing : ∀ i pc, w.proc i = some (.ingest q pc) →
    (∀ refs, pc = .storeLoad refs → refs ≠ [])
    ∧ ∀ refs post, pc = .storeCommit refs post → refs ≠ []
      ∧ (post.rawMediaRefs ≠ [] → Filled q w)
  sending : ∀ i job pc x, w.proc i = some (.publish job pc) → job.postId = q →
    pc.cargo? = some x → x.2 ≠ []

theorem filled_row (hf : Filled q w) {row : Post} (hrow : w.row q = some row) :
    row.rawMediaRefs ≠ [] := by
  obtain ⟨row', hrow', hne⟩ := hf
  obtain rfl := Option.some.inj (hrow.symm.trans hrow')
  exact hne

/-- A commit leaves media in a row that has some, and the second commit of an ingest puts
them there. -/
theorem Complete.apply_refs (hw : Complete q w) {i : Nat} {p : Proc} {set : PostSet} {row : Post}
    (hp : w.proc i = some p) (hs : p.set env (w.view i) = some (q, set)) (hrow : w.row q = some row)
    (hf : Filled q w ∨ ∃ refs post, p = .ingest q (.storeCommit refs post)) :
    (set.apply row).rawMediaRefs ≠ [] := by
  show set.rawMediaRefs.getD row.rawMediaRefs ≠ []
  rcases set_rawMediaRefs hs with he | ⟨refs, post, rfl, he⟩
  · rw [he, Option.getD_none]
    rcases hf with hf | ⟨refs, post, rfl⟩
    · exact filled_row hf hrow
    · obtain ⟨-, hst⟩ := hw.storing i _ hp
      obtain ⟨hne, hload⟩ := hst refs post rfl
      -- the statement leaves the column out, so the row had the media when it was loaded
      have hsame : post.rawMediaRefs = refs := by
        obtain rfl := (Prod.mk.inj (Option.some.inj hs)).2
        have he : changed post.rawMediaRefs refs = none := he
        unfold changed at he
        split at he
        · rename_i h; exact h.symm
        · exact absurd he (by simp)
      exact filled_row (hload (hsame ▸ hne)) hrow
  · obtain ⟨-, hst⟩ := hw.storing i _ hp
    obtain ⟨hne, hload⟩ := hst refs post rfl
    rw [he]
    unfold changed
    split
    · rename_i hsame
      exact filled_row (hload (hsame ▸ hne)) hrow
    · exact hne

/-- Media that are stored stay. -/
theorem filled_step (hw : Complete q w) (h : step env w a = some w') (hf : Filled q w) :
    Filled q w' := by
  obtain ⟨row, hrow, hne⟩ := hf
  rcases row_step q h with he | ⟨i, p, set, row', rfl, hp, hs, hr, he⟩ | ⟨c, m, text, -, hn, -⟩
  · exact ⟨row, by rw [he]; exact hrow, hne⟩
  · exact ⟨_, he, hw.apply_refs hp hs hr (.inl ⟨row, hrow, hne⟩)⟩
  · rw [hn] at hrow; exact absurd hrow (by simp)

/-- The query of the reconciler asks for scheduled posts. -/
theorem mem_overduePosts {now : Time} {db : Db} (h : q ∈ overduePosts now db) :
    ∃ row, db.posts.get q = some row ∧ row.state = .scheduled := by
  unfold overduePosts at h
  obtain ⟨row, hrow, rfl⟩ := List.mem_map.mp h
  have hmem := (List.mem_insertionSort _).mp (List.mem_of_mem_take hrow)
  obtain ⟨hmem, hsel⟩ := List.mem_filter.mp hmem
  exact ⟨row, Db.get_post hmem, (of_decide_eq_true hsel).1⟩

section Step

variable {message : Message} {channel : SourceChannel} {out : Nat → DownloadEnv}

/-- A run that begins to take the ingest for finished finds the media in the row. -/
theorem Complete.enters (hw : Complete q w) (hg : MediaSafe out q w a)
    {i : Nat} {p : Proc} (ha : a = .advance i .ok) (hp : w.proc i = some p)
    (h : step env w a = some w') (he : p.Enters (w.view i) q) : Filled q w' := by
  subst ha
  have hwait : Waits q w p := onOk_advance.mp hg.2 rfl p hp
  cases he with
  | approves => exact filled_step hw h (hwait rfl)
  | decides hq hd => exact filled_step hw h (hwait hq hd)
  | overdue hq =>
      obtain ⟨row, hrow, hst⟩ := mem_overduePosts hq
      exact filled_step hw h ⟨row, hrow, hw.scheduled row hrow hst⟩
  | orphaned hq =>
      obtain ⟨row, hrow, -⟩ := row_of_mem_orphanedPosts hq
      exact absurd ((mem_orphanedPosts hw.inOrder hrow).mp hq) (hwait row hrow)
  | @stores refs post row hrow =>
      have hs : (Proc.ingest q (.storeCommit refs post)).set env (w.view i)
        = some (q, flush post { post with rawMediaRefs := refs }) := rfl
      exact ⟨_, row_writes h hp hs hrow, hw.apply_refs hp hs hrow (.inr ⟨_, _, rfl⟩)⟩

/-- The runs that follow the post find its media: a step may let in a new one only after they are
stored. -/
theorem Complete.running_step (hw : Complete q w) (hg : MediaSafe out q w a)
    (h : step env w a = some w') {i : Nat} {p : Proc} (hp : w'.proc i = some p)
    (hf : p.follows q = true) : Filled q w' := by
  rcases proc_step hw.numbered h hp with hp | ⟨r, p₀, e, rfl, hp₀, he, hnx, -⟩ | ⟨_, _, hs⟩
  · exact filled_step hw h (hw.running i p hp hf)
  · rcases follows_step (step_goes he hnx) hf with hf | ⟨rfl, hen⟩
    · exact filled_step hw h (hw.running i p₀ hp₀ hf)
    · exact hw.enters hg rfl hp₀ h hen
  · cases hs with
    | publish => exact filled_step hw h (hw.queued _ (startJob_cases h).1 (of_decide_eq_true hf))
    | normalize => exact filled_step hw h (hw.queued _ (startJob_cases h).1 (of_decide_eq_true hf))
    | postDraft => exact filled_step hw h (hw.queued _ (startJob_cases h).1 (of_decide_eq_true hf))
    | _ => exact absurd hf (by simp [Proc.follows])

theorem Complete.queued_step (hw : Complete q w) (h : step env w a = some w') {job : Job}
    (hj : job ∈ w'.queue) (hq : job.postId = q) : Filled q w' := by
  refine filled_step hw h ?_
  rcases queue_step h hj with hj | ⟨i, p, -, hp, henq⟩ | ⟨i, p, -, hp, hjob⟩
  · exact hw.queued job hj hq
  · exact hw.running i p hp (follows_of_enqueues henq hq)
  · exact hw.running i p hp (follows_of_job hjob hq)

theorem Complete.scheduled_step (hw : Complete q w) (hg : MediaSafe out q w a)
    (h : step env w a = some w') {row : Post} (hrow : w'.row q = some row)
    (hst : row.state = .scheduled) : row.rawMediaRefs ≠ [] := by
  refine filled_row (filled_step hw h ?_) hrow
  rcases state_origin h hrow (by simp [hst]) (by simp [hst]) with
    ⟨row₀, hr, hst₀⟩ | ⟨i, p, row₀, rfl, hp, hass, hr⟩
  · exact ⟨row₀, hr, hw.scheduled row₀ hr (hst₀.trans hst)⟩
  · obtain ⟨req, post, now, rfl, hq, hd⟩ := assigns_scheduled (hst ▸ hass)
    exact onOk_advance.mp hg.2 rfl _ hp hq hd

/-- The ingest has media to store, and stores them. -/
theorem Complete.storing_step (hk : (mediaKind message).isSome)
    (hd : Downloads env message channel out q w a) (hg : MediaSafe out q w a) (hw : Complete q w)
    (h : step env w a = some w') {i : Nat} {pc : IngestPc}
    (hp : w'.proc i = some (.ingest q pc)) :
    (∀ refs, pc = .storeLoad refs → refs ≠ [])
    ∧ ∀ refs post, pc = .storeCommit refs post → refs ≠ []
      ∧ (post.rawMediaRefs ≠ [] → Filled q w') := by
  rcases proc_step hw.numbered h hp with hp | ⟨r, p₀, e, rfl, hp₀, he, hnx, -⟩ | ⟨_, _, hs⟩
  · obtain ⟨hl, hc⟩ := hw.storing i pc hp
    exact ⟨hl, fun refs post hpc => ⟨(hc refs post hpc).1,
      fun hne => filled_step hw h ((hc refs post hpc).2 hne)⟩⟩
  · cases step_goes he hnx with
    | downloads =>
        rename_i ref
        refine ⟨?_, by simp⟩
        intro refs hrefs
        obtain rfl := IngestPc.storeLoad.inj hrefs
        -- the step does what the download of the message returned
        have hne := downloadMedia_ne_none hk (hg.1 hp₀) (hd hp₀)
        cases ref with
        | none => exact absurd rfl hne
        | some ref => simp
    | reloads hrow =>
        refine ⟨by simp, ?_⟩
        intro refs post hpc
        obtain ⟨rfl, rfl⟩ := IngestPc.storeCommit.inj hpc
        exact ⟨(hw.storing i _ hp₀).1 _ rfl, fun hne => filled_step hw h ⟨_, hrow, hne⟩⟩
    | stores hrow => exact ⟨by simp, by simp⟩
  · cases hs with
    | arrive => exact ⟨by simp, by simp⟩

theorem Complete.normalizing_step (hw : Complete q w) (h : step env w a = some w') {i : Nat}
    {job : Job} {pc : NormalizePc} {post : Post} (hp : w'.proc i = some (.normalize job pc))
    (hq : job.postId = q) (hpost : pc.post? = some post) : post.rawMediaRefs ≠ [] := by
  rcases normalize_copy_step hw.numbered h hp hpost with ⟨pc₀, hp, hpost⟩ | ⟨hp, hrow, -⟩
  · exact hw.normalizing i job pc₀ post hp hq hpost
  · exact filled_row (hw.running i _ hp (decide_eq_true hq)) (hq ▸ hrow)

theorem Complete.drafting_step (hw : Complete q w) (h : step env w a = some w') {i : Nat}
    {job : Job} {pc : DraftPc} {post : Post} (hp : w'.proc i = some (.postDraft job pc))
    (hq : job.postId = q) (hpost : pc.post? = some post) : post.rawMediaRefs ≠ [] := by
  rcases proc_step hw.numbered h hp with hp | ⟨r, p₀, e, rfl, hp₀, he, hnx, -⟩ | ⟨_, _, hs⟩
  · exact hw.drafting i job pc post hp hq hpost
  · have hf : ∀ pc₀, w.proc i = some (.postDraft job pc₀) → Filled q w :=
      fun _ hp => hw.running i _ hp (decide_eq_true hq)
    cases step_goes he hnx with
    | drafts hrow ht =>
        obtain rfl := Option.some.inj hpost
        exact filled_row (hf _ hp₀) (hq ▸ hrow)
    | posts => exact absurd hpost (by simp [DraftPc.post?])
    | cardLoads hrow =>
        obtain rfl := Option.some.inj hpost
        exact filled_row (hf _ hp₀) (hq ▸ hrow)
  · cases hs with
    | postDraft => exact absurd hpost (by simp [DraftPc.post?])

/-- What is to be sent has media. -/
theorem Complete.sending_step (hw : Complete q w) (h : step env w a = some w') {i : Nat}
    {job : Job} {pc : PublishPc} {x : Text × List MediaRef}
    (hp : w'.proc i = some (.publish job pc)) (hq : job.postId = q) (hx : pc.cargo? = some x) :
    x.2 ≠ [] := by
  rcases publish_origin hw.numbered h hp with hp | ⟨r, pc₀, e, rfl, hp, hm, hnx, -⟩ | ⟨rfl, -, -⟩
  · exact hw.sending i job pc x hp hq hx
  · rcases move_cargo hm hnx hx with hx | ⟨row, -, hrow, rfl⟩
    · exact hw.sending i job pc₀ x hp hq hx
    · exact filled_row (hw.running i _ hp (decide_eq_true hq)) (hq ▸ hrow)
  · exact absurd hx (by simp [PublishPc.cargo?])

/-- So the media are there when the text is. -/
theorem Complete.normalized_step (hw : Complete q w) (h : step env w a = some w') {row : Post}
    (hrow : w'.row q = some row) (ht : row.normalizedText.isSome) : row.rawMediaRefs ≠ [] := by
  rcases row_step q h with he | ⟨i, p, set, row₀, rfl, hp, hs, hr, he⟩ | ⟨c, m, text, -, -, he⟩
  · exact hw.normalized row (he ▸ hrow) ht
  · obtain rfl := Option.some.inj (hrow.symm.trans he)
    refine hw.apply_refs hp hs hr (.inl ?_)
    rcases set_normalizedText hs with hn | ⟨job, pc, rfl, hq⟩
    · rw [PostSet.apply_normalizedText, hn, Option.getD_none] at ht
      exact ⟨row₀, hr, hw.normalized row₀ hr ht⟩
    · exact hw.running i _ hp (decide_eq_true hq.symm)
  · obtain rfl := Option.some.inj (hrow.symm.trans he)
    exact absurd ht (by simp [ingestedPost])

/-- **One step.** The fields are the places at which the post is in somebody's hands. -/
theorem complete_step (hk : (mediaKind message).isSome)
    (hd : Downloads env message channel out q w a) (hg : MediaSafe out q w a) (hw : Complete q w)
    (h : step env w a = some w') : Complete q w' where
  normalizing _ _ _ _ hp hq hpost := hw.normalizing_step h hp hq hpost
  normalized _ hrow ht := hw.normalized_step h hrow ht
  drafting _ _ _ _ hp hq hpost := hw.drafting_step h hp hq hpost
  delivered d hlog hq := by
    rcases delivered_step h hlog with hlog | ⟨job, ctx, retried, id, -, hp, -, -, he⟩
    · exact hw.delivered d hlog hq
    · rw [he] at hq ⊢
      exact hw.sending _ job _ (ctx.text, ctx.mediaRefs) hp hq rfl
  numbered := numbered_step hw.numbered h
  inOrder := inOrder_step hw.inOrder h
  queued _ hj hq := hw.queued_step h hj hq
  running _ _ hp hf := hw.running_step hg h hp hf
  scheduled _ hrow hst := hw.scheduled_step hg h hrow hst
  storing _ _ hp := hw.storing_step hk hd hg h hp
  sending _ _ _ _ hp hq hx := hw.sending_step h hp hq hx

theorem complete_init (h : Init w) : Complete q w where
  normalizing i job pc post hp := by rw [proc_init h] at hp; exact absurd hp (by simp)
  normalized row hrow := by rw [row_init h] at hrow; exact absurd hrow (by simp)
  drafting i job pc post hp := by rw [proc_init h] at hp; exact absurd hp (by simp)
  delivered d hd := by rw [h.log] at hd; exact absurd hd (by simp)
  numbered := numbered_init h
  inOrder := by unfold Db.InOrder; rw [h.posts]; exact List.Pairwise.nil
  queued job hj := by rw [h.queue] at hj; exact absurd hj (by simp)
  running i p hp := by rw [proc_init h] at hp; exact absurd hp (by simp)
  scheduled row hrow := by rw [row_init h] at hrow; exact absurd hrow (by simp)
  storing i pc hp := by rw [proc_init h] at hp; exact absurd hp (by simp)
  sending i job pc x hp := by rw [proc_init h] at hp; exact absurd hp (by simp)

/--
**A post whose message carries media is normalized, drafted and delivered with media in
every run in which its download returns something and nothing that takes its ingest for
finished comes before the media are stored.**

`Complete` says of each place a run can be at what it has of the media; the three parts of
`WithMedia` are among its fields. A crash takes no media away, it only leaves the post without.
-/
theorem normalized_with_media {w₀ : World} {tr : List (World × Action)} (h0 : Init w₀)
    (hp : Trace (step env) w₀ tr w) (hk : (mediaKind message).isSome)
    (hd : AllSteps (Downloads env message channel out q) tr)
    (hg : AllSteps (MediaSafe out q) tr) : WithMedia q w := by
  have hw : Complete q w := by
    refine hp.invariant (G := fun w a => Downloads env message channel out q w a ∧ MediaSafe out q w a)
      ?_ (fun x hx => ⟨hd x hx, hg x hx⟩) (complete_init h0)
    rintro t a u hw ⟨hd, hg⟩ hu
    exact complete_step hk hd hg hw hu
  exact hw.toWithMedia

end Step

/-- A photo with the caption `hi`. -/
def photoMessage : Message where
  id := 1
  rawText := some "hi".toList
  photo := true

/-- It is ingested, normalized, approved and published. -/
def photoPublished : List Action :=
  .arrive 1 1 (some "hi".toList) :: .advance 0 (.media (some samplePhoto)) :: goes 0 3 ++
  normalizes 1 1 0 ++ presses .approve 1 2 5 ++ sends 1 3 0 6 ++ [.advance 3 (.message 7)]

theorem normalized_with_media_photo :
    ∃ w, (sample sampleChannel).after (sampleEnv {}) photoPublished = some w
      ∧ w.deliveries.map Delivery.mediaRefs = [[samplePhoto]] ∧ WithMedia 1 w := by
  have hrun : ((sample sampleChannel).after (sampleEnv {}) photoPublished).map (fun w =>
      w.deliveries.map Delivery.mediaRefs) = some [[samplePhoto]] := by decide +kernel
  obtain ⟨w, hw, hmedia⟩ := Option.map_eq_some_iff.mp hrun
  have hk : (mediaKind photoMessage).isSome := rfl
  have hd : AllSteps (Downloads (sampleEnv {}) photoMessage sampleChannel (fun _ => {}) 1)
      (stepsOf (sampleEnv {}) (sample sampleChannel) photoPublished) := by decide +kernel
  exact ⟨w, hw, hmedia, normalized_with_media (sample_init _) (path_after hw) hk hd
    (by decide +kernel)⟩

/-- It dies during the download, and the next boot has the post normalized as it is. -/
def downloadDied : List Action :=
  restarted [] ++ goes 1 2 ++ .startJob ⟨.normalize, 1, 301_000⟩ :: goes 2 3

/-- The ingest dies in its download, and the post is recovered without the photo. -/
theorem downloadDied_normalized :
    ∃ w tr, Init (sample sampleChannel) ∧ Trace (step (sampleEnv {})) (sample sampleChannel) tr w
      ∧ (mediaKind photoMessage).isSome
      ∧ AllSteps (Downloads (sampleEnv {}) photoMessage sampleChannel (fun _ => {}) 1) tr
      ∧ ¬ WithMedia 1 w := by
  have hrun : ((sample sampleChannel).after (sampleEnv {}) downloadDied).map (fun w =>
      (w.row 1).map (fun row => (row.normalizedText.isSome, row.rawMediaRefs)))
        = some (some (true, [])) := by decide +kernel
  obtain ⟨w, hw, hrow⟩ := Option.map_eq_some_iff.mp hrun
  obtain ⟨row, hr, he⟩ := Option.map_eq_some_iff.mp hrow
  obtain ⟨ht, hrefs⟩ := Prod.mk.inj he
  exact ⟨w, _, sample_init _, path_after hw, rfl, by decide +kernel,
    fun hm => hm.normalized row hr ht hrefs⟩

end World

end TelegramCms
