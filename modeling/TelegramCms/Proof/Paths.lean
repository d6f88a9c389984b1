import TelegramCms.Proof.Moves

/-!
# Where a run goes next

`Goes` lists the steps after which a run is still there, one constructor for each edge
between two places of a source function, with what the step had to find to take it.
`step_goes` takes a step apart once and for all.
-/

namespace TelegramCms

inductive Goes (env : Env) (v : View) : Proc → Reply → Proc → Prop where
  | publish {job pc r pc' e} (hm : PublishMove env v job.postId pc r e) (hn : e.next = .goto pc') :
      Goes env v (.publish job pc) r (.publish job pc')
  | normalizes {job post} (hrow : v.db.posts.get job.postId = some post)
      (hp : post.state ≠ .published) (hr : post.state ≠ .rejected) :
      Goes env v (.normalize job .load) .ok (.normalize job (.context post))
  | renders {job post channel normalized pc} {ctx : RenderCtx}
      (hch : v.db.channels.get post.sourceChannelId = some channel)
      (ht : normalizeText env v.db.tags (templateBody v.db channel) (post.rawText.getD [])
        (sourceLabel channel) (normalizeTagIds channel) = .ok normalized)
      (hctx : ctx = ⟨channel, normalized, normalizeTagIds channel⟩)
      (hpc : pc = .transform post ctx ∨ pc = .commit post ctx .off) :
      Goes env v (.normalize job (.context post)) .ok (.normalize job pc)
  | transforms {job post ctx r ai} (hai : ∀ t, ai = .transformed t → r = .transformed t) :
      Goes env v (.normalize job (.transform post ctx)) r (.normalize job (.commit post ctx ai))
  | routes {job post ctx ai row} (hrow : v.db.posts.get job.postId = some row) :
      Goes env v (.normalize job (.commit post ctx ai)) .ok
        (.normalize job (.enqueue post ctx.channel.policy))
  | drafts {job post} (hrow : v.db.posts.get job.postId = some post)
      (ht : post.normalizedText.isSome) :
      Goes env v (.postDraft job .load) .ok (.postDraft job (.send post))
  | posts {job post id} :
      Goes env v (.postDraft job (.send post)) (.message id) (.postDraft job (.storeLoad id))
  | cardLoads {job id post} (hrow : v.db.posts.get job.postId = some post) :
      Goes env v (.postDraft job (.storeLoad id)) .ok (.postDraft job (.storeCommit id post))
  | presses {b u q post} (hrow : v.db.posts.get q = some post) :
      Goes env v (.callback b u q .load) .ok (.callback b u q (.commit post))
  | pressed {b u q post row} (hrow : v.db.posts.get q = some row) :
      Goes env v (.callback b u q (.commit post)) .ok
        (.callback b u q (.answer { post with state := b.state }))
  | approves {u q post} : Goes env v (.callback .approve u q (.answer post)) .ok
      (.callback .approve u q (.enqueue post))
  | rejects {u q post} : Goes env v (.callback .reject u q (.answer post)) .ok
      (.callback .reject u q (.card post))
  | edits {b u q post} : Goes env v (.callback b u q (.enqueue post)) .ok
      (.callback b u q (.card post))
  | requests {req post} (hrow : v.db.posts.get req.postId = some post) :
      Goes env v (.decide req .load) .ok (.decide req (.commit post v.now))
  | decides {req post now pc row} (hrow : v.db.posts.get req.postId = some row)
      (hn : decideNext req now = .goto pc) :
      Goes env v (.decide req (.commit post now)) .ok (.decide req pc)
  | refreshes {req delay} : Goes env v (.decide req (.enqueue delay)) .ok (.decide req .refresh)
  | retags {req post} (hrow : v.db.posts.get req.postId = some post) :
      Goes env v (.editTags req .load) .ok (.editTags req (.commit post))
  | overdue : Goes env v (.reconcileScheduled .query) .ok
      (.reconcileScheduled (.enqueue (overduePosts v.now v.db)))
  | nextOverdue {id ids} : Goes env v (.reconcileScheduled (.enqueue (id :: ids))) .ok
      (.reconcileScheduled (.enqueue ids))
  | orphaned : Goes env v (.reconcilePending .query) .ok
      (.reconcilePending (.enqueue (orphanedPosts v.now v.db)))
  | nextOrphan {id ids} : Goes env v (.reconcilePending (.enqueue (id :: ids))) .ok
      (.reconcilePending (.enqueue ids))
  | downloads {q ref} : Goes env v (.ingest q .download) (.media ref) (.ingest q (.storeLoad ref.toList))
  | reloads {q refs post} (hrow : v.db.posts.get q = some post) :
      Goes env v (.ingest q (.storeLoad refs)) .ok (.ingest q (.storeCommit refs post))
  | stores {q refs post row} (hrow : v.db.posts.get q = some row) :
      Goes env v (.ingest q (.storeCommit refs post)) .ok (.ingest q .enqueue)

section Next

variable {env : Env} {v : View} {r : Reply}

/-- A call that is followed by a step was answered. -/
theorem await_goto {Pc : Type} {pc : Pc} {x e : Effect Pc} (h : r.await v.raise x = some e)
    (hn : e.next = .goto pc) : r = .ok ∧ x.next = .goto pc := by
  rcases Reply.await_cases h with ⟨rfl, rfl⟩ | ⟨ex, -, rfl⟩
  · exact ⟨rfl, hn⟩
  · exact absurd hn (by simp [View.raise])

/-- A commit that is followed by a step found its row. -/
theorem commit_goto {Pc : Type} {pc : Pc} {q : Nat} {set : PostSet} {evs : List PostEvent}
    {k : Db → Effect Pc} (hn : (v.commit q set evs v.raise k).next = .goto pc) :
    ∃ row db, v.db.posts.get q = some row ∧ (k db).next = .goto pc := by
  rcases View.commit_cases with ⟨-, hc⟩ | ⟨row, hrow, hc⟩
  · rw [hc] at hn; exact absurd hn (by simp [View.raise])
  · rw [hc] at hn; exact ⟨row, _, hrow, hn⟩

/-- The steps of `normalize`, from the load of the post to the enqueueing of its draft or its
publish job. -/
theorem normalize_goes {job : Job} {pc pc' : NormalizePc} {e : Effect NormalizePc}
    (h : normalizeStep env v job.postId pc r = some e) (hn : e.next = .goto pc') :
    Goes env v (.normalize job pc) r (.normalize job pc') := by
  cases pc with
  | load =>
      obtain ⟨rfl, hn⟩ := await_goto h hn
      unfold normalizeLoad at hn
      split at hn
      · exact absurd hn (by simp [View.ret])
      · rename_i hrow
        split at hn
        · exact absurd hn (by simp [View.ret])
        · rename_i hs
          obtain rfl := Next.goto.inj hn
          exact .normalizes hrow (fun he => hs (.inl he)) (fun he => hs (.inr he))
  | context post =>
      obtain ⟨rfl, hn⟩ := await_goto h hn
      unfold normalizeContext at hn
      split at hn
      · exact absurd hn (by simp [View.ret])
      · rename_i hch
        split at hn
        · exact absurd hn (by simp [View.raise])
        · rename_i ht
          dsimp only at hn
          split at hn
          · obtain rfl := Next.goto.inj hn
            exact .renders hch ht rfl (.inl rfl)
          · obtain rfl := Next.goto.inj hn
            exact .renders hch ht rfl (.inr rfl)
  | transform post ctx =>
      simp only [normalizeStep] at h
      unfold normalizeTransformed at h
      split at h
      · obtain rfl := Option.some.inj h
        obtain rfl := Next.goto.inj hn
        exact .transforms fun t ht => by rw [AiOutcome.transformed.inj ht]
      · obtain rfl := Option.some.inj h
        obtain rfl := Next.goto.inj hn
        exact .transforms fun t ht => absurd ht (by simp)
      · exact absurd h (by simp)
  | commit post ctx ai =>
      obtain ⟨rfl, hn⟩ := await_goto h hn
      unfold normalizeCommit at hn
      dsimp only at hn
      split at hn
      · obtain ⟨_, _, _, hn⟩ := commit_goto hn
        exact absurd hn (by simp)
      · obtain ⟨_, _, hrow, hn⟩ := commit_goto hn
        obtain rfl := Next.goto.inj hn
        exact .routes hrow
  | enqueue post route =>
      obtain ⟨rfl, hn⟩ := await_goto h hn
      cases route <;> exact absurd hn (by simp [normalizeEnqueue])

/-- The steps of `post_draft`: the card is sent and then its id is stored. -/
theorem draft_goes {job : Job} {pc pc' : DraftPc} {e : Effect DraftPc}
    (h : draftStep env v job.postId pc r = some e) (hn : e.next = .goto pc') :
    Goes env v (.postDraft job pc) r (.postDraft job pc') := by
  cases pc with
  | load =>
      obtain ⟨rfl, hn⟩ := await_goto h hn
      unfold draftLoad at hn
      split at hn
      · exact absurd hn (by simp [View.ret])
      · rename_i post hrow
        split at hn
        · exact absurd hn (by simp [View.ret])
        · split at hn
          · exact absurd hn (by simp [View.ret])
          · split at hn
            · exact absurd hn (by simp [View.ret])
            · rename_i ht
              obtain rfl := Next.goto.inj hn
              exact .drafts hrow (Option.isSome_iff_ne_none.mpr fun he => ht (by rw [he]; rfl))
  | send post =>
      simp only [draftStep] at h
      unfold draftSent at h
      split at h
      · split at h
        · obtain rfl := Option.some.inj h; exact absurd hn (by simp [View.ret])
        · exact absurd h (by simp)
      · split at h
        · exact absurd h (by simp)
        · obtain rfl := Option.some.inj h
          obtain rfl := Next.goto.inj hn
          exact .posts
      · obtain rfl := Option.some.inj h
        split at hn <;> exact absurd hn (by simp [View.ret, View.raise])
      · exact absurd h (by simp)
  | storeLoad mid =>
      obtain ⟨rfl, hn⟩ := await_goto h hn
      split at hn
      · exact absurd hn (by simp [View.ret])
      · rename_i hrow
        obtain rfl := Next.goto.inj hn
        exact .cardLoads hrow
  | storeCommit mid post =>
      obtain ⟨rfl, hn⟩ := await_goto h hn
      obtain ⟨_, _, _, hn⟩ := commit_goto hn
      exact absurd hn (by simp)

/-- The steps of a press of a button. -/
theorem callback_goes {b : Button} {u : Int} {q : Nat} {pc pc' : CallbackPc}
    {e : Effect CallbackPc} (h : callbackStep v b u q pc r = some e) (hn : e.next = .goto pc') :
    Goes env v (.callback b u q pc) r (.callback b u q pc') := by
  cases pc with
  | load =>
      obtain ⟨rfl, hn⟩ := await_goto h hn
      unfold callbackLoad at hn
      split at hn
      · exact absurd hn (by simp [View.ret])
      · rename_i hrow
        split at hn
        · exact absurd hn (by simp [View.ret])
        · obtain rfl := Next.goto.inj hn
          exact .presses hrow
  | commit post =>
      obtain ⟨rfl, hn⟩ := await_goto h hn
      obtain ⟨_, _, hrow, hn⟩ := commit_goto hn
      obtain rfl := Next.goto.inj hn
      exact .pressed hrow
  | answer post =>
      obtain ⟨rfl, hn⟩ := await_goto h hn
      cases b with
      | approve => obtain rfl := Next.goto.inj hn; exact .approves
      | reject => obtain rfl := Next.goto.inj hn; exact .rejects
  | enqueue post =>
      obtain ⟨rfl, hn⟩ := await_goto h hn
      obtain rfl := Next.goto.inj hn
      exact .edits
  | card post =>
      -- the card is the last thing a press sees to
      rcases Reply.await_cases h with ⟨-, rfl⟩ | ⟨ex, -, rfl⟩
      · exact absurd hn (by simp [View.ret])
      · split at hn <;> exact absurd hn (by simp [View.ret, View.raise])

/-- The steps of a decision of one of the two APIs. -/
theorem decide_goes {req : DecisionRequest} {pc pc' : DecidePc} {e : Effect DecidePc}
    (h : decideStep v req pc r = some e) (hn : e.next = .goto pc') :
    Goes env v (.decide req pc) r (.decide req pc') := by
  cases pc with
  | load =>
      obtain ⟨rfl, hn⟩ := await_goto h hn
      unfold decideLoad at hn
      split at hn
      · exact absurd hn (by simp [View.ret])
      · rename_i hrow
        split at hn
        · split at hn
          · exact absurd hn (by simp [View.raise])
          · obtain rfl := Next.goto.inj hn
            exact .requests hrow
        · obtain rfl := Next.goto.inj hn
          exact .requests hrow
  | commit post now =>
      obtain ⟨rfl, hn⟩ := await_goto h hn
      obtain ⟨_, _, hrow, hn⟩ := commit_goto hn
      exact .decides hrow hn
  | enqueue delay =>
      obtain ⟨rfl, hn⟩ := await_goto h hn
      simp only [decideAnswer] at hn
      split at hn
      · obtain rfl := Next.goto.inj hn
        exact .refreshes
      · exact absurd hn (by simp)
  | refresh =>
      obtain ⟨rfl, hn⟩ := await_goto h hn
      exact absurd hn (by simp [View.ret])

/-- The steps of the endpoint that sets tags. -/
theorem tags_goes {req : TagsRequest} {pc pc' : TagsPc} {e : Effect TagsPc}
    (h : tagsStep v req pc r = some e) (hn : e.next = .goto pc') :
    Goes env v (.editTags req pc) r (.editTags req pc') := by
  cases pc with
  | load =>
      obtain ⟨rfl, hn⟩ := await_goto h hn
      split at hn
      · exact absurd hn (by simp [View.ret])
      · rename_i hrow
        obtain rfl := Next.goto.inj hn
        exact .retags hrow
  | commit post =>
      obtain ⟨rfl, hn⟩ := await_goto h hn
      obtain ⟨_, _, _, hn⟩ := commit_goto hn
      exact absurd hn (by simp)

/-- The steps of the handler of a message. -/
theorem ingest_goes {q : Nat} {pc pc' : IngestPc} {e : Effect IngestPc}
    (h : ingestStep v q pc r = some e) (hn : e.next = .goto pc') :
    Goes env v (.ingest q pc) r (.ingest q pc') := by
  cases pc with
  | download =>
      cases r <;> simp only [ingestStep, reduceCtorEq] at h
      · obtain rfl := Option.some.inj h
        exact absurd hn (by simp [View.raise])
      · obtain rfl := Option.some.inj h
        obtain rfl := Next.goto.inj hn
        exact .downloads
  | storeLoad refs =>
      obtain ⟨rfl, hn⟩ := await_goto h hn
      split at hn
      · exact absurd hn (by simp [View.ret])
      · rename_i hrow
        obtain rfl := Next.goto.inj hn
        exact .reloads hrow
  | storeCommit refs post =>
      obtain ⟨rfl, hn⟩ := await_goto h hn
      obtain ⟨_, _, hrow, hn⟩ := commit_goto hn
      obtain rfl := Next.goto.inj hn
      exact .stores hrow
  | enqueue =>
      obtain ⟨rfl, hn⟩ := await_goto h hn
      exact absurd hn (by simp)

/-- The two reconcilers go through the ids of their one query. -/
theorem reconcile_goes {select : Time → Db → List Nat} {job : Time → Nat → Job}
    {pc pc' : ReconcilePc} {e : Effect ReconcilePc} (h : reconcileStep select job v pc r = some e)
    (hn : e.next = .goto pc') :
    r = .ok ∧ ((pc = .query ∧ pc' = .enqueue (select v.now v.db))
      ∨ ∃ id ids, pc = .enqueue (id :: ids) ∧ pc' = .enqueue ids) := by
  cases pc with
  | query =>
      obtain ⟨rfl, hn⟩ := await_goto h hn
      exact ⟨rfl, .inl ⟨rfl, (Next.goto.inj hn).symm⟩⟩
  | enqueue ids =>
      cases ids with
      | nil =>
          cases r <;> simp only [reconcileStep, reduceCtorEq] at h
          obtain rfl := Option.some.inj h
          exact absurd hn (by simp [View.ret])
      | cons id ids =>
          obtain ⟨rfl, hn⟩ := await_goto h hn
          exact ⟨rfl, .inr ⟨id, ids, rfl, (Next.goto.inj hn).symm⟩⟩

/-- **Every step after which a run is still there goes along one of these edges.** -/
theorem step_goes {p p' : Proc} {e : Effect Proc} (h : p.step env v r = some e)
    (hn : e.next = .goto p') : Goes env v p r p' := by
  cases p with
  | publish job pc =>
      obtain ⟨e₀, hm, rfl⟩ := publish_step h
      obtain ⟨pc', hnx, rfl⟩ := Effect.map_goto hn
      exact .publish hm hnx
  | normalize job pc =>
      obtain ⟨e₀, he, rfl⟩ := Option.map_eq_some_iff.mp h
      obtain ⟨pc', hnx, rfl⟩ := Effect.map_goto hn
      exact normalize_goes he hnx
  | postDraft job pc =>
      obtain ⟨e₀, he, rfl⟩ := Option.map_eq_some_iff.mp h
      obtain ⟨pc', hnx, rfl⟩ := Effect.map_goto hn
      exact draft_goes he hnx
  | callback b u q pc =>
      obtain ⟨e₀, he, rfl⟩ := Option.map_eq_some_iff.mp h
      obtain ⟨pc', hnx, rfl⟩ := Effect.map_goto hn
      exact callback_goes he hnx
  | decide req pc =>
      obtain ⟨e₀, he, rfl⟩ := Option.map_eq_some_iff.mp h
      obtain ⟨pc', hnx, rfl⟩ := Effect.map_goto hn
      exact decide_goes he hnx
  | editTags req pc =>
      obtain ⟨e₀, he, rfl⟩ := Option.map_eq_some_iff.mp h
      obtain ⟨pc', hnx, rfl⟩ := Effect.map_goto hn
      exact tags_goes he hnx
  | reconcileScheduled pc =>
      obtain ⟨e₀, he, rfl⟩ := Option.map_eq_some_iff.mp h
      obtain ⟨pc', hnx, rfl⟩ := Effect.map_goto hn
      obtain ⟨rfl, ⟨rfl, rfl⟩ | ⟨id, ids, rfl, rfl⟩⟩ := reconcile_goes he hnx
      · exact .overdue
      · exact .nextOverdue
  | reconcilePending pc =>
      obtain ⟨e₀, he, rfl⟩ := Option.map_eq_some_iff.mp h
      obtain ⟨pc', hnx, rfl⟩ := Effect.map_goto hn
      obtain ⟨rfl, ⟨rfl, rfl⟩ | ⟨id, ids, rfl, rfl⟩⟩ := reconcile_goes he hnx
      · exact .orphaned
      · exact .nextOrphan
  | ingest q pc =>
      obtain ⟨e₀, he, rfl⟩ := Option.map_eq_some_iff.mp h
      obtain ⟨pc', hnx, rfl⟩ := Effect.map_goto hn
      exact ingest_goes he hnx

end Next

end TelegramCms
