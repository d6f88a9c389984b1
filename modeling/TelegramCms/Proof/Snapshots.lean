import TelegramCms.Proof.Owners
import TelegramCms.Proof.Paths
import TelegramCms.Proof.Rows

/-!
# What a run goes by

A run works on the post as it loaded it: the row is read once, and what is rendered,
sent or decided later comes from that copy. `snapshot_step` says so of the copies that a
run commits a change of, `delivered_row` of what a publish run sends.
-/

namespace TelegramCms

open Transition

/-! ## Copies of a row -/

/-- The post a `normalize` run works on, as loaded. -/
def NormalizePc.post? : NormalizePc → Option Post
  | .load => none
  | .context post | .transform post _ | .commit post _ _ | .enqueue post _ => some post

def DraftPc.post? : DraftPc → Option Post
  | .send post | .storeCommit _ post => some post
  | _ => none

def PublishPc.post? : PublishPc → Option Post
  | .claim post | .markCommit _ _ post | .duplicateCommit _ post | .failureCommit _ post => some post
  | _ => none

/-- The post that a run holds a copy of, and the copy. -/
def Proc.snapshot? : Proc → Option (Nat × Post)
  | .publish job pc => pc.post?.map (job.postId, ·)
  | .normalize job pc => pc.post?.map (job.postId, ·)
  | .postDraft job pc => pc.post?.map (job.postId, ·)
  | .callback _ _ p (.commit post) => some (p, post)
  | .decide req (.commit post _) => some (req.postId, post)
  | .editTags req (.commit post) => some (req.postId, post)
  | .ingest p (.storeCommit _ post) => some (p, post)
  | _ => none

section Step

variable {env : Env} {v : View} {r : Reply}

theorem publish_loaded {q : Nat} {pc pc' : PublishPc} {e : Effect PublishPc} {post : Post}
    (hm : PublishMove env v q pc r e) (hn : e.next = .goto pc') (hp : pc'.post? = some post) :
    v.db.posts.get q = some post ∧ r = .ok := by
  cases hm with
  | stops o => exact absurd hn (by simp)
  | duplicates hrow => exact absurd hn (by simp)
  | loads hrow hm hs =>
      obtain rfl := Next.goto.inj hn
      obtain rfl := Option.some.inj hp; exact ⟨hrow, rfl⟩
  | markLoads hrow =>
      obtain rfl := Next.goto.inj hn
      obtain rfl := Option.some.inj hp; exact ⟨hrow, rfl⟩
  | duplicateLoads hrow =>
      obtain rfl := Next.goto.inj hn
      obtain rfl := Option.some.inj hp; exact ⟨hrow, rfl⟩
  | failureLoads hrow =>
      obtain rfl := Next.goto.inj hn
      obtain rfl := Option.some.inj hp; exact ⟨hrow, rfl⟩
  | card hpc =>
      obtain rfl := Next.goto.inj hn
      rcases hpc with ⟨_, _, -, rfl⟩ | ⟨-, _, rfl, -⟩ <;> exact absurd hp (by simp [PublishPc.post?])
  | _ => obtain rfl := Next.goto.inj hn; exact absurd hp (by simp [PublishPc.post?])

/-- **The copy of a row that a run holds was loaded by it.** -/
theorem snapshot_step {p p' : Proc} {x : Nat × Post} (h : Goes env v p r p')
    (hs : p'.snapshot? = some x) :
    p.snapshot? = some x ∨ (r = .ok ∧ v.db.posts.get x.1 = some x.2) := by
  cases h with
  | publish hm hn =>
      obtain ⟨post, hp, rfl⟩ := Option.map_eq_some_iff.mp hs
      obtain ⟨hrow, hr⟩ := publish_loaded hm hn hp
      exact .inr ⟨hr, hrow⟩
  | renders hch ht hctx hpc => rcases hpc with rfl | rfl <;> exact .inl hs
  | transforms hai => exact .inl hs
  | routes hrow => exact .inl hs
  | normalizes hrow hp hr => obtain rfl := Option.some.inj hs; exact .inr ⟨rfl, hrow⟩
  | drafts hrow ht => obtain rfl := Option.some.inj hs; exact .inr ⟨rfl, hrow⟩
  | cardLoads hrow => obtain rfl := Option.some.inj hs; exact .inr ⟨rfl, hrow⟩
  | presses hrow => obtain rfl := Option.some.inj hs; exact .inr ⟨rfl, hrow⟩
  | requests hrow => obtain rfl := Option.some.inj hs; exact .inr ⟨rfl, hrow⟩
  | retags hrow => obtain rfl := Option.some.inj hs; exact .inr ⟨rfl, hrow⟩
  | reloads hrow => obtain rfl := Option.some.inj hs; exact .inr ⟨rfl, hrow⟩
  | decides hrow hn =>
      rename_i req post now pc row
      -- a decision is past its commit and has no copy of the post any more
      have hpc : ∀ post now, pc ≠ .commit post now := by
        rintro post now rfl
        unfold decideNext at hn
        split at hn
        · exact absurd hn (by simp)
        · exact absurd hn (by simp)
        · unfold decideAnswer at hn
          split at hn <;> exact absurd hn (by simp)
      cases pc with
      | commit post now => exact absurd rfl (hpc post now)
      | _ => exact absurd hs (by simp [Proc.snapshot?])
  | _ => exact absurd hs (by simp [Proc.snapshot?, DraftPc.post?])

end Step

namespace World

variable {env : Env} {w w' : World} {a : Action}

/-- The copy that a `normalize` run holds is one it held before, or the row as it is. -/
theorem normalize_copy_step {i : Nat} {job : Job} {pc : NormalizePc} {post : Post}
    (hn : Numbered w) (h : step env w a = some w') (hp : w'.proc i = some (.normalize job pc))
    (hpost : pc.post? = some post) :
    (∃ pc₀, w.proc i = some (.normalize job pc₀) ∧ pc₀.post? = some post)
    ∨ (w.proc i = some (.normalize job .load) ∧ w.row job.postId = some post
        ∧ post.state ≠ .published ∧ post.state ≠ .rejected) := by
  rcases proc_step hn h hp with hp | ⟨r, p₀, e, -, hp₀, he, hnx, -⟩ | ⟨-, -, hs⟩
  · exact .inl ⟨pc, hp, hpost⟩
  · cases step_goes he hnx with
    | normalizes hrow hnp hnr =>
        obtain rfl := Option.some.inj hpost
        exact .inr ⟨hp₀, hrow, hnp, hnr⟩
    | renders hch ht hctx hpc =>
        refine .inl ⟨_, hp₀, ?_⟩
        rcases hpc with rfl | rfl <;> exact hpost
    | transforms hai => exact .inl ⟨_, hp₀, hpost⟩
    | routes hrow => exact .inl ⟨_, hp₀, hpost⟩
  · cases hs with
    | normalize => exact absurd hpost (by simp [NormalizePc.post?])

/-- The copies that runs hold have the channel and the raw text of their rows. -/
def Copied (w : World) : Prop :=
  ∀ i q p post, w.proc i = some q → q.snapshot? = some (p, post) →
    ∃ row, w.row p = some row ∧ row.sourceChannelId = post.sourceChannelId
      ∧ row.rawText = post.rawText

theorem copied_init (h : Init w) : Copied w := by
  intro i q p post hq
  rw [proc_init h] at hq
  exact absurd hq (by simp)

theorem copied_step (hn : Numbered w) (hw : Copied w) (h : step env w a = some w') :
    Copied w' := by
  intro i q p post hq hs
  have hrow : ∃ row, w.row p = some row ∧ row.sourceChannelId = post.sourceChannelId
      ∧ row.rawText = post.rawText := by
    rcases proc_step hn h hq with hq | ⟨r, q₀, e, -, hq₀, he, hnx, -⟩ | ⟨-, -, hstart⟩
    · exact hw i q p post hq hs
    · rcases snapshot_step (step_goes he hnx) hs with hs | ⟨-, hrow⟩
      · exact hw i q₀ p post hq₀ hs
      · exact ⟨post, hrow, rfl, rfl⟩
    · -- a run that starts holds no copy yet
      cases hstart <;> exact absurd hs (by simp [Proc.snapshot?, PublishPc.post?,
        NormalizePc.post?, DraftPc.post?])
  obtain ⟨row, hrow, hc, ht⟩ := hrow
  obtain ⟨row', hrow', hc', ht'⟩ := row_fixed h hrow
  exact ⟨row', hrow', hc'.trans hc, ht'.trans ht⟩

end World

/-! ## What is sent -/

/-- The text and the media that a publish run takes to `_send_post`. -/
def PublishPc.cargo? : PublishPc → Option (Text × List MediaRef)
  | .claim post | .channel post => some (publishText post, post.rawMediaRefs)
  | .lookup ctx _ | .reserve ctx _ | .lock ctx | .spacing ctx _ | .sending ctx _
  | .backoff ctx _ => some (ctx.text, ctx.mediaRefs)
  | _ => none

theorem cargo?_eq (pc : PublishPc) : pc.cargo? = pc.taken?.map Prod.snd := by
  cases pc <;> rfl

/-- A run keeps text and media of the row that it loaded. -/
theorem move_cargo {env : Env} {v : View} {postId : Nat} {pc pc' : PublishPc} {r : Reply}
    {e : Effect PublishPc} {x : Text × List MediaRef} (hm : PublishMove env v postId pc r e)
    (hn : e.next = .goto pc') (hx : pc'.cargo? = some x) :
    pc.cargo? = some x
    ∨ ∃ row, r = .ok ∧ v.db.posts.get postId = some row ∧ x = (publishText row, row.rawMediaRefs) := by
  rw [cargo?_eq] at hx ⊢
  obtain ⟨y, hy, rfl⟩ := Option.map_eq_some_iff.mp hx
  rcases move_taken hm hn hy with h | ⟨post, -, hr, hrow, -, -, rfl⟩
  · rw [h]
    exact .inl rfl
  · exact .inr ⟨post, hr, hrow, rfl⟩

namespace World

variable {env : Env} {w w₀ : World}

/-- In one of these steps run `i` loaded a row of post `p` with this text and these media. -/
def CargoLoaded (tr : List (World × Action)) (i p : Nat) (x : Text × List MediaRef) : Prop :=
  ∃ u row, (u, .advance i .ok) ∈ tr ∧ u.row p = some row
    ∧ x = (publishText row, row.rawMediaRefs)

theorem CargoLoaded.snoc {tr : List (World × Action)} {i p : Nat} {x : Text × List MediaRef}
    (h : CargoLoaded tr i p x) (y : World × Action) : CargoLoaded (tr ++ [y]) i p x := by
  obtain ⟨u, row, hu, hrow⟩ := h
  exact ⟨u, row, List.mem_append_left _ hu, hrow⟩

/-- **What is delivered are text and media of a row that the delivering run loaded.** -/
theorem delivered_cargo {tr : List (World × Action)} (h0 : Init w₀)
    (hp : Trace (step env) w₀ tr w) {d : Delivery} (hd : d ∈ w.deliveries) :
    CargoLoaded tr d.run d.post (d.text, d.mediaRefs) := by
  rw [mem_deliveries] at hd
  suffices h : Numbered w
      ∧ (∀ i job pc x, w.proc i = some (.publish job pc) → pc.cargo? = some x →
        CargoLoaded tr i job.postId x)
      ∧ ∀ d, .delivered d ∈ w.log → CargoLoaded tr d.run d.post (d.text, d.mediaRefs)
    from h.2.2 d hd
  clear hd
  -- over the steps, since the loads are looked for among them
  induction hp with
  | nil =>
      refine ⟨numbered_init h0, ?_, ?_⟩
      · intro i job pc x hpc
        rw [proc_init h0] at hpc
        exact absurd hpc (by simp)
      · intro d hd
        rw [h0.log] at hd
        exact absurd hd (by simp)
  | @snoc u w tr a hp hu ih =>
      obtain ⟨hn, hruns, hlog⟩ := ih
      refine ⟨numbered_step hn hu, ?_, ?_⟩
      · intro i job pc x hpc hx
        rcases publish_origin hn hu hpc with hpc | ⟨r, pc₀, e, rfl, hpc, hm, hnx, -⟩ | ⟨rfl, -, -⟩
        · exact (hruns i job pc x hpc hx).snoc _
        · rcases move_cargo hm hnx hx with hx | ⟨row, rfl, hrow, hx⟩
          · exact (hruns i job pc₀ x hpc hx).snoc _
          · exact ⟨u, row, List.mem_append_right _ (List.mem_singleton.mpr rfl), hrow, hx⟩
        · exact absurd hx (by simp [PublishPc.cargo?])
      · intro d hd
        rcases delivered_step hu hd with hd | ⟨job, ctx, retried, id, -, hpc, -, -, he⟩
        · exact (hlog d hd).snoc _
        · -- the run still carried both when it was at its send
          have hctx := (hruns d.run job _ (ctx.text, ctx.mediaRefs) hpc rfl).snoc (u, a)
          rw [he]
          exact hctx

end World

end TelegramCms
