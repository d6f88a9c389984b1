import TelegramCms.Model.Pruning
import TelegramCms.Proof.Media

/-!
# What pruning takes

`_send_post` uploads the files that `raw_media_refs` names. `_prune_media_files` spares the
files that `media_paths` lists, of posts in four states. A file is its post's own
(`FileOf`), so it survives exactly while its post is in one of the four states and lists it
(`survives_iff_listed`).

That is not so between the commit that stores a file and the one that normalizes its post,
nor while the post is `publishing` or `publish_failed`. `survives_pruning_iff`: pruning is
harmless throughout a run exactly if no post that is neither published nor rejected ever
holds a file.

Of a published post the files are spared for good: `removes_expired_iff`.
-/

namespace TelegramCms

open Transition

/-! ## The files of a post -/

/-- A path that `_download_media` can choose for media of post `p`. -/
def FileOf (env : Env) (p : Nat) (f : Text) : Prop :=
  ∃ idx kind ext, '/' ∉ ext ∧ f = targetPath env p idx kind ext

/-- What `_download_media` returns for post `p`. -/
inductive MediaRef.FetchedFor (env : Env) (p : Nat) (ref : MediaRef) : Prop where
  | omitted (ho : ref.omitted = true) (hf : ref.file = some [])
  | saved (f : Text) (ho : ref.omitted = false) (hf : ref.file = some f) (hown : FileOf env p f)

section Files

variable {env : Env} {p q : Nat} {f : Text}

theorem notMem_mimeExt (mime : Text) : '/' ∉ mimeExt mime := by
  intro h
  have hc := List.mem_takeWhile_imp (List.mem_reverse.mp h)
  exact absurd hc (by simp)

theorem fileOf_freeTarget {files : List Text} {kind : MediaType} {ext : Text} (hext : '/' ∉ ext)
    (rounds idx : Nat) : FileOf env p (freeTarget env files p kind ext rounds idx) := by
  induction rounds generalizing idx with
  | zero => exact ⟨idx, kind, ext, hext, rfl⟩
  | succ rounds ih =>
      unfold freeTarget
      split
      · exact ih (idx + 1)
      · exact ⟨idx, kind, ext, hext, rfl⟩

theorem downloadMedia_fetched {out : DownloadEnv} {message : Message} {channel : SourceChannel}
    {ref : MediaRef} (h : downloadMedia env out message p channel = .ok (some ref)) :
    ref.FetchedFor env p := by
  unfold downloadMedia at h
  split at h
  · exact absurd h (by simp)
  · dsimp only at h
    split at h
    · obtain rfl := Option.some.inj (Except.ok.inj h)
      exact .omitted rfl rfl
    · split at h
      · obtain rfl := Option.some.inj (Except.ok.inj h)
        exact .saved _ rfl rfl (fileOf_freeTarget (notMem_mimeExt _) _ 0)
      · exact absurd h (by simp)
      · exact absurd h (by simp)
      · exact absurd h (by simp)

/-- The name begins with the id of the post. -/
theorem FileOf.unique (hp : FileOf env p f) (hq : FileOf env q f) : p = q := by
  obtain ⟨i, k, x, -, rfl⟩ := hp
  obtain ⟨j, l, y, -, he⟩ := hq
  have hdigits : ∀ n, '_' ∉ Nat.toDigits 10 n := Py.notMem_toDigits (by decide)
  simp only [targetPath, List.append_assoc, List.append_cancel_left_eq, List.cons_append,
    List.nil_append] at he
  obtain ⟨he, -⟩ := (Py.append_sep_inj (hdigits p) (hdigits q)).mp (List.cons.inj he).2
  exact Py.toDigits_inj.mp he

theorem notMem_value (kind : MediaType) : '/' ∉ kind.value := by
  cases kind <;> decide

/-- It lies in the media directory itself. -/
theorem FileOf.entry (h : FileOf env p f) (mtime : Time) :
    ∃ e : MediaEntry, e.isFile = true ∧ e.raises = false ∧ e.mtime = mtime
      ∧ e.path env.settings = f := by
  obtain ⟨idx, kind, ext, hext, rfl⟩ := h
  have hdigits : ∀ n, '/' ∉ Nat.toDigits 10 n := Py.notMem_toDigits (by decide)
  refine ⟨{
    name := Nat.toDigits 10 p ++ ['_'] ++ Nat.toDigits 10 idx ++ ['_'] ++ kind.value ++ ['.']
      ++ (if ext.isEmpty then "bin".toList else ext)
    mtime := mtime
    component := ⟨by simp, ?_⟩ }, rfl, rfl, rfl, ?_⟩
  · have hbin : '/' ∉ (if ext.isEmpty then "bin".toList else ext) := by
      split
      · decide
      · exact hext
    simpa [hdigits, notMem_value] using hbin
  · simp [MediaEntry.path, targetPath]

/-- A path is no bare name. -/
theorem FileOf.ne_name (h : FileOf env p f) (e : MediaEntry) : e.name ≠ f := by
  obtain ⟨idx, kind, ext, -, rfl⟩ := h
  intro he
  have hs : '/' ∈ targetPath env p idx kind ext := by simp [targetPath]
  exact e.component.2 (he ▸ hs)

end Files

/-- The paths `normalize` lists for these references. -/
def mediaFiles (refs : List MediaRef) : List Text :=
  (refs.filter (fun m => !m.omitted)).filterMap (fun m => m.file.filter (fun f => !f.isEmpty))

theorem mem_mediaFiles {refs : List MediaRef} {f : Text} :
    f ∈ mediaFiles refs ↔ ∃ ref ∈ refs, ref.omitted = false ∧ ref.file = some f ∧ f ≠ [] := by
  simp [mediaFiles, and_assoc, Option.filter_eq_some_iff]

theorem mediaFiles_own {env : Env} {p : Nat} {refs : List MediaRef} {f : Text}
    (h : ∀ ref ∈ refs, ref.FetchedFor env p) (hf : f ∈ mediaFiles refs) : FileOf env p f := by
  obtain ⟨ref, href, ho, hfile, -⟩ := mem_mediaFiles.mp hf
  cases h ref href with
  | omitted ho' => exact absurd (ho.symm.trans ho') (by simp)
  | saved f' ho' hf' hown =>
      obtain rfl := Option.some.inj (hfile.symm.trans hf')
      exact hown

/-- Neither published nor rejected. -/
def Post.Open (row : Post) : Prop := row.state ≠ .published ∧ row.state ≠ .rejected

instance (row : Post) : Decidable row.Open :=
  inferInstanceAs (Decidable (row.state ≠ .published ∧ row.state ≠ .rejected))

/-- The references that an ingest run is about to store. -/
def IngestPc.refs? : IngestPc → Option (List MediaRef)
  | .storeLoad refs | .storeCommit refs _ => some refs
  | _ => none

def Proc.downloads? : Proc → Option Nat
  | .ingest p .download => some p
  | _ => none

/-- Only `normalize` writes `media_paths`. -/
theorem set_mediaPaths {env : Env} {v : View} {p : Proc} {q : Nat} {set : PostSet}
    (hs : p.set env v = some (q, set)) :
    set.mediaPaths = none
    ∨ ∃ job post ctx ai, p = .normalize job (.commit post ctx ai) ∧ q = job.postId
        ∧ set.mediaPaths = changed post.mediaPaths (mediaFiles post.rawMediaRefs) := by
  rcases set_content hs with ⟨job, post, ctx, ai, rfl, hq, rfl⟩ | ⟨refs, post, -, rfl⟩ | ⟨-, -, -, he⟩
  · refine .inr ⟨job, post, ctx, ai, rfl, hq, ?_⟩
    rw [normalizeResult]
    split <;> rfl
  · exact .inl (changed_self _)
  · exact .inl he

/-- A column is written or left as it is. -/
theorem changed_getD_or {α : Type} [DecidableEq α] (old new cur : α) :
    (changed old new).getD cur = cur ∨ (changed old new).getD cur = new := by
  unfold changed
  split
  · exact .inl rfl
  · exact .inr rfl

namespace World

variable {env : Env} {calls : Nat → IngestCall} {w w' : World} {a : Action}

/-- Pruning takes no file that the media references of a post name which is neither
published nor rejected, at any time, with any retention. -/
def SurvivesPruning (env : Env) (w : World) : Prop :=
  ∀ p row, w.row p = some row → row.Open → ∀ ref ∈ row.rawMediaRefs,
    ∀ (now retention : Int) (entries : List MediaEntry), ∀ e ∈ entries, e.isFile = true →
      ref.file = some (e.path env.settings) →
      e ∈ (pruneMediaFiles { env.settings with mediaRetentionDays := retention } now w.db entries).1

/-- The download of run `i` answers what `_download_media` returns in the call `calls i`. -/
def Fetches (env : Env) (calls : Nat → IngestCall) (w : World) : Action → Prop
  | .advance i (.media ref) => ∀ p ∈ (w.proc i).bind Proc.downloads?,
    downloadMedia env (calls i).out (calls i).message p (calls i).channel = .ok ref
  | _ => True

instance (env : Env) (calls : Nat → IngestCall) (w : World) :
    DecidablePred (Fetches env calls w) := fun a =>
  match a with
  | .advance i (.media ref) => inferInstanceAs (Decidable
      (∀ p ∈ (w.proc i).bind Proc.downloads?,
        downloadMedia env (calls i).out (calls i).message p (calls i).channel = .ok ref))
  | .advance _ .ok | .advance _ (.raise _) | .advance _ (.retryAfter _) | .advance _ (.message _)
  | .advance _ .nothing | .advance _ (.transformed _)
  | .tick _ | .crash _ | .startJob _ | .request _ | .arrive .. | .configure .. | .pruneDedupe _ =>
    inferInstanceAs (Decidable True)

/-! ## Whose a file is -/

/-- Files are stored for, listed by and normalized for the post they belong to. -/
structure OwnFiles (env : Env) (w : World) : Prop where
  numbered : Numbered w
  rows : ∀ p row, w.row p = some row → ∀ ref ∈ row.rawMediaRefs, ref.FetchedFor env p
  listed : ∀ p row, w.row p = some row → ∀ f ∈ row.mediaPaths, FileOf env p f
  storing : ∀ i p pc refs, w.proc i = some (.ingest p pc) → pc.refs? = some refs →
    ∀ ref ∈ refs, ref.FetchedFor env p
  normalizing : ∀ i job pc post, w.proc i = some (.normalize job pc) → pc.post? = some post →
    ∀ ref ∈ post.rawMediaRefs, ref.FetchedFor env job.postId

theorem ownFiles_init (h : Init w) : OwnFiles env w where
  numbered := numbered_init h
  rows p row hrow := by rw [row_init h] at hrow; exact absurd hrow (by simp)
  listed p row hrow := by rw [row_init h] at hrow; exact absurd hrow (by simp)
  storing i p pc refs hp := by rw [proc_init h] at hp; exact absurd hp (by simp)
  normalizing i job pc post hp := by rw [proc_init h] at hp; exact absurd hp (by simp)

theorem OwnFiles.rows_step (hw : OwnFiles env w) (h : step env w a = some w') {p : Nat} {row : Post}
    (hrow : w'.row p = some row) : ∀ ref ∈ row.rawMediaRefs, ref.FetchedFor env p := by
  rcases row_step p h with he | ⟨i, q, set, row₀, rfl, hq, hs, hr, he⟩ | ⟨c, m, text, -, -, he⟩
  · exact hw.rows p row (he ▸ hrow)
  · obtain rfl := Option.some.inj (hrow.symm.trans he)
    show ∀ ref ∈ set.rawMediaRefs.getD row₀.rawMediaRefs, _
    rcases set_rawMediaRefs hs with hn | ⟨refs, post, rfl, hn⟩
    · rw [hn]
      exact hw.rows p row₀ hr
    · rw [hn]
      rcases changed_getD_or post.rawMediaRefs refs row₀.rawMediaRefs with hc | hc <;> rw [hc]
      · exact hw.rows p row₀ hr
      · exact hw.storing i p _ refs hq rfl
  · obtain rfl := Option.some.inj (hrow.symm.trans he)
    simp [ingestedPost]

theorem OwnFiles.listed_step (hw : OwnFiles env w) (h : step env w a = some w') {p : Nat}
    {row : Post} (hrow : w'.row p = some row) : ∀ f ∈ row.mediaPaths, FileOf env p f := by
  rcases row_step p h with he | ⟨i, q, set, row₀, rfl, hq, hs, hr, he⟩ | ⟨c, m, text, -, -, he⟩
  · exact hw.listed p row (he ▸ hrow)
  · obtain rfl := Option.some.inj (hrow.symm.trans he)
    show ∀ f ∈ set.mediaPaths.getD row₀.mediaPaths, _
    rcases set_mediaPaths hs with hn | ⟨job, post, ctx, ai, rfl, rfl, hn⟩
    · rw [hn]
      exact hw.listed p row₀ hr
    · rw [hn]
      rcases changed_getD_or post.mediaPaths (mediaFiles post.rawMediaRefs) row₀.mediaPaths
        with hc | hc <;> rw [hc]
      · exact hw.listed _ row₀ hr
      · exact fun f => mediaFiles_own (hw.normalizing i job _ post hq rfl)
  · obtain rfl := Option.some.inj (hrow.symm.trans he)
    simp [ingestedPost]

theorem OwnFiles.storing_step (hf : Fetches env calls w a) (hw : OwnFiles env w)
    (h : step env w a = some w') {i p : Nat} {pc : IngestPc} {refs : List MediaRef}
    (hp : w'.proc i = some (.ingest p pc)) (hr : pc.refs? = some refs) :
    ∀ ref ∈ refs, ref.FetchedFor env p := by
  rcases proc_step hw.numbered h hp with hp | ⟨r, q, e, rfl, hq, he, hnx, -⟩ | ⟨-, -, hs⟩
  · exact hw.storing i p pc refs hp hr
  · cases step_goes he hnx with
    | downloads =>
        rename_i ref
        obtain rfl := Option.some.inj hr
        have hans : downloadMedia env (calls i).out (calls i).message p (calls i).channel = .ok ref :=
          hf p (by rw [hq]; rfl)
        intro x hx
        obtain rfl := Option.mem_toList.mp hx
        exact downloadMedia_fetched hans
    | reloads hrow => exact hw.storing i p _ refs hq hr
    | stores hrow => exact absurd hr (by simp [IngestPc.refs?])
  · cases hs with
    | arrive => exact absurd hr (by simp [IngestPc.refs?])

theorem ownFiles_step (hf : Fetches env calls w a) (hw : OwnFiles env w)
    (h : step env w a = some w') : OwnFiles env w' where
  numbered := numbered_step hw.numbered h
  rows _ _ hrow := hw.rows_step h hrow
  listed _ _ hrow := hw.listed_step h hrow
  storing _ _ _ _ hp hr := hw.storing_step hf h hp hr
  normalizing i job pc post hp hpost := by
    rcases normalize_copy_step hw.numbered h hp hpost with ⟨pc₀, hp, hpost⟩ | ⟨-, hrow, -⟩
    · exact hw.normalizing i job pc₀ post hp hpost
    · exact hw.rows job.postId post hrow

theorem OwnFiles.survives_iff (hw : OwnFiles env w) :
    SurvivesPruning env w ↔ ∀ p row, w.row p = some row → row.Open →
      ∀ f ∈ mediaFiles row.rawMediaRefs, row.state ∈ mediaRelevantStates ∧ f ∈ row.mediaPaths := by
  constructor
  · intro h p row hrow hopen f hf
    have hown := mediaFiles_own (hw.rows p row hrow) hf
    obtain ⟨ref, href, -, hfile, -⟩ := mem_mediaFiles.mp hf
    -- an old file, pruned without a retention
    obtain ⟨e, hisFile, hraises, hmtime, hpath⟩ := hown.entry 0
    have hleft := h p row hrow hopen ref href 1 0 [e] e List.mem_cons_self hisFile (by rw [hfile, hpath])
    rw [mem_pruneMediaFiles] at hleft
    have hkept : f ∈ referenced w.db ∨ e.name ∈ referenced w.db := by
      by_contra hn
      rw [not_or] at hn
      refine absurd hleft.2 ?_
      have hpath' : e.path { env.settings with mediaRetentionDays := 0 } = f := hpath
      simp [MediaEntry.pruned, hraises, hisFile, hmtime, hpath', hn, days]
    obtain ⟨f', hmem, he⟩ : ∃ f' ∈ referenced w.db, f' = f ∨ f' = e.name := by
      rcases hkept with hk | hk
      · exact ⟨f, hk, .inl rfl⟩
      · exact ⟨e.name, hk, .inr rfl⟩
    obtain ⟨row', hmem', hst, hlist⟩ := mem_referenced.mp hmem
    have hrow' : w.row row'.id = some row' := Db.get_post hmem'
    have hown' := hw.listed _ row' hrow' f' hlist
    rcases he with rfl | rfl
    · obtain rfl := hown.unique hown'
      obtain rfl := Option.some.inj (hrow.symm.trans hrow')
      exact ⟨hst, hlist⟩
    · exact absurd rfl (hown'.ne_name e)
  · intro h p row hrow hopen ref href now retention entries e he hisFile hfile
    have hmem : e.path env.settings ∈ mediaFiles row.rawMediaRefs := by
      cases hw.rows p row hrow ref href with
      | omitted ho hf =>
          exact absurd (Option.some.inj (hfile.symm.trans hf)) MediaEntry.path_ne_nil
      | saved f ho hf hown => exact mem_mediaFiles.mpr ⟨ref, href, ho, hfile, MediaEntry.path_ne_nil⟩
    obtain ⟨hst, hlist⟩ := h p row hrow hopen _ hmem
    have hrefd : e.path env.settings ∈ referenced w.db :=
      mem_referenced.mpr ⟨row, Table.mem_of_get hrow, hst, hlist⟩
    refine mem_pruneMediaFiles.mpr ⟨he, ?_⟩
    have hpath : e.path { env.settings with mediaRetentionDays := retention }
      = e.path env.settings := rfl
    simp [MediaEntry.pruned, hpath, hrefd]

/-- **In every reachable state, the files that survive are those whose post lists them in
one of the four states.** -/
theorem survives_iff_listed {w₀ : World} {tr : List (World × Action)} (h0 : Init w₀)
    (hp : Trace (step env) w₀ tr w) (hf : AllSteps (Fetches env calls) tr) :
    SurvivesPruning env w ↔ ∀ p row, w.row p = some row → row.Open →
      ∀ f ∈ mediaFiles row.rawMediaRefs, row.state ∈ mediaRelevantStates ∧ f ∈ row.mediaPaths :=
  (hp.invariant (fun _ _ _ hw hf hu => ownFiles_step hf hw hu) hf (ownFiles_init h0)).survives_iff

/-! ## Runs without files to lose -/

/-- No post that is neither published nor rejected holds a file. -/
def NoneHeld (w : World) : Prop :=
  ∀ p row, w.row p = some row → row.Open → mediaFiles row.rawMediaRefs = []

/-- The commit that the run is about to make leaves files only in a post that is published
or rejected. -/
def LeavesNoFile (env : Env) (w : World) (i : Nat) (q : Proc) : Prop :=
  ∀ x ∈ q.set env (w.view i), ∀ row ∈ w.row x.1,
    (x.2.apply row).Open → mediaFiles (x.2.apply row).rawMediaRefs = []

instance (env : Env) (w : World) (i : Nat) : DecidablePred (LeavesNoFile env w i) := fun q =>
  inferInstanceAs (Decidable (∀ x ∈ q.set env (w.view i), ∀ row ∈ w.row x.1,
    (x.2.apply row).Open → mediaFiles (x.2.apply row).rawMediaRefs = []))

/-- No post lists a file, and no `normalize` run is about to have one listed. -/
structure Unlisted (w : World) : Prop where
  rows : ∀ p row, w.row p = some row → row.mediaPaths = []
  normalizing : ∀ i job pc post, w.proc i = some (.normalize job pc) → pc.post? = some post →
    mediaFiles post.rawMediaRefs = []

theorem unlisted_init (h : Init w) : Unlisted w where
  rows p row hrow := by rw [row_init h] at hrow; exact absurd hrow (by simp)
  normalizing i job pc post hp := by rw [proc_init h] at hp; exact absurd hp (by simp)

/-- What `normalize` loads is neither published nor rejected, so it finds no file to list. -/
theorem unlisted_step (hn : Numbered w) (hu : Unlisted w) (hb : NoneHeld w)
    (h : step env w a = some w') : Unlisted w' where
  rows p row hrow := by
    rcases row_step p h with he | ⟨i, q, set, row₀, rfl, hq, hs, hr, he⟩ | ⟨c, m, text, -, -, he⟩
    · exact hu.rows p row (he ▸ hrow)
    · obtain rfl := Option.some.inj (hrow.symm.trans he)
      show set.mediaPaths.getD row₀.mediaPaths = []
      rcases set_mediaPaths hs with hm | ⟨job, post, ctx, ai, rfl, rfl, hm⟩
      · rw [hm]
        exact hu.rows p row₀ hr
      · rw [hm]
        rcases changed_getD_or post.mediaPaths (mediaFiles post.rawMediaRefs) row₀.mediaPaths
          with hc | hc <;> rw [hc]
        · exact hu.rows _ row₀ hr
        · exact hu.normalizing i job _ post hq rfl
    · obtain rfl := Option.some.inj (hrow.symm.trans he)
      rfl
  normalizing i job pc post hp hpost := by
    rcases normalize_copy_step hn h hp hpost with ⟨pc₀, hp, hpost⟩ | ⟨-, hrow, hopen⟩
    · exact hu.normalizing i job pc₀ post hp hpost
    · exact hb job.postId post hrow hopen

theorem survives_iff_noneHeld (hw : OwnFiles env w) (hu : Unlisted w) :
    SurvivesPruning env w ↔ NoneHeld w := by
  rw [hw.survives_iff]
  constructor
  · intro h p row hrow hopen
    rw [List.eq_nil_iff_forall_not_mem]
    intro f hf
    have hlist := (h p row hrow hopen f hf).2
    rw [hu.rows p row hrow] at hlist
    exact absurd hlist (by simp)
  · intro h p row hrow hopen f hf
    rw [h p row hrow hopen] at hf
    exact absurd hf (by simp)

/-- Only a commit can put a file into such a post, or the post of a file into such a state. -/
theorem noneHeld_step_iff (hb : NoneHeld w) (h : step env w a = some w') :
    NoneHeld w' ↔ OnOk (LeavesNoFile env) w a := by
  constructor
  · intro hb'
    cases a with
    | advance i r =>
        rw [onOk_advance]
        rintro rfl q hq ⟨p, set⟩ hs row hrow
        exact hb' p _ (row_writes h hq hs hrow)
    | _ => trivial
  · intro hg p row hrow hopen
    rcases row_step p h with he | ⟨i, q, set, row₀, rfl, hq, hs, hr, he⟩ | ⟨c, m, text, -, -, he⟩
    · exact hb p row (he ▸ hrow) hopen
    · obtain rfl := Option.some.inj (hrow.symm.trans he)
      exact onOk_advance.mp hg rfl q hq (p, set) hs row₀ hr hopen
    · obtain rfl := Option.some.inj (hrow.symm.trans he)
      rfl

/--
**Pruning never takes a file that is still needed in exactly the runs in which no commit
leaves a file in a post that is neither published nor rejected.**

A file belongs to one post only (`OwnFiles`), so it is spared if its own post lists it. But the
lists are filled by `normalize`, which comes after the file is stored: up to the first commit of
that kind nothing is listed at all (`Unlisted`), and from that commit on there is a file to lose.
-/
theorem survives_pruning_iff {w₀ : World} {tr : List (World × Action)} (h0 : Init w₀)
    (hp : Trace (step env) w₀ tr w) (hf : AllSteps (Fetches env calls) tr) :
    ((∀ x ∈ tr, SurvivesPruning env x.1) ∧ SurvivesPruning env w)
      ↔ AllSteps (OnOk (LeavesNoFile env)) tr := by
  refine hp.forall_iff (I := fun w => OwnFiles env w ∧ Unlisted w) ?_ ?_ hf
    ⟨ownFiles_init h0, unlisted_init h0⟩ ?_
  · rintro t a u ⟨hw, hu⟩ hs hf - hstep
    exact ⟨ownFiles_step hf hw hstep,
      unlisted_step hw.numbered hu ((survives_iff_noneHeld hw hu).mp hs) hstep⟩
  · rintro t a u ⟨hw, hu⟩ hs hf hstep
    have hb := (survives_iff_noneHeld hw hu).mp hs
    rw [survives_iff_noneHeld (ownFiles_step hf hw hstep) (unlisted_step hw.numbered hu hb hstep)]
    exact noneHeld_step_iff hb hstep
  · intro p row hrow
    rw [row_init h0] at hrow
    exact absurd hrow (by simp)

/-- The calls the sample runs make: a photo is downloaded. -/
def photoCall : IngestCall where
  channel := sampleChannel
  message := photoMessage
  now := 0

/-- A photo is on its way when the post is rejected, and is stored all the same. -/
def rejectedMeanwhile : List Action :=
  .arrive 1 1 (some "hi".toList) :: presses .reject 1 1 2 ++
  .advance 0 (.media (some samplePhoto)) :: goes 0 3

theorem survives_pruning_iff_rejected :
    ∃ w, (sample sampleChannel).after (sampleEnv {}) rejectedMeanwhile = some w
      ∧ (w.row 1).map (fun row => (row.state, mediaFiles row.rawMediaRefs))
        = some (.rejected, ["/media/1_0_photo.bin".toList])
      ∧ (∀ x ∈ stepsOf (sampleEnv {}) (sample sampleChannel) rejectedMeanwhile,
        SurvivesPruning (sampleEnv {}) x.1)
      ∧ SurvivesPruning (sampleEnv {}) w := by
  have hrun : ((sample sampleChannel).after (sampleEnv {}) rejectedMeanwhile).map (fun w =>
      (w.row 1).map (fun row => (row.state, mediaFiles row.rawMediaRefs)))
        = some (some (.rejected, ["/media/1_0_photo.bin".toList])) := by decide +kernel
  obtain ⟨w, hw, hrow⟩ := Option.map_eq_some_iff.mp hrun
  exact ⟨w, hw, hrow, (survives_pruning_iff (sample_init _) (path_after hw)
    (show AllSteps (Fetches _ fun _ => photoCall) _ by decide +kernel)).mpr (by decide +kernel)⟩

def photoEntry : MediaEntry where
  name := "1_0_photo.bin".toList
  mtime := 0
  component := by decide

def sendTimeout : PyError := ⟨.telegramAPIError, "Request timeout error".toList⟩

/-- A photo is ingested, normalized and approved, and the call that sends it fails. -/
def photoFailed : List Action :=
  .arrive 1 1 (some "hi".toList) :: .advance 0 (.media (some samplePhoto)) :: goes 0 3 ++
  normalizes 1 1 0 ++ presses .approve 1 2 5 ++ sends 1 3 0 6 ++
  .advance 3 (.raise sendTimeout) :: goes 3 4

/-- 31 days later the photo is pruned, and the post is still `publish_failed`. -/
theorem photoFailed_pruned :
    ∃ w tr, Init (sample sampleChannel) ∧ Trace (step (sampleEnv {})) (sample sampleChannel) tr w
      ∧ AllSteps (Fetches (sampleEnv {}) (fun _ => photoCall)) tr
      ∧ (w.row 1).map (fun row => (row.state, row.rawMediaRefs))
        = some (.publishFailed, [samplePhoto])
      ∧ samplePhoto.file = some (photoEntry.path {})
      ∧ (pruneMediaFiles {} (w.now + days 31) w.db [photoEntry]).1 = []
      ∧ ¬ SurvivesPruning (sampleEnv {}) w := by
  have hrun : ((sample sampleChannel).after (sampleEnv {}) photoFailed).map (fun w =>
      Decidable.decide ((w.row 1).map (fun row => (row.state, row.rawMediaRefs))
          = some (.publishFailed, [samplePhoto])
        ∧ (pruneMediaFiles {} (w.now + days 31) w.db [photoEntry]).1 = []))
      = some true := by decide +kernel
  obtain ⟨w, hw, hd⟩ := Option.map_eq_some_iff.mp hrun
  obtain ⟨hrow, hpruned⟩ := of_decide_eq_true hd
  refine ⟨w, _, sample_init _, path_after hw, by decide +kernel, hrow, by decide, hpruned,
    fun hs => ?_⟩
  obtain ⟨row, hr, he⟩ := Option.map_eq_some_iff.mp hrow
  obtain ⟨hst, hrefs⟩ := Prod.mk.inj he
  have hleft := hs 1 row hr (by simp [Post.Open, hst]) samplePhoto (by simp [hrefs])
    (w.now + days 31) 30 [photoEntry] photoEntry List.mem_cons_self rfl (by decide)
  have hpruned' : (pruneMediaFiles { (sampleEnv {}).settings with mediaRetentionDays := 30 }
      (w.now + days 31) w.db [photoEntry]).1 = [] := hpruned
  rw [hpruned'] at hleft
  exact absurd hleft (by simp)

end World

/-! ## The media of published posts -/

/-- The post lists the file, by its path or by its name. -/
def Post.RefersTo (settings : Settings) (e : MediaEntry) (p : Post) : Prop :=
  e.path settings ∈ p.mediaPaths ∨ e.name ∈ p.mediaPaths

/-- The post is rejected, or was published longer ago than media are kept. -/
def Post.Expired (settings : Settings) (now : Time) (p : Post) : Prop :=
  p.state = .rejected
    ∨ (p.state = .published
        ∧ ∃ t, p.publishedAt = some t ∧ t < now - days settings.mediaRetentionDays)

/-- The entry is a file that is older than media are kept, and no post needs it any more. -/
structure MediaEntry.Expired (settings : Settings) (now : Time) (db : Db) (e : MediaEntry) :
    Prop where
  isFile : e.isFile = true
  old : e.mtime < now - days settings.mediaRetentionDays
  posts : ∀ p ∈ db.posts.rows, p.RefersTo settings e → p.Expired settings now

section Expiry

variable {settings : Settings} {now : Time} {db : Db} {e : MediaEntry} {entries : List MediaEntry}

theorem referenced_iff : (e.path settings ∈ referenced db ∨ e.name ∈ referenced db)
    ↔ ∃ p ∈ db.posts.rows, p.state ∈ mediaRelevantStates ∧ p.RefersTo settings e := by
  rw [mem_referenced, mem_referenced]
  constructor
  · rintro (⟨p, hp, hst, hf⟩ | ⟨p, hp, hst, hf⟩)
    · exact ⟨p, hp, hst, .inl hf⟩
    · exact ⟨p, hp, hst, .inr hf⟩
  · rintro ⟨p, hp, hst, hf | hf⟩
    · exact .inl ⟨p, hp, hst, hf⟩
    · exact .inr ⟨p, hp, hst, hf⟩

/-- An expired file stays exactly if a published post lists it. -/
theorem MediaEntry.Expired.left_iff (h : e.Expired settings now db) (he : e ∈ entries)
    (hok : e.raises = false) :
    e ∈ (pruneMediaFiles settings now db entries).1
      ↔ ∃ p ∈ db.posts.rows, p.RefersTo settings e ∧ p.state = .published := by
  have hleft : e.pruned settings now db = false
      ↔ e.path settings ∈ referenced db ∨ e.name ∈ referenced db := by
    simp [MediaEntry.pruned, hok, h.isFile, h.old, or_iff_not_imp_left]
  rw [mem_pruneMediaFiles, and_iff_right he, hleft, referenced_iff]
  constructor
  · rintro ⟨p, hp, hst, href⟩
    rcases h.posts p hp href with hrej | ⟨hpub, -⟩
    · rw [hrej] at hst; exact absurd hst (by decide)
    · exact ⟨p, hp, href, hpub⟩
  · rintro ⟨p, hp, href, hpub⟩
    exact ⟨p, hp, by rw [hpub]; decide, href⟩

/--
**A pass over the media directory in which no call fails removes every expired file
exactly if no expired file is listed by a published post.**

An expired file is listed by posts that are rejected or have long been published, and of these
only the published ones keep a file in the directory (`Expired.left_iff`).
-/
theorem removes_expired_iff (hok : ∀ e ∈ entries, e.raises = false) :
    (∀ e ∈ entries, e.Expired settings now db → e ∉ (pruneMediaFiles settings now db entries).1)
      ↔ ∀ e ∈ entries, e.Expired settings now db →
          ∀ p ∈ db.posts.rows, p.RefersTo settings e → p.state ≠ .published := by
  refine forall₂_congr fun e he => forall_congr' fun hex => ?_
  rw [hex.left_iff he (hok e he)]
  simp only [not_exists, not_and]

end Expiry

/-- A post with a photo, published or rejected at time 0. -/
def donePost (state : PostState) : Post where
  id := 1
  sourceChannelId := 1
  sourceMessageId := 1
  rawText := none
  receivedAt := 0
  state := state
  mediaPaths := [World.photoEntry.path {}]
  publishedAt := if state = .published then some 0 else none

def doneDb (state : PostState) : Db := { posts := Table.empty.insert (donePost state) }

theorem photoEntry_expired (state : PostState) (h : (donePost state).Expired {} (days 31)) :
    World.photoEntry.Expired {} (days 31) (doneDb state) where
  isFile := rfl
  old := by decide
  posts p hp _ := by
    obtain rfl : p = donePost state := List.mem_singleton.mp hp
    exact h

theorem removes_expired_iff_rejected :
    World.photoEntry
      ∉ (pruneMediaFiles {} (days 31) (doneDb .rejected) [World.photoEntry]).1 := by
  have hex := photoEntry_expired .rejected (.inl rfl)
  refine (removes_expired_iff (by decide)).mpr (fun _ _ _ p hp _ => ?_) _ List.mem_cons_self hex
  obtain rfl : p = donePost .rejected := List.mem_singleton.mp hp
  decide

/-- 31 days after its post was published the photo is not pruned. -/
theorem published_kept :
    ∃ e : MediaEntry, e.raises = false ∧ e.Expired {} (days 31) (doneDb .published)
      ∧ e ∈ (pruneMediaFiles {} (days 31) (doneDb .published) [e]).1 :=
  ⟨World.photoEntry, rfl, photoEntry_expired .published (.inr ⟨rfl, 0, rfl, by decide⟩), by decide +kernel⟩

end TelegramCms
