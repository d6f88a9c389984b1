import TelegramCms.Model.Ingest

/-!
# What a fingerprint tells apart

`compute_dedupe_hash` sees the text of a message and what `_download_media` recorded of
its media. The text it sees whole, up to blanks and case. Of the media it sees the kind,
and of a document its size, and its type unless the document was too big to download; it
does not see the size of a photo, nor media whose download returned nothing.

`dedupeHash_distinct_iff`: two messages with one hash have the same content, unless they
differ in just that.
-/

namespace TelegramCms

/-! ## What is hashed -/

section Hashed

variable (env : Env)

/-- The text behind `text_fingerprint`. -/
def foldText (text : Option Text) : Text :=
  env.lower (Py.join [' '] (Py.split (text.getD [])))

/-- The text behind `media_fingerprint`. -/
def joinRefs (refs : List MediaRef) : Text := Py.join ['|'] ((refs.insertionSort refLe).map refPart)

/-- The strings `compute_dedupe_hash` passes to SHA-256. -/
def hashedStrings (text : Option Text) (refs : List MediaRef) : List Text :=
  [foldText env text, joinRefs refs,
    (textFingerprint env text).hex ++ [':'] ++ (mediaFingerprint env refs).hex]

/-- SHA-256 does not collide on these strings. (It cannot be injective on all strings: it
has finitely many values.) -/
def CollisionFree (l : List Text) : Prop := ∀ s ∈ l, ∀ t ∈ l, env.sha256 s = env.sha256 t → s = t

instance (l : List Text) : Decidable (CollisionFree env l) :=
  inferInstanceAs (Decidable (∀ s ∈ l, ∀ t ∈ l, env.sha256 s = env.sha256 t → s = t))

variable {env}

theorem textFingerprint_eq (text : Option Text) :
    textFingerprint env text = env.sha256 (foldText env text) := by
  rw [textFingerprint, Py.strip_join_split, foldText]

theorem Digest.ext_hex {d e : Digest} (h : d.hex = e.hex) : d = e := by
  cases d
  cases e
  simp_all

/-- Without collisions the hash tells folded text and joined references. -/
theorem computeDedupeHash_inj {t u : Option Text} {rs ss : List MediaRef}
    (hsha : CollisionFree env (hashedStrings env t rs ++ hashedStrings env u ss)) :
    computeDedupeHash env t rs = computeDedupeHash env u ss
      ↔ foldText env t = foldText env u ∧ joinRefs rs = joinRefs ss := by
  constructor
  · intro h
    have hpair := hsha _ (by simp [hashedStrings]) _ (by simp [hashedStrings]) h
    -- both digests have 64 digits, so the pair falls apart in one way
    have hlen : ((textFingerprint env t).hex ++ [':']).length
        = ((textFingerprint env u).hex ++ [':']).length := by
      simp [Digest.length_eq]
    obtain ⟨ht, hm⟩ := List.append_inj hpair hlen
    have ht := Digest.ext_hex (List.append_cancel_right ht)
    rw [textFingerprint_eq, textFingerprint_eq] at ht
    exact ⟨hsha _ (by simp [hashedStrings]) _ (by simp [hashedStrings]) ht,
      hsha _ (by simp [hashedStrings]) _ (by simp [hashedStrings]) (Digest.ext_hex hm)⟩
  · rintro ⟨ht, hm⟩
    unfold joinRefs at hm
    rw [computeDedupeHash, computeDedupeHash, textFingerprint_eq, textFingerprint_eq, ht,
      mediaFingerprint, mediaFingerprint, hm]

end Hashed

/-! ## One reference -/

theorem MediaType.value_inj {k l : MediaType} : k.value = l.value ↔ k = l := by
  cases k <;> cases l <;> decide

theorem MediaType.notMem_value (k : MediaType) : ':' ∉ k.value := by
  cases k <;> decide

/-- What a part says of type and size. -/
def refKey (r : MediaRef) : Text := r.type ++ [':'] ++ Nat.toDigits 10 (r.size.getD 0) ++ [':']

theorem refPart_eq (r : MediaRef) : refPart r = refKey r ++ r.mime.getD [] := rfl

/-- Type and size are read back, whatever follows them. -/
theorem refKey_append_inj {r s : MediaRef} {u v : Text} (hr : ':' ∉ r.type) (hs : ':' ∉ s.type) :
    refKey r ++ u = refKey s ++ v
      ↔ r.type = s.type ∧ r.size.getD 0 = s.size.getD 0 ∧ u = v := by
  have hdigits : ∀ n, ':' ∉ Nat.toDigits 10 n := Py.notMem_toDigits (by decide)
  simp only [refKey, List.append_assoc, List.cons_append, List.nil_append]
  rw [Py.append_sep_inj hr hs, Py.append_sep_inj (hdigits _) (hdigits _), Py.toDigits_inj]

/-- A reference is read back from its part of the fingerprint, but for its file. -/
theorem refPart_inj {r s : MediaRef} (hr : ':' ∉ r.type) (hs : ':' ∉ s.type) :
    refPart r = refPart s
      ↔ r.type = s.type ∧ r.size.getD 0 = s.size.getD 0 ∧ r.mime.getD [] = s.mime.getD [] := by
  rw [refPart_eq, refPart_eq, refKey_append_inj hr hs]

@[simp] theorem joinRefs_nil : joinRefs [] = [] := rfl

@[simp] theorem joinRefs_singleton (r : MediaRef) : joinRefs [r] = refPart r := by
  have hsort : [r].insertionSort refLe = [r] := rfl
  rw [joinRefs, hsort, List.map_singleton, Py.join, List.intercalate_singleton]

theorem refPart_ne_nil (r : MediaRef) : refPart r ≠ [] := by simp [refPart]

/-! ## Messages and their content -/

/-- A message as it was sent: what Telethon shows of it, and the size and type its media
have in truth. -/
structure SourceMessage where
  message : Message
  size : Nat
  mime : Text
  /-- All media but photos are documents, which tell both. -/
  document_eq : ∀ k, mediaKind message = some k → k ≠ .photo →
    message.document = some ⟨some size, some mime⟩

/-- A call of `_download_media`, with the message it is for. -/
structure Reception extends SourceMessage where
  channel : SourceChannel
  postId : Nat
  out : DownloadEnv := {}

namespace Reception

variable (env : Env) (a b : Reception)

def text : Option Text := messageText a.message

/-- The media are not downloaded. -/
def Oversize : Prop :=
  documentSize a.message ≠ 0 ∧ a.channel.maxMediaSizeBytes < documentSize a.message

instance : Decidable a.Oversize :=
  inferInstanceAs (Decidable (documentSize a.message ≠ 0
    ∧ a.channel.maxMediaSizeBytes < documentSize a.message))

/-- There are no media, or their download returns nothing. -/
def Missing : Prop := mediaKind a.message = none ∨ (¬ a.Oversize ∧ a.out.answer = .empty)

instance : Decidable a.Missing :=
  inferInstanceAs (Decidable (mediaKind a.message = none ∨ (¬ a.Oversize ∧ a.out.answer = .empty)))

/-- The type of the document, if it is looked at. -/
def shownMime : Text :=
  if a.Oversize then [] else (a.message.document.bind Document.mimeType).getD []

/-- The texts are equal up to runs of whitespace and to case. -/
def SameText : Prop := foldText env a.text = foldText env b.text

/-- Neither has media, or they have media of one kind, size and type. -/
def SameMedia : Prop :=
  (mediaKind a.message = none ∧ mediaKind b.message = none)
    ∨ (mediaKind a.message ≠ none ∧ mediaKind a.message = mediaKind b.message
      ∧ a.size = b.size ∧ a.mime = b.mime)

instance : Decidable (SameMedia a b) :=
  inferInstanceAs (Decidable ((mediaKind a.message = none ∧ mediaKind b.message = none)
    ∨ (mediaKind a.message ≠ none ∧ mediaKind a.message = mediaKind b.message
      ∧ a.size = b.size ∧ a.mime = b.mime)))

/-- What there is to see of the media is the same. -/
def LooksAlike : Prop :=
  (a.Missing ∧ b.Missing)
    ∨ (¬ a.Missing ∧ ¬ b.Missing ∧ mediaKind a.message = mediaKind b.message
      ∧ documentSize a.message = documentSize b.message ∧ a.shownMime = b.shownMime)

/-- The media differ in what is not recorded. -/
inductive Blurred : Prop where
  /-- Nothing of the media was downloaded, but there were some. -/
  | unseen (ha : a.Missing) (hb : b.Missing) (hne : ¬ a.SameMedia b)
  /-- A photo shows neither its size nor its type. -/
  | photo (ha : ¬ a.Missing) (hb : ¬ b.Missing) (hka : mediaKind a.message = some .photo)
      (hkb : mediaKind b.message = some .photo)
      (hsize : documentSize a.message = documentSize b.message)
      (hmime : a.shownMime = b.shownMime) (hne : a.size ≠ b.size ∨ a.mime ≠ b.mime)
  /-- A document too big to download does not show its type. -/
  | oversize {k} (ha : ¬ a.Missing) (hb : ¬ b.Missing) (hk : k ≠ .photo)
      (hka : mediaKind a.message = some k) (hkb : mediaKind b.message = some k)
      (hsize : a.size = b.size) (hmime : a.mime ≠ b.mime) (hba : a.Oversize ∨ a.mime = [])
      (hbb : b.Oversize ∨ b.mime = [])

variable {env a b}

theorem documentSize_eq {k : MediaType} (hk : mediaKind a.message = some k) (hp : k ≠ .photo) :
    documentSize a.message = a.size := by
  rw [documentSize, a.document_eq k hk hp]
  rfl

theorem shownMime_eq {k : MediaType} (hk : mediaKind a.message = some k) (hp : k ≠ .photo) :
    a.shownMime = if a.Oversize then [] else a.mime := by
  rw [shownMime, a.document_eq k hk hp]
  rfl

/-- Different types that show as one type are types nobody looks at. -/
theorem shown_eq_iff {p q : Prop} [Decidable p] [Decidable q] {x y : Text} (hne : x ≠ y) :
    (if p then [] else x) = (if q then [] else y) ↔ (p ∨ x = []) ∧ (q ∨ y = []) := by
  by_cases hp : p <;> by_cases hq : q <;> simp only [hp, hq, if_true, if_false, true_or, true_and,
    and_true, false_or]
  · exact eq_comm
  · constructor
    · exact fun h => absurd h hne
    · rintro ⟨rfl, rfl⟩
      rfl

theorem blurred_iff : a.Blurred b ↔ a.LooksAlike b ∧ ¬ a.SameMedia b := by
  constructor
  · rintro (⟨ha, hb, hne⟩ | ⟨ha, hb, hka, hkb, hsize, hmime, hne⟩ |
      ⟨ha, hb, hk, hka, hkb, hsize, hmime, hba, hbb⟩)
    · exact ⟨.inl ⟨ha, hb⟩, hne⟩
    · refine ⟨.inr ⟨ha, hb, hka.trans hkb.symm, hsize, hmime⟩, ?_⟩
      rintro (⟨hnone, -⟩ | ⟨-, -, hs, hm⟩)
      · exact absurd (hka.symm.trans hnone) (by simp)
      · exact hne.elim (· hs) (· hm)
    · refine ⟨.inr ⟨ha, hb, hka.trans hkb.symm, ?_, ?_⟩, ?_⟩
      · rw [documentSize_eq hka hk, documentSize_eq hkb hk, hsize]
      · rw [shownMime_eq hka hk, shownMime_eq hkb hk, shown_eq_iff hmime]
        exact ⟨hba, hbb⟩
      · rintro (⟨hnone, -⟩ | ⟨-, -, -, hm⟩)
        · exact absurd (hka.symm.trans hnone) (by simp)
        · exact hmime hm
  · rintro ⟨⟨ha, hb⟩ | ⟨ha, hb, hk, hsize, hmime⟩, hne⟩
    · exact .unseen ha hb hne
    · obtain ⟨k, hka⟩ := Option.ne_none_iff_exists'.mp (fun hnone => ha (.inl hnone))
      have hkb : mediaKind b.message = some k := hk ▸ hka
      have hdiff : ¬ (a.size = b.size ∧ a.mime = b.mime) :=
        fun h => hne (.inr ⟨by simp [hka], hk, h⟩)
      -- the size and MIME type of a photo are not recorded, and of another file not all of them
      by_cases hp : k = .photo
      · subst hp
        exact .photo ha hb hka hkb hsize hmime (not_and_or.mp hdiff)
      · rw [documentSize_eq hka hp, documentSize_eq hkb hp] at hsize
        have hm : a.mime ≠ b.mime := fun h => hdiff ⟨hsize, h⟩
        rw [shownMime_eq hka hp, shownMime_eq hkb hp, shown_eq_iff hm] at hmime
        exact .oversize ha hb hp hka hkb hsize hm hmime.1 hmime.2

/-- What `_download_media` records. -/
theorem downloadMedia_ok {ref : Option MediaRef}
    (h : downloadMedia env a.out a.message a.postId a.channel = .ok ref) :
    (a.Missing ∧ ref = none) ∨ ∃ k r, ¬ a.Missing ∧ mediaKind a.message = some k ∧ ref = some r
      ∧ r.type = k.value ∧ r.size.getD 0 = documentSize a.message
      ∧ r.mime.getD [] = a.shownMime := by
  unfold downloadMedia at h
  split at h
  · rename_i hk
    exact .inl ⟨.inl hk, (Except.ok.inj h).symm⟩
  · rename_i k hk
    dsimp only at h
    split at h
    · rename_i hbig
      have hbig : a.Oversize := hbig
      -- a file that is too large is recorded without being fetched
      obtain rfl := Except.ok.inj h
      refine .inr ⟨k, _, ?_, hk, rfl, rfl, rfl, ?_⟩
      · rintro (hnone | ⟨hsmall, -⟩)
        · rw [hk] at hnone
          exact absurd hnone (by simp)
        · exact hsmall hbig
      · rw [shownMime, if_pos hbig]
        rfl
    · rename_i hsmall
      have hsmall : ¬ a.Oversize := hsmall
      split at h
      · rename_i hsaved
        -- a file that was saved
        obtain rfl := Except.ok.inj h
        refine .inr ⟨k, _, ?_, hk, rfl, rfl, rfl, ?_⟩
        · rintro (hnone | ⟨-, hempty⟩)
          · rw [hk] at hnone
            exact absurd hnone (by simp)
          · have hsaved : a.out.answer = .saved := hsaved
            rw [hsaved] at hempty
            exact absurd hempty (by simp)
        · rw [shownMime, if_neg hsmall]
      · rename_i hempty
        -- Telethon returned nothing
        exact .inl ⟨.inr ⟨hsmall, hempty⟩, (Except.ok.inj h).symm⟩
      · exact absurd h (by simp)
      · exact absurd h (by simp)

theorem joinRefs_eq_iff {ra rb : Option MediaRef}
    (ha : downloadMedia env a.out a.message a.postId a.channel = .ok ra)
    (hb : downloadMedia env b.out b.message b.postId b.channel = .ok rb) :
    joinRefs ra.toList = joinRefs rb.toList ↔ a.LooksAlike b := by
  rcases downloadMedia_ok ha with ⟨hma, rfl⟩ | ⟨k, r, hma, hka, rfl, hta, hsa, hmimea⟩
  · rcases downloadMedia_ok hb with ⟨hmb, rfl⟩ | ⟨l, s, hmb, hkb, rfl, htb, hsb, hmimeb⟩
    · simp [LooksAlike, hma, hmb]
    · simp [LooksAlike, hma, hmb, (refPart_ne_nil s).symm]
  · rcases downloadMedia_ok hb with ⟨hmb, rfl⟩ | ⟨l, s, hmb, hkb, rfl, htb, hsb, hmimeb⟩
    · simp [LooksAlike, hma, hmb, refPart_ne_nil r]
    · have hcolon : ∀ {r : MediaRef} {k : MediaType}, r.type = k.value → ':' ∉ r.type :=
        fun {r k} ht => ht ▸ k.notMem_value
      rw [Option.toList_some, Option.toList_some, joinRefs_singleton, joinRefs_singleton,
        refPart_inj (hcolon hta) (hcolon htb), hta, htb, hsa, hsb, hmimea, hmimeb,
        MediaType.value_inj]
      simp [LooksAlike, hma, hmb, hka, hkb]

/--
**Two messages with one hash have the same text and the same media, unless their media
differ in what is not recorded.**

A hash without collisions gives back the string that was hashed, and that string the text and
the joined fingerprints. What a reference records of its file is less than the file
(`joinRefs_eq_iff`): that is where two messages get `Blurred`.
-/
theorem dedupeHash_distinct_iff (a b : Reception) {ra rb : Option MediaRef}
    (ha : downloadMedia env a.out a.message a.postId a.channel = .ok ra)
    (hb : downloadMedia env b.out b.message b.postId b.channel = .ok rb)
    (hsha : CollisionFree env
      (hashedStrings env a.text ra.toList ++ hashedStrings env b.text rb.toList)) :
    (computeDedupeHash env a.text ra.toList = computeDedupeHash env b.text rb.toList →
        SameText env a b ∧ a.SameMedia b)
      ↔ ¬ (SameText env a b ∧ a.Blurred b) := by
  rw [computeDedupeHash_inj hsha, joinRefs_eq_iff ha hb, ← SameText, blurred_iff]
  constructor
  · rintro h ⟨ht, hl, hne⟩
    exact hne (h ⟨ht, hl⟩).2
  · rintro h ⟨ht, hl⟩
    exact ⟨ht, by_contra (fun hne => h ⟨ht, hl, hne⟩)⟩

/-! ### Photos -/

def digestOfPhoto : Digest :=
  ⟨"c2528dec30ff4811d35f46f489025e46bbb1bab28eaa3e4828475a5f319d08fd".toList, by decide⟩

def digestOfPhotoPost : Digest :=
  ⟨"3dd4975d8e1121b5a87bfe2b5377aeed43e7695fb66f460db3b373b706c367e3".toList, by decide⟩

/-- The digests that a photo with the caption `hi` needs. -/
def photoSha256 (s : Text) : Digest :=
  if s = "photo:0:".toList then digestOfPhoto
  else if s = digestOfHi.hex ++ [':'] ++ digestOfPhoto.hex then digestOfPhotoPost
  else sampleSha256 s

def photoEnv : Env := { sampleEnv {} with sha256 := photoSha256 }

/-- A JPEG of `size` bytes with the caption `hi`. -/
def photoOf (postId size : Nat) : Reception where
  message := { id := postId, rawText := some "hi".toList, photo := true }
  size := size
  mime := "image/jpeg".toList
  document_eq := fun _ hk hp => absurd (Option.some.inj hk).symm hp
  channel := sampleChannel
  postId := postId

def photoRef (postId : Nat) : MediaRef where
  type := "photo".toList
  file := some ("/media/".toList ++ Nat.toDigits 10 postId ++ "_0_photo.bin".toList)
  size := some 0

section Photos

variable (m n : Nat)

theorem photos_hash : computeDedupeHash photoEnv (photoOf 1 m).text [photoRef 1]
    = computeDedupeHash photoEnv (photoOf 2 n).text [photoRef 2] := by
  change computeDedupeHash photoEnv (some "hi".toList) [photoRef 1]
    = computeDedupeHash photoEnv (some "hi".toList) [photoRef 2]
  decide +kernel

theorem photos_collisionFree : CollisionFree photoEnv
    (hashedStrings photoEnv (photoOf 1 m).text [photoRef 1]
      ++ hashedStrings photoEnv (photoOf 2 n).text [photoRef 2]) := by
  change CollisionFree photoEnv (hashedStrings photoEnv (some "hi".toList) [photoRef 1]
    ++ hashedStrings photoEnv (some "hi".toList) [photoRef 2])
  decide +kernel

end Photos

/-- A photo that is posted again has its hash, and it is the same. -/
theorem dedupeHash_distinct_iff_reposted :
    computeDedupeHash photoEnv (photoOf 1 1000).text [photoRef 1]
        = computeDedupeHash photoEnv (photoOf 2 1000).text [photoRef 2]
      ∧ SameText photoEnv (photoOf 1 1000) (photoOf 2 1000)
      ∧ (photoOf 1 1000).SameMedia (photoOf 2 1000) := by
  refine ⟨photos_hash _ _, (@dedupeHash_distinct_iff photoEnv (photoOf 1 1000) (photoOf 2 1000)
    (some (photoRef 1)) (some (photoRef 2)) (by decide +kernel) (by decide +kernel)
    (photos_collisionFree _ _)).mpr ?_ (photos_hash _ _)⟩
  rintro ⟨-, hblur⟩
  exact (blurred_iff.mp hblur).2 (by decide)

/-- So has another photo with that caption. -/
theorem photos_collide :
    downloadMedia photoEnv {} (photoOf 1 1000).message 1 sampleChannel = .ok (some (photoRef 1))
      ∧ downloadMedia photoEnv {} (photoOf 2 2000).message 2 sampleChannel
        = .ok (some (photoRef 2))
      ∧ CollisionFree photoEnv (hashedStrings photoEnv (photoOf 1 1000).text [photoRef 1]
        ++ hashedStrings photoEnv (photoOf 2 2000).text [photoRef 2])
      ∧ computeDedupeHash photoEnv (photoOf 1 1000).text [photoRef 1]
        = computeDedupeHash photoEnv (photoOf 2 2000).text [photoRef 2]
      ∧ ¬ (photoOf 1 1000).SameMedia (photoOf 2 2000) := by
  refine ⟨?_, ?_, photos_collisionFree _ _, photos_hash _ _, ?_⟩ <;> decide +kernel

end Reception

end TelegramCms
