import Mathlib.Data.List.Permutation
import TelegramCms.Lib.Sorting
import TelegramCms.Proof.Fingerprint

/-!
# The order of the media

`media_fingerprint` sorts the references by type and size and hashes the MIME type as
well. So references of one type and size are hashed in the order they come in.

`mediaFingerprint_order_iff`: the order does not count exactly when any two references of
one type and size read the same in both orders; with ordinary MIME types, when these are
the same.
-/

namespace TelegramCms

open Sorting

variable {env : Env} {a b : MediaRef} {rs ss : List MediaRef}

/-! ## The sort key -/

theorem type_trichotomy (s t : Text) : s < t ∨ s = t ∨ t < s := by
  rcases List.le_total s t with h | h
  · rcases List.le_iff_lt_or_eq.mp h with h | h
    · exact .inl h
    · exact .inr (.inl h)
  · rcases List.le_iff_lt_or_eq.mp h with h | h
    · exact .inr (.inr h)
    · exact .inr (.inl h.symm)

theorem refLe_total (a b : MediaRef) : refLe a b ∨ refLe b a := by
  rcases type_trichotomy a.type b.type with h | h | h
  · exact .inl (.inl h)
  · rcases Nat.le_total (a.size.getD 0) (b.size.getD 0) with hs | hs
    · exact .inl (.inr ⟨h, hs⟩)
    · exact .inr (.inr ⟨h.symm, hs⟩)
  · exact .inr (.inl h)

theorem refLe_trans (a b c : MediaRef) (hab : refLe a b) (hbc : refLe b c) : refLe a c := by
  rcases hab with h | ⟨h, hs⟩
  · rcases hbc with h' | ⟨h', -⟩
    · exact .inl (List.lt_trans h h')
    · exact .inl (h' ▸ h)
  · rcases hbc with h' | ⟨h', hs'⟩
    · exact .inl (h ▸ h')
    · exact .inr ⟨h.trans h', hs.trans hs'⟩

theorem tied_refLe : Tied refLe a b ↔ a.type = b.type ∧ a.size.getD 0 = b.size.getD 0 := by
  constructor
  · rintro ⟨hab | ⟨ht, hab⟩, hba | ⟨ht', hba⟩⟩
    · exact absurd hba (List.lt_asymm hab)
    · exact absurd (ht' ▸ hab) (List.lt_irrefl _)
    · exact absurd (ht ▸ hba) (List.lt_irrefl _)
    · exact ⟨ht, Nat.le_antisymm hab hba⟩
  · rintro ⟨ht, hs⟩
    exact ⟨.inr ⟨ht, hs.le⟩, .inr ⟨ht.symm, hs.ge⟩⟩

/-! ## What is hashed -/

/-- The parts with a bar before each. -/
def barredParts (refs : List MediaRef) : Text := refs.flatMap (fun r => '|' :: refPart r)

@[simp] theorem barredParts_nil : barredParts [] = [] := rfl

@[simp] theorem barredParts_cons (r : MediaRef) (refs : List MediaRef) :
    barredParts (r :: refs) = '|' :: (refPart r ++ barredParts refs) := rfl

theorem barredParts_append : barredParts (rs ++ ss) = barredParts rs ++ barredParts ss :=
  List.flatMap_append

theorem barredParts_eq_join (r : MediaRef) (refs : List MediaRef) :
    barredParts (r :: refs) = '|' :: Py.join ['|'] ((r :: refs).map refPart) := by
  induction refs generalizing r with
  | nil => simp [Py.join]
  | cons s refs ih =>
      rw [barredParts_cons, ih s]
      simp [Py.join, List.intercalate_cons_cons]

theorem joinRefs_eq_nil_iff : joinRefs rs = [] ↔ rs = [] := by
  constructor
  · intro h
    cases hs : rs.insertionSort refLe with
    | nil => exact ((hs ▸ List.perm_insertionSort refLe rs).nil_eq).symm
    | cons r refs =>
        have hbar := barredParts_eq_join r refs
        rw [← hs, ← joinRefs, h, hs, barredParts_cons] at hbar
        exact absurd (List.append_eq_nil_iff.mp (List.cons.inj hbar).2).1 (refPart_ne_nil r)
  · rintro rfl
    rfl

theorem barredParts_sort (h : rs ≠ []) :
    barredParts (rs.insertionSort refLe) = '|' :: joinRefs rs := by
  cases hs : rs.insertionSort refLe with
  | nil => exact absurd (hs ▸ List.perm_insertionSort refLe rs).nil_eq.symm h
  | cons r refs => rw [barredParts_eq_join, ← hs, joinRefs]

/-- The bars tell as much as the text that is hashed. -/
theorem joinRefs_inj : joinRefs rs = joinRefs ss
    ↔ barredParts (rs.insertionSort refLe) = barredParts (ss.insertionSort refLe) := by
  by_cases hr : rs = [] <;> by_cases hs : ss = []
  · rw [hr, hs]
    simp
  · have hne : [] ≠ joinRefs ss := fun h => hs (joinRefs_eq_nil_iff.mp h.symm)
    rw [barredParts_sort hs, hr]
    simp [hne]
  · have hne : joinRefs rs ≠ [] := fun h => hr (joinRefs_eq_nil_iff.mp h)
    rw [barredParts_sort hr, hs]
    simp [hne]
  · rw [barredParts_sort hr, barredParts_sort hs, List.cons_inj_right]

/-! ## Ties -/

theorem refPart_append (r : MediaRef) (t : Text) :
    refPart r ++ t = refKey r ++ (r.mime.getD [] ++ t) := by
  rw [refPart_eq, List.append_assoc]

theorem refKey_congr (ht : a.type = b.type) (hs : a.size.getD 0 = b.size.getD 0) :
    refKey a = refKey b := by
  rw [refKey, refKey, ht, hs]

/-- After the type and size they share, the two read the same in either order. -/
def Interchangeable (a b : MediaRef) : Prop :=
  a.mime.getD [] ++ '|' :: refPart b = b.mime.getD [] ++ '|' :: refPart a

instance : Decidable (Interchangeable a b) :=
  inferInstanceAs (Decidable (a.mime.getD [] ++ '|' :: refPart b
    = b.mime.getD [] ++ '|' :: refPart a))

theorem interchangeable_iff (ht : a.type = b.type) (hs : a.size.getD 0 = b.size.getD 0) :
    Interchangeable a b ↔ ('|' :: refPart a) ++ ('|' :: refPart b)
      = ('|' :: refPart b) ++ ('|' :: refPart a) := by
  rw [Interchangeable, List.cons_append, List.cons_append, List.cons_inj_right, refPart_append,
    refPart_append, refKey_congr ht hs, List.append_cancel_left_eq]

/-- MIME types without a bar have to be equal. -/
theorem interchangeable_iff_mime (ha : '|' ∉ a.mime.getD []) (hb : '|' ∉ b.mime.getD [])
    (ht : a.type = b.type) (hs : a.size.getD 0 = b.size.getD 0) :
    Interchangeable a b ↔ a.mime.getD [] = b.mime.getD [] := by
  rw [Interchangeable, Py.append_sep_inj ha hb]
  constructor
  · exact fun h => h.1
  · intro h
    exact ⟨h, by rw [refPart_eq, refPart_eq, refKey_congr ht hs, h]⟩

/-! ## Orders -/

theorem mediaFingerprint_eq (refs : List MediaRef) :
    mediaFingerprint env refs = env.sha256 (joinRefs refs) := rfl

/-- References that may change places are hashed as one, in any order. -/
theorem joinRefs_perm (hss : ss.Perm rs)
    (htie : ∀ a ∈ rs, ∀ b ∈ rs, a.type = b.type → a.size.getD 0 = b.size.getD 0 →
      Interchangeable a b) : joinRefs ss = joinRefs rs := by
  rw [joinRefs_inj]
  refine (retied_insertionSort refLe_total refLe_trans hss).flatMap_eq ?_
  intro a ha b hb hab
  obtain ⟨ht, hs⟩ := tied_refLe.mp hab
  have hmem : ∀ c ∈ ss.insertionSort refLe, c ∈ rs :=
    fun c hc => hss.mem_iff.mp ((List.mem_insertionSort refLe).mp hc)
  exact (interchangeable_iff ht hs).mp (htie a (hmem a ha) b (hmem b hb) ht hs)

/-- Two orders that differ in their first two references tell whether these may change
places. -/
theorem interchangeable_of_joinRefs {refs : List MediaRef} (ht : a.type = b.type)
    (hs : a.size.getD 0 = b.size.getD 0)
    (h : joinRefs (a :: b :: refs) = joinRefs (b :: a :: refs)) : Interchangeable a b := by
  obtain ⟨u, v, hab, hba⟩ := insertionSort_tie refLe_trans (tied_refLe.mpr ⟨ht, hs⟩) refs
  -- what stands around the two is the same in both orders
  rw [joinRefs_inj, hab, hba, barredParts_append, barredParts_append] at h
  have hbars : (('|' :: refPart a) ++ ('|' :: refPart b)) ++ barredParts v
      = (('|' :: refPart b) ++ ('|' :: refPart a)) ++ barredParts v := by
    simpa using List.append_cancel_left h
  exact (interchangeable_iff ht hs).mpr (List.append_cancel_right hbars)

/--
**The order of the media does not count exactly when any two references of one type and
size read the same in both orders.**

The references are sorted by type and size, and the sort is stable: two orders of a list differ
in the order of those that tie, at most. For the converse, two references that tie are put at the
front in either order, and the rest is the same.
-/
theorem mediaFingerprint_order_iff (env : Env) (rs : List MediaRef)
    (hsha : CollisionFree env (rs.permutations.map joinRefs)) :
    (∀ ss, ss.Perm rs → mediaFingerprint env ss = mediaFingerprint env rs
        ∧ ∀ text, computeDedupeHash env text ss = computeDedupeHash env text rs)
      ↔ ∀ a ∈ rs, ∀ b ∈ rs, a.type = b.type → a.size.getD 0 = b.size.getD 0 →
        Interchangeable a b := by
  constructor
  · intro h a ha b hb ht hs
    by_cases hab : a = b
    · rw [hab, Interchangeable]
    · -- the orders that begin with the two
      have hb : b ∈ rs.erase a := (List.mem_erase_of_ne (Ne.symm hab)).mpr hb
      have hfirst : (a :: b :: (rs.erase a).erase b).Perm rs :=
        ((List.perm_cons_erase hb).symm.cons a).trans (List.perm_cons_erase ha).symm
      have hsecond : (b :: a :: (rs.erase a).erase b).Perm rs := (List.Perm.swap _ _ _).trans hfirst
      have hmem : ∀ {ss}, ss.Perm rs → joinRefs ss ∈ rs.permutations.map joinRefs :=
        fun hss => List.mem_map_of_mem (List.mem_permutations.mpr hss)
      have hdigest := (h _ hfirst).1.trans (h _ hsecond).1.symm
      exact interchangeable_of_joinRefs ht hs (hsha _ (hmem hfirst) _ (hmem hsecond) hdigest)
  · intro htie ss hss
    have hmedia : mediaFingerprint env ss = mediaFingerprint env rs := by
      rw [mediaFingerprint_eq, mediaFingerprint_eq, joinRefs_perm hss htie]
    exact ⟨hmedia, fun text => by rw [computeDedupeHash, computeDedupeHash, hmedia]⟩

/-! ### Two documents -/

def photoAndVideo : List MediaRef :=
  [{ type := "photo".toList, file := none, size := some 1024, mime := some "image/jpeg".toList },
    { type := "video".toList, file := none, size := some 5000, mime := some "video/mp4".toList }]

/-- A photo and a video are told apart by their types. -/
theorem mediaFingerprint_order_photoAndVideo :
    mediaFingerprint (sampleEnv {}) photoAndVideo.reverse
        = mediaFingerprint (sampleEnv {}) photoAndVideo
      ∧ computeDedupeHash (sampleEnv {}) (some "hi".toList) photoAndVideo.reverse
        = computeDedupeHash (sampleEnv {}) (some "hi".toList) photoAndVideo := by
  have htie : ∀ a ∈ photoAndVideo, ∀ b ∈ photoAndVideo, a.type = b.type →
      a.size.getD 0 = b.size.getD 0 → Interchangeable a b := by
    decide +kernel
  -- one string is hashed, so nothing can collide
  have hone : ∀ s ∈ photoAndVideo.permutations.map joinRefs, s = joinRefs photoAndVideo := by
    intro s hs
    obtain ⟨ss, hss, rfl⟩ := List.mem_map.mp hs
    exact joinRefs_perm (List.mem_permutations.mp hss) htie
  have h := (mediaFingerprint_order_iff (sampleEnv {}) photoAndVideo
    (fun s hs t ht _ => (hone s hs).trans (hone t ht).symm)).mpr htie photoAndVideo.reverse
      photoAndVideo.reverse_perm
  exact ⟨h.1, h.2 (some "hi".toList)⟩

/-- A document of ten bytes. -/
def documentOf (mime : Text) : MediaRef :=
  { type := "document".toList, file := none, size := some 10, mime := some mime }

def png : MediaRef := documentOf "image/png".toList

def mp4 : MediaRef := documentOf "video/mp4".toList

def digestOfPngMp4 : Digest :=
  ⟨"a43958e52030b541bd48c3c862636aca808ec5b460096adf39285dd8ab1b75c7".toList, by decide⟩

def digestOfMp4Png : Digest :=
  ⟨"1824d1d2922868af02877c30645804dbf09199f5e7fcefd5997da8620f96f4a9".toList, by decide⟩

/-- The digests of the two documents. -/
def documentSha256 (s : Text) : Digest :=
  if s = "document:10:image/png|document:10:video/mp4".toList then digestOfPngMp4
  else if s = "document:10:video/mp4|document:10:image/png".toList then digestOfMp4Png
  else sampleSha256 s

def documentEnv : Env := { sampleEnv {} with sha256 := documentSha256 }

/-- Documents of one size are hashed in the order they come in. -/
theorem documents_disordered : [mp4, png].Perm [png, mp4]
    ∧ mediaFingerprint documentEnv [png, mp4] = digestOfPngMp4
    ∧ mediaFingerprint documentEnv [mp4, png] = digestOfMp4Png
    ∧ mediaFingerprint documentEnv [mp4, png] ≠ mediaFingerprint documentEnv [png, mp4] := by
  refine ⟨List.Perm.swap png mp4 [], ?_, ?_, ?_⟩ <;> decide +kernel

end TelegramCms
