import TelegramCms.Proof.MediaOrder

/-!
# What the dedupe hash keeps apart

`media_fingerprint` joins `type:size:mime` with bars, and a MIME type is what the sender
says it is. One that holds a bar may hold whole references.

`dedupeHash_unambiguous_iff`: without collisions of SHA-256, two messages with one hash
have the same text and the same media, unless a MIME type of one runs on over references
of the other.
-/

namespace TelegramCms

variable {env : Env} {a b : MediaRef} {as bs rs ss : List MediaRef}

/-- What is hashed of a reference. -/
def mediaKey (r : MediaRef) : Text × Nat × Text := (r.type, r.size.getD 0, r.mime.getD [])

/-- Up to a reference the two lists agree; there the MIME type of the second goes on, with
the text of what follows in the first. -/
inductive Swallows : List MediaRef → List MediaRef → Prop
  | here {a b : MediaRef} {as bs : List MediaRef} {x : Text} (ht : a.type = b.type)
      (hs : a.size.getD 0 = b.size.getD 0) (hm : b.mime.getD [] = a.mime.getD [] ++ x)
      (hx : x ≠ []) (hrest : barredParts as = x ++ barredParts bs) : Swallows (a :: as) (b :: bs)
  | later {a b : MediaRef} {as bs : List MediaRef} (hk : mediaKey a = mediaKey b)
      (h : Swallows as bs) : Swallows (a :: as) (b :: bs)

/-- This takes a MIME type with a bar. -/
theorem Swallows.bar_mem (h : Swallows as bs) : ∃ b ∈ bs, '|' ∈ b.mime.getD [] := by
  induction h with
  | @here a b as bs x _ _ hm hx hrest =>
      refine ⟨b, .head _, ?_⟩
      cases as with
      | nil => exact absurd (List.append_eq_nil_iff.mp hrest.symm).1 hx
      | cons c as =>
          cases x with
          | nil => exact absurd rfl hx
          | cons d x =>
              rw [barredParts_cons, List.cons_append] at hrest
              rw [hm, ← (List.cons.inj hrest).1]
              simp
  | later _ _ ih =>
      obtain ⟨b, hb, hbar⟩ := ih
      exact ⟨b, .tail _ hb, hbar⟩

theorem mediaKey_inj : mediaKey a = mediaKey b
    ↔ a.type = b.type ∧ a.size.getD 0 = b.size.getD 0 ∧ a.mime.getD [] = b.mime.getD [] := by
  rw [mediaKey, mediaKey, Prod.mk.injEq, Prod.mk.injEq]

theorem refPart_congr (h : mediaKey a = mediaKey b) : refPart a = refPart b := by
  obtain ⟨ht, hs, hm⟩ := mediaKey_inj.mp h
  rw [refPart_eq, refPart_eq, refKey_congr ht hs, hm]

theorem barredParts_congr (h : as.map mediaKey = bs.map mediaKey) :
    barredParts as = barredParts bs := by
  induction as generalizing bs with
  | nil =>
      cases bs with
      | nil => rfl
      | cons b bs => exact absurd h (by simp)
  | cons a as ih =>
      cases bs with
      | nil => exact absurd h (by simp)
      | cons b bs =>
          obtain ⟨hk, hrest⟩ := List.cons.inj h
          rw [barredParts_cons, barredParts_cons, refPart_congr hk, ih hrest]

theorem Swallows.barredParts_eq (h : Swallows as bs) : barredParts as = barredParts bs := by
  induction h with
  | @here a b as bs x ht hs hm _ hrest =>
      rw [barredParts_cons, barredParts_cons, refPart_append, refPart_append,
        refKey_congr ht hs, hm, hrest, List.append_assoc]
  | later hk _ ih => rw [barredParts_cons, barredParts_cons, refPart_congr hk, ih]

/-- Lists with one text have the same fields, or a MIME type of one runs on over references
of the other. -/
theorem barredParts_inj (ha : ∀ a ∈ as, ':' ∉ a.type) (hb : ∀ b ∈ bs, ':' ∉ b.type) :
    barredParts as = barredParts bs
      ↔ as.map mediaKey = bs.map mediaKey ∨ Swallows as bs ∨ Swallows bs as := by
  constructor
  · intro h
    -- along both lists, up to the first reference in which they differ
    induction as generalizing bs with
    | nil =>
        cases bs with
        | nil => exact .inl rfl
        | cons b bs => exact absurd h (by simp)
    | cons a as ih =>
        cases bs with
        | nil => exact absurd h (by simp)
        | cons b bs =>
            rw [barredParts_cons, barredParts_cons, List.cons_inj_right, refPart_append,
              refPart_append, refKey_append_inj (ha a (.head _)) (hb b (.head _))] at h
            obtain ⟨ht, hs, h⟩ := h
            have ih := @ih bs (fun c hc => ha c (.tail _ hc)) (fun c hc => hb c (.tail _ hc))
            by_cases hm : a.mime.getD [] = b.mime.getD []
            · -- the same reference first
              rw [hm, List.append_cancel_left_eq] at h
              have hk : mediaKey a = mediaKey b := mediaKey_inj.mpr ⟨ht, hs, hm⟩
              rcases ih h with hrest | hrest | hrest
              · exact .inl (by rw [List.map_cons, List.map_cons, hk, hrest])
              · exact .inr (.inl (.later hk hrest))
              · exact .inr (.inr (.later hk.symm hrest))
            · -- one of the types is the longer
              have hne : ∀ {s t x : Text}, s ≠ t → t = s ++ x → x ≠ [] := by
                rintro s t x hst hx rfl
                exact hst (by rw [hx, List.append_nil])
              rcases List.append_eq_append_iff.mp h with ⟨x, hx, hrest⟩ | ⟨x, hx, hrest⟩
              · exact .inr (.inl (.here ht hs hx (hne hm hx) hrest))
              · exact .inr (.inr (.here ht.symm hs.symm hx (hne (Ne.symm hm) hx) hrest))
  · rintro (h | h | h)
    · exact barredParts_congr h
    · exact h.barredParts_eq
    · exact h.barredParts_eq.symm

/-! ## The hash -/

/-- A MIME type of one message runs on over references of the other. -/
def RunsOver (rs ss : List MediaRef) : Prop :=
  Swallows (rs.insertionSort refLe) (ss.insertionSort refLe)
    ∨ Swallows (ss.insertionSort refLe) (rs.insertionSort refLe)

/-- MIME types without bars do not. -/
theorem not_runsOver (hr : ∀ r ∈ rs, '|' ∉ r.mime.getD []) (hs : ∀ s ∈ ss, '|' ∉ s.mime.getD []) :
    ¬ RunsOver rs ss := by
  rintro (h | h)
  · obtain ⟨s, hmem, hbar⟩ := h.bar_mem
    exact hs s ((List.mem_insertionSort refLe).mp hmem) hbar
  · obtain ⟨r, hmem, hbar⟩ := h.bar_mem
    exact hr r ((List.mem_insertionSort refLe).mp hmem) hbar

/-- The media as a multiset. -/
def SameKeys (rs ss : List MediaRef) : Prop := (rs.map mediaKey).Perm (ss.map mediaKey)

instance : Decidable (SameKeys rs ss) :=
  inferInstanceAs (Decidable ((rs.map mediaKey).Perm (ss.map mediaKey)))

theorem joinRefs_sameKeys (hr : ∀ r ∈ rs, ':' ∉ r.type) (hs : ∀ s ∈ ss, ':' ∉ s.type)
    (h : joinRefs rs = joinRefs ss) : SameKeys rs ss ∨ RunsOver rs ss := by
  have hsorted : ∀ {refs : List MediaRef}, (∀ r ∈ refs, ':' ∉ r.type) →
      ∀ r ∈ refs.insertionSort refLe, ':' ∉ r.type :=
    fun hr r hmem => hr r ((List.mem_insertionSort refLe).mp hmem)
  rcases (barredParts_inj (hsorted hr) (hsorted hs)).mp (joinRefs_inj.mp h) with h | h
  · have hleft := (List.perm_insertionSort refLe rs).map mediaKey
    have hright := (List.perm_insertionSort refLe ss).map mediaKey
    exact .inl ((hleft.symm.trans (h ▸ .refl _)).trans hright)
  · exact .inr h

theorem RunsOver.joinRefs_eq (h : RunsOver rs ss) : joinRefs rs = joinRefs ss :=
  joinRefs_inj.mpr (h.elim Swallows.barredParts_eq (fun h => h.barredParts_eq.symm))

/--
**One hash means one text and one set of media, unless a MIME type runs on over
references of the other message.**

Without collisions one hash means one joined string. Types have no colon, so a reader of that
string finds the same references in both messages, as long as each bar it meets ends one
(`joinRefs_sameKeys`); a MIME type may hold bars, and that is `RunsOver`.
-/
theorem dedupeHash_unambiguous_iff (t u : Option Text) (rs ss : List MediaRef)
    (hrs : ∀ r ∈ rs, ':' ∉ r.type) (hss : ∀ s ∈ ss, ':' ∉ s.type)
    (hsha : CollisionFree env (hashedStrings env t rs ++ hashedStrings env u ss)) :
    (computeDedupeHash env t rs = computeDedupeHash env u ss →
        foldText env t = foldText env u ∧ SameKeys rs ss)
      ↔ ¬ (foldText env t = foldText env u ∧ ¬ SameKeys rs ss ∧ RunsOver rs ss) := by
  rw [computeDedupeHash_inj hsha]
  constructor
  · rintro h ⟨ht, hne, hover⟩
    exact hne (h ⟨ht, hover.joinRefs_eq⟩).2
  · rintro h ⟨ht, hjoin⟩
    refine ⟨ht, (joinRefs_sameKeys hrs hss hjoin).elim id ?_⟩
    intro hover
    by_contra hne
    exact h ⟨ht, hne, hover⟩

/-! ### A MIME type that holds a document -/

/-- A document whose sender gives it a MIME type that goes on with a second document. -/
def runOnDocument : MediaRef := documentOf "image/png|document:10:video/mp4".toList

def digestOfRunOnPost : Digest :=
  ⟨"766440010a7ff69a2dcb44f5d46b9180ce05f3e267135b86fb31c80efdf188cb".toList, by decide⟩

/-- The digests that the documents with the caption `hi` need. -/
def runOnSha256 (s : Text) : Digest :=
  if s = digestOfHi.hex ++ [':'] ++ digestOfPngMp4.hex then digestOfRunOnPost else documentSha256 s

def runOnEnv : Env := { sampleEnv {} with sha256 := runOnSha256 }

/-- Two documents in either list, downloaded to other files. -/
theorem dedupeHash_unambiguous_reposted :
    computeDedupeHash runOnEnv (some "Hi".toList) [png, mp4]
        = computeDedupeHash runOnEnv (some "hi ".toList) [{ png with file := some [] }, mp4]
      ∧ foldText runOnEnv (some "Hi".toList) = foldText runOnEnv (some "hi ".toList)
      ∧ SameKeys [png, mp4] [{ png with file := some [] }, mp4] := by
  have hsha : CollisionFree runOnEnv (hashedStrings runOnEnv (some "Hi".toList) [png, mp4]
      ++ hashedStrings runOnEnv (some "hi ".toList) [{ png with file := some [] }, mp4]) := by
    decide +kernel
  have hhash := (computeDedupeHash_inj hsha).mpr ⟨by decide, by decide⟩
  refine ⟨hhash, (dedupeHash_unambiguous_iff _ _ _ _ (by decide) (by decide) hsha).mpr ?_ hhash⟩
  rintro ⟨-, hne, -⟩
  exact hne (by decide)

/-- One document and two have one hash. -/
theorem documents_confused :
    CollisionFree runOnEnv (hashedStrings runOnEnv (some "hi".toList) [runOnDocument]
        ++ hashedStrings runOnEnv (some "hi".toList) [png, mp4])
      ∧ computeDedupeHash runOnEnv (some "hi".toList) [runOnDocument]
        = computeDedupeHash runOnEnv (some "hi".toList) [png, mp4]
      ∧ ¬ SameKeys [runOnDocument] [png, mp4] := by
  have hsha : CollisionFree runOnEnv (hashedStrings runOnEnv (some "hi".toList) [runOnDocument]
      ++ hashedStrings runOnEnv (some "hi".toList) [png, mp4]) := by
    decide +kernel
  exact ⟨hsha, (computeDedupeHash_inj hsha).mpr ⟨rfl, by decide⟩, by decide⟩

end TelegramCms
