import TelegramCms.Lib.Base64

/-!
# Signed tokens in three segments

The compact serialization: header, payload and signature, each in the URL-safe alphabet of
Base64 and a dot between two of them. The code that signs is a parameter. `verify_sign` is
what holds of every such code.
-/

namespace Jws

/-! ## Segments -/

def toUrl (c : Char) : Char := if c = '+' then '-' else if c = '/' then '_' else c

/-- The plus and the slash have no place here. -/
def ofUrl (c : Char) : Char :=
  if c = '-' then '+' else if c = '_' then '/' else if c = '+' ∨ c = '/' then '=' else c

def segment (bs : List UInt8) : List Char := (Base64.encode bs).map toUrl

def ofSegment (s : List Char) : Option (List UInt8) := Base64.decode (s.map ofUrl)

/-- What is true of all 64 characters is true of the characters of a segment. -/
theorem segment_all {P : Char → Prop} (h : ∀ v < 64, P (toUrl (Base64.digit v)))
    (bs : List UInt8) : ∀ c ∈ segment bs, P c := by
  intro c hc
  obtain ⟨d, hd, rfl⟩ := List.mem_map.mp hc
  obtain ⟨v, hv, rfl⟩ := List.mem_map.mp hd
  exact h v (Base64.values_lt bs v hv)

theorem ofUrl_toUrl_digit : ∀ v < 64, ofUrl (toUrl (Base64.digit v)) = Base64.digit v := by decide

@[simp] theorem ofSegment_segment (bs : List UInt8) : ofSegment (segment bs) = some bs := by
  have hback : (segment bs).map ofUrl = Base64.encode bs := by
    rw [segment, List.map_map]
    refine (List.map_congr_left ?_).trans (List.map_id _)
    intro d hd
    obtain ⟨v, hv, rfl⟩ := List.mem_map.mp hd
    exact ofUrl_toUrl_digit v (Base64.values_lt bs v hv)
  rw [ofSegment, hback, Base64.decode_encode]

/-! ## Tokens -/

/-- What stands before the first dot, and what stands after it. -/
def cut (s : List Char) : List Char × List Char :=
  (s.takeWhile (· ≠ '.'), s.drop ((s.takeWhile (· ≠ '.')).length + 1))

theorem cut_segment (bs : List UInt8) (r : List Char) :
    cut (segment bs ++ '.' :: r) = (segment bs, r) := by
  have hdots : ∀ c ∈ segment bs, decide (c ≠ '.') = true :=
    segment_all (P := fun c => decide (c ≠ '.') = true) (by decide) bs
  have htake : (segment bs ++ '.' :: r).takeWhile (· ≠ '.') = segment bs := by
    rw [List.takeWhile_append_of_pos hdots, List.takeWhile_cons_of_neg (by decide),
      List.append_nil]
  rw [cut, htake, ← List.drop_drop, List.drop_left]
  rfl

variable (mac : List Char → List UInt8) (header payload : List UInt8)

def signingInput : List Char := segment header ++ '.' :: segment payload

def sign : List Char :=
  segment header ++ '.' :: (segment payload ++ '.' :: segment (mac (signingInput header payload)))

/-- The payload of a token with the right signature. -/
def verify (token : List Char) : Option (List UInt8) :=
  let header := cut token
  let payload := cut header.2
  if token = header.1 ++ '.' :: (payload.1 ++ '.' :: payload.2)
      ∧ ofSegment payload.2 = some (mac (header.1 ++ '.' :: payload.1)) then
    ofSegment payload.1
  else none

theorem verify_sign : verify mac (sign mac header payload) = some payload := by
  simp only [verify, sign, cut_segment, ofSegment_segment, signingInput, and_self, if_true]

/-- What is true of all 64 characters and of the dot is true of the characters of a token. -/
theorem sign_all {P : Char → Prop} (h : ∀ v < 64, P (toUrl (Base64.digit v))) (hdot : P '.') :
    ∀ c ∈ sign mac header payload, P c := by
  intro c hc
  rw [sign] at hc
  simp only [List.mem_append, List.mem_cons] at hc
  rcases hc with hc | rfl | hc | rfl | hc
  · exact segment_all h _ c hc
  · exact hdot
  · exact segment_all h _ c hc
  · exact hdot
  · exact segment_all h _ c hc

theorem sign_ne_nil : sign mac header payload ≠ [] := by
  intro h
  exact absurd (List.append_eq_nil_iff.mp h).2 (by simp)

end Jws
