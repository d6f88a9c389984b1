import TelegramCms.Lib.JsonWrite
import TelegramCms.Lib.Jws
import TelegramCms.Model.Auth

/-!
# Reading a token

What each of the two `decode_token`s gives for a token that either signer made
(`go_decodeToken_encode`, `python_decodeToken_encode`). They differ in one point: Go's JSON
decoder makes a `float64` of `admin_id`.
-/

namespace TelegramCms

section Payload

variable (p : TokenPayload)

theorem sent_sub : p.fields.sent "sub" = some (.str p.sub) := rfl
theorem sent_adminId : p.fields.sent "admin_id" = some (.int p.adminId) := rfl
theorem sent_role : p.fields.sent "role" = some (.str p.role.value) := rfl
theorem sent_tokenType : p.fields.sent "token_type" = some (.str p.tokenType.value) := rfl
theorem sent_iat : p.fields.sent "iat" = some (.int p.iat) := rfl
theorem sent_exp : p.fields.sent "exp" = some (.int p.exp) := rfl

end Payload

variable {J : Jwt} {cfg : AuthConfig} {now : Int} {l : JwtLibrary} {p : TokenPayload}

/-- The token has not run out yet, which is never the case of one whose `exp` is 0 if Go is
asked. -/
def Unexpired (now : Int) (p : TokenPayload) : Prop := p.exp = 0 ∨ now < p.exp * 1000000000

instance (now : Int) (p : TokenPayload) : Decidable (Unexpired now p) :=
  inferInstanceAs (Decidable (_ ∨ _))

/-- Go reads back what was signed, with the id as a `float64`, until it expires. -/
theorem go_decodeToken_encode :
    Go.decodeToken J cfg now (J.encode l cfg.jwtSecret p)
      = if Unexpired now p then
          some ⟨p.sub, Go.intClaim cfg p.adminId, p.role.value, p.tokenType.value⟩
        else none := by
  obtain ⟨q, hq, hsent⟩ := J.decode_encode .golang l cfg.jwtSecret p
  have hexp : Go.notExpired now q = decide (Unexpired now p) := by
    rw [Go.notExpired, hsent, sent_exp]
    rfl
  simp only [Go.decodeToken, hq, hexp, Go.stringClaim, hsent, sent_sub, sent_adminId, sent_role,
    sent_tokenType, decide_eq_true_eq, ite_not]

theorem roleCol_value (r : Role) : Go.roleCol r.value = some r := by
  cases r <;> decide +kernel

/-- Python reads back all of it, from the second it was issued in until it expires. -/
theorem python_decodeToken_encode :
    Python.decodeToken J cfg now (J.encode l cfg.jwtSecret p)
      = if p.iat * 1000000000 ≤ now ∧ now < p.exp * 1000000000 then some (some p.claims)
        else some none := by
  obtain ⟨q, hq, hsent⟩ := J.decode_encode .python l cfg.jwtSecret p
  have htimely : Python.timely now q
      = decide (p.iat * 1000000000 ≤ now ∧ now < p.exp * 1000000000) := by
    rw [Python.timely, hsent, hsent, sent_iat, sent_exp, Bool.decide_and]
  simp only [Python.decodeToken, hq, htimely, hsent, sent_sub, sent_adminId, sent_role,
    sent_tokenType, decide_eq_true_eq, ite_not, roleCol_value, Option.isSome_some, if_true]
  rfl

theorem trim_visible {p : Char → Bool} {t : Text} (h : ∀ c ∈ t, p c = false) : Py.trim p t = t := by
  have hdrop : t.dropWhile p = t := by
    cases t with
    | nil => rfl
    | cons c t => exact List.dropWhile_cons_of_neg (by rw [h c List.mem_cons_self]; decide)
  rw [Py.trim, hdrop, List.rdropWhile_eq_self_iff]
  intro hne hlast
  rw [h _ (List.getLast_mem hne)] at hlast
  cases hlast

/-- The scheme may be in any case. -/
theorem bearerToken_eq {scheme t : Text} (hspace : scheme.all (fun c => decide (c ≠ ' ')) = true)
    (hscheme : scheme.map Char.toLower = "bearer".toList) (ht : ∀ c ∈ t, Go.isSpace c = false) :
    Go.bearerToken (some (scheme ++ ' ' :: t)) = t := by
  have htake : (scheme ++ ' ' :: t).takeWhile (· ≠ ' ') = scheme := by
    rw [List.takeWhile_append_of_pos (List.all_eq_true.mp hspace),
      List.takeWhile_cons_of_neg (by decide), List.append_nil]
  have hdrop : (scheme ++ ' ' :: t).drop (scheme.length + 1) = t := by
    rw [← List.drop_drop, List.drop_left]
    rfl
  have hlength : scheme.length ≠ (scheme ++ ' ' :: t).length := by
    rw [List.length_append, List.length_cons]
    omega
  unfold Go.bearerToken
  simp only [Option.getD_some, htake, if_neg hlength, hscheme, ne_eq, not_true, if_false, hdrop]
  exact trim_visible ht

/-- The middleware finds the token in the header that a client sends. -/
theorem bearerToken_bearer {t : Text} (h : ∀ c ∈ t, Go.isSpace c = false) :
    Go.bearerToken (some (bearer t)) = t :=
  bearerToken_eq (by decide +kernel) (by decide +kernel) h

/-- An id that a `float64` holds comes back as it is. -/
theorem intClaim_eq (cfg : AuthConfig) {id : Int} (h : inInt64 (Binary64.ofInt id)) :
    Go.intClaim cfg id = id ↔ Binary64.unit id.natAbs ∣ id.natAbs := by
  rw [Go.intClaim, if_pos h, Binary64.ofInt_eq_self]

/-- Up to 2^53 a `float64` keeps every integer. -/
theorem intClaim_of_le {id : Int} (h : id.natAbs ≤ 9007199254740992) : Go.intClaim cfg id = id := by
  have hid := Binary64.ofInt_of_le h
  rw [Go.intClaim, hid, if_pos]
  rw [inInt64]
  omega

/-! ## A library of this kind

Compact tokens under any code that signs them keep the laws.
-/

namespace Jwt

/-- `golang-jwt` sorts the members, and `PyJWT` leaves them as they were given. -/
def members (p : TokenPayload) : JwtLibrary → Fields
  | .golang =>
    [("admin_id".toList, .int p.adminId), ("exp".toList, .int p.exp), ("iat".toList, .int p.iat),
      ("role".toList, .str p.role.value), ("sub".toList, .str p.sub),
      ("token_type".toList, .str p.tokenType.value)]
  | .python => p.fields

def style : JwtLibrary → Json.Style
  | .golang => Json.goStyle
  | .python => { Json.pyStyle with gap := [], gap_blank := rfl }

def header : Text := "\x7b\"alg\":\"HS256\",\"typ\":\"JWT\"\x7d".toList

def utf8 (t : Text) : List UInt8 := (String.ofList t).toUTF8.data.toList

def ofUtf8 (bs : List UInt8) : Option Text :=
  (ByteArray.utf8Decode? ⟨bs.toArray⟩).map Array.toList

theorem ofUtf8_utf8 (t : Text) : ofUtf8 (utf8 t) = some t := by
  change (ByteArray.utf8Decode? t.utf8Encode).map Array.toList = some t
  rw [List.utf8Decode?_utf8Encode]
  rfl

/-- The payload as an object. -/
def readPayload (bs : List UInt8) : Option Fields :=
  match (ofUtf8 bs).bind Json.document with
  | some (.obj q) => some q
  | _ => none

/-- What either library writes is read back, member by member. -/
theorem readPayload_write (l : JwtLibrary) (p : TokenPayload) :
    readPayload (utf8 (Json.write (style l) (.obj (members p l)))) = some (members p l) := by
  have hplain : Json.Plain 1 (.obj (members p l)) := by
    refine .obj ?_
    intro m hm
    cases l <;> simp only [members, TokenPayload.fields, List.mem_cons, List.not_mem_nil,
      or_false] at hm <;> rcases hm with rfl | rfl | rfl | rfl | rfl | rfl <;>
      first | exact .int _ | exact .str _
  rw [readPayload, ofUtf8_utf8, Option.bind_some, Json.document_write hplain]

theorem last_none {q : Fields} {key : Text} (h : key ∉ q.map Prod.fst) : Json.last q key = none := by
  rw [Json.last, List.find?_eq_none.mpr]
  · rfl
  · intro m hm heq
    refine h (List.mem_map.mpr ⟨m, List.mem_reverse.mp hm, ?_⟩)
    exact of_decide_eq_true heq

/-- In whichever order a library writes its members, each has the value of the payload. -/
theorem members_sent (l : JwtLibrary) (p : TokenPayload) (key : String) :
    Fields.sent (members p l) key = p.fields.sent key := by
  cases l with
  | python => rfl
  | golang =>
      rw [Fields.sent, Fields.sent]
      generalize key.toList = k
      by_cases hk : k ∈ p.fields.map Prod.fst
      · simp only [TokenPayload.fields, List.map_cons, List.map_nil, List.mem_cons,
          List.not_mem_nil, or_false] at hk
        rcases hk with rfl | rfl | rfl | rfl | rfl | rfl <;> rfl
      · rw [last_none hk, last_none]
        intro h
        refine hk ?_
        simp only [members, TokenPayload.fields, List.map_cons, List.map_nil, List.mem_cons,
          List.not_mem_nil, or_false] at h ⊢
        rcases h with h | h | h | h | h | h
        exacts [.inr (.inl h), .inr (.inr (.inr (.inr (.inr h)))),
          .inr (.inr (.inr (.inr (.inl h)))), .inr (.inr (.inl h)), .inl h,
          .inr (.inr (.inr (.inl h)))]

def ofMac (mac : Text → Text → List UInt8) : Jwt where
  encode l secret p :=
    Jws.sign (mac secret) (utf8 header) (utf8 (Json.write (style l) (.obj (members p l))))
  decode _ secret token := (Jws.verify (mac secret) token).bind readPayload
  decode_encode := by
    intro _ l secret p
    refine ⟨members p l, ?_, members_sent l p⟩
    rw [Jws.verify_sign, Option.bind_some, readPayload_write]
  encode_visible := by
    intro l secret p
    exact ⟨Jws.sign_ne_nil _ _ _,
      Jws.sign_all _ _ _ (P := fun c => Go.isSpace c = false) (by decide +kernel) (by decide +kernel)⟩

end Jwt

/-! ## Two tokens of alice -/

def sampleConfig : AuthConfig where
  jwtSecret := "test-secret-0123456789-not-a-placeholder".toList

/-- Noon of 1 July 2026. -/
def sampleNow : Int := 1782907200000000000

/-- What is signed in the tokens of a login at that time, and HMAC-SHA256 of it. -/
def sampleSignatures : List (Text × Text) :=
  [(("eyJhbGciOiJIUzI1NiIsInR5cCI6IkpXVCJ9." ++
      "eyJhZG1pbl9pZCI6NDIsImV4cCI6MTc4MjkwOTAwMCwiaWF0IjoxNzgyOTA3MjAwLCJyb2xlIjoiYWRtaW4i" ++
      "LCJzdWIiOiJhbGljZSIsInRva2VuX3R5cGUiOiJhY2Nlc3MifQ").toList,
    "BeX-mBasyW4nRIJNJEaCcaDpgS7zTtPNYUysxCqydMs".toList),
  (("eyJhbGciOiJIUzI1NiIsInR5cCI6IkpXVCJ9." ++
      "eyJhZG1pbl9pZCI6NDIsImV4cCI6MTc4NDExNjgwMCwiaWF0IjoxNzgyOTA3MjAwLCJyb2xlIjoiYWRtaW4i" ++
      "LCJzdWIiOiJhbGljZSIsInRva2VuX3R5cGUiOiJyZWZyZXNoIn0").toList,
    "0I8_4tEHxKyTM3L3B09K_Z193IGDRNbviccJVNkyKk8".toList)]

/-- HMAC-SHA256 where it is known. -/
def sampleMac (secret input : Text) : List UInt8 :=
  if secret = sampleConfig.jwtSecret then
    (((sampleSignatures.find? (fun x => x.1 = input)).map Prod.snd).bind Jws.ofSegment).getD []
  else []

def sampleJwt : Jwt := Jwt.ofMac sampleMac

def alice : Admin where
  id := 42
  username := "alice".toList
  role := .admin
  passwordHash := ("$argon2id$v=19$m=65536,t=3,p=4$MDEyMzQ1Njc4OWFiY2RlZg$" ++
    "UiBIPUuhY3xdXfQ7N3p/au05phWWk9ACmj5PdtUGaas").toList

/--
**Go and Python read the same claims out of a token, whichever of them signed it, exactly if
the id of the admin has no more than 53 significant bits.**

Both let the token through, which is issued and not yet expired, and read its texts alike. Go
reads a number as `float64`, which keeps an id exactly if it is a multiple of the unit of its
last place.
-/
theorem tokens_agree_iff (hfits : inInt64 (Binary64.ofInt p.adminId))
    (hissued : p.iat * 1000000000 ≤ now) (hlive : now < p.exp * 1000000000) :
    some (Go.decodeToken J cfg now (J.encode l cfg.jwtSecret p))
        = Python.decodeToken J cfg now (J.encode l cfg.jwtSecret p)
      ↔ Binary64.unit p.adminId.natAbs ∣ p.adminId.natAbs := by
  have hgo : Unexpired now p := Or.inr hlive
  rw [go_decodeToken_encode, if_pos hgo, python_decodeToken_encode,
    if_pos ⟨hissued, hlive⟩, ← intClaim_eq cfg hfits]
  constructor
  · intro h
    exact congrArg TokenClaims.adminId (Option.some.inj (Option.some.inj h))
  · intro h
    rw [h]
    rfl

/-- The access token of alice, which Go signs at a login. -/
theorem tokens_agree_alice :
    some (Go.decodeToken sampleJwt sampleConfig sampleNow
        (sampleJwt.encode .golang sampleConfig.jwtSecret
          (payloadFor sampleConfig sampleNow alice .access)))
      = Python.decodeToken sampleJwt sampleConfig sampleNow
        (sampleJwt.encode .golang sampleConfig.jwtSecret
          (payloadFor sampleConfig sampleNow alice .access)) :=
  (tokens_agree_iff (by decide +kernel) (by decide +kernel) (by decide +kernel)).mpr
    (by decide +kernel)

end TelegramCms
