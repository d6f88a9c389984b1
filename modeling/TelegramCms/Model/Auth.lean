import TelegramCms.Lib.Binary64
import TelegramCms.Lib.GoTime
import TelegramCms.Model.Credentials
import TelegramCms.Model.SetBuilder
import TelegramCms.Model.Transform

/-!
# Tokens, and who a request is from

`apigo/auth_jwt.go` and `apigo/auth_mw.go`, and beside them `shared/security.py` and
`api/deps.py`. The clock is an instant in nanoseconds. The JWT libraries themselves are not
in this repository: `Jwt` is what the code relies on of them, and their checks of `exp` and
`iat` are made here as they document them.
-/

namespace TelegramCms

inductive TokenType where
  | access | refresh
deriving DecidableEq, Repr

def TokenType.value : TokenType → Text
  | .access => "access".toList
  | .refresh => "refresh".toList

/-- The claims that both signers write. -/
structure TokenPayload where
  sub : Text
  adminId : Int
  role : Role
  tokenType : TokenType
  iat : Int
  exp : Int

def TokenPayload.fields (p : TokenPayload) : Fields :=
  [("sub".toList, .str p.sub), ("admin_id".toList, .int p.adminId),
    ("role".toList, .str p.role.value), ("token_type".toList, .str p.tokenType.value),
    ("iat".toList, .int p.iat), ("exp".toList, .int p.exp)]

/-- `golang-jwt` and `PyJWT`. -/
inductive JwtLibrary where
  | golang | python
deriving DecidableEq, Repr

/-- HS256 under a secret. What `decode` gives is the payload of a token whose signature is
right, before any claim is looked at. -/
structure Jwt where
  encode : JwtLibrary → Text → TokenPayload → Text
  decode : JwtLibrary → Text → Text → Option Fields
  /-- Each library reads what either has signed, in whatever order the members come. -/
  decode_encode : ∀ l l' secret p, ∃ q, decode l secret (encode l' secret p) = some q
    ∧ ∀ key, Fields.sent q key = p.fields.sent key
  /-- A token can go into a header. -/
  encode_visible : ∀ l secret p, encode l secret p ≠ []
    ∧ ∀ c ∈ encode l secret p, Go.isSpace c = false

/-- What the tokens depend on of the settings. -/
structure AuthConfig where
  jwtSecret : Text
  accessTTLMinutes : Int64 := 30
  refreshTTLDays : Int64 := 14
  /-- What the machine makes of a `float64` that no `int64` holds. -/
  overflow : Int := -9223372036854775808

/-- How long a token is good for. -/
def AuthConfig.ttl (cfg : AuthConfig) : TokenType → GoTime.Duration
  | .access => cfg.accessTTLMinutes * 60000000000
  | .refresh => cfg.refreshTTLDays * 24 * 3600000000000

/-- What is read out of a token. -/
structure TokenClaims where
  sub : Text
  adminId : Int
  role : Text
  tokenType : Text
deriving DecidableEq

def TokenPayload.claims (p : TokenPayload) : TokenClaims :=
  ⟨p.sub, p.adminId, p.role.value, p.tokenType.value⟩

section Signing

variable (cfg : AuthConfig) (now : Int) (admin : Admin)

/-- The payload of `signToken`; `create_access_token` and `create_refresh_token` write the
same. -/
def payloadFor (t : TokenType) : TokenPayload where
  sub := admin.username
  adminId := admin.id
  role := admin.role
  tokenType := t
  iat := now / 1000000000
  exp := (now + (cfg.ttl t).toInt) / 1000000000

end Signing

def Role.rank : Role → Nat
  | .editor => 0
  | .admin => 1
  | .superAdmin => 2

def roleAtLeast (held required : Role) : Bool := required.rank ≤ held.rank

/-- The row with this id that is not disabled. -/
def getAdminByID (t : Admins) (id : Int) : Option Admin :=
  t.rows.find? (fun a => (a.id : Int) = id ∧ a.disabledAt = none)

def credentialsError : HttpAnswer := .error 401 "Could not validate credentials"

/-- What follows once the claims of a token have been read, in either language. -/
def authorize (t : Admins) (min : Role) (claims : Option TokenClaims) : Except HttpAnswer Admin :=
  match claims with
  | none => .error credentialsError
  | some c =>
    if c.tokenType ≠ TokenType.access.value then .error credentialsError
    else
      match getAdminByID t c.adminId with
      | none => .error credentialsError
      | some admin =>
        if roleAtLeast admin.role min then .ok admin else .error (.error 403 "insufficient role")

/-- The header that a client sends. -/
def bearer (token : Text) : Text := "Bearer".toList ++ ' ' :: token

/-! ## Go -/

namespace Go

variable (J : Jwt) (cfg : AuthConfig) (now : Int)

/-- The library's check of `exp`, which is not required, and taken for absent if it is 0. -/
def notExpired (q : Fields) : Bool :=
  match q.sent "exp" with
  | none => true
  | some (.int e) => e = 0 ∨ now < e * 1000000000
  | some _ => false

/-- A type assertion whose failure is not looked at. -/
def stringClaim (q : Fields) (key : String) : Text :=
  match q.sent key with
  | some (.str s) => s
  | _ => []

/-- `int64(v)` of a number that was decoded into a `float64`. -/
def intClaim (n : Int) : Int :=
  if inInt64 (Binary64.ofInt n) then Binary64.ofInt n else cfg.overflow

def decodeToken (token : Text) : Option TokenClaims :=
  match J.decode .golang cfg.jwtSecret token with
  | none => none
  | some q =>
    if ¬ notExpired now q then none
    else
      match q.sent "admin_id" with
      | some (.int n) =>
        some ⟨stringClaim q "sub", intClaim cfg n, stringClaim q "role", stringClaim q "token_type"⟩
      | _ => none

/-- `bearerToken` of the `Authorization` header. -/
def bearerToken (header : Option Text) : Text :=
  let h := header.getD []
  let scheme := h.takeWhile (· ≠ ' ')
  if scheme.length = h.length then []
  else if scheme.map Char.toLower ≠ "bearer".toList then []
  else trimSpace (h.drop (scheme.length + 1))

/-- `requireRole`, and `authenticate` in it. -/
def requireRole (t : Admins) (min : Role) (header : Option Text) : Except HttpAnswer Admin :=
  let token := bearerToken header
  if token = [] then .error credentialsError
  else authorize t min (decodeToken J cfg now token)

end Go

/-! ## Python -/

namespace Python

variable (J : Jwt) (cfg : AuthConfig) (now : Int)

/-- The library's checks of `iat` and `exp`. -/
def timely (q : Fields) : Bool :=
  (match q.sent "iat" with
    | none => true
    | some (.int i) => i * 1000000000 ≤ now
    | some _ => false)
  && (match q.sent "exp" with
    | none => true
    | some (.int e) => now < e * 1000000000
    | some _ => false)

/-- `decode_token`. The outer `none` is an exception, of a claim that is missing or no role. -/
def decodeToken (token : Text) : Option (Option TokenClaims) :=
  match J.decode .python cfg.jwtSecret token with
  | none => some none
  | some q =>
    if ¬ timely now q then some none
    else
      match q.sent "sub", q.sent "admin_id", q.sent "role", q.sent "token_type" with
      | some (.str sub), some (.int id), some (.str role), some (.str tokenType) =>
        if (Go.roleCol role).isSome then some (some ⟨sub, id, role, tokenType⟩) else none
      | _, _, _, _ => none

/-- `require_role`, with the token that the security scheme found in the request. -/
def requireRole (t : Admins) (min : Role) (token : Text) : Option (Except HttpAnswer Admin) :=
  if token = [] then some (.error credentialsError)
  else (decodeToken J cfg now token).map (authorize t min)

end Python

end TelegramCms
