import TelegramCms.Lib.Transition
import TelegramCms.Model.Router
import TelegramCms.Proof.Auth
import TelegramCms.Proof.Passwords

/-!
# Every session goes back to a login

A request is let in for the token it carries, and a token can be had for another token, any
number of times over. `Rooted` is what a token is worth: at the other end of the chain of
refreshes somebody gave the password of the account, and no link of the chain is longer than
a refresh token lives. It is an invariant of every run in which nobody forges a signature.
-/

namespace TelegramCms

open Transition

namespace Backend

variable {J : Jwt} {A : Argon2} {cfg : AuthConfig}

/-- The chain of a token back to a login. -/
inductive Rooted (A : Argon2) (cfg : AuthConfig) (issued : List Issued) : Issued → Prop where
  | login {i : Issued} {row : Admin} {password : Text} :
      i ∈ issued → i.cause = .login row password → row.id = i.adminId → row.disabledAt = none →
      Passwords.verifyPassword A password row.passwordHash = some true → Rooted A cfg issued i
  | refresh {i parent : Issued} :
      i ∈ issued → i.cause = .refresh parent.token → parent.tokenType = .refresh →
      parent.adminId = i.adminId → parent.at_ ≤ i.at_ →
      i.at_ < parent.at_ + (cfg.ttl .refresh).toInt → Rooted A cfg issued parent →
      Rooted A cfg issued i

/-- More tokens do no harm to a chain. -/
theorem Rooted.mono {issued issued' : List Issued} {i : Issued} (h : Rooted A cfg issued i)
    (hsub : issued ⊆ issued') : Rooted A cfg issued' i := by
  induction h with
  | login hi hcause hid henabled hpassword =>
      exact .login (hsub hi) hcause hid henabled hpassword
  | refresh hi hcause htype hid hle hlt _ ih =>
      exact .refresh (hsub hi) hcause htype hid hle hlt ih

/-! ## What a run is asked for -/

/-- The tokens a request presents. -/
def presented (r : HttpRequest) : List Text := [Go.bearerToken r.authorization, refreshToken r]

/-- A signature under the secret is on a token that was issued. -/
def Unforged (J : Jwt) (cfg : AuthConfig) (b : Backend) : BackendAction → Prop
  | .request r => ∀ t ∈ presented r, ∀ q, J.decode .golang cfg.jwtSecret t = some q →
      ∃ i ∈ b.issued, i.token = t
  | _ => True

/-- The ids of the admins fit the significand of a `float64`. -/
def SmallIds (b : Backend) (_ : BackendAction) : Prop :=
  ∀ a ∈ b.site.admins.rows, a.id ≤ 9007199254740992

/-! ## The invariant -/

/-- An entry of the record is what it says. -/
structure Sound (J : Jwt) (cfg : AuthConfig) (now : Int) (i : Issued) : Prop where
  /-- It was signed for a row with this id. -/
  token : ∃ row : Admin, row.id = i.adminId
    ∧ i.token = J.encode .golang cfg.jwtSecret (payloadFor cfg i.at_ row i.tokenType)
  small : i.adminId ≤ 9007199254740992
  past : i.at_ ≤ now
  epoch : 1000000000 ≤ i.at_

structure Custody (J : Jwt) (A : Argon2) (cfg : AuthConfig) (b : Backend) : Prop where
  epoch : 1000000000 ≤ b.now
  sound : ∀ i ∈ b.issued, Sound J cfg b.now i
  rooted : ∀ i ∈ b.issued, Rooted A cfg b.issued i

/-- What reading a token that was issued gives: the account it was issued for, if it has not
run out. -/
theorem decodeToken_issued {now now' : Int} {i : Issued} (h : Sound J cfg now i)
    (httl : 0 ≤ (cfg.ttl i.tokenType).toInt) {c : TokenClaims}
    (hc : Go.decodeToken J cfg now' i.token = some c) :
    c.adminId = i.adminId ∧ c.tokenType = i.tokenType.value
      ∧ now' < i.at_ + (cfg.ttl i.tokenType).toInt := by
  obtain ⟨row, hid, htoken⟩ := h.token
  have hepoch := h.epoch
  rw [htoken, go_decodeToken_encode] at hc
  split at hc
  · rename_i hlive
    obtain rfl := Option.some.inj hc
    refine ⟨?_, rfl, ?_⟩
    · have hsmall : ((row.id : Int)).natAbs ≤ 9007199254740992 := by
        rw [hid, Int.natAbs_natCast]
        exact h.small
      dsimp only [payloadFor]
      rw [intClaim_of_le hsmall, hid]
    · dsimp only [Unexpired, payloadFor] at hlive
      omega
  · cases hc

/-! ## One request -/

/-- A login that succeeds is by the password of an account that is not disabled. -/
theorem handleLogin_ok {t : Admins} {username password : Text} {admin : Admin}
    (h : Go.handleLogin A t username password = some (.ok admin)) :
    admin ∈ t.rows ∧ admin.disabledAt = none
      ∧ Passwords.verifyPassword A password admin.passwordHash = some true := by
  rw [Go.handleLogin] at h
  split at h
  · cases h
  · split at h
    · cases h
    · rename_i a hfind
      obtain ⟨ok, hverify, hok⟩ := Option.map_eq_some_iff.mp h
      cases ok with
      | false => cases hok
      | true =>
          obtain rfl := Except.ok.inj hok
          have hrow := List.find?_some hfind
          rw [decide_eq_true_eq] at hrow
          exact ⟨List.mem_of_find?_eq_some hfind, hrow.2, hverify⟩

/-- An account is found by its id, unless it is disabled. -/
theorem getAdminByID_some {t : Admins} {id : Int} {admin : Admin}
    (h : getAdminByID t id = some admin) :
    admin ∈ t.rows ∧ (admin.id : Int) = id ∧ admin.disabledAt = none := by
  have hrow := List.find?_some h
  rw [decide_eq_true_eq] at hrow
  exact ⟨List.mem_of_find?_eq_some h, hrow.1, hrow.2⟩

/-- What a request may do to the record of tokens: nothing, or add the two of a login or of a
refresh. -/
theorem serve_cases (b : Backend) (r : HttpRequest) :
    ((b.serve J A cfg r).1.issued = b.issued ∧ (b.serve J A cfg r).1.now = b.now)
      ∨ (∃ admin password, (b.serve J A cfg r).1 = b.issue J cfg admin (.login admin password)
          ∧ admin ∈ b.site.admins.rows ∧ admin.disabledAt = none
          ∧ Passwords.verifyPassword A password admin.passwordHash = some true)
      ∨ ∃ admin token c, (b.serve J A cfg r).1 = b.issue J cfg admin (.refresh token)
          ∧ token ∈ presented r ∧ Go.decodeToken J cfg b.now token = some c
          ∧ c.tokenType = TokenType.refresh.value
          ∧ getAdminByID b.site.admins c.adminId = some admin := by
  rw [serve]
  split
  · -- a login
    rename_i username password hroute
    rw [login]
    split
    · exact .inl ⟨rfl, rfl⟩
    · exact .inl ⟨rfl, rfl⟩
    · rename_i admin hlogin
      obtain ⟨hmem, henabled, hverify⟩ := handleLogin_ok hlogin
      exact .inr (.inl ⟨admin, password, rfl, hmem, henabled, hverify⟩)
  · -- a refresh
    rw [refresh]
    split
    · exact .inl ⟨rfl, rfl⟩
    · split
      · exact .inl ⟨rfl, rfl⟩
      · rename_i c hc
        split
        · exact .inl ⟨rfl, rfl⟩
        · rename_i htype
          split
          · exact .inl ⟨rfl, rfl⟩
          · rename_i admin hadmin
            refine .inr (.inr ⟨admin, refreshToken r, c, rfl, ?_, hc, ?_, hadmin⟩)
            · exact List.mem_cons_of_mem _ List.mem_cons_self
            · exact not_not.mp htype
  · exact .inl ⟨rfl, rfl⟩
  · split <;> exact .inl ⟨rfl, rfl⟩
  · split <;> exact .inl ⟨rfl, rfl⟩

theorem serve_read {b : Backend} {r : HttpRequest} {route : ReadRoute} {admin : Admin}
    (hroute : r.route = .read route) (hadmits : b.admits J cfg route.min r = .ok admin) :
    b.serve J A cfg r = (b, some ⟨r.found, none, false⟩) := by
  rw [serve, hroute]
  simp only [hadmits]

/-- The two tokens of a session are on record with their cause. -/
theorem mem_issue (b : Backend) (admin : Admin) (cause : Cause) (t : TokenType) :
    ⟨b.tokensFor J cfg admin t, t, admin.id, b.now, cause⟩ ∈ (b.issue J cfg admin cause).issued := by
  refine List.mem_append_left _ (List.mem_map.mpr ⟨t, ?_, rfl⟩)
  cases t <;> decide

/-- Two sound tokens are added to the record. -/
theorem custody_issue {b : Backend} {admin : Admin} {cause : Cause} (h : Custody J A cfg b)
    (hsmall : admin.id ≤ 9007199254740992)
    (hrooted : ∀ issued, b.issued ⊆ issued → ∀ i ∈ issued, i.cause = cause →
      i.adminId = admin.id → i.at_ = b.now → Rooted A cfg issued i) :
    Custody J A cfg (b.issue J cfg admin cause) where
  epoch := h.epoch
  sound := by
    intro i hi
    rcases List.mem_append.mp hi with hi | hi
    · obtain ⟨t, -, rfl⟩ := List.mem_map.mp hi
      exact ⟨⟨admin, rfl, rfl⟩, hsmall, Int.le_refl _, h.epoch⟩
    · exact h.sound i hi
  rooted := by
    intro i hi
    have hsub : b.issued ⊆ (b.issue J cfg admin cause).issued :=
      fun x hx => List.mem_append_right _ hx
    rcases List.mem_append.mp hi with hnew | hold
    · obtain ⟨t, -, rfl⟩ := List.mem_map.mp hnew
      exact hrooted _ hsub _ hi rfl rfl rfl
    · exact (h.rooted i hold).mono hsub

/-- A request issues tokens for a password that was verified, or for a refresh token on record. -/
theorem custody_serve {b : Backend} {r : HttpRequest}
    (httl : ∀ t, 0 ≤ (cfg.ttl t).toInt) (h : Custody J A cfg b)
    (hforged : Unforged J cfg b (.request r)) (hsmall : SmallIds b (.request r)) :
    Custody J A cfg (b.serve J A cfg r).1 := by
  rcases serve_cases b r with ⟨hissued, hnow⟩ | ⟨admin, password, hb, hmem, henabled, hverify⟩
    | ⟨admin, token, c, hb, htoken, hc, htype, hadmin⟩
  · constructor
    · rw [hnow]; exact h.epoch
    · rw [hissued, hnow]; exact h.sound
    · rw [hissued]; exact h.rooted
  · rw [hb]
    refine custody_issue h (hsmall admin hmem) ?_
    intro issued _ i hi hcause hid _
    exact .login hi hcause hid.symm henabled hverify
  · obtain ⟨hmem, hid, -⟩ := getAdminByID_some hadmin
    -- the token that was presented is one of the record
    obtain ⟨parent, hparent, rfl⟩ : ∃ i ∈ b.issued, i.token = token := by
      cases hq : J.decode .golang cfg.jwtSecret token with
      | none => rw [Go.decodeToken, hq] at hc; cases hc
      | some q => exact hforged token htoken q hq
    have hsound := h.sound parent hparent
    obtain ⟨hcid, hctype, hlive⟩ := decodeToken_issued hsound (httl _) hc
    have hrefresh : parent.tokenType = .refresh := by
      rw [hctype] at htype
      cases ht : parent.tokenType with
      | refresh => rfl
      | access => rw [ht] at htype; exact absurd htype (by decide +kernel)
    have hparentid : parent.adminId = admin.id := by omega
    rw [hrefresh] at hlive
    rw [hb]
    refine custody_issue h (hsmall admin hmem) ?_
    intro issued hsub i hi hcause hiid hat
    exact .refresh hi hcause hrefresh (hparentid.trans hiid.symm) (hat ▸ hsound.past)
      (hat ▸ hlive) ((h.rooted parent hparent).mono hsub)

/-- **One step**: time goes by, the services work, or a request is served. -/
theorem custody_step {b b' : Backend} {a : BackendAction}
    (httl : ∀ t, 0 ≤ (cfg.ttl t).toInt) (h : Custody J A cfg b)
    (hforged : Unforged J cfg b a) (hsmall : SmallIds b a) (hstep : b.step J A cfg a = some b') :
    Custody J A cfg b' := by
  cases a with
  | tick d =>
      obtain rfl := Option.some.inj hstep
      have hepoch := h.epoch
      refine ⟨?_, ?_, h.rooted⟩
      · change 1000000000 ≤ b.now + d
        omega
      · intro i hi
        have hsound := h.sound i hi
        have hpast := hsound.past
        -- what was issued in the past still is
        refine { hsound with past := ?_ }
        change i.at_ ≤ b.now + d
        omega
  | request r =>
      obtain rfl := Option.some.inj hstep
      exact custody_serve httl h hforged hsmall
  | work posts events dedupe queue =>
      rw [step] at hstep
      split at hstep
      · obtain rfl := Option.some.inj hstep
        exact ⟨h.epoch, h.sound, h.rooted⟩
      · cases hstep

/-! ## Every run -/

/-- The middleware lets a request in by an access token, for an account that is there with the
role. -/
theorem requireRole_ok {now : Int} {t : Admins} {min : Role} {header : Option Text} {admin : Admin}
    (h : Go.requireRole J cfg now t min header = .ok admin) :
    ∃ c, Go.decodeToken J cfg now (Go.bearerToken header) = some c
      ∧ c.tokenType = TokenType.access.value ∧ getAdminByID t c.adminId = some admin
      ∧ roleAtLeast admin.role min = true := by
  rw [Go.requireRole] at h
  split at h
  · cases h
  · rw [authorize.eq_def] at h
    split at h
    · cases h
    · rename_i c hc
      split at h
      · cases h
      · rename_i htype
        split at h
        · cases h
        · rename_i a ha
          split at h
          · rename_i hrole
            obtain rfl := Except.ok.inj h
            exact ⟨c, hc, not_not.mp htype, ha, hrole⟩
          · cases h

/--
**In every run in which no signature is forged, a request is let in only for an account that
exists then, is not disabled and has the role then; and the token it carries was issued to
that account, less than the life of an access token ago, at the end of a chain that goes
back to the password of the account.**

The invariant (`Custody`) is about the tokens issued so far: each says what its record says, and
its chain is rooted. A token that is let in and not forged is one of these; what the middleware
itself has checked, account and role, is read off its code (`requireRole_ok`).
-/
theorem admitted_rooted {b₀ b : Backend} {tr : List (Backend × BackendAction)}
    (hrun : Trace (step J A cfg) b₀ tr b) (hissued : b₀.issued = [])
    (hepoch : 1000000000 ≤ b₀.now) (httl : ∀ t, 0 ≤ (cfg.ttl t).toInt)
    (hforged : AllSteps (Unforged J cfg) tr) (hsmall : AllSteps SmallIds tr) :
    ∀ x ∈ tr, ∀ r, x.2 = .request r → ∀ min admin, x.1.admits J cfg min r = .ok admin →
      admin ∈ x.1.site.admins.rows ∧ admin.disabledAt = none
        ∧ roleAtLeast admin.role min = true
        ∧ ∃ i ∈ x.1.issued, i.token = Go.bearerToken r.authorization ∧ i.tokenType = .access
          ∧ i.adminId = admin.id ∧ i.at_ ≤ x.1.now
          ∧ x.1.now < i.at_ + (cfg.ttl .access).toInt ∧ Rooted A cfg x.1.issued i := by
  have hinit : Custody J A cfg b₀ := by
    refine ⟨hepoch, ?_, ?_⟩ <;> (rw [hissued]; intro i hi; exact absurd hi (by simp))
  have hinv := hrun.invariant_steps (I := Custody J A cfg)
    (G := fun b a => Unforged J cfg b a ∧ SmallIds b a)
    (fun _ _ _ hI hG hs => custody_step httl hI hG.1 hG.2 hs)
    (fun x hx => ⟨hforged x hx, hsmall x hx⟩) hinit
  intro x hx r hr min admin hadmits
  have hcustody := hinv x hx
  obtain ⟨c, hc, htype, hadmin, hrole⟩ := requireRole_ok hadmits
  obtain ⟨hmem, hid, henabled⟩ := getAdminByID_some hadmin
  -- the token is not forged, so it is one of those that were issued
  have hx' := hforged x hx
  rw [hr] at hx'
  obtain ⟨i, hi, htoken⟩ : ∃ i ∈ x.1.issued, i.token = Go.bearerToken r.authorization := by
    cases hq : J.decode .golang cfg.jwtSecret (Go.bearerToken r.authorization) with
    | none => rw [Go.decodeToken, hq] at hc; cases hc
    | some q => exact hx' _ List.mem_cons_self q hq
  rw [← htoken] at hc
  have hsound := hcustody.sound i hi
  obtain ⟨hcid, hctype, hlive⟩ := decodeToken_issued hsound (httl _) hc
  -- a refresh token says so
  have haccess : i.tokenType = .access := by
    rw [hctype] at htype
    cases ht : i.tokenType with
    | access => rfl
    | refresh => rw [ht] at htype; exact absurd htype (by decide +kernel)
  rw [haccess] at hlive
  exact ⟨hmem, henabled, hrole, i, hi, htoken, haccess, by omega, hsound.past, hlive,
    hcustody.rooted i hi⟩

/-! ## Alice logs in -/

def samplePassword : Text := "correct horse battery".toList

/-- The derivation of the password of alice is argon2id's, and all others are of zeros. -/
def sampleArgon : Argon2 where
  idKey password salt time memory threads keyLen :=
    (Passwords.zeroKeys.idKey password salt time memory threads keyLen).map (fun zeros =>
      if password = Passwords.utf8 samplePassword ∧ salt = Passwords.utf8 "0123456789abcdef".toList
          ∧ time = 3 ∧ memory = 65536 ∧ threads = 4 ∧ keyLen = 32 then
        [82, 32, 72, 61, 75, 161, 99, 124, 93, 93, 244, 59, 55, 122, 127, 106, 237, 57, 166, 21,
          150, 147, 208, 2, 154, 62, 79, 118, 213, 6, 105, 171]
      else zeros)
  available := Passwords.zeroKeys.available
  own := Passwords.zeroKeys.own
  few h := by rw [Passwords.zeroKeys.few h]; rfl
  short := by intros; rw [Passwords.zeroKeys.short]; rfl
  exhausts h := by rw [Passwords.zeroKeys.exhausts h]; rfl
  derives ht hp hk hm := by
    obtain ⟨key, hkey, hlen⟩ := Passwords.zeroKeys.derives ht hp hk hm
    rw [hkey]
    refine ⟨_, rfl, ?_⟩
    split
    · rename_i h
      rw [h.2.2.2.2.2]
      rfl
    · exact hlen

def sampleApiEnv : ApiEnv := ⟨0, fun _ => none, Char.toLower, id, 2147483648, .done⟩

def samplePost : Post where
  id := 7
  sourceChannelId := 1
  sourceMessageId := 100
  rawText := some "hello".toList
  receivedAt := 0

def sampleBackend : Backend where
  site := { db := { posts := ⟨[samplePost], by decide⟩ }, admins := ⟨[alice], by decide⟩ }
  now := sampleNow

def aliceLogin : BackendAction :=
  .request { route := .login alice.username samplePassword, env := sampleApiEnv }

/-- A request with the access token of that login. -/
def aliceRequest (route : Route) (body : Text) : HttpRequest where
  route := route
  authorization := some (bearer (sampleBackend.tokensFor sampleJwt sampleConfig alice .access))
  body := body
  env := sampleApiEnv

def aliceMe : HttpRequest := aliceRequest (.read .me) []

def aliceIn : Backend := sampleBackend.issue sampleJwt sampleConfig alice (.login alice samplePassword)

theorem aliceLogin_step :
    sampleBackend.step sampleJwt sampleArgon sampleConfig aliceLogin = some aliceIn := by
  have hlogin : Go.handleLogin sampleArgon sampleBackend.site.admins alice.username samplePassword
      = some (.ok alice) := by
    decide +kernel
  change some (sampleBackend.login sampleJwt sampleArgon sampleConfig alice.username
    samplePassword).1 = some aliceIn
  rw [login, hlogin]
  rfl

theorem aliceRequest_token (route : Route) (body : Text) :
    Go.bearerToken (aliceRequest route body).authorization
      = sampleBackend.tokensFor sampleJwt sampleConfig alice .access :=
  bearerToken_bearer (sampleJwt.encode_visible _ _ _).2

/-- Her token lets her in as long as she is in the table. -/
theorem aliceRequest_admitted {b : Backend} (hnow : b.now = sampleNow)
    (hadmins : b.site.admins = sampleBackend.site.admins) {min : Role}
    (hmin : roleAtLeast .admin min = true) (route : Route) (body : Text) :
    b.admits sampleJwt sampleConfig min (aliceRequest route body) = .ok alice := by
  have hne : sampleBackend.tokensFor sampleJwt sampleConfig alice .access ≠ [] :=
    (sampleJwt.encode_visible _ _ _).1
  have hlive : Unexpired sampleNow (payloadFor sampleConfig sampleNow alice .access) := by decide +kernel
  rw [admits, Go.requireRole, aliceRequest_token, if_neg hne, hnow, hadmins]
  change authorize sampleBackend.site.admins min (Go.decodeToken sampleJwt sampleConfig sampleNow
    (sampleJwt.encode .golang sampleConfig.jwtSecret
      (payloadFor sampleConfig sampleNow alice .access))) = .ok alice
  rw [go_decodeToken_encode, if_pos hlive]
  exact if_pos hmin

theorem aliceMe_admitted : aliceIn.admits sampleJwt sampleConfig .editor aliceMe = .ok alice :=
  aliceRequest_admitted rfl rfl rfl _ _

theorem aliceMe_step :
    aliceIn.step sampleJwt sampleArgon sampleConfig (.request aliceMe) = some aliceIn := by
  have hserve := serve_read (A := sampleArgon) (rfl : aliceMe.route = .read .me) aliceMe_admitted
  rw [step, hserve]

/-- The tokens of the two requests are those of the login. -/
theorem alice_unforged : AllSteps (Unforged sampleJwt sampleConfig)
    [(sampleBackend, aliceLogin), (aliceIn, .request aliceMe)] := by
  have hnil : ∀ q, sampleJwt.decode .golang sampleConfig.jwtSecret [] ≠ some q := by
    intro q h
    cases h
  intro x hx
  rcases List.mem_pair.mp hx with rfl | rfl
  · intro t ht q hq
    rcases List.mem_pair.mp ht with rfl | rfl <;> exact absurd hq (hnil q)
  · intro t ht q hq
    rw [presented] at ht
    rcases List.mem_pair.mp ht with htoken | hcookie
    · exact ⟨_, mem_issue .., (aliceRequest_token _ _).symm.trans htoken.symm⟩
    · rw [hcookie] at hq
      exact absurd hq (hnil q)

/-- The account of alice answers for what she does after her login. -/
theorem admitted_rooted_alice :
    ∃ i ∈ aliceIn.issued, i.token = Go.bearerToken aliceMe.authorization ∧ i.adminId = 42
      ∧ Rooted sampleArgon sampleConfig aliceIn.issued i := by
  have hrun : Trace (step sampleJwt sampleArgon sampleConfig) sampleBackend
      [(sampleBackend, aliceLogin), (aliceIn, .request aliceMe)] aliceIn := by
    have hlogin := Trace.snoc (Trace.nil sampleBackend) aliceLogin_step
    exact hlogin.snoc aliceMe_step
  have hsmall : AllSteps SmallIds [(sampleBackend, aliceLogin), (aliceIn, .request aliceMe)] := by
    intro x hx a ha
    have hrows : x.1.site.admins.rows = [alice] := by
      rcases List.mem_pair.mp hx with rfl | rfl <;> rfl
    rw [hrows] at ha
    obtain rfl := List.mem_singleton.mp ha
    decide
  have httl : ∀ t, 0 ≤ (sampleConfig.ttl t).toInt := by
    intro t
    cases t <;> decide +kernel
  obtain ⟨-, -, -, i, hi, htoken, -, hid, -, -, hrooted⟩ :=
    admitted_rooted hrun rfl (by decide +kernel) httl alice_unforged hsmall
      (aliceIn, .request aliceMe) (by simp) aliceMe rfl .editor alice aliceMe_admitted
  exact ⟨i, hi, htoken, hid, hrooted⟩

end Backend

end TelegramCms
