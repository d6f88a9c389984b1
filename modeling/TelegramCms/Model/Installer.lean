import TelegramCms.Lib.EnvFile

/-!
# The installer

`install.sh` from the detection of an existing install to the override file (its sections 5
to 8 and 10): what it reads of an `.env` that is there, which secrets it draws and which it
keeps, and the two files that it leaves.
-/

namespace TelegramCms.Installer

open EnvFile

/-! ## Names -/

def name (s : String) (h : s.toList ≠ [] := by rw [String.toList_ofList]; decide)
    (hs : s.toList.all (fun c => c.isAlphanum ∨ c = '_') = true := by
      rw [String.toList_ofList]; decide) : Name :=
  ⟨s.toList, h, fun c hc => of_decide_eq_true (List.all_eq_true.mp hs c hc)⟩

def composeProjectName : Name := name "COMPOSE_PROJECT_NAME"
def composeProfiles : Name := name "COMPOSE_PROFILES"
def imageTag : Name := name "IMAGE_TAG"
def telegramApiId : Name := name "TELEGRAM_API_ID"
def telegramApiHash : Name := name "TELEGRAM_API_HASH"
def telegram2faPassword : Name := name "TELEGRAM_2FA_PASSWORD"
def botToken : Name := name "BOT_TOKEN"
def destinationChannelId : Name := name "DESTINATION_CHANNEL_ID"
def editorGroupId : Name := name "EDITOR_GROUP_ID"
def postgresDsn : Name := name "POSTGRES_DSN"
def postgresPassword : Name := name "POSTGRES_PASSWORD"
def redisUrl : Name := name "REDIS_URL"
def redisPassword : Name := name "REDIS_PASSWORD"
def jwtSecret : Name := name "JWT_SECRET"
def seedAdminPassword : Name := name "SEED_ADMIN_PASSWORD"
def appDomain : Name := name "APP_DOMAIN"
def aiEnabled : Name := name "AI_ENABLED"
def aiProviderUrl : Name := name "AI_PROVIDER_URL"
def aiApiKey : Name := name "AI_API_KEY"
def aiModel : Name := name "AI_MODEL"

/-! ## Prompts -/

/-- `read -r` into one variable. -/
def readLine (typed : OneLine) : Text := Py.trim (fun c => c = ' ' ∨ c = '\t') typed.text

/-- `ask_optional` -/
def askOptional (typed : OneLine) (default : Text) : Text :=
  if readLine typed = [] then default else readLine typed

/-- `ask_yn` -/
def askYn (typed : OneLine) : Bool :=
  askOptional typed ['N'] = ['y'] ∨ askOptional typed ['N'] = ['Y']

/-- `ask` and `ask_secret` ask until something is typed. -/
structure Given where
  line : OneLine
  ne_nil : readLine line ≠ []

/-- What is typed at the prompts, whether or not they come up. -/
structure Answers where
  regenerate : OneLine
  tier : OneLine
  apiId : Given
  apiHash : Given
  botToken : Given
  destChannel : Given
  editorGroup : Given
  twoFactor : OneLine
  appDomain : Given
  aiEnabled : OneLine
  aiProviderUrl : OneLine
  aiApiKey : OneLine
  aiModel : OneLine

/-- `openssl rand -hex 32` -/
structure Secret where
  text : Text
  length : text.length = 64
  hex : ∀ c ∈ text, c ∈ "0123456789abcdef".toList

/-- What `gen_secret` yields in a run. -/
structure Secrets where
  postgres : Secret
  jwt : Secret
  seedAdmin : Secret
  redis : Secret

/-- The commit that is checked out, and the host ports found for Caddy. -/
structure Host where
  imageTag : OneLine
  httpPort : Text
  httpsPort : Text

inductive Abort where
  | envMissing
  /-- "Cannot preserve POSTGRES_PASSWORD (not found in .env) against existing volume" -/
  | passwordNotFound
deriving DecidableEq

/-! ## The existing file -/

/-- `\s` -/
def blanks : Text := [' ', '\t', '\n', Char.ofNat 11, Char.ofNat 12, '\r']

/-- `^\s*#` -/
def isComment (line : Text) : Bool := (line.dropWhile (fun c => c ∈ blanks)).head? = some '#'

/-- What `read` leaves of the rest of a line for the last variable: a separator at the end goes
if it is the only one. -/
def lastField (rest : Text) : Text :=
  if rest.getLast? = some '=' ∧ rest.count '=' = 1 then rest.dropLast else rest

/-- `value="${value%\"}"` and `value="${value#\"}"` -/
def unquote (value : Text) : Text :=
  let v := if value.getLast? = some '"' then value.dropLast else value
  if v.head? = some '"' then v.tail else v

/-- The body of the loop that fills `EXISTING_ENV`, with the two `grep`s before it. -/
def readEntry (line : Text) : Option (Text × Text) :=
  if isComment line ∨ '=' ∉ line then none
  else
    let key := line.takeWhile (fun c => c ≠ '=')
    let value := lastField ((line.dropWhile (fun c => c ≠ '=')).tail)
    if key.head? = some '#' ∨ key = [] then none else some (key, unquote value)

def existingEnv (file : Text) : List (Text × Text) := (lines file).filterMap readEntry

/-- What the command substitution makes of `echo "$v"`. -/
def echo (v : Text) : Text :=
  match v with
  | '-' :: c :: cs => if (c :: cs).all (fun x => x ∈ "neE".toList) then [] else v
  | _ => v

/-- `get_existing` -/
def getExisting (existing : List (Text × Text)) (key : Name) (default : Text) : Text :=
  echo ((Py.orElse (last existing key.text) (some default)).getD [])

/-- The `.env` that is kept; `none` stands for `REGENERATE_SECRETS`. -/
def detect (volume : Bool) (envFile : Option Text) (a : Answers) : Except Abort (Option Text) :=
  match envFile with
  | some file => .ok (if askYn a.regenerate then none else some file)
  | none => if volume then .error .envMissing else .ok none

/-- `EXISTING_ENV` is filled only from a file that is kept. -/
def loaded (kept : Option Text) : List (Text × Text) :=
  match kept with
  | some file => existingEnv file
  | none => []

/-! ## Secrets -/

structure Credentials where
  postgresPassword : Text
  jwtSecret : Text
  seedAdminPassword : Text
  redisPassword : Text

def credentials (volume : Bool) (kept : Option Text) (s : Secrets) : Except Abort Credentials :=
  let existing := loaded kept
  match kept with
  | none =>
    if volume then
      let password := getExisting existing postgresPassword []
      if password = [] then .error .passwordNotFound
      else .ok ⟨password, s.jwt.text, s.seedAdmin.text, s.redis.text⟩
    else .ok ⟨s.postgres.text, s.jwt.text, s.seedAdmin.text, s.redis.text⟩
  | some _ =>
    .ok {
      postgresPassword := getExisting existing postgresPassword s.postgres.text
      jwtSecret := getExisting existing jwtSecret s.jwt.text
      seedAdminPassword := getExisting existing seedAdminPassword s.seedAdmin.text
      redisPassword := getExisting existing redisPassword s.redis.text }

/-! ## The tier -/

inductive Tier where
  | minimal | standard | full
deriving DecidableEq

/-- `COMPOSE_PROFILES_VALUE` -/
def Tier.profiles : Tier → Text
  | .minimal => []
  | .standard => "largemedia".toList
  | .full => "backoffice,largemedia".toList

def Tier.backoffice : Tier → Bool
  | .full => true
  | _ => false

/-- `BOT_API_URL_VALUE` -/
def Tier.botApiUrl : Tier → Text
  | .minimal => []
  | _ => "http://botapi:8081".toList

/-- `MEDIA_MAX_SIZE_VALUE` -/
def Tier.mediaMaxSize : Tier → Text
  | .minimal => "52428800".toList
  | _ => "2147483648".toList

def tierDefault (existing : List (Text × Text)) : Text :=
  match last existing composeProfiles.text with
  | none => ['3']
  | some v => if v = [] then ['1'] else if v = "largemedia".toList then ['2'] else ['3']

def chooseTier (existing : List (Text × Text)) (typed : OneLine) : Tier :=
  let choice := askOptional typed (tierDefault existing)
  if choice = ['1'] ∨ choice = "minimal".toList then .minimal
  else if choice = ['2'] ∨ choice = "standard".toList then .standard
  else .full

/-! ## The values of a new file -/

/-- What is given is asked for unless the old file has more than a placeholder. -/
def required (existing : List (Text × Text)) (key : Name) (placeholder : Text) (given : Given) :
    Text :=
  let v := getExisting existing key []
  if v = [] ∨ v = placeholder then readLine given.line else v

structure Values where
  apiId : Text
  apiHash : Text
  botToken : Text
  destChannel : Text
  editorGroup : Text
  twoFactor : Text
  appDomain : Text
  aiEnabled : Text
  aiProviderUrl : Text
  aiApiKey : Text
  aiModel : Text

def chooseDomain (existing : List (Text × Text)) (tier : Tier) (a : Answers) : Text :=
  if tier.backoffice then required existing appDomain "cms.example.com".toList a.appDomain
  else
    let v := getExisting existing appDomain "localhost".toList
    if v = [] then "localhost".toList else v

def values (existing : List (Text × Text)) (tier : Tier) (a : Answers) : Values :=
  let twoFactor := getExisting existing telegram2faPassword []
  let url := getExisting existing aiProviderUrl "https://api.openai.com/v1".toList
  let key := getExisting existing aiApiKey []
  let model := getExisting existing aiModel "gpt-4o-mini".toList
  let ai := askYn a.aiEnabled
  { apiId := required existing telegramApiId ['0'] a.apiId
    apiHash := required existing telegramApiHash "changeme".toList a.apiHash
    botToken := required existing botToken "123456:changeme".toList a.botToken
    destChannel := required existing destinationChannelId "-1000000000000".toList a.destChannel
    editorGroup := required existing editorGroupId "-1000000000001".toList a.editorGroup
    twoFactor := if twoFactor = [] then readLine a.twoFactor else twoFactor
    appDomain := chooseDomain existing tier a
    aiEnabled := if ai then "true".toList else "false".toList
    aiProviderUrl := if ai then askOptional a.aiProviderUrl url else url
    aiApiKey := if ai then readLine a.aiApiKey else key
    aiModel := if ai then askOptional a.aiModel model else model }

/-! ## The files -/

def dsn (password : Text) : Text :=
  "postgresql+asyncpg://cms:".toList ++ password ++ "@postgres:5432/cms".toList

def redisAddress (password : Text) : Text :=
  "redis://:".toList ++ password ++ "@redis:6379/0".toList

def note (s : String) (h : '\n' ∉ s.toList := by rw [String.toList_ofList]; decide) : Line :=
  .comment ⟨s.toList, h⟩

def heading (s : String) (dashes : Nat)
    (h : '\n' ∉ s.toList := by rw [String.toList_ofList]; decide) : Line :=
  .comment ⟨" ── ".toList ++ s.toList ++ ' ' :: List.replicate dashes '─', by simp [h]⟩

def sectionCompose (host : Host) (tier : Tier) : List Line :=
  [note " Generated by install.sh — do not edit secrets manually; re-run install.sh to rotate.",
   .blank,
   heading "Compose" 67,
   note " Pins volume/network names to tg-cms_* (read by docker compose from this file).",
   .set composeProjectName "tg-cms".toList,
   note " Active deployment tier. Empty = minimal (core only); largemedia = standard;",
   note " backoffice,largemedia = full. Edit + re-run install.sh to change.",
   .set composeProfiles tier.profiles,
   note " Image version to run: a git SHA pulls CI-built images; \"local\" = built on host.",
   .set (name "IMAGE_TAG") host.imageTag.text,
   .blank]

def sectionTelegram (tier : Tier) (v : Values) : List Line :=
  [heading "Telegram (userbot / MTProto)" 46,
   .set telegramApiId v.apiId,
   .set telegramApiHash v.apiHash,
   .set (name "TELEGRAM_SESSION_NAME") "cms_userbot".toList,
   .set telegram2faPassword v.twoFactor,
   .set (name "SESSION_DIR") "/data/sessions".toList,
   .set (name "MEDIA_DIR") "/media".toList,
   .blank,
   heading "Bot API bot (aiogram)" 52,
   note " BOT_API_SERVER_URL empty = cloud Telegram API (50 MB cap); set = local server.",
   .set botToken v.botToken,
   .set (name "BOT_API_SERVER_URL") tier.botApiUrl,
   .set (name "BOT_API_SERVER_FILE_PATH") "/var/lib/telegram-bot-api".toList,
   .set destinationChannelId v.destChannel,
   .set editorGroupId v.editorGroup,
   .blank]

def sectionStores (c : Credentials) : List Line :=
  [heading "Postgres" 66,
   .set postgresDsn (dsn c.postgresPassword),
   .set postgresPassword c.postgresPassword,
   .blank,
   heading "Redis" 69,
   .set redisUrl (redisAddress c.redisPassword),
   .set redisPassword c.redisPassword,
   .blank]

def sectionApp (c : Credentials) (tier : Tier) (v : Values) : List Line :=
  [heading "Auth (web back-office)" 51,
   .set jwtSecret c.jwtSecret,
   .set (name "JWT_ALGO") "HS256".toList,
   .set (name "ACCESS_TOKEN_TTL_MINUTES") "30".toList,
   .set (name "REFRESH_TOKEN_TTL_DAYS") "14".toList,
   .set (name "SEED_ADMIN_USERNAME") "admin".toList,
   .set seedAdminPassword c.seedAdminPassword,
   .blank,
   heading "Policies / retention" 53,
   .set (name "DEDUPE_LOOKBACK_DAYS") "7".toList,
   .set (name "AUDIT_RETENTION_DAYS") "90".toList,
   .set (name "MEDIA_RETENTION_DAYS") "30".toList,
   .set (name "MAX_CONCURRENT_PUBLISHES") "1".toList,
   .set (name "PUBLISH_SPACING_SECONDS") "2.0".toList,
   .set (name "MEDIA_MAX_SIZE_DEFAULT") tier.mediaMaxSize,
   .blank,
   heading "Web / API" 64,
   .set (name "API_BASE_URL") "http://api:8000".toList,
   .set (name "WEB_BASE_URL") "http://web:3000".toList,
   .set (name "CORS_ORIGINS") ("https://".toList ++ v.appDomain),
   .set appDomain v.appDomain,
   .blank,
   heading "AI Transformation" 57,
   .set aiEnabled v.aiEnabled,
   .set aiProviderUrl v.aiProviderUrl,
   .set aiApiKey v.aiApiKey,
   .set aiModel v.aiModel,
   .set (name "AI_MAX_TOKENS") "2048".toList,
   .set (name "AI_TIMEOUT_SECONDS") "30".toList]

/-- The new `.env`. -/
def template (host : Host) (c : Credentials) (tier : Tier) (v : Values) : List Line :=
  sectionCompose host tier ++ (sectionTelegram tier v ++ (sectionStores c ++ sectionApp c tier v))

/-- `grep -q '^NAME='` -/
def pins (file : Text) (n : Name) : Bool :=
  (lines file).any (fun l => n.text ++ ['='] <+: l)

def pinProject : List Line :=
  [note " Added by install.sh — pins volume/network names to tg-cms_*",
   .set composeProjectName "tg-cms".toList]

def pinProfiles : List Line :=
  [note " Added by install.sh — deployment tier (full preserves prior behaviour)",
   .set composeProfiles Tier.full.profiles]

/-- What is added to a file that is kept, unless it has the variable. -/
def pin (n : Name) (ls : List Line) (file : Text) : Text :=
  if pins file n then file else file ++ '\n' :: text ls

def keepEnv (file : Text) : Text :=
  pin composeProfiles pinProfiles (pin composeProjectName pinProject file)

/-- `docker-compose.override.yml` -/
structure Override where
  redisPassword : Text
  /-- The host ports of Caddy, if it runs and they are not the usual ones. -/
  caddyPorts : Option (Text × Text)

def Override.caddy (o : Override) : Text :=
  match o.caddyPorts with
  | none => []
  | some (http, https) =>
    "  caddy:\n    ports:\n      - \"".toList ++ http ++ ":80\"\n      - \"".toList ++ https
      ++ ":443\"\n".toList

def Override.text (o : Override) : Text :=
  "# Generated by install.sh\nservices:\n  redis:\n    command: [".toList
    ++ "\"redis-server\", \"--appendonly\", \"yes\", \"--requirepass\", \"".toList
    ++ o.redisPassword ++ "\"]\n".toList ++ o.caddy

def overrideFile (host : Host) (tier : Tier) (password : Text) : Override where
  redisPassword := password
  caddyPorts :=
    if tier.backoffice ∧ (host.httpPort ≠ "80".toList ∨ host.httpsPort ≠ "443".toList) then
      some (host.httpPort, host.httpsPort)
    else none

structure Outcome where
  tier : Tier
  env : Text
  override : Override

/-- A run up to the override file. -/
def install (volume : Bool) (envFile : Option Text) (host : Host) (a : Answers) (s : Secrets) :
    Except Abort Outcome := do
  let kept ← detect volume envFile a
  let c ← credentials volume kept s
  let existing := loaded kept
  let tier := chooseTier existing a.tier
  let env :=
    match kept with
    | none => text (template host c tier (values existing tier a))
    | some file => keepEnv file
  return ⟨tier, env, overrideFile host tier c.redisPassword⟩

/-! ## Who reads the files -/

section Bash

variable (n : Name) (v : Text)

theorem isComment_set : isComment (n.text ++ '=' :: v) = false := by
  obtain ⟨c, t, hn⟩ := List.exists_cons_of_ne_nil n.ne_nil
  have hc : c ∈ n.text := by
    rw [hn]
    exact List.mem_cons_self
  have hblank : c ∉ blanks := by
    intro hb
    have hnot : blanks.all (fun b => b.isAlphanum = false ∧ b ≠ '_') = true := by decide
    exact n.notMem (of_decide_eq_true (List.all_eq_true.mp hnot c hb)) hc
  have hhash : c ≠ '#' := by
    rintro rfl
    exact n.notMem (by decide) hc
  rw [isComment, hn, List.cons_append, List.dropWhile_cons, if_neg (by simpa using hblank)]
  simpa using hhash

theorem readEntry_set :
    readEntry (n.text ++ '=' :: v) = some (n.text, unquote (lastField v)) := by
  have heq : '=' ∉ n.text := n.notMem (by decide)
  have hhash : n.text.head? ≠ some '#' := by
    intro h
    exact n.notMem (by decide) (List.mem_of_mem_head? h)
  rw [readEntry, if_neg (by simp [isComment_set]), Py.takeWhile_ne heq, Py.dropWhile_ne heq,
    List.tail_cons]
  exact if_neg (by simp [hhash, n.ne_nil])

variable {v}

theorem unquote_plain (h : Plain v) : unquote (lastField v) = v := by
  have heq : '=' ∉ v := h.notMem (by decide)
  have hquote : '"' ∉ v := h.notMem (by decide)
  have hlast : lastField v = v := if_neg (fun h => heq (List.mem_of_getLast? h.1))
  rw [hlast, unquote, if_neg (fun h => hquote (List.mem_of_getLast? h))]
  exact if_neg (fun h => hquote (List.mem_of_mem_head? h))

end Bash

/-- The installer's own way to read an `.env`. -/
def bash : Reader where
  entry := readEntry
  blank := rfl
  comment s := if_pos (Or.inl rfl)
  key n v x h := by
    rw [readEntry_set, Option.some.injEq] at h
    rw [← h]
  plain n v h := by rw [readEntry_set, unquote_plain h]

/-- How Compose reads the `.env`, and how the services find the password in a URL. -/
structure Compose where
  reader : Reader
  urlPassword : Text → Option Text
  url : ∀ {scheme user password host : Text}, (∀ c ∈ scheme, c.isAlphanum ∨ c = '+') →
    (∀ c ∈ user, c.isAlphanum) → password ≠ [] → (∀ c ∈ password, c.isAlphanum) → '@' ∉ host →
    urlPassword (scheme ++ "://".toList ++ user ++ ':' :: password ++ '@' :: host) = some password

end TelegramCms.Installer
