import TelegramCms.Model.Admins
import TelegramCms.Model.Catalog

/-!
# The write endpoints of the Go API

The handlers of `apigo/` that write, each as a function of the tables, the row its path
names and the text of the body: a struct decode, its error heeded or not, or a `PATCH`
map; the checks; the statements. A request is served alone, and no call to the database
fails of itself; the call to Redis may (`Enqueue`), and then what the handler committed
before it stays. An id is a natural number in the tables, so a negative one, which is no
row's, is kept as `0` in the `tag_ids` of a post.
-/

namespace TelegramCms

/-- What comes of `enqueuePublish`. -/
inductive Enqueue where
  | done
  /-- It returns an error. Redis may have `kept` the job all the same. -/
  | error (kept : Bool)
deriving DecidableEq, Repr

/-- The jobs of the queue afterwards. -/
def Enqueue.add (queue : List Job) (job : Job) : Enqueue → List Job
  | .done | .error true => queue ++ [job]
  | .error false => queue

/-- What the handlers take from outside: the clock, `time.Time.UnmarshalJSON`,
`strings.ToLower` rune by rune, `hashPassword` with its salt, a setting, and Redis. -/
structure ApiEnv where
  now : Time
  parseTime : Text → Option Time
  toLower : Char → Char
  hashPassword : Text → Text
  mediaMaxSizeDefault : Int := 2147483648
  enqueue : Enqueue := .done

/-- What the API writes to. -/
structure Site where
  db : Db := {}
  admins : Admins := .empty
  queue : List Job := []

/-- The site after a handler: an error leaves it as it was. -/
def Site.reply (s : Site) (status : Nat) : Except HttpAnswer Site → Site × HttpAnswer
  | .ok s' => (s', ⟨status, none⟩)
  | .error a => (s, a)

/-- The site after a decision. It is committed before the job is enqueued, so that an error
there does not leave the site as it was. -/
def Site.replyEnqueued (s : Site) : Except HttpAnswer (Site × Enqueue) → Site × HttpAnswer
  | .ok (s', .done) => (s', ⟨200, none⟩)
  | .ok (s', .error _) => (s', .error 500 "enqueue error")
  | .error a => (s, a)

/-- A transaction on the database alone. -/
def Site.transact (s : Site) : Except HttpAnswer Db → Except HttpAnswer Site
  | .ok db => .ok { s with db := db }
  | .error a => .error a

/-- A struct is decoded from an object; `null` leaves it zero. -/
def structBody (body : Text) : Fields × Bool :=
  match decodePatchBody (decodeJSON body) with
  | some members => (members, true)
  | none => ([], false)

/-! ## Posts -/

inductive Verdict where
  | approve | schedule | reject
deriving DecidableEq, Repr

def Verdict.value : Verdict → Text
  | .approve => "approve".toList
  | .schedule => "schedule".toList
  | .reject => "reject".toList

def verdicts : List Verdict := [.approve, .schedule, .reject]

namespace Go

variable (env : ApiEnv) (s : Site)

/-- into a `*time.Time` -/
def intoTime (j : Json) (v : Option Time) : Option Time × Bool :=
  intoPtr j (fun
    | .null => some none
    | .str t => (env.parseTime t).map some
    | _ => none) 0 v

/-- `applyPostUpdate` of a decision. -/
def commitDecision (postId actor : Nat) (post : Post) (d : Decision)
    (tagIds : Option (List Int)) : Site :=
  let req : DecisionRequest := ⟨.go, postId, actor, d, tagIds.map (List.map Int.toNat)⟩
  { s with
    db := s.db.write postId (decideSet req post) [{
      postId := postId
      actorAdminId := some actor
      action := decisionAction d
      payload := decidePayload req post
      createdAt := env.now }] }

/-- `enqueuePublish` behind a decision that is committed. -/
def enqueueDecision (s : Site) (job : Job) : Site × Enqueue :=
  ({ s with queue := env.enqueue.add s.queue job }, env.enqueue)

/-- `decide` -/
def decide (postId actor : Nat) (action : Verdict) (tagIds : Option (List Int))
    (scheduledFor : Option Time) : Except HttpAnswer (Site × Enqueue) :=
  match s.db.posts.get postId with
  | none => .error (.error 404 "post not found")
  | some post =>
    match action with
    | .approve =>
      .ok (enqueueDecision env (commitDecision env s postId actor post .approve tagIds)
        (enqueuePublish env.now postId))
    | .schedule =>
      match scheduledFor with
      | none => .error (.error 400 "scheduled_for is required")
      | some t =>
        if t ≤ env.now then .error (.error 400 "scheduled_for must be in the future")
        else
          .ok (enqueueDecision env (commitDecision env s postId actor post (.schedule t) tagIds)
            (enqueuePublish env.now postId (t - env.now)))
    | .reject => .ok (commitDecision env s postId actor post .reject tagIds, .done)

def handleDecision (postId actor : Nat) (body : Text) :
    Except HttpAnswer (Site × Enqueue) :=
  let (members, ok) := structBody body
  let (action, ok₁) := field [] intoStr members "action"
  let (tagIds, ok₂) := field none intoIntsPtr members "tag_ids"
  let (scheduledFor, ok₃) := field none (intoTime env) members "scheduled_for"
  if ¬ (ok ∧ ok₁ ∧ ok₂ ∧ ok₃) then .error (.error 422 "invalid body")
  else
    match verdicts.find? (fun d => d.value = action) with
    | none => .error (.error 400 "action must be approve|schedule|reject")
    | some d => decide env s postId actor d tagIds scheduledFor

/-- The error of the decoding is dropped. -/
def handleApprove (postId actor : Nat) (body : Text) :
    Except HttpAnswer (Site × Enqueue) :=
  let (tagIds, _) := field none intoIntsPtr (structBody body).1 "tag_ids"
  decide env s postId actor .approve tagIds none

def handleSchedule (postId actor : Nat) (body : Text) :
    Except HttpAnswer (Site × Enqueue) :=
  let (members, ok) := structBody body
  let (scheduledFor, ok₁) := field none (intoTime env) members "scheduled_for"
  if ¬ (ok ∧ ok₁) ∨ scheduledFor = none then .error (.error 422 "scheduled_for is required")
  else decide env s postId actor .schedule none scheduledFor

def handleEditTags (postId actor : Nat) (body : Text) : Except HttpAnswer Site :=
  match s.db.posts.get postId with
  | none => .error (.error 404 "post not found")
  | some post =>
    let (members, ok) := structBody body
    let (tagIds, ok₁) := field none intoIntsPtr members "tag_ids"
    match tagIds with
    | none => .error (.error 422 "tag_ids is required")
    | some tags =>
      if ¬ (ok ∧ ok₁) then .error (.error 422 "tag_ids is required")
      else
        let req : TagsRequest := ⟨.go, postId, actor, tags.map Int.toNat⟩
        .ok { s with
          db := s.db.write postId (tagsSet req post) [{
            postId := postId
            actorAdminId := some actor
            action := .edited
            payload := [("tag_ids", .ints req.tagIds)]
            createdAt := env.now }] }

end Go

/-! ## Channels -/

namespace Go

variable (env : ApiEnv) (s : Site)

/-- `*p`, or the default if there is none or it is empty. -/
def orDefault (p : Option Text) (default : Text) : Text :=
  match p with
  | some v => if v = [] then default else v
  | none => default

/-- The columns of the `INSERT` of `handleCreateChannel`. -/
def newChannel (members : Fields) : ChannelPatch :=
  let str := fun key => (field none (intoPtr · str []) members key).1
  let bool := fun key => (field none (intoPtr · bool false) members key).1
  { title := some (some (field [] intoStr members "title").1)
    username := some (str "username")
    ingestionEnabled := some (some ((bool "ingestion_enabled").getD true))
    policy := some (some (orDefault (str "policy") "queue".toList))
    defaultTagIds := some (some (field [] intoInts members "default_tag_ids").1)
    normalizationTemplateId :=
      some (field none (intoPtr · int 0) members "normalization_template_id").1
    maxMediaSizeBytes :=
      some (some (match (field none (intoPtr · int 0) members "max_media_size_bytes").1 with
        | some n => if n = 0 then env.mediaMaxSizeDefault else n
        | none => env.mediaMaxSizeDefault))
    sourceLabel := some (str "source_label")
    aiEnabled := some (some ((bool "ai_enabled").getD false))
    aiMode := some (some (orDefault (str "ai_mode") "off".toList))
    aiTargetLanguage := some (str "ai_target_language")
    aiTonePrompt := some (str "ai_tone_prompt")
    aiCustomSystemPrompt := some (str "ai_custom_system_prompt")
    watermarkEnabled := some (some ((bool "watermark_enabled").getD false))
    watermarkText := some (str "watermark_text")
    stripSourceTags := some (some ((bool "strip_source_tags").getD false)) }

/-- No error was kept of the fields of `handleCreateChannel`. -/
def newChannelOk (members : Fields) : Bool :=
  let str := fun key => (field none (intoPtr · str []) members key).2
  let bool := fun key => (field none (intoPtr · bool false) members key).2
  let int := fun key => (field none (intoPtr · int 0) members key).2
  int "telegram_channel_id" && (field [] intoStr members "title").2 && str "username"
    && bool "ingestion_enabled" && str "policy"
    && (field [] intoInts members "default_tag_ids").2 && int "normalization_template_id"
    && int "max_media_size_bytes" && str "source_label" && bool "ai_enabled" && str "ai_mode"
    && str "ai_target_language" && str "ai_tone_prompt" && str "ai_custom_system_prompt"
    && bool "watermark_enabled" && str "watermark_text" && bool "strip_source_tags"

def handleCreateChannel (body : Text) : Except HttpAnswer Site :=
  let (members, ok) := structBody body
  let (telegramChannelId, _) := field none (intoPtr · int 0) members "telegram_channel_id"
  let (title, _) := field [] intoStr members "title"
  match telegramChannelId with
  | none => .error (.error 422 "telegram_channel_id and title are required")
  | some tg =>
    if ¬ (ok ∧ newChannelOk members) ∨ title = [] then
      .error (.error 422 "telegram_channel_id and title are required")
    else s.transact (s.db.createChannel s.db.channels.fresh tg (newChannel env members))

end Go

/-- The columns `handleUpdateAISettings` adds to its `UPDATE`. -/
def Fields.aiSettingsSets (body : Fields) : ChannelPatch where
  aiEnabled := body.add Go.bool "ai_enabled"
  aiMode := body.add Go.str "ai_mode"
  aiTargetLanguage := body.add Go.str "ai_target_language"
  aiTonePrompt := body.add Go.str "ai_tone_prompt"
  aiCustomSystemPrompt := body.add Go.str "ai_custom_system_prompt"
  watermarkEnabled := body.add Go.bool "watermark_enabled"
  watermarkText := body.add Go.str "watermark_text"
  stripSourceTags := body.add Go.bool "strip_source_tags"

namespace Go

variable (env : ApiEnv) (s : Site)

def handleUpdateAISettings (id : Nat) (body : Text) : Except HttpAnswer Site :=
  match s.db.channels.get id with
  | none => .error (.error 404 "source channel not found")
  | some c =>
    match decodePatchBody (decodeJSON body) with
    | none => .error (.error 422 "invalid body")
    | some body =>
      if body.aiSettingsSets = {} then .ok s
      else s.transact (s.db.patchChannel c body.aiSettingsSets)

/-! ## Tags -/

/-- The runes of a slug before it is trimmed: what is no letter or digit becomes a dash, a
run of it one. -/
def slugRunes (prevDash : Bool) : Text → Text
  | [] => []
  | c :: r =>
    if ('a' ≤ c ∧ c ≤ 'z') ∨ ('0' ≤ c ∧ c ≤ '9') then c :: slugRunes false r
    else if prevDash then slugRunes true r
    else '-' :: slugRunes true r

/-- `strings.Trim(s, "-")` -/
def trimDashes (s : Text) : Text :=
  (((s.dropWhile (· = '-')).reverse).dropWhile (· = '-')).reverse

def slugify (value : Text) : Option Text :=
  let s := trimDashes (slugRunes false (value.map env.toLower))
  if s = [] then none else some (s.take 64)

def handleCreateTag (body : Text) : Except HttpAnswer Site :=
  let (members, ok) := structBody body
  let (slug, ok₁) := field [] intoStr members "slug"
  let (label, ok₂) := field [] intoStr members "label"
  let (color, ok₃) := field none (intoPtr · str []) members "color"
  if ¬ (ok ∧ ok₁ ∧ ok₂ ∧ ok₃) ∨ slug = [] ∨ label = [] then
    .error (.error 422 "slug and label are required")
  else
    match slugify env slug with
    | none => .error (.error 400 "invalid slug")
    | some slug => s.transact (s.db.createTag s.db.tags.fresh slug label color)

/-- The `UPDATE` of a tag, and the row it leaves. -/
def tagSet (t : Tag) (label color : Option Text) : Option Tag :=
  match assign (varcharCol 64) t.label label,
      assign (nullable (varcharCol 16)) t.color (color.map some) with
  | some label, some color => some { t with label := label, color := color }
  | _, _ => none

def handleUpdateTag (id : Nat) (body : Text) : Except HttpAnswer Site :=
  match s.db.tags.get id with
  | none => .error (.error 404 "tag not found")
  | some t =>
    let (members, ok) := structBody body
    let (label, ok₁) := field none (intoPtr · str []) members "label"
    let (color, ok₂) := field none (intoPtr · str []) members "color"
    if ¬ (ok ∧ ok₁ ∧ ok₂) then .error (.error 422 "invalid body")
    else if label = none ∧ color = none then .ok s
    else
      match tagSet t label color with
      | none => .error dbError
      | some t' =>
        .ok { s with db := { s.db with
          tags := s.db.tags.update id (fun r => { t' with id := r.id }) (fun _ => rfl) } }

/-! ## Templates -/

def handleCreateTemplate (body : Text) : Except HttpAnswer Site :=
  let (members, ok) := structBody body
  let (name, ok₁) := field [] intoStr members "name"
  let (tplBody, ok₂) := field [] intoStr members "body"
  if ¬ (ok ∧ ok₁ ∧ ok₂) ∨ name = [] then .error (.error 422 "name is required")
  else
    match varcharCol 128 name, textCol tplBody with
    | some name, some tplBody =>
      .ok { s with db := { s.db with
        templates := s.db.templates.insert {
          id := s.db.templates.fresh, name := name, body := tplBody } } }
    | _, _ => .error dbError

/-- The `UPDATE` of a template, and the row it leaves. -/
def templateSet (t : Template) (name body : Option Text) : Option Template :=
  match assign (varcharCol 128) t.name name, assign textCol t.body body with
  | some name, some body => some { t with name := name, body := body }
  | _, _ => none

def handleUpdateTemplate (id : Nat) (body : Text) : Except HttpAnswer Site :=
  match s.db.templates.get id with
  | none => .error (.error 404 "template not found")
  | some t =>
    let (members, ok) := structBody body
    let (name, ok₁) := field none (intoPtr · str []) members "name"
    let (tplBody, ok₂) := field none (intoPtr · str []) members "body"
    if ¬ (ok ∧ ok₁ ∧ ok₂) then .error (.error 422 "invalid body")
    else if name = none ∧ tplBody = none then .ok s
    else
      match templateSet t name tplBody with
      | none => .error dbError
      | some t' =>
        .ok { s with db := { s.db with
          templates := s.db.templates.update id (fun r => { t' with id := r.id }) (fun _ => rfl) } }

/-! ## Admins -/

def roleCol (s : Text) : Option Role :=
  [(Role.editor, "editor"), (.admin, "admin"), (.superAdmin, "super_admin")].findSome?
    (fun x => if x.2.toList = s then some x.1 else none)

/-- `len(s)`, in bytes -/
def byteLength (s : Text) : Nat := s.foldr (fun c n => c.utf8Size + n) 0

def createAdmin (t : Admins) (username hash : Text) (role : Role) (tgUserId : Option Int) :
    Except HttpAnswer Admins :=
  match varcharCol 64 username, varcharCol 255 hash with
  | some username, some hash =>
    if t.rows.any (fun a => a.username = username)
        ∨ tgUserIdTaken t t.fresh { tgUserId := some tgUserId } then
      .error (.error 409 "username already exists")
    else
      .ok (t.insert {
        id := t.fresh, username := username, passwordHash := hash, role := role
        tgUserId := tgUserId })
  | _, _ => .error dbError

def handleCreateAdmin (body : Text) : Except HttpAnswer Site :=
  let (members, ok) := structBody body
  let (username, ok₁) := field [] intoStr members "username"
  let (password, ok₂) := field [] intoStr members "password"
  let (role, ok₃) := field none (intoPtr · str []) members "role"
  let (tgUserId, ok₄) := field none (intoPtr · int 0) members "tg_user_id"
  if ¬ (ok ∧ ok₁ ∧ ok₂ ∧ ok₃ ∧ ok₄) ∨ byteLength username < 3 ∨ byteLength password < 8 then
    .error (.error 422 "username (>=3) and password (>=8) are required")
  else
    match roleCol (orDefault role "editor".toList) with
    | none => .error (.error 422 "invalid role")
    | some role =>
      match createAdmin s.admins username (env.hashPassword password) role tgUserId with
      | .error a => .error a
      | .ok admins => .ok { s with admins := admins }

/-- `presentNotNull`, and an unmarshal into a value that is no pointer. The outer `none` is
an error. -/
def presentNotNull {α : Type} (read : Json → Option (Option α)) (body : Fields) (key : String) :
    Option (Option α) :=
  match body.sent key with
  | none | some .null => some none
  | some j => read j

/-- `role`, one that `validRole` accepts. -/
def presentRole (body : Fields) : Option (Option Role) :=
  match presentNotNull str body "role" with
  | none => none
  | some none => some none
  | some (some r) => (roleCol r).map some

/-- `tg_user_id`, which `null` clears. -/
def presentTgUserId (body : Fields) : Option (Option (Option Int)) :=
  match body.sent "tg_user_id" with
  | none => some none
  | some j => (int j).map some

def handleUpdateAdmin (id : Nat) (body : Text) : Except HttpAnswer Site :=
  match s.admins.get id with
  | none => .error (.error 404 "admin not found")
  | some adm =>
    match decodePatchBody (decodeJSON body) with
    | none => .error (.error 422 "invalid body")
    | some body =>
      match presentNotNull str body "password" with
      | none => .error (.error 422 "invalid password")
      | some pw =>
        match presentRole body with
        | none => .error (.error 422 "invalid role")
        | some role =>
          let req : AdminRequest := ⟨.go, id, { password := pw.map env.hashPassword, role := role }⟩
          if req.demotes adm ∧ countActiveSuperAdmins s.admins ≤ 1 then
            .error (.error 400 "cannot demote the last super-admin")
          else
            match presentNotNull bool body "disabled" with
            | none => .error (.error 422 "invalid disabled")
            | some disabled =>
              let req := { req with body := { req.body with disabled := disabled } }
              if req.disables adm ∧ countActiveSuperAdmins s.admins ≤ 1 then
                .error (.error 400 "cannot disable the last active super-admin")
              else
                match presentTgUserId body with
                | none => .error (.error 422 "invalid tg_user_id")
                | some tgUserId =>
                  let req := { req with body := { req.body with tgUserId := tgUserId } }
                  if req.empty adm then .ok s
                  else if tgUserIdTaken s.admins id (req.set adm env.now) then .error dbError
                  else .ok { s with admins := (updateAdmin req s.admins env.now adm).1 }

end Go

/-! ## Serving a request -/

/-- A write endpoint, with what its path names and who calls. -/
inductive Endpoint where
  | approve (postId actor : Nat)
  | schedule (postId actor : Nat)
  | decision (postId actor : Nat)
  | editTags (postId actor : Nat)
  | createChannel
  | updateChannel (id : Nat)
  | updateAISettings (id : Nat)
  | createTag
  | updateTag (id : Nat)
  | createTemplate
  | updateTemplate (id : Nat)
  | createAdmin
  | updateAdmin (id : Nat)
deriving DecidableEq, Repr

/-- The router, behind its middleware. -/
def Site.serve (env : ApiEnv) (s : Site) (body : Text) : Endpoint → Site × HttpAnswer
  | .approve p actor => s.replyEnqueued (Go.handleApprove env s p actor body)
  | .schedule p actor => s.replyEnqueued (Go.handleSchedule env s p actor body)
  | .decision p actor => s.replyEnqueued (Go.handleDecision env s p actor body)
  | .editTags p actor => s.reply 200 (Go.handleEditTags env s p actor body)
  | .createChannel => s.reply 201 (Go.handleCreateChannel env s body)
  | .updateChannel id =>
    ({ s with db := (handleUpdateChannel s.db id (decodeJSON body)).1 },
      (handleUpdateChannel s.db id (decodeJSON body)).2)
  | .updateAISettings id => s.reply 200 (Go.handleUpdateAISettings s id body)
  | .createTag => s.reply 201 (Go.handleCreateTag env s body)
  | .updateTag id => s.reply 200 (Go.handleUpdateTag s id body)
  | .createTemplate => s.reply 201 (Go.handleCreateTemplate s body)
  | .updateTemplate id => s.reply 200 (Go.handleUpdateTemplate s id body)
  | .createAdmin => s.reply 201 (Go.handleCreateAdmin env s body)
  | .updateAdmin id => s.reply 200 (Go.handleUpdateAdmin env s id body)

end TelegramCms
