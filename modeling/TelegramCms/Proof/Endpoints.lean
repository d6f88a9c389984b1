import TelegramCms.Model.Endpoints
import TelegramCms.Proof.Channels

/-!
# What the write endpoints do with an invalid body

A body is invalid if it is not JSON, or if a field it has is of the wrong type. The
handlers answer with an error exactly if something stops the request (`Stops`): the row
is missing, the decoding fails and the handler looks at that, or a check on what was
decoded fails; and then they have touched nothing. For an invalid body this is not always
so: `approve` drops the error of its decoding, the two `PATCH` handlers of channels skip
what they cannot read, `null` has no effect on a field that is no pointer, and what
follows the first value of a body is never read.
-/

namespace TelegramCms

/-! ## Invalid bodies -/

inductive FieldType where
  /-- A string; `null` as well, if the field is a pointer. -/
  | string (nullable : Bool)
  | boolean
  | integer
  | integers
  | timestamp
deriving DecidableEq, Repr

/-- An `int64`. -/
def isInt64 : Json → Bool
  | .int n => inInt64 n
  | _ => false

/-- The value is of the type. -/
def FieldType.holds : FieldType → Json → Bool
  | .string nullable, .null => nullable
  | .string _, .str _ => true
  | .boolean, .null | .boolean, .bool _ => true
  | .integer, .null => true
  | .integer, j => isInt64 j
  | .integers, .null => true
  | .integers, .arr items => items.all isInt64
  | .timestamp, .null | .timestamp, .str _ => true
  | _, _ => false

/-- The fields of a body, with their types. -/
def Endpoint.fields : Endpoint → List (String × FieldType)
  | .approve .. => [("tag_ids", .integers)]
  | .schedule .. => [("scheduled_for", .timestamp)]
  | .decision .. =>
    [("action", .string false), ("tag_ids", .integers), ("scheduled_for", .timestamp)]
  | .editTags .. => [("tag_ids", .integers)]
  | .createChannel =>
    [("telegram_channel_id", .integer), ("title", .string false), ("username", .string true),
      ("ingestion_enabled", .boolean), ("policy", .string true), ("default_tag_ids", .integers),
      ("normalization_template_id", .integer), ("max_media_size_bytes", .integer),
      ("source_label", .string true), ("ai_enabled", .boolean), ("ai_mode", .string true),
      ("ai_target_language", .string true), ("ai_tone_prompt", .string true),
      ("ai_custom_system_prompt", .string true), ("watermark_enabled", .boolean),
      ("watermark_text", .string true), ("strip_source_tags", .boolean)]
  | .updateChannel _ =>
    [("title", .string true), ("username", .string true), ("ingestion_enabled", .boolean),
      ("policy", .string true), ("normalization_template_id", .integer),
      ("max_media_size_bytes", .integer), ("source_label", .string true),
      ("ai_enabled", .boolean), ("ai_mode", .string true), ("ai_target_language", .string true),
      ("ai_tone_prompt", .string true), ("ai_custom_system_prompt", .string true),
      ("watermark_enabled", .boolean), ("watermark_text", .string true),
      ("strip_source_tags", .boolean), ("default_tag_ids", .integers)]
  | .updateAISettings _ =>
    [("ai_enabled", .boolean), ("ai_mode", .string true), ("ai_target_language", .string true),
      ("ai_tone_prompt", .string true), ("ai_custom_system_prompt", .string true),
      ("watermark_enabled", .boolean), ("watermark_text", .string true),
      ("strip_source_tags", .boolean)]
  | .createTag => [("slug", .string false), ("label", .string false), ("color", .string true)]
  | .updateTag _ => [("label", .string true), ("color", .string true)]
  | .createTemplate => [("name", .string false), ("body", .string false)]
  | .updateTemplate _ => [("name", .string true), ("body", .string true)]
  | .createAdmin =>
    [("username", .string false), ("password", .string false), ("role", .string true),
      ("tg_user_id", .integer)]
  | .updateAdmin _ =>
    [("password", .string true), ("role", .string true), ("disabled", .boolean),
      ("tg_user_id", .integer)]

/-- A body that is sent, and is not JSON or has a field of the wrong type. No body at all
is an empty object. -/
def Invalid (e : Endpoint) (body : Text) : Prop :=
  Json.skip body ≠ [] ∧
  match Json.document body with
  | none => True
  | some (.obj members) =>
    ∃ f ∈ e.fields, ∃ m ∈ members, m.1 = f.1.toList ∧ f.2.holds m.2 = false
  | some _ => False

/-- The answer is an error of the client's, no table is touched and nothing is enqueued. -/
def Untouched (env : ApiEnv) (s : Site) (body : Text) (e : Endpoint) : Prop :=
  (s.serve env body e).2.refused ∧ (s.serve env body e).1 = s

/-! ## What the decoding into a struct makes of a field -/

/-- The decoder reads the value into a field of the type. It has no objection to `null`. -/
def FieldType.decodes (env : ApiEnv) : FieldType → Json → Bool
  | .string _, j => (Go.str j).isSome
  | .boolean, j => (Go.bool j).isSome
  | .integer, j => (Go.int j).isSome
  | .integers, j => (Go.ints j).isSome
  | .timestamp, .null => true
  | .timestamp, .str t => (env.parseTime t).isSome
  | .timestamp, _ => false

section Decode

variable {α : Type} {env : ApiEnv} {body : Fields} {key : String}

/-- Decoding is free of errors if it is for every member. -/
theorem field_ok {into : Json → α → α × Bool} {reads : Json → Bool}
    (hinto : ∀ j v, (into j v).2 = reads j) (v : α) :
    (Go.field v into body key).2 = (Go.matching body key).all (fun m => reads m.2) := by
  have hfold : ∀ (l : Fields) (x : α × Bool),
      (l.foldl (fun x m => ((into m.2 x.1).1, x.2 && (into m.2 x.1).2)) x).2
        = (x.2 && l.all (fun m => reads m.2)) := by
    intro l
    induction l with
    | nil => intro x; simp
    | cons m l ih =>
        intro x
        rw [List.foldl_cons, ih, hinto, List.all_cons, Bool.and_assoc]
  rw [Go.field, hfold, Bool.true_and]

/-- A pointer takes what the type it points to can be read from. -/
theorem intoPtr_ok (read : Json → Option (Option α)) (zero : α) (j : Json) (v : Option α) :
    (Go.intoPtr j read zero v).2 = (read j).isSome := by
  rw [Go.intoPtr]
  cases read j <;> rfl

theorem intoStr_ok (j : Json) (v : Text) : (Go.intoStr j v).2 = (Go.str j).isSome := by
  rw [Go.intoStr]
  cases Go.str j <;> rfl

/-- A list is read exactly if each of its items is. -/
theorem mapM_isSome {β γ : Type} {f : β → Option γ} (l : List β) :
    (l.mapM f).isSome = l.all (fun x => (f x).isSome) := by
  induction l with
  | nil => rfl
  | cons x l ih =>
      rw [List.mapM_cons, List.all_cons, ← ih]
      cases f x with
      | none => rfl
      | some y => cases l.mapM f <;> rfl

theorem intoInts_ok (j : Json) (v : List Int) : (Go.intoInts j v).2 = (Go.ints j).isSome := by
  cases j with
  | arr items => rw [Go.intoInts, Go.ints, Option.isSome_map, mapM_isSome]
  | _ => rfl

theorem intoIntsPtr_ok (j : Json) (v : Option (List Int)) :
    (Go.intoIntsPtr j v).2 = (Go.ints j).isSome := by
  cases j with
  | null => rfl
  | _ => exact intoInts_ok _ _

/-- A time is decoded where its text is in RFC 3339. -/
theorem intoTime_ok (j : Json) (v : Option Time) :
    (Go.intoTime env j v).2 = FieldType.timestamp.decodes env j := by
  rw [Go.intoTime, intoPtr_ok]
  cases j with
  | str t => simp only [FieldType.decodes, Option.isSome_map]
  | _ => rfl

/-- Every member with the key of a field is read into it. -/
def Decodes (env : ApiEnv) (members : Fields) (f : String × FieldType) : Prop :=
  ∀ m ∈ Go.matching members f.1, f.2.decodes env m.2 = true

/-- A field is decoded without an error exactly where its type decodes, strings first. -/
theorem str_field_ok (n : Bool) (v : Text) :
    (Go.field v Go.intoStr body key).2 = true ↔ Decodes env body (key, .string n) := by
  rw [field_ok intoStr_ok, List.all_eq_true]
  rfl

theorem strPtr_field_ok (n : Bool) (v : Option Text) :
    (Go.field v (Go.intoPtr · Go.str []) body key).2 = true
      ↔ Decodes env body (key, .string n) := by
  rw [field_ok (intoPtr_ok Go.str []), List.all_eq_true]
  rfl

theorem boolPtr_field_ok (v : Option Bool) :
    (Go.field v (Go.intoPtr · Go.bool false) body key).2 = true
      ↔ Decodes env body (key, .boolean) := by
  rw [field_ok (intoPtr_ok Go.bool false), List.all_eq_true]
  rfl

theorem intPtr_field_ok (v : Option Int) :
    (Go.field v (Go.intoPtr · Go.int 0) body key).2 = true ↔ Decodes env body (key, .integer) := by
  rw [field_ok (intoPtr_ok Go.int 0), List.all_eq_true]
  rfl

theorem ints_field_ok (v : List Int) :
    (Go.field v Go.intoInts body key).2 = true ↔ Decodes env body (key, .integers) := by
  rw [field_ok intoInts_ok, List.all_eq_true]
  rfl

theorem intsPtr_field_ok (v : Option (List Int)) :
    (Go.field v Go.intoIntsPtr body key).2 = true ↔ Decodes env body (key, .integers) := by
  rw [field_ok intoIntsPtr_ok, List.all_eq_true]
  rfl

theorem time_field_ok (v : Option Time) :
    (Go.field v (Go.intoTime env) body key).2 = true ↔ Decodes env body (key, .timestamp) := by
  rw [field_ok intoTime_ok, List.all_eq_true]
  rfl

/-- A value of the wrong type that is not `null`, nor a list with a `null` in it, is one the
decoder objects to. -/
theorem decodes_of_holds_false {t : FieldType} {j : Json} (h : t.holds j = false)
    (hnull : j ≠ .null) (hitems : ∀ items, j = .arr items → .null ∉ items) :
    t.decodes env j = false := by
  cases t with
  | string nullable =>
      cases j with
      | null => exact absurd rfl hnull
      | str s => exact absurd h (by simp [FieldType.holds])
      | _ => rfl
  | boolean =>
      cases j with
      | null => exact absurd rfl hnull
      | bool b => exact absurd h (by simp [FieldType.holds])
      | _ => rfl
  | integer =>
      cases j with
      | null => exact absurd rfl hnull
      | int n =>
          have hn : ¬ inInt64 n := by simpa [FieldType.holds, isInt64] using h
          simp [FieldType.decodes, Go.int, hn]
      | _ => rfl
  | integers =>
      cases j with
      | null => exact absurd rfl hnull
      | arr items =>
          obtain ⟨i, hi, hbad⟩ : ∃ i ∈ items, isInt64 i = false := by
            simpa [FieldType.holds] using h
          -- of the items `null` alone is read as another value
          have hitem : Go.item i = none := by
            cases i with
            | null => exact absurd hi (hitems items rfl)
            | int n =>
                have hn : ¬ inInt64 n := by simpa [isInt64] using hbad
                simp [Go.item, Go.int, hn]
            | _ => rfl
          rw [FieldType.decodes, Go.ints, Option.isSome_map, mapM_isSome, List.all_eq_false]
          exact ⟨i, hi, by rw [hitem]; simp⟩
      | _ => rfl
  | timestamp =>
      cases j with
      | null => exact absurd rfl hnull
      | str s => exact absurd h (by simp [FieldType.holds])
      | _ => rfl

end Decode

/-! ## What stops a request -/

section Stops

variable (env : ApiEnv) (s : Site) (body : Text)

/-- The decoding into a struct with the fields fails. -/
def DecodeFails (fields : List (String × FieldType)) : Prop :=
  (structBody body).2 = false ∨ ∃ f ∈ fields, ¬ Decodes env (structBody body).1 f

/-- `scheduled_for` is missing or not in the future. -/
def NotInFuture (scheduledFor : Option Time) : Prop := ∀ t, scheduledFor = some t → t ≤ env.now

/-- The transaction that sets the default tags finds an id that is no tag's. -/
def UnknownTag (db : Db) (p : ChannelPatch) : Prop :=
  p.ColumnsTake db ∧ ∃ ids, p.defaultTagIds.join = some ids ∧ ∃ n ∈ ids, ¬ db.hasTag n

/-- The `INSERT` of a channel finds its Telegram id taken. -/
def ChannelTaken (db : Db) (tg : Int) (p : ChannelPatch) : Prop :=
  inInt64 tg ∧ { p with normalizationTemplateId := none }.ColumnsTake db
    ∧ ∃ c ∈ db.channels.rows, c.telegramChannelId = tg

/-- The `INSERT` of a tag finds its slug taken. -/
def SlugTaken (db : Db) (slug label : Text) (color : Option Text) : Prop :=
  (varcharCol 64 label).isSome ∧ (nullable (varcharCol 16) color).isSome
    ∧ ∃ t ∈ db.tags.rows, varcharCol 64 slug = some t.slug

/-- The `INSERT` of an admin finds its name or its Telegram user taken. -/
def AdminTaken (t : Admins) (username hash : Text) (tgUserId : Option Int) : Prop :=
  (varcharCol 255 hash).isSome ∧ ∃ name, varcharCol 64 username = some name
    ∧ ((∃ a ∈ t.rows, a.username = name)
      ∨ tgUserIdTaken t t.fresh { tgUserId := some tgUserId } = true)

/-- The last active super-admin would go. -/
def LastSuperAdmin (id : Nat) (adm : Admin) (role : Option Role) (disabled : Option Bool) : Prop :=
  countActiveSuperAdmins s.admins ≤ 1
    ∧ ((⟨.go, id, { role := role }⟩ : AdminRequest).demotes adm = true
      ∨ (⟨.go, id, { role := role, disabled := disabled }⟩ : AdminRequest).disables adm = true)

/-- What stops a request at an endpoint, decoding and checks together. -/
def Stops (e : Endpoint) : Prop :=
  let members := (structBody body).1
  let str := fun key => (Go.field [] Go.intoStr members key).1
  let time := (Go.field none (Go.intoTime env) members "scheduled_for").1
  match e with
  | .approve p _ => s.db.posts.get p = none
  | .schedule p _ =>
    DecodeFails env body e.fields ∨ s.db.posts.get p = none ∨ NotInFuture env time
  | .decision p _ =>
    DecodeFails env body e.fields ∨ s.db.posts.get p = none
      ∨ (∀ d ∈ verdicts, d.value ≠ str "action")
      ∨ (str "action" = Verdict.schedule.value ∧ NotInFuture env time)
  | .editTags p _ =>
    s.db.posts.get p = none ∨ DecodeFails env body e.fields
      ∨ (Go.field none Go.intoIntsPtr members "tag_ids").1 = none
  | .createChannel =>
    DecodeFails env body e.fields ∨ str "title" = []
      ∨ ∀ tg, (Go.field none (Go.intoPtr · Go.int 0) members "telegram_channel_id").1 = some tg →
          ChannelTaken s.db tg (Go.newChannel env members)
            ∨ (inInt64 tg ∧ UnknownTag s.db (Go.newChannel env members))
  | .updateChannel id =>
    s.db.channels.get id = none ∨ ∀ fields, decodePatchBody (decodeJSON body) = some fields →
      fields.badTagIds = true ∨ UnknownTag s.db fields.channelSets
  | .updateAISettings id =>
    s.db.channels.get id = none ∨ decodePatchBody (decodeJSON body) = none
  | .createTag =>
    DecodeFails env body e.fields ∨ str "slug" = [] ∨ str "label" = []
      ∨ ∀ slug, Go.slugify env (str "slug") = some slug →
          SlugTaken s.db slug (str "label") (Go.field none (Go.intoPtr · Go.str []) members "color").1
  | .updateTag id => s.db.tags.get id = none ∨ DecodeFails env body e.fields
  | .createTemplate => DecodeFails env body e.fields ∨ str "name" = []
  | .updateTemplate id => s.db.templates.get id = none ∨ DecodeFails env body e.fields
  | .createAdmin =>
    DecodeFails env body e.fields ∨ Go.byteLength (str "username") < 3
      ∨ Go.byteLength (str "password") < 8
      ∨ Go.roleCol (Go.orDefault (Go.field none (Go.intoPtr · Go.str []) members "role").1
          "editor".toList) = none
      ∨ AdminTaken s.admins (str "username") (env.hashPassword (str "password"))
          (Go.field none (Go.intoPtr · Go.int 0) members "tg_user_id").1
  | .updateAdmin id =>
    ∀ adm fields, s.admins.get id = some adm → decodePatchBody (decodeJSON body) = some fields →
      Go.presentNotNull Go.str fields "password" = none ∨ Go.presentRole fields = none
        ∨ Go.presentNotNull Go.bool fields "disabled" = none ∨ Go.presentTgUserId fields = none
        ∨ ∀ role disabled, Go.presentRole fields = some role →
            Go.presentNotNull Go.bool fields "disabled" = some disabled →
            LastSuperAdmin s id adm role disabled

end Stops

/-! ## Errors of the client's -/

/-- The handler ends with an error of the client's. -/
def Refused {α : Type} (x : Except HttpAnswer α) : Prop := ∃ a, x = .error a ∧ a.refused

section Refused

variable {α : Type} {env : ApiEnv} {s : Site} {body : Text}

@[simp] theorem refused_ok (x : α) : ¬ Refused (.ok x) := by
  rintro ⟨a, h, -⟩
  exact absurd h (by simp)

theorem refused_answer {a : HttpAnswer} : Refused (.error a : Except HttpAnswer α) ↔ a.refused := by
  constructor
  · rintro ⟨b, h, hb⟩
    rw [Except.error.inj h]
    exact hb
  · intro h
    exact ⟨a, rfl, h⟩

@[simp] theorem refused_error {status : Nat} {detail : String} :
    Refused (.error (.error status detail) : Except HttpAnswer α) ↔ 400 ≤ status ∧ status < 500 :=
  refused_answer

@[simp] theorem refused_dbError : ¬ Refused (.error dbError : Except HttpAnswer α) := by
  rw [dbError, refused_error]
  omega

@[simp] theorem refused_transact {x : Except HttpAnswer Db} : Refused (s.transact x) ↔ Refused x := by
  cases x with
  | ok db => simp [Site.transact]
  | error a => simp [Site.transact, Refused]

/-- A handler that ends in an error of the client's has touched nothing. -/
theorem reply_untouched {status : Nat} {x : Except HttpAnswer Site} (h : status < 400) :
    ((s.reply status x).2.refused ∧ (s.reply status x).1 = s) ↔ Refused x := by
  cases x with
  | ok s' =>
      have hno : ¬ HttpAnswer.refused ⟨status, none⟩ := fun hr => absurd hr.1 (Nat.not_le.mpr h)
      simp [Site.reply, hno]
  | error a => simp [Site.reply, Refused]

/-- The same of a decision: the error behind its commit is the server's. -/
theorem replyEnqueued_untouched {x : Except HttpAnswer (Site × Enqueue)} :
    ((s.replyEnqueued x).2.refused ∧ (s.replyEnqueued x).1 = s) ↔ Refused x := by
  cases x with
  | ok y =>
      obtain ⟨s', e⟩ := y
      cases e with
      | done =>
          have hno : ¬ HttpAnswer.refused ⟨200, none⟩ := fun hr => absurd hr.1 (by decide)
          simp [Site.replyEnqueued, hno]
      | error kept =>
          have hno : ¬ (HttpAnswer.error 500 "enqueue error").refused :=
            fun hr => absurd hr.2 (by decide : ¬ 500 < 500)
          simp [Site.replyEnqueued, hno]
  | error a => simp [Site.replyEnqueued, Refused]

/-! ### Posts -/

/-- A decision is refused for a post that is not there, and for a time that is not to come. -/
theorem decide_refused {p actor : Nat} {action : Verdict} {tagIds : Option (List Int)}
    {t : Option Time} :
    Refused (Go.decide env s p actor action tagIds t)
      ↔ s.db.posts.get p = none ∨ (action = .schedule ∧ NotInFuture env t) := by
  unfold Go.decide
  cases s.db.posts.get p with
  | none => simp
  | some post =>
      cases action with
      | approve => simp
      | reject => simp
      | schedule =>
          cases t with
          | none => simp [NotInFuture]
          | some t =>
              by_cases ht : t ≤ env.now <;> simp [NotInFuture, ht]

/-- The struct decodes where the body is an object and each of its fields decodes. -/
theorem not_decodeFails {fields : List (String × FieldType)} :
    ¬ DecodeFails env body fields
      ↔ (structBody body).2 = true ∧ ∀ f ∈ fields, Decodes env (structBody body).1 f := by
  simp only [DecodeFails, not_or, not_exists, not_and, not_not, Bool.not_eq_false]

/-- `handleApprove` heeds no error of the decoder: only a post that is not there stops it. -/
theorem approve_refused {p actor : Nat} :
    Refused (Go.handleApprove env s p actor body) ↔ Stops env s body (.approve p actor) := by
  simp [Go.handleApprove, decide_refused, Stops]

/-- `handleSchedule` decodes, looks up the post and then checks the time. -/
theorem schedule_refused {p actor : Nat} :
    Refused (Go.handleSchedule env s p actor body) ↔ Stops env s body (.schedule p actor) := by
  have hdec : ¬ DecodeFails env body (Endpoint.schedule p actor).fields
      ↔ (structBody body).2 = true
        ∧ (Go.field none (Go.intoTime env) (structBody body).1 "scheduled_for").2 = true := by
    rw [not_decodeFails, time_field_ok]
    simp [Endpoint.fields]
  simp only [Go.handleSchedule, Stops]
  by_cases hd : DecodeFails env body (Endpoint.schedule p actor).fields
  · have hno := mt hdec.mpr (not_not.mpr hd)
    rw [if_pos (.inl hno)]
    simp [hd]
  · have hok := hdec.mp hd
    cases ht : (Go.field none (Go.intoTime env) (structBody body).1 "scheduled_for").1 with
    | none => simp [hd, NotInFuture]
    | some t => simp [hd, hok, decide_refused]

theorem find_verdict_none {action : Text} :
    verdicts.find? (fun d => decide (d.value = action)) = none
      ↔ ∀ d ∈ verdicts, d.value ≠ action := by
  simp [List.find?_eq_none]

/-- `handleDecision` asks for a known action, and for a time that is to come if it is `schedule`. -/
theorem decision_refused {p actor : Nat} :
    Refused (Go.handleDecision env s p actor body) ↔ Stops env s body (.decision p actor) := by
  have hdec : ¬ DecodeFails env body (Endpoint.decision p actor).fields
      ↔ (structBody body).2 = true
        ∧ (Go.field [] Go.intoStr (structBody body).1 "action").2 = true
        ∧ (Go.field none Go.intoIntsPtr (structBody body).1 "tag_ids").2 = true
        ∧ (Go.field none (Go.intoTime env) (structBody body).1 "scheduled_for").2 = true := by
    rw [not_decodeFails, @str_field_ok env _ _ false, @intsPtr_field_ok env, time_field_ok]
    simp [Endpoint.fields]
  simp only [Go.handleDecision, Stops]
  by_cases hd : DecodeFails env body (Endpoint.decision p actor).fields
  · have hno := mt hdec.mpr (not_not.mpr hd)
    rw [if_pos hno]
    simp [hd]
  · rw [if_neg (not_not.mpr (hdec.mp hd))]
    cases hf : verdicts.find? (fun d =>
        decide (d.value = (Go.field [] Go.intoStr (structBody body).1 "action").1)) with
    | none =>
        -- the action is none of the verdicts
        have hall := find_verdict_none.mp hf
        simp only [refused_error]
        exact iff_of_true (by omega) (.inr (.inr (.inl hall)))
    | some d =>
        have hval : d.value = (Go.field [] Go.intoStr (structBody body).1 "action").1 := by
          simpa using List.find?_some hf
        have hmem := List.mem_of_find?_eq_some hf
        have hsched : d = .schedule
            ↔ (Go.field [] Go.intoStr (structBody body).1 "action").1 = Verdict.schedule.value := by
          rw [← hval]
          cases d <;> decide
        have hsome : ¬ ∀ d' ∈ verdicts,
            d'.value ≠ (Go.field [] Go.intoStr (structBody body).1 "action").1 :=
          fun h => h d hmem hval
        simp only [decide_refused, hd, hsome, false_or, hsched]

/-- `handleEditTags` asks for tags in the body, which `null` is not. -/
theorem editTags_refused {p actor : Nat} :
    Refused (Go.handleEditTags env s p actor body) ↔ Stops env s body (.editTags p actor) := by
  have hdec : ¬ DecodeFails env body (Endpoint.editTags p actor).fields
      ↔ (structBody body).2 = true
        ∧ (Go.field none Go.intoIntsPtr (structBody body).1 "tag_ids").2 = true := by
    rw [not_decodeFails, @intsPtr_field_ok env]
    simp [Endpoint.fields]
  simp only [Go.handleEditTags, Stops]
  cases s.db.posts.get p with
  | none => simp
  | some post =>
      cases ht : (Go.field none Go.intoIntsPtr (structBody body).1 "tag_ids").1 with
      | none => simp
      | some tags =>
          by_cases hd : DecodeFails env body (Endpoint.editTags p actor).fields
          · have hno := mt hdec.mpr (not_not.mpr hd)
            dsimp only
            rw [if_pos hno]
            simp [hd]
          · dsimp only
            rw [if_neg (not_not.mpr (hdec.mp hd))]
            simp [hd]

/-! ### Channels -/

theorem columns_iff {db : Db} {c : SourceChannel} {p : ChannelPatch} :
    (∃ c', p.apply db c = some c') ↔ p.ColumnsTake db := by
  simp only [apply_iff, updated_iff]

/-- The links are refused for a tag that is not there. -/
theorem setDefaultTagLinks_refused {db : Db} {id : Nat} {ids : List Int} :
    Refused (db.setDefaultTagLinks id ids) ↔ ∃ n ∈ ids, ¬ db.hasTag n := by
  unfold Db.setDefaultTagLinks
  dsimp only
  split
  · rename_i hmissing
    refine iff_of_true ⟨_, rfl, by simp [HttpAnswer.refused]⟩ ?_
    obtain ⟨n, hn⟩ := List.exists_mem_of_ne_nil _ hmissing
    obtain ⟨hmem, hno⟩ := List.mem_filter.mp hn
    exact ⟨n, hmem, by simpa using hno⟩
  · rename_i hmissing
    have hall : ¬ ∃ n ∈ ids, ¬ db.hasTag n := by
      rintro ⟨n, hn, hno⟩
      exact hmissing (List.ne_nil_of_mem (List.mem_filter.mpr ⟨hn, by simpa using hno⟩))
    split <;> simp only [refused_dbError, refused_ok, hall]

/-- A patch of a row that is there is refused for an unknown tag, and for nothing else. -/
theorem patchChannel_refused {db : Db} {c : SourceChannel} {p : ChannelPatch} :
    Refused (db.patchChannel c p) ↔ UnknownTag db p := by
  unfold Db.patchChannel UnknownTag
  rw [← @columns_iff db c p]
  cases happly : p.apply db c with
  | none => simp
  | some c' =>
      cases hids : p.defaultTagIds.join with
      | none => simp
      | some ids =>
          have htags : ∀ n, (db.setChannel c').hasTag n ↔ db.hasTag n := fun _ => Iff.rfl
          simp [setDefaultTagLinks_refused, htags]

/-- A new channel is refused for its telegram id, or for an unknown tag once the row is written; for
what Postgres cannot store it fails instead. -/
theorem createChannel_refused {db : Db} {id : Nat} {tg : Int} {p : ChannelPatch}
    (hids : p.defaultTagIds.join ≠ none) :
    Refused (db.createChannel id tg p)
      ↔ ChannelTaken db tg p ∨ (inInt64 tg ∧ UnknownTag db p) := by
  obtain ⟨ids, hids⟩ := Option.ne_none_iff_exists'.mp hids
  have hbase : p.ColumnsTake db → { p with normalizationTemplateId := none }.ColumnsTake db := by
    intro h
    exact { h with normalizationTemplateId := fun _ h => absurd h (by simp) }
  unfold Db.createChannel ChannelTaken UnknownTag
  dsimp only
  rw [← @columns_iff db { id := id, telegramChannelId := tg, title := [] } p,
    ← @columns_iff db { id := id, telegramChannelId := tg, title := [] }
      { p with normalizationTemplateId := none }] at *
  by_cases hr : inInt64 tg
  · rw [bigintCol, if_pos hr]
    cases hb : ChannelPatch.apply db { p with normalizationTemplateId := none }
        { id := id, telegramChannelId := tg, title := [] } with
    | none =>
        -- the row cannot be written, so its id is not compared and no tag is looked up
        rw [hb] at hbase
        have hno : ¬ ∃ c', p.apply db { id := id, telegramChannelId := tg, title := [] } = some c' :=
          fun h => absurd (hbase h) (by simp)
        simp [hno]
    | some c₀ =>
        dsimp only
        by_cases hany : db.channels.rows.any (fun c => decide (c.telegramChannelId = tg)) = true
        · rw [if_pos hany]
          have hex : ∃ c ∈ db.channels.rows, c.telegramChannelId = tg := by simpa using hany
          simp only [refused_error]
          exact iff_of_true (by omega) (.inl ⟨hr, ⟨c₀, rfl⟩, hex⟩)
        · rw [if_neg hany]
          have hex : ¬ ∃ c ∈ db.channels.rows, c.telegramChannelId = tg := by simpa using hany
          cases happly : p.apply db { id := id, telegramChannelId := tg, title := [] } with
          | none => simp [hex]
          | some c =>
              -- the links are checked once the row is there
              have htags : ∀ n, ({ db with channels := db.channels.insert c } : Db).hasTag n
                  ↔ db.hasTag n := fun _ => Iff.rfl
              simp [hex, hr, hids, setDefaultTagLinks_refused, htags]
  · rw [bigintCol, if_neg hr]
    simp [hr]

/-- The struct of a new channel decodes where each of its fields does. -/
theorem newChannelOk_iff {members : Fields} :
    Go.newChannelOk members = true
      ↔ ∀ f ∈ Endpoint.createChannel.fields, Decodes env members f := by
  simp only [Go.newChannelOk, Bool.and_eq_true, @intPtr_field_ok env, @str_field_ok env _ _ false,
    @strPtr_field_ok env _ _ true, @boolPtr_field_ok env, @ints_field_ok env, Endpoint.fields,
    List.forall_mem_cons, List.not_mem_nil, false_implies, implies_true, and_true, and_assoc]

/-- `handleCreateChannel`: the decoder, the check for the id, then the insert. -/
theorem createChannel_handler_refused :
    Refused (Go.handleCreateChannel env s body) ↔ Stops env s body .createChannel := by
  have hdec : ¬ DecodeFails env body Endpoint.createChannel.fields
      ↔ (structBody body).2 = true ∧ Go.newChannelOk (structBody body).1 = true := by
    rw [not_decodeFails, @newChannelOk_iff env]
  simp only [Go.handleCreateChannel, Stops]
  cases htg : (Go.field none (Go.intoPtr · Go.int 0) (structBody body).1
      "telegram_channel_id").1 with
  | none => simp
  | some tg =>
      by_cases hd : DecodeFails env body Endpoint.createChannel.fields
      · have hno := mt hdec.mpr (not_not.mpr hd)
        dsimp only
        rw [if_pos (.inl hno)]
        simp [hd]
      · have hok := hdec.mp hd
        by_cases ht : (Go.field [] Go.intoStr (structBody body).1 "title").1 = []
        · simp [ht]
        · dsimp only
          rw [if_neg (by simp [hok, ht]), refused_transact,
            createChannel_refused (by simp [Go.newChannel])]
          simp [hd, ht]

/-- `handleUpdateChannel` reads a map, and its tags are all it refuses. -/
theorem handleUpdateChannel_refused {id : Nat} :
    ((handleUpdateChannel s.db id (decodeJSON body)).2.refused
        ∧ (handleUpdateChannel s.db id (decodeJSON body)).1 = s.db)
      ↔ Stops env s body (.updateChannel id) := by
  simp only [handleUpdateChannel, Stops]
  cases s.db.channels.get id with
  | none => simp [HttpAnswer.error, HttpAnswer.refused]
  | some c =>
      cases decodePatchBody (decodeJSON body) with
      | none => simp [HttpAnswer.error, HttpAnswer.refused]
      | some fields =>
          dsimp only
          cases hbad : fields.badTagIds with
          | true => simp [hbad, HttpAnswer.error, HttpAnswer.refused]
          | false =>
              -- a patch that sets nothing is answered without a transaction
              by_cases hempty : fields.channelSets = {}
              · simp [hbad, hempty, HttpAnswer.refused, UnknownTag]
              · have hpatch := @patchChannel_refused s.db c fields.channelSets
                simp only [Bool.false_eq_true, if_false, hempty]
                cases hp : s.db.patchChannel c fields.channelSets with
                | ok db' =>
                    rw [hp] at hpatch
                    have hno : ¬ UnknownTag s.db fields.channelSets := mt hpatch.mpr (refused_ok _)
                    simp [settle, hbad, hno, HttpAnswer.refused]
                | error a =>
                    rw [hp] at hpatch
                    rw [refused_answer] at hpatch
                    simp only [settle, and_true, reduceCtorEq, false_or, Option.some.injEq]
                    rw [hpatch]
                    constructor
                    · rintro h _ rfl
                      exact .inr h
                    · intro h
                      simpa [hbad] using h fields rfl

/-- `handleUpdateAISettings` looks for the channel and reads the body, and checks no field of it. -/
theorem aiSettings_refused {id : Nat} :
    Refused (Go.handleUpdateAISettings s id body) ↔ Stops env s body (.updateAISettings id) := by
  simp only [Go.handleUpdateAISettings, Stops]
  cases s.db.channels.get id with
  | none => simp
  | some c =>
      cases decodePatchBody (decodeJSON body) with
      | none => simp
      | some fields =>
          have hno : ¬ UnknownTag s.db fields.aiSettingsSets := by
            rintro ⟨-, ids, hids, -⟩
            exact absurd hids (by simp [Fields.aiSettingsSets])
          dsimp only
          split
          · simp
          · rw [refused_transact, patchChannel_refused]
            simp [hno]

/-! ### Tags and templates -/

/-- A new tag is refused for a slug that is taken. -/
theorem createTag_refused {db : Db} {id : Nat} {slug label : Text} {color : Option Text} :
    Refused (db.createTag id slug label color) ↔ SlugTaken db slug label color := by
  unfold Db.createTag SlugTaken
  cases varcharCol 64 slug with
  | none => simp
  | some slug =>
      cases varcharCol 64 label with
      | none => simp
      | some label =>
          cases nullable (varcharCol 16) color with
          | none => simp
          | some color =>
              dsimp only
              by_cases hany : db.tags.rows.any (fun t => decide (t.slug = slug)) = true
              · rw [if_pos hany]
                have hex : ∃ t ∈ db.tags.rows, t.slug = slug := by simpa using hany
                obtain ⟨t, ht, he⟩ := hex
                simp only [refused_error]
                exact iff_of_true (by omega) ⟨rfl, rfl, t, ht, by rw [he]⟩
              · rw [if_neg hany]
                have hex : ¬ ∃ t ∈ db.tags.rows, t.slug = slug := by simpa using hany
                refine iff_of_false (refused_ok _) ?_
                rintro ⟨-, -, t, ht, he⟩
                exact hex ⟨t, ht, (Option.some.inj he).symm⟩

/-- `handleCreateTag` asks for a slug and a label, and then for a slug that is free once it is
slugified. -/
theorem createTag_handler_refused :
    Refused (Go.handleCreateTag env s body) ↔ Stops env s body .createTag := by
  have hdec : ¬ DecodeFails env body Endpoint.createTag.fields
      ↔ (structBody body).2 = true
        ∧ (Go.field [] Go.intoStr (structBody body).1 "slug").2 = true
        ∧ (Go.field [] Go.intoStr (structBody body).1 "label").2 = true
        ∧ (Go.field none (Go.intoPtr · Go.str []) (structBody body).1 "color").2 = true := by
    rw [not_decodeFails, @str_field_ok env _ _ false, @str_field_ok env _ _ false,
      @strPtr_field_ok env _ _ true]
    simp [Endpoint.fields]
  simp only [Go.handleCreateTag, Stops]
  by_cases hd : DecodeFails env body Endpoint.createTag.fields
  · have hno := mt hdec.mpr (not_not.mpr hd)
    rw [if_pos (.inl hno)]
    simp [hd]
  · have hok := hdec.mp hd
    by_cases hs : (Go.field [] Go.intoStr (structBody body).1 "slug").1 = []
    · simp [hs]
    · by_cases hl : (Go.field [] Go.intoStr (structBody body).1 "label").1 = []
      · simp [hl]
      · rw [if_neg (by simp [hok, hs, hl])]
        cases Go.slugify env (Go.field [] Go.intoStr (structBody body).1 "slug").1 with
        | none => simp
        | some slug => simp [createTag_refused, hd, hs, hl]

/-- A `PATCH` whose decode error is heeded is stopped by nothing else. -/
theorem patch_refused {fails ok nothing : Prop} [Decidable ok] [Decidable nothing] {detail : String}
    {x : Except HttpAnswer Site} (hdec : ¬ fails ↔ ok) (hx : ¬ Refused x) :
    Refused (if ¬ ok then .error (.error 422 detail) else if nothing then .ok s else x) ↔ fails := by
  by_cases hf : fails
  · rw [if_pos (mt hdec.mpr (not_not.mpr hf))]
    simp [hf]
  · rw [if_neg (not_not.mpr (hdec.mp hf))]
    split <;> simp [hf, hx]

/-- `handleUpdateTag` refuses for a tag that is not there and for a body that does not decode. -/
theorem updateTag_refused {id : Nat} :
    Refused (Go.handleUpdateTag s id body) ↔ Stops env s body (.updateTag id) := by
  have hdec : ¬ DecodeFails env body (Endpoint.updateTag id).fields
      ↔ (structBody body).2 = true
        ∧ (Go.field none (Go.intoPtr · Go.str []) (structBody body).1 "label").2 = true
        ∧ (Go.field none (Go.intoPtr · Go.str []) (structBody body).1 "color").2 = true := by
    rw [not_decodeFails, @strPtr_field_ok env _ _ true, @strPtr_field_ok env _ _ true]
    simp [Endpoint.fields]
  simp only [Go.handleUpdateTag, Stops]
  cases s.db.tags.get id with
  | none => simp
  | some t =>
      dsimp only
      rw [patch_refused hdec (by split <;> simp)]
      simp

theorem createTemplate_refused :
    Refused (Go.handleCreateTemplate s body) ↔ Stops env s body .createTemplate := by
  have hdec : ¬ DecodeFails env body Endpoint.createTemplate.fields
      ↔ (structBody body).2 = true
        ∧ (Go.field [] Go.intoStr (structBody body).1 "name").2 = true
        ∧ (Go.field [] Go.intoStr (structBody body).1 "body").2 = true := by
    rw [not_decodeFails, @str_field_ok env _ _ false, @str_field_ok env _ _ false]
    simp [Endpoint.fields]
  simp only [Go.handleCreateTemplate, Stops]
  by_cases hd : DecodeFails env body Endpoint.createTemplate.fields
  · have hno := mt hdec.mpr (not_not.mpr hd)
    rw [if_pos (.inl hno)]
    simp [hd]
  · by_cases hn : (Go.field [] Go.intoStr (structBody body).1 "name").1 = []
    · simp [hn]
    · rw [if_neg (by simp [hdec.mp hd, hn])]
      split <;> simp [hd, hn]

theorem updateTemplate_refused {id : Nat} :
    Refused (Go.handleUpdateTemplate s id body) ↔ Stops env s body (.updateTemplate id) := by
  have hdec : ¬ DecodeFails env body (Endpoint.updateTemplate id).fields
      ↔ (structBody body).2 = true
        ∧ (Go.field none (Go.intoPtr · Go.str []) (structBody body).1 "name").2 = true
        ∧ (Go.field none (Go.intoPtr · Go.str []) (structBody body).1 "body").2 = true := by
    rw [not_decodeFails, @strPtr_field_ok env _ _ true, @strPtr_field_ok env _ _ true]
    simp [Endpoint.fields]
  simp only [Go.handleUpdateTemplate, Stops]
  cases s.db.templates.get id with
  | none => simp
  | some t =>
      dsimp only
      rw [patch_refused hdec (by split <;> simp)]
      simp

/-! ### Admins -/

/-- A new account is refused for a name or a telegram user id that is taken. -/
theorem createAdmin_refused {t : Admins} {username hash : Text} {role : Role}
    {tgUserId : Option Int} :
    Refused (Go.createAdmin t username hash role tgUserId)
      ↔ AdminTaken t username hash tgUserId := by
  unfold Go.createAdmin AdminTaken
  cases varcharCol 64 username with
  | none => simp
  | some name =>
      cases varcharCol 255 hash with
      | none => simp
      | some hash =>
          dsimp only
          have hany : t.rows.any (fun a => decide (a.username = name)) = true
              ↔ ∃ a ∈ t.rows, a.username = name := by simp
          simp only [hany]
          split
          · rename_i h
            simp only [refused_error]
            exact iff_of_true (by omega) ⟨rfl, name, rfl, h⟩
          · rename_i h
            refine iff_of_false (refused_ok _) ?_
            rintro ⟨-, name', hname, htaken⟩
            obtain rfl := Option.some.inj hname
            exact h htaken

/-- `handleCreateAdmin` asks for a name, for a password of length enough and for a role. -/
theorem createAdmin_handler_refused :
    Refused (Go.handleCreateAdmin env s body) ↔ Stops env s body .createAdmin := by
  have hdec : ¬ DecodeFails env body Endpoint.createAdmin.fields
      ↔ (structBody body).2 = true
        ∧ (Go.field [] Go.intoStr (structBody body).1 "username").2 = true
        ∧ (Go.field [] Go.intoStr (structBody body).1 "password").2 = true
        ∧ (Go.field none (Go.intoPtr · Go.str []) (structBody body).1 "role").2 = true
        ∧ (Go.field none (Go.intoPtr · Go.int 0) (structBody body).1 "tg_user_id").2 = true := by
    rw [not_decodeFails, @str_field_ok env _ _ false, @str_field_ok env _ _ false,
      @strPtr_field_ok env _ _ true, @intPtr_field_ok env]
    simp [Endpoint.fields]
  simp only [Go.handleCreateAdmin, Stops]
  by_cases hd : DecodeFails env body Endpoint.createAdmin.fields
  · have hno := mt hdec.mpr (not_not.mpr hd)
    rw [if_pos (.inl hno)]
    simp [hd]
  · have hok := hdec.mp hd
    -- the handler's own checks, in its order
    by_cases hu : Go.byteLength (Go.field [] Go.intoStr (structBody body).1 "username").1 < 3
    · simp [hu]
    · by_cases hp : Go.byteLength (Go.field [] Go.intoStr (structBody body).1 "password").1 < 8
      · simp [hp]
      · rw [if_neg (by simp [hok, hu, hp])]
        cases Go.roleCol (Go.orDefault (Go.field none (Go.intoPtr · Go.str [])
            (structBody body).1 "role").1 "editor".toList) with
        | none => simp
        | some role =>
            dsimp only
            simp only [hd, hu, hp, false_or, reduceCtorEq, ← @createAdmin_refused _ _ _ role]
            split <;> rename_i h <;> rw [h] <;> simp [Refused]

theorem forall_some_iff {α β : Type} {a : α} {b : β} {Q : α → β → Prop} :
    (∀ x y, some a = some x → some b = some y → Q x y) ↔ Q a b := by
  constructor
  · exact fun h => h a b rfl rfl
  · intro h x y hx hy
    rw [← Option.some.inj hx, ← Option.some.inj hy]
    exact h

/-- Whether a request demotes is decided by the role it asks for. -/
theorem demotes_of_role {id : Nat} {adm : Admin} {r : AdminUpdate} {role : Option Role}
    (h : r.role = role) : (⟨.go, id, r⟩ : AdminRequest).demotes adm
      = (⟨.go, id, { role := role }⟩ : AdminRequest).demotes adm := by
  subst h
  rfl

theorem disables_of_disabled {id : Nat} {adm : Admin} {r : AdminUpdate} {role : Option Role}
    {disabled : Option Bool} (h : r.disabled = disabled) :
    (⟨.go, id, r⟩ : AdminRequest).disables adm
      = (⟨.go, id, { role := role, disabled := disabled }⟩ : AdminRequest).disables adm := by
  subst h
  rfl

/-- The cases follow the checks of `handleUpdateAdmin`, which counts the active super-admins once it
has read the role, and again once it has read `disabled`. -/
theorem updateAdmin_refused {id : Nat} :
    Refused (Go.handleUpdateAdmin env s id body) ↔ Stops env s body (.updateAdmin id) := by
  simp only [Go.handleUpdateAdmin, Stops]
  cases s.admins.get id with
  | none => simp
  | some adm =>
      cases decodePatchBody (decodeJSON body) with
      | none => simp
      | some fields =>
          rw [forall_some_iff]
          dsimp only
          cases hpw : Go.presentNotNull Go.str fields "password" with
          | none => simp
          | some pw =>
              cases hrole : Go.presentRole fields with
              | none => simp
              | some role =>
                  dsimp only
                  rw [demotes_of_role rfl]
                  split
                  -- the role takes the last super-admin away
                  · rename_i hlast
                    simp only [refused_error]
                    refine iff_of_true (by omega) (.inr (.inr (.inr (.inr ?_))))
                    intro role' disabled hr _
                    rw [← Option.some.inj hr]
                    exact ⟨hlast.2, .inl hlast.1⟩
                  · rename_i hnot
                    cases hdis : Go.presentNotNull Go.bool fields "disabled" with
                    | none => simp
                    | some disabled =>
                        dsimp only
                        rw [disables_of_disabled rfl]
                        split
                        -- or disabling the account does
                        · rename_i hlast
                          simp only [refused_error]
                          refine iff_of_true (by omega) (.inr (.inr (.inr (.inr ?_))))
                          intro role' disabled' hr hd
                          rw [← Option.some.inj hr, ← Option.some.inj hd]
                          exact ⟨hlast.2, .inr hlast.1⟩
                        · rename_i hnot'
                          -- neither does, and the field that is left is all that can be refused
                          have hno : ¬ LastSuperAdmin s id adm role disabled := by
                            rintro ⟨hcount, h | h⟩
                            · exact hnot ⟨h, hcount⟩
                            · exact hnot' ⟨h, hcount⟩
                          cases htg : Go.presentTgUserId fields with
                          | none => simp
                          | some tg =>
                              dsimp only
                              split
                              · simp [hno]
                              · split <;> simp [hno]

end Refused

/-! ## Every endpoint -/

/-- A request ends in an error of the client's, with nothing touched, exactly if something
stops it. -/
theorem untouched_iff (env : ApiEnv) (s : Site) (body : Text) (e : Endpoint) :
    Untouched env s body e ↔ Stops env s body e := by
  unfold Untouched
  cases e with
  | approve p actor => exact replyEnqueued_untouched.trans approve_refused
  | schedule p actor => exact replyEnqueued_untouched.trans schedule_refused
  | decision p actor => exact replyEnqueued_untouched.trans decision_refused
  | editTags p actor => exact (reply_untouched (by decide)).trans editTags_refused
  | createChannel => exact (reply_untouched (by decide)).trans createChannel_handler_refused
  | updateChannel id =>
      rw [← handleUpdateChannel_refused]
      refine and_congr_right fun _ => ?_
      constructor
      · intro h
        exact congrArg Site.db h
      · intro h
        simp only [Site.serve, h]
  | updateAISettings id => exact (reply_untouched (by decide)).trans aiSettings_refused
  | createTag => exact (reply_untouched (by decide)).trans createTag_handler_refused
  | updateTag id => exact (reply_untouched (by decide)).trans updateTag_refused
  | createTemplate => exact (reply_untouched (by decide)).trans createTemplate_refused
  | updateTemplate id => exact (reply_untouched (by decide)).trans updateTemplate_refused
  | createAdmin => exact (reply_untouched (by decide)).trans createAdmin_handler_refused
  | updateAdmin id => exact (reply_untouched (by decide)).trans updateAdmin_refused

/--
**An invalid body changes nothing exactly if something stops the request**, at every
endpoint.

The decoder lets some invalid bodies through, as values that the handler then takes for others;
`untouched_iff` goes through the endpoints, and `Stops` says of each what can still refuse them.
-/
theorem invalid_untouched_iff (env : ApiEnv) (s : Site) (body : Text) (e : Endpoint) :
    (Invalid e body → Untouched env s body e) ↔ (Invalid e body → Stops env s body e) := by
  rw [untouched_iff]

/-! ## What is caught, and what is not -/

/-- The endpoint decodes into a struct, and looks at the error. -/
def Endpoint.heeds : Endpoint → Bool
  | .schedule .. | .decision .. | .editTags .. | .createChannel | .createTag | .updateTag _
  | .createTemplate | .updateTemplate _ | .createAdmin => true
  | .approve .. | .updateChannel _ | .updateAISettings _ | .updateAdmin _ => false

section Caught

variable {env : ApiEnv} {s : Site} {body : Text} {e : Endpoint}

/-- Where the handler heeds the decoder, an error of it stops the request. -/
theorem stops_of_decodeFails (he : e.heeds = true) (h : DecodeFails env body e.fields) :
    Stops env s body e := by
  cases e with
  | editTags p actor => exact .inr (.inl h)
  | updateTag id => exact .inr h
  | updateTemplate id => exact .inr h
  | schedule p actor => exact .inl h
  | decision p actor => exact .inl h
  | createChannel => exact .inl h
  | createTag => exact .inl h
  | createTemplate => exact .inl h
  | createAdmin => exact .inl h
  | _ => exact absurd he (by simp [Endpoint.heeds])

/-- Where the error is heeded, what is malformed from the start is caught, -/
theorem malformed_untouched (he : e.heeds = true) (h : decodeJSON body = none) :
    Untouched env s body e := by
  refine (untouched_iff env s body e).mpr (stops_of_decodeFails he (.inl ?_))
  rw [structBody, h]
  rfl

/-- and so is a field of the wrong type that is not `null` and has no `null` in it. -/
theorem illTyped_untouched {members : Fields} {f : String × FieldType} {m : Text × Json}
    (he : e.heeds = true) (hbody : decodeJSON body = some (.obj members)) (hf : f ∈ e.fields)
    (hm : m ∈ members) (hkey : m.1 = f.1.toList) (hbad : f.2.holds m.2 = false)
    (hnull : m.2 ≠ .null) (hitems : ∀ items, m.2 = .arr items → .null ∉ items) :
    Untouched env s body e := by
  have hstruct : structBody body = (members, true) := by
    rw [structBody, hbody]
    rfl
  refine (untouched_iff env s body e).mpr (stops_of_decodeFails he (.inr ⟨f, hf, ?_⟩))
  intro hdec
  have hmatch : m ∈ Go.matching (structBody body).1 f.1 := by
    rw [hstruct]
    exact List.mem_filter.mpr ⟨hm, by rw [hkey]; simp⟩
  have hok := hdec m hmatch
  rw [decodes_of_holds_false hbad hnull hitems] at hok
  exact absurd hok (by simp)

end Caught

/-- Nothing special. -/
def plainApi : ApiEnv where
  now := 0
  parseTime := fun _ => none
  toLower := Char.toLower
  hashPassword := fun s => s

/-- A pending post. -/
def pendingSite : Site where
  db := {
    posts := Table.empty.insert {
      id := 1, sourceChannelId := 1, sourceMessageId := 5, rawText := none, receivedAt := 0 } }

/-- An approve whose body is no JSON at all approves the post. -/
theorem malformed_approve :
    ¬ ∀ (env : ApiEnv) (s : Site) (body : Text) (e : Endpoint),
      Invalid e body → Untouched env s body e := by
  intro hall
  have hinvalid : Invalid (.approve 1 1) "x".toList := by
    refine ⟨by decide, ?_⟩
    rw [show Json.document "x".toList = none from rfl]
    trivial
  have h := hall plainApi pendingSite "x".toList (.approve 1 1) hinvalid
  exact absurd h.1 (by decide)

end TelegramCms
