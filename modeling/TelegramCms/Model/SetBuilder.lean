import TelegramCms.Lib.SqlUpdate
import TelegramCms.Model.Endpoints

/-!
# The statement of a `PATCH`

`setBuilder` of `apigo/patch.go`: the assignments of an `UPDATE` as text, and beside them
the arguments that the text refers to by number. The handlers of `PATCH /admins`, `/tags`,
`/templates`, `/source-channels` and its AI settings fill one, append the id of the row and
hand both to the driver.
-/

namespace TelegramCms

structure SetBuilder (α : Type) where
  sets : List Text := []
  args : List α := []

namespace SetBuilder

variable {α : Type} (b : SetBuilder α)

def add (col : Text) (val : α) : SetBuilder α :=
  let args := b.args ++ [val]
  { sets := b.sets ++ [col ++ "=$".toList ++ Nat.toDigits 10 args.length], args := args }

/-- A literal assignment, with no argument. -/
def addRaw (expr : Text) : SetBuilder α := { b with sets := b.sets ++ [expr] }

def empty : Bool := b.sets.isEmpty

def clause : Text := Py.join ", ".toList b.sets

/-- The text of the `UPDATE` that the handlers build, and its arguments. -/
def update (table cols : Text) (id : α) : Text × List α :=
  ("UPDATE ".toList ++ table ++ " SET ".toList ++ b.clause
      ++ " WHERE id=$".toList ++ Nat.toDigits 10 (b.args.length + 1) ++ " RETURNING ".toList ++ cols,
    b.args ++ [id])

end SetBuilder

/-! ## Calls -/

/-- A name that SQL takes unquoted. -/
structure Ident where
  text : Text
  valid : text.all (fun c => c.isAlphanum || c == '_') = true
deriving DecidableEq

def ident (s : String)
    (h : s.toList.all (fun c => c.isAlphanum || c == '_') = true := by decide) : Ident :=
  ⟨s.toList, h⟩

/-- What `addRaw` is called with: a column and an expression without parameters. -/
structure RawAssignment where
  column : Ident
  expr : Text
  plain : Sql.Plain expr
  no_param : expr.head? ≠ some '$'

def RawAssignment.text (r : RawAssignment) : Text := r.column.text ++ '=' :: r.expr

inductive SetCall (α : Type) where
  | add (col : Ident) (val : α)
  | addRaw (raw : RawAssignment)

section Calls

variable {α : Type}

def SetBuilder.call (b : SetBuilder α) : SetCall α → SetBuilder α
  | .add col val => b.add col.text val
  | .addRaw raw => b.addRaw raw.text

/-- The builder after these calls. -/
def SetBuilder.calls (cs : List (SetCall α)) : SetBuilder α := cs.foldl SetBuilder.call {}

/-- What the call is there for. -/
def SetCall.meaning : SetCall α → Text × Sql.Source α
  | .add col val => (col.text, .arg val)
  | .addRaw raw => (raw.column.text, .expr raw.expr)

end Calls

/-! ## The calls of the handlers -/

/-- A value that is bound to a parameter. -/
inductive SqlValue where
  | null
  | text (s : Text)
  | bool (b : Bool)
  | int (n : Int)
  | ints (ns : List Int)
deriving DecidableEq

def SqlValue.ofText : Option Text → SqlValue
  | none => .null
  | some s => .text s

def SqlValue.ofBool : Option Bool → SqlValue
  | none => .null
  | some b => .bool b

def SqlValue.ofInt : Option Int → SqlValue
  | none => .null
  | some n => .int n

def SqlValue.ofInts : Option (List Int) → SqlValue
  | none => .null
  | some ns => .ints ns

namespace Fields

variable (body : Fields)

/-- The field is added if it was sent and can be unmarshalled; the error is returned, and every
caller drops it. -/
def addField {β : Type} (read : Json → Option β) (value : β → SqlValue) (key : String)
    (col : Ident) : List (SetCall SqlValue) :=
  ((body.add read key).map (fun v => .add col (value v))).toList

def addStr : String → Ident → List (SetCall SqlValue) := body.addField Go.str .ofText

def addBool : String → Ident → List (SetCall SqlValue) := body.addField Go.bool .ofBool

def addInt : String → Ident → List (SetCall SqlValue) := body.addField Go.int .ofInt

/-- The calls of `handleUpdateAISettings`. -/
def aiSettingsCalls : List (SetCall SqlValue) :=
  body.addBool "ai_enabled" (ident "ai_enabled")
    ++ body.addStr "ai_mode" (ident "ai_mode")
    ++ body.addStr "ai_target_language" (ident "ai_target_language")
    ++ body.addStr "ai_tone_prompt" (ident "ai_tone_prompt")
    ++ body.addStr "ai_custom_system_prompt" (ident "ai_custom_system_prompt")
    ++ body.addBool "watermark_enabled" (ident "watermark_enabled")
    ++ body.addStr "watermark_text" (ident "watermark_text")
    ++ body.addBool "strip_source_tags" (ident "strip_source_tags")

/-- The calls of `handleUpdateChannel`. -/
def channelCalls : List (SetCall SqlValue) :=
  body.addStr "title" (ident "title")
    ++ body.addStr "username" (ident "username")
    ++ body.addBool "ingestion_enabled" (ident "ingestion_enabled")
    ++ body.addStr "policy" (ident "policy")
    ++ body.addInt "normalization_template_id" (ident "normalization_template_id")
    ++ body.addInt "max_media_size_bytes" (ident "max_media_size_bytes")
    ++ body.addStr "source_label" (ident "source_label")
    ++ body.aiSettingsCalls
    ++ ((body.add Go.ints "default_tag_ids").map (fun ids =>
        .add (ident "default_tag_ids") (.ints (ids.getD [])))).toList

end Fields

/-- The calls of `handleUpdateTag`. -/
def tagCalls (label color : Option Text) : List (SetCall SqlValue) :=
  (label.map (fun v => .add (ident "label") (.text v))).toList
    ++ (color.map (fun v => .add (ident "color") (.text v))).toList

/-- The calls of `handleUpdateTemplate`. -/
def templateCalls (name body : Option Text) : List (SetCall SqlValue) :=
  (name.map (fun v => .add (ident "name") (.text v))).toList
    ++ (body.map (fun v => .add (ident "body") (.text v))).toList

def Role.value : Role → Text
  | .editor => "editor".toList
  | .admin => "admin".toList
  | .superAdmin => "super_admin".toList

/-- `disabled_at=now()` -/
def disabledAtNow : RawAssignment := ⟨ident "disabled_at", "now()".toList, by decide, by decide⟩

/-- `disabled_at=NULL` -/
def disabledAtNull : RawAssignment := ⟨ident "disabled_at", "NULL".toList, by decide, by decide⟩

/-- The calls of `handleUpdateAdmin`. -/
def AdminRequest.calls (req : AdminRequest) (adm : Admin) : List (SetCall SqlValue) :=
  (req.body.password.map (fun hash => .add (ident "password_hash") (.text hash))).toList
    ++ ((req.newRole adm).map (fun role => .add (ident "role") (.text role.value))).toList
    ++ (req.body.disabled.map (fun d => .addRaw (if d then disabledAtNow else disabledAtNull))).toList
    ++ (req.body.tgUserId.map (fun v => .add (ident "tg_user_id") (.ofInt v))).toList

end TelegramCms
