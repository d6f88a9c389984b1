import TelegramCms.Lib.Json
import TelegramCms.Model.Http

/-!
# What the APIs read off a request body

The Go service unmarshals a JSON value into a field of a fixed type, and refuses every
other type; `patch.go` keeps a `PATCH` body as a map from the keys sent to their values.
The Python service has pydantic validate the body, which in its lax mode also converts:
what it takes for an integer or a Boolean besides the JSON types of that name is left
open here.
-/

namespace TelegramCms

/-- The members of an object. -/
abbrev Fields := List (Text × Json)

/-- The value sent for a field, if the field was sent. -/
def Fields.sent (body : Fields) (key : String) : Option Json := Json.last body key.toList

/-- The range of Go's `int64` and of Postgres' `bigint`: from -2^63 up to 2^63. -/
def inInt64 (n : Int) : Prop := -9223372036854775808 ≤ n ∧ n < 9223372036854775808

instance (n : Int) : Decidable (inInt64 n) :=
  inferInstanceAs (Decidable (-9223372036854775808 ≤ n ∧ n < 9223372036854775808))

/-! ## `json.Unmarshal`

`none` is an error. A pointer is `nil` after `null`. -/

namespace Go

/-- into a `*string` -/
def str : Json → Option (Option Text)
  | .null => some none
  | .str s => some (some s)
  | _ => none

/-- into a `*bool` -/
def bool : Json → Option (Option Bool)
  | .null => some none
  | .bool b => some (some b)
  | _ => none

/-- into a `*int64` -/
def int : Json → Option (Option Int)
  | .null => some none
  | .int n => if inInt64 n then some (some n) else none
  | _ => none

/-- An element of a `[]int64`; `null` leaves the zero value in its place. -/
def item (j : Json) : Option Int := (int j).map (·.getD 0)

/-- into a `[]int64`, which is `nil` after `null` -/
def ints : Json → Option (Option (List Int))
  | .null => some none
  | .arr items => (items.mapM item).map some
  | _ => none

end Go

/-! ## The body of a request -/

/-- How deeply nested a document `encoding/json` reads. -/
def maxNestingDepth : Nat := 10000

/-- What `decodeJSON` reads off a body: its first value, whatever follows. An empty body is
an empty object; `none` is a syntax error. -/
def decodeJSON (body : Text) : Option Json :=
  match Json.read maxNestingDepth body with
  | .empty => some (.obj [])
  | .malformed => none
  | .value j _ => some j

/-- The members of a body that is decoded into a map or a struct. A body that is not JSON
(`none`), or not an object, is an error; `null` is none at all. -/
def decodePatchBody : Option Json → Option Fields
  | some (.obj members) => some members
  | some .null => some []
  | _ => none

namespace Go

/-! ### Into a struct

A key is matched up to case. Every member with a field's key is decoded into it, in order;
a type error is kept, leaves the field at what was there before (a `nil` pointer at a zero
value), and decoding goes on. A decoding gives the field's value, and whether no error was
kept. -/

/-- `foldName`: the only letters outside ASCII that fold into it are two. -/
def foldName (key : Text) : Text :=
  key.map fun c =>
    if c.toNat = 0x212A then 'K' else if c.toNat = 0x17F then 'S' else c.toUpper

section Field

variable {α : Type} (v : α) (j : Json)

/-- into a `string` -/
def intoStr (v : Text) : Text × Bool :=
  match str j with
  | some x => (x.getD v, true)
  | none => (v, false)

/-- into a pointer -/
def intoPtr (read : Json → Option (Option α)) (zero : α) (v : Option α) : Option α × Bool :=
  match read j with
  | some x => (x, true)
  | none => (some (v.getD zero), false)

/-- into a `[]int64` -/
def intoInts (v : List Int) : List Int × Bool :=
  match j with
  | .null => ([], true)
  | .arr items => (items.map (fun i => (item i).getD 0), items.all (fun i => (item i).isSome))
  | _ => (v, false)

/-- into a `*[]int64` -/
def intoIntsPtr (v : Option (List Int)) : Option (List Int) × Bool :=
  match j with
  | .null => (none, true)
  | j => ((some (intoInts j (v.getD [])).1), (intoInts j (v.getD [])).2)

/-- The members decoded into the field `key`. -/
def matching (body : Fields) (key : String) : Fields :=
  body.filter (fun m => foldName m.1 = foldName key.toList)

/-- Decode the field `key` of a struct that holds `v` at first. -/
def field (into : Json → α → α × Bool) (body : Fields) (key : String) : α × Bool :=
  (matching body key).foldl (fun x m => ((into m.2 x.1).1, x.2 && (into m.2 x.1).2)) (v, true)

end Field

end Go

/-- `b.addStr`, `b.addBool`, `b.addInt`: the field is assigned if it was sent and could be
unmarshalled. The error is returned, and every caller drops it. -/
def Fields.add {α : Type} (body : Fields) (read : Json → Option α) (key : String) : Option α :=
  (body.sent key).bind read

/-! ## Pydantic -/

/-- What pydantic takes for an integer and for a Boolean. -/
structure Pydantic where
  int : Json → Option Int
  bool : Json → Option Bool
  /-- An integer is itself. -/
  int_int : ∀ n, inInt64 n → int (.int n) = some n
  /-- `null` is no integer. -/
  int_null : int .null = none
  /-- A Boolean is itself. -/
  bool_bool : ∀ b, bool (.bool b) = some b

namespace Pydantic

variable (P : Pydantic)

/-- The mode without conversions. -/
def strict : Pydantic where
  int := fun
    | .int n => some n
    | _ => none
  bool := fun
    | .bool b => some b
    | _ => none
  int_int := fun _ _ => rfl
  int_null := rfl
  bool_bool := fun _ => rfl

/-- `str` -/
def str : Json → Option Text
  | .str s => some s
  | _ => none

/-- An enumeration whose values are `values`. -/
def enum (values : List Text) : Json → Option Text
  | .str s => if s ∈ values then some s else none
  | _ => none

/-- `list[int]` -/
def ints : Json → Option (List Int)
  | .arr items => items.mapM P.int
  | _ => none

/-- `T | None` -/
def orNone {α : Type} (read : Json → Option α) : Json → Option (Option α)
  | .null => some none
  | j => (read j).map some

end Pydantic

/-- A field of a model with default `None`, as `model_dump(exclude_unset=True)` gives it:
absent if it was not sent. The outer `none` is a validation error. -/
def Fields.validate {α : Type} (body : Fields) (read : Json → Option α) (key : String) :
    Option (Option (Option α)) :=
  match body.sent key with
  | none => some none
  | some j => (Pydantic.orNone read j).map some

end TelegramCms
