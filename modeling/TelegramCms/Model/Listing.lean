import Mathlib.Algebra.Group.Nat.Defs
import TelegramCms.Lib.Paging
import TelegramCms.Model.Http

/-!
# Listings

`handleListQueue` and `handleListEvents` of `apigo/`: check the parameters of the request,
count the matching rows, select one page of them. The two are one function, but for the
parameters they filter by and the bounds of the page size (`Listing`).
-/

namespace TelegramCms

/-! ## Parameters -/

/-- `url.Values`: the parameters of a request, in their order. -/
abbrev Values := List (String × Text)

/-- `q.Get(key)`: the first value, or the empty string. -/
def Values.get (q : Values) (key : String) : Text :=
  ((q.find? (fun v => v.1 = key)).map Prod.snd).getD []

/-- `q[key]` -/
def Values.all (q : Values) (key : String) : List Text :=
  (q.filter (fun v => v.1 = key)).map Prod.snd

/-- The value of a non-empty string of decimal digits. -/
def digitsValue (s : Text) : Option Nat :=
  if s ≠ [] ∧ s.all Char.isDigit then some (Nat.ofDigitChars 10 s 0) else none

/-- The largest `int64` is one less. -/
def int64Bound : Nat := 2 ^ 63

/-- `strconv.ParseInt(s, 10, 64)`, which `strconv.Atoi` comes to where `int` has 64 bits. -/
def parseInt : Text → Option Int
  | '-' :: s => (digitsValue s).bind (fun n => if n ≤ int64Bound then some (-(n : Int)) else none)
  | '+' :: s => (digitsValue s).bind (fun n => if n < int64Bound then some (n : Int) else none)
  | s => (digitsValue s).bind (fun n => if n < int64Bound then some (n : Int) else none)

/-! ## The database -/

/-- What the database answers to the two queries of a request; `none` is an error. -/
structure Selection (ρ : Type) where
  /-- `SELECT count(id) … WHERE p` -/
  count : (ρ → Bool) → Option Nat
  /-- `SELECT … WHERE p ORDER BY … DESC LIMIT … OFFSET …` -/
  select : (ρ → Bool) → (limit offset : Int) → Option (List ρ)

/-- The answers for a table with the rows `rows` that is sorted by `key`. Rows with equal
keys may come in any order, in each query in another one. -/
structure Selection.Answers {ρ : Type} (key : ρ → Time) (rows : List ρ) (db : Selection ρ) :
    Prop where
  count : ∀ p, db.count p = some (rows.countP p)
  select : ∀ p (limit offset : Nat), ∃ order, Paging.Ordered key (rows.filter p) order
    ∧ db.select p limit offset = some ((order.drop offset).take limit)

/-! ## The handlers -/

structure Paginated (ρ : Type) where
  items : List ρ
  total : Nat
  limit : Int
  offset : Int

/-- What the two handlers differ in. -/
structure Listing (ρ : Type) where
  /-- The condition of the `WHERE` clause, if the parameters it is made from are valid. -/
  filter : Values → Except HttpAnswer (ρ → Bool)
  defaultLimit : Int
  maxLimit : Int
  limitError : String

namespace Listing

variable {ρ : Type} (listing : Listing ρ) (db : Selection ρ) (q : Values)

def limit : Except HttpAnswer Int :=
  if q.get "limit" = [] then .ok listing.defaultLimit
  else
    match parseInt (q.get "limit") with
    | none => .error (.error 422 listing.limitError)
    | some n => if listing.maxLimit < n then .error (.error 422 listing.limitError) else .ok n

/-- An offset that is no number is as good as none. -/
def offset : Int := (parseInt (q.get "offset")).getD 0

def handle : Except HttpAnswer (Paginated ρ) := do
  let p ← listing.filter q
  let limit ← listing.limit q
  let total ← (db.count p).elim (.error dbError) .ok
  let items ← (db.select p limit (offset q)).elim (.error dbError) .ok
  return ⟨items, total, limit, offset q⟩

end Listing

/-- `state::text` -/
def PostState.value : PostState → Text
  | .pending => "pending".toList
  | .approved => "approved".toList
  | .scheduled => "scheduled".toList
  | .published => "published".toList
  | .rejected => "rejected".toList
  | .publishing => "publishing".toList
  | .publishFailed => "publish_failed".toList

/-- `postStates` -/
def postStates : List Text :=
  ["pending".toList, "approved".toList, "scheduled".toList, "published".toList,
    "rejected".toList, "publishing".toList, "publish_failed".toList]

/-- `action::text` -/
def EventAction.value : EventAction → Text
  | .ingested => "ingested".toList
  | .edited => "edited".toList
  | .approved => "approved".toList
  | .rejected => "rejected".toList
  | .scheduled => "scheduled".toList
  | .published => "published".toList
  | .publishFailed => "publish_failed".toList
  | .duplicate => "duplicate".toList
  | .mediaOmitted => "media_omitted".toList
  | .draftPosted => "draft_posted".toList
  | .aiTransformed => "ai_transformed".toList
  | .aiFailed => "ai_failed".toList

/-- `eventActions` -/
def eventActions : List Text :=
  ["ingested".toList, "edited".toList, "approved".toList, "rejected".toList,
    "scheduled".toList, "published".toList, "publish_failed".toList, "duplicate".toList,
    "media_omitted".toList, "draft_posted".toList, "ai_transformed".toList, "ai_failed".toList]

/-- A row of `post_events`, with its key. -/
structure PostEventRow where
  id : Nat
  event : PostEvent
deriving DecidableEq

/-- The condition on `state`; without the parameter every post will do. -/
def queueFilter (q : Values) : Except HttpAnswer (Post → Bool) :=
  if (q.all "state").all (fun s => s ∈ postStates) then
    .ok (fun post => (q.all "state").isEmpty || post.state.value ∈ q.all "state")
  else .error (.error 422 "invalid state")

def postIdFilter (q : Values) : Except HttpAnswer (PostEventRow → Bool) :=
  if q.get "post_id" = [] then .ok (fun _ => true)
  else
    match parseInt (q.get "post_id") with
    | none => .error (.error 422 "invalid post_id")
    | some pid => .ok (fun row => (row.event.postId : Int) = pid)

def actionFilter (q : Values) : Except HttpAnswer (PostEventRow → Bool) :=
  if (q.all "action").all (fun s => s ∈ eventActions) then
    .ok (fun row => (q.all "action").isEmpty || row.event.action.value ∈ q.all "action")
  else .error (.error 422 "invalid action")

def auditFilter (q : Values) : Except HttpAnswer (PostEventRow → Bool) := do
  let byPost ← postIdFilter q
  let byAction ← actionFilter q
  return fun row => byPost row && byAction row

def queueListing : Listing Post where
  filter := queueFilter
  defaultLimit := 50
  maxLimit := 200
  limitError := "limit must be <= 200"

def auditListing : Listing PostEventRow where
  filter := auditFilter
  defaultLimit := 100
  maxLimit := 500
  limitError := "limit must be <= 500"

/-- `GET /queue` -/
def handleListQueue (db : Selection Post) (q : Values) : Except HttpAnswer (Paginated Post) :=
  queueListing.handle db q

/-- `GET /audit` -/
def handleListEvents (db : Selection PostEventRow) (q : Values) :
    Except HttpAnswer (Paginated PostEventRow) :=
  auditListing.handle db q

end TelegramCms
