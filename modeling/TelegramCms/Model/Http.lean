import TelegramCms.Model.Schema

/-!
# Answers of the back-office APIs

What a handler of `apigo/` (`httpx.go`) or `api/routers/` answers: a status and, for an
error, its detail.
-/

namespace TelegramCms

structure HttpAnswer where
  status : Nat
  detail : Option Text := none
deriving DecidableEq, Repr

/-- `writeError(w, status, detail)` -/
def HttpAnswer.error (status : Nat) (detail : String) : HttpAnswer := ⟨status, some detail.toList⟩

/-- The request was refused as one the client got wrong. -/
def HttpAnswer.refused (a : HttpAnswer) : Prop := 400 ≤ a.status ∧ a.status < 500

instance (a : HttpAnswer) : Decidable a.refused :=
  inferInstanceAs (Decidable (400 ≤ a.status ∧ a.status < 500))

def dbError : HttpAnswer := .error 500 "db error"

end TelegramCms
