import TelegramCms.Lib.PyStr

/-!
# Slugs in the Python API

`_slugify` of `api/routers/tags.py`. `slugify` of the Go API is with the endpoints; the two
lower the case by different mappings of Unicode, which are a parameter here.
-/

namespace TelegramCms

/-- U+0130, the one capital whose full lower-case form is longer than itself. -/
def dottedI : Char := Char.ofNat 0x130

/-- U+0307 -/
def dotAbove : Char := Char.ofNat 0x307

/-- U+212A, the Kelvin sign. -/
def kelvin : Char := Char.ofNat 0x212A

/-- The lower-case mappings of Unicode: the simple one, of a character by itself, and the full
one, which may look at what stands before and after. -/
structure CaseTables where
  simple : Char → Char
  full (before : Text) (c : Char) (after : Text) : Text
  simple_ascii : ∀ c, c.toNat < 128 → simple c = c.toLower
  full_ascii : ∀ {before after} c, c.toNat < 128 → full before c after = [c.toLower]
  simple_dottedI : simple dottedI = 'i'
  full_dottedI : ∀ {before after}, full before dottedI after = ['i', dotAbove]
  simple_kelvin : simple kelvin = 'k'
  full_kelvin : ∀ {before after}, full before kelvin after = ['k']
  /-- These two are the only ones beyond ASCII with a lower-case letter in it. -/
  simple_other : ∀ c, 128 ≤ c.toNat → c ≠ dottedI → c ≠ kelvin → 128 ≤ (simple c).toNat
  full_other : ∀ {before after} c, 128 ≤ c.toNat → c ≠ dottedI → c ≠ kelvin →
    full before c after ≠ [] ∧ ∀ x ∈ full before c after, 128 ≤ x.toNat

/-- The lower-case form of a part of a string that stands between two others. -/
def CaseTables.lowerBetween (u : CaseTables) (before after : Text) : Text → Text
  | [] => []
  | c :: s => u.full before c (s ++ after) ++ u.lowerBetween (before ++ [c]) after s

/-- `str.lower` -/
def CaseTables.lower (u : CaseTables) (s : Text) : Text := u.lowerBetween [] [] s

/-- `[a-z0-9]` -/
def slugClass (c : Char) : Bool := ('a' ≤ c ∧ c ≤ 'z') ∨ ('0' ≤ c ∧ c ≤ '9')

namespace Python

/-- `re.sub(r"[^a-z0-9]+", "-", s)` -/
def subOthers (s : Text) : Text :=
  match s with
  | [] => []
  | c :: r =>
    if slugClass c then c :: subOthers r
    else '-' :: subOthers (r.dropWhile (fun c => !slugClass c))
termination_by s.length
decreasing_by
  · exact Nat.lt_succ_self _
  · exact Nat.lt_succ_of_le (List.length_dropWhile_le _ _)

/-- `_slugify`; `none` is the answer 400. -/
def slugify (u : CaseTables) (value : Text) : Option Text :=
  let slug := Py.trim (fun c => c = '-') (subOthers (u.lower value))
  if slug = [] then none else some (slug.take 64)

end Python

end TelegramCms
