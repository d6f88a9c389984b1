import Mathlib.Data.List.Sort
import TelegramCms.Model.Schema

/-!
# Text, tags and fingerprints

The pure string functions: `shared/normalize.py`, `shared/dedupe.py`, and the
watermark half of `shared/transform.py`.

What they call and do not define is the environment `Env`: SHA-256, the Unicode tables
behind `str.lower` and `\w`, and Jinja2.
-/

namespace TelegramCms

/-- The exception classes the code tells apart. -/
inductive ErrorKind where
  | typeError | integrityError | staleDataError | unmappedInstanceError | runtimeError
  | telegramAPIError | other
deriving DecidableEq, Repr

/-- An exception: its class and `str(exc)`. -/
structure PyError where
  kind : ErrorKind
  message : Text := []
deriving DecidableEq, Repr

/-- The settings the modelled code reads, with the defaults of `shared/config.py`. -/
structure Settings where
  dedupeLookbackDays : Int := 7
  /-- `publish_spacing_seconds`, in microseconds. -/
  publishSpacing : Nat := 2_000_000
  destinationChannelId : Int := 0
  editorGroupId : Int := 0
  mediaDir : Text := "/media".toList
  mediaRetentionDays : Int := 30
  mediaMaxSizeDefault : Nat := 2_147_483_648
  aiEnabled : Bool := false

structure Env where
  settings : Settings
  /-- `hashlib.sha256(s.encode("utf-8")).hexdigest()` -/
  sha256 : Text → Digest
  /-- `str.lower` -/
  lower : Text → Text
  /-- The class `\w` of a Unicode pattern. -/
  isWord : Char → Bool
  /-- `_env.from_string(body).render(text=…, source_label=…, tags=…)` -/
  render : (body text sourceLabel tags : Text) → Except PyError Text

variable (env : Env)

/-! ## Watermark -/

/-- `re.sub(mark + r"\w+", "", s)`. In a tag, word characters are dropped. -/
def subTag (mark : Char) (inTag : Bool) : Text → Text
  | [] => []
  | c :: cs =>
    if inTag && env.isWord c then subTag mark true cs
    else if c == mark && (cs.head?.any env.isWord) then subTag mark true cs
    else c :: subTag mark false cs

/-- A match of `https?://t\.me/\S+` starts here. -/
def startsTmeLink (s : Text) : Bool :=
  ["https://t.me/".toList, "http://t.me/".toList].any (fun lit =>
    lit.isPrefixOf s && ((s.drop lit.length).head?.any (fun c => !Py.isSpace c)))

/-- `re.sub(r"https?://t\.me/\S+", "", s)`. The pattern matches no whitespace, so a match
reaches to the end of the run of non-space characters it starts in. -/
def subTmeLink (inLink : Bool) : Text → Text
  | [] => []
  | c :: cs =>
    if inLink && !Py.isSpace c then subTmeLink true cs
    else if startsTmeLink (c :: cs) then subTmeLink true cs
    else c :: subTmeLink false cs

/-- `re.sub(r"\n{3,}", "\n\n", s)`, after `seen` newlines were copied in a row. -/
def collapseNewlines (seen : Nat) : Text → Text
  | [] => []
  | c :: cs =>
    if c = '\n' then
      if 2 ≤ seen then collapseNewlines seen cs else c :: collapseNewlines (seen + 1) cs
    else c :: collapseNewlines 0 cs

/-- The `strip_source_tags` branch: the three `_TAG_PATTERNS` in order, then cleaning. -/
def stripTags (text : Text) : Text :=
  Py.strip (collapseNewlines 0
    (subTmeLink false (subTag env '@' false (subTag env '#' false text))))

def applyWatermark (text : Text) (watermarkText : Option Text) (stripSourceTags : Bool) : Text :=
  let result := if stripSourceTags then stripTags env text else text
  match watermarkText with
  | some (c :: cs) => Py.rstrip result ++ "\n\n".toList ++ (c :: cs)
  | _ => result

/-- A non-empty watermark is what the result ends with. -/
theorem applyWatermark_suffix {w : Text} (hw : w ≠ []) (text : Text) (b : Bool) :
    w <:+ applyWatermark env text (some w) b := by
  cases w with
  | nil => exact absurd rfl hw
  | cons c cs => exact List.suffix_append _ _

/-! ## Templates -/

def defaultTemplateBody : Text :=
  "{% if tags %}{{ tags }}\n{% endif %}{{ text }}\n\n— {{ source_label }}".toList

def renderTemplate (body text sourceLabel tags : Text) : Except PyError Text :=
  (env.render body text sourceLabel tags).map Py.strip

/-- `['News', 'Tech'] -> '#news #tech'` -/
def formatTagString (labels : List Text) : Text :=
  Py.join [' '] ((labels.filter (fun l => !l.isEmpty)).map (fun l =>
    '#' :: (env.lower l).map (fun c => if c = ' ' then '_' else c)))

def resolveTagLabels (tags : Table Nat Tag Tag.id) (tagIds : List Nat) : List Text :=
  if tagIds.isEmpty then []
  else (tags.rows.filter (fun t => t.id ∈ tagIds)).map Tag.label

def normalizeText (tags : Table Nat Tag Tag.id) (templateBody rawText sourceLabel : Text)
    (tagIds : List Nat) : Except PyError Text :=
  renderTemplate env templateBody rawText sourceLabel
    (formatTagString env (resolveTagLabels tags tagIds))

/-! ## Fingerprints -/

/-- Normalize whitespace, lower the case, then hash. -/
def textFingerprint (text : Option Text) : Digest :=
  env.sha256 (env.lower (Py.strip (Py.join [' '] (Py.split (text.getD [])))))

/-- The sort key `(type, size or 0)`, compared as Python compares tuples. -/
def refLe (a b : MediaRef) : Prop :=
  a.type < b.type ∨ (a.type = b.type ∧ a.size.getD 0 ≤ b.size.getD 0)

instance : DecidableRel refLe := fun a b =>
  inferInstanceAs (Decidable (a.type < b.type ∨ (a.type = b.type ∧ a.size.getD 0 ≤ b.size.getD 0)))

def refPart (ref : MediaRef) : Text :=
  ref.type ++ [':'] ++ Nat.toDigits 10 (ref.size.getD 0) ++ [':'] ++ ref.mime.getD []

def mediaFingerprint (mediaRefs : List MediaRef) : Digest :=
  env.sha256 (Py.join ['|'] ((mediaRefs.insertionSort refLe).map refPart))

def computeDedupeHash (text : Option Text) (mediaRefs : List MediaRef) : Digest :=
  env.sha256 ((textFingerprint env text).hex ++ [':'] ++ (mediaFingerprint env mediaRefs).hex)

/-! ## An instance of the environment

Answers of the libraries for ASCII text, the default template, and the digests that a
post with the text `hi` and no media needs. -/

def digestOfHi : Digest :=
  ⟨"8f434346648f6b96df89dda901c5176b10a6d83961dd3c1ac88b59b2dc327aa4".toList, by decide⟩

def digestOfEmpty : Digest :=
  ⟨"e3b0c44298fc1c149afbf4c8996fb92427ae41e4649b934ca495991b7852b855".toList, by decide⟩

def digestOfPair : Digest :=
  ⟨"4efec9ffc66db1a9f8f944278e85fcb18964344583a5f487358dbc0c8b6dff8c".toList, by decide⟩

def sampleSha256 (s : Text) : Digest :=
  if s = "hi".toList then digestOfHi
  else if s = digestOfHi.hex ++ [':'] ++ digestOfEmpty.hex then digestOfPair
  else digestOfEmpty

/-- The default template. -/
def sampleRender (_ text sourceLabel tags : Text) : Except PyError Text :=
  .ok ((if tags.isEmpty then [] else tags ++ ['\n']) ++ text ++ "\n\n— ".toList ++ sourceLabel)

def sampleEnv (settings : Settings) : Env where
  settings := settings
  sha256 := sampleSha256
  lower := List.map Char.toLower
  isWord := fun c => c.isAlphanum || c == '_'
  render := sampleRender

def sampleChannel : SourceChannel where
  id := 1
  telegramChannelId := -1001
  title := "News".toList

def autoChannel : SourceChannel := { sampleChannel with policy := .auto }

example : computeDedupeHash (sampleEnv {}) (some "Hi ".toList) [] = digestOfPair := by decide

end TelegramCms
