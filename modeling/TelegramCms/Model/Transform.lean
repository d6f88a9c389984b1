import TelegramCms.Model.Normalize

/-!
# The replies of the LLM

`transform_text` of `shared/transform.py` and `transformText` of `apigo/aiclient.go`, which
mirrors it for the test endpoint: what either makes of what the chat-completions API
answers. The request they send is left out.
-/

namespace TelegramCms

structure ChatUsage where
  promptTokens : Int
  completionTokens : Int
deriving DecidableEq, Repr

/-- A chat-completions reply. -/
structure ChatReply where
  model : Option Text := none
  /-- The `message.content` of each choice. -/
  choices : List (Option Text)
  usage : Option ChatUsage := none
deriving DecidableEq, Repr

/-- `message.content` of the first choice. -/
def ChatReply.content (r : ChatReply) : Option Text := r.choices.head?.join

/-- What the two functions read of the settings. -/
structure AiSettings where
  apiKey : Text
  model : Text

def emptyResponse : Text := "LLM returned an empty response".toList

def noApiKey : Text := "AI_API_KEY is not configured".toList

def callFailed (e : Text) : Text := "LLM API call failed: ".toList ++ e

/-- `AITransformError(message)` -/
def aiTransformError (message : Text) : PyError := ⟨.other, message⟩

def ChatReply.promptTokens (r : ChatReply) : Int := (r.usage.map ChatUsage.promptTokens).getD 0

def ChatReply.completionTokens (r : ChatReply) : Int :=
  (r.usage.map ChatUsage.completionTokens).getD 0

section Python

variable (settings : AiSettings) (mode : AIMode) (model : Option Text)

/-- `model or settings.ai_model` -/
def effectiveModel : Text := (Py.orElse model (some settings.model)).getD []

/-- `transform_text`. `call` is what the call of the API comes to: an exception, as a string,
or a reply. -/
def transformText (rawText : Text) (call : Except Text ChatReply) (latencyMs : Int) :
    Except PyError TransformResult :=
  if mode = .off then .ok ⟨rawText, "none".toList, 0, 0, 0⟩
  else if settings.apiKey = [] then .error (aiTransformError noApiKey)
  else
    match call with
    | .error e => .error (aiTransformError (callFailed e))
    | .ok r =>
      match r.content with
      | none | some [] => .error (aiTransformError emptyResponse)
      | some content =>
        .ok {
          text := Py.strip content
          model := (Py.orElse r.model (some (effectiveModel settings model))).getD []
          promptTokens := r.promptTokens
          completionTokens := r.completionTokens
          latencyMs := latencyMs }

/-- What the `normalize` job is answered when it calls `transform_text`. -/
def transformReply : Except PyError TransformResult → Reply
  | .ok r => .transformed r
  | .error e => .raise e

end Python

namespace Go

/-- `unicode.IsSpace` -/
def isSpace (c : Char) : Bool :=
  let n := c.toNat
  (9 ≤ n && n ≤ 13) || n == 32 || n == 0x85 || n == 0xA0 || n == 0x1680
    || (0x2000 ≤ n && n ≤ 0x200A) || n == 0x2028 || n == 0x2029 || n == 0x202F
    || n == 0x205F || n == 0x3000

/-- `strings.TrimSpace` -/
def trimSpace (s : Text) : Text := Py.trim isSpace s

/-- `transformText`. A string that is null or left out is decoded as the empty one. -/
def transformText (cfg : AiSettings) (mode : AIMode) (text : Text) (call : Except Text ChatReply)
    (latency : Int) : Except Text TransformResult :=
  if mode = .off then .ok ⟨text, "none".toList, 0, 0, 0⟩
  else if cfg.apiKey = [] then .error noApiKey
  else
    match call with
    | .error e => .error (callFailed e)
    | .ok parsed =>
      let content := parsed.content.getD []
      if parsed.choices.length = 0 ∨ trimSpace content = [] then .error emptyResponse
      else
        .ok {
          text := trimSpace content
          model := if parsed.model.getD [] = [] then cfg.model else parsed.model.getD []
          promptTokens := parsed.promptTokens
          completionTokens := parsed.completionTokens
          latencyMs := latency }

end Go

end TelegramCms
