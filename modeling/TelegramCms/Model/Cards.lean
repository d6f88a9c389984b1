import Mathlib.Data.Char
import Mathlib.Data.List.Lex
import TelegramCms.Lib.Html
import TelegramCms.Model.Normalize

/-!
# What the bot tells the editors

The texts that the bot sends to the editor group under the HTML parse mode:
`render_draft_text` of `bot/cards.py`, the alert of `_alert_failure`, and the answer to
`/queue`.
-/

namespace TelegramCms

/-- `hd.quote`: `html.escape(s, quote=False)` -/
def hdQuote : Html.Escaper where
  name c :=
    if c = '&' then some ['a', 'm', 'p']
    else if c = '<' then some ['l', 't']
    else if c = '>' then some ['g', 't']
    else none
  charOf_name := by
    intro c n h
    split at h
    · rename_i hc; obtain rfl := Option.some.inj h; rw [hc]; rfl
    · split at h
      · rename_i hc; obtain rfl := Option.some.inj h; rw [hc]; rfl
      · split at h
        · rename_i hc; obtain rfl := Option.some.inj h; rw [hc]; rfl
        · exact absurd h (by simp)
  special := by
    intro c h
    split at h
    · exact absurd h (by simp)
    · split at h
      · exact absurd h (by simp)
      · exact ⟨‹_›, ‹_›⟩

/-- `post.normalized_text or post.raw_text or "(empty)"` -/
def bodyText (post : Post) : Text :=
  (Py.orElse post.normalizedText (Py.orElse post.rawText (some "(empty)".toList))).getD []

/-! ## The draft card -/

def previewLimit : Nat := 900

/-- The body of a card, cut to `PREVIEW_LIMIT`. -/
def cardPreview (body : Text) : Text :=
  if previewLimit < body.length then body.take previewLimit ++ ['…'] else body

/-- The body as the card shows it. -/
def cardBody (post : Post) : Text := hdQuote.escape (cardPreview (bodyText post))

def stateBadge : PostState → Text
  | .pending => "⏳ PENDING".toList
  | .approved => "✅ APPROVED".toList
  | .scheduled => "🗓 SCHEDULED".toList
  | .published => "☑️ PUBLISHED".toList
  | .rejected => "🗑 REJECTED".toList
  | .publishFailed => "⚠️ FAILED".toList
  -- not in the table: `post.state.value.upper()`
  | .publishing => "PUBLISHING".toList

def mediaNote (refs : List MediaRef) : Text :=
  if refs.isEmpty then []
  else
    let kinds := (refs.map MediaRef.type).dedup.insertionSort (fun a b => a ≤ b)
    "\n📎 media: ".toList ++ Py.join ", ".toList kinds
      ++ (if refs.any MediaRef.omitted then " (omitted: too large)".toList else [])

/-- `", ".join(t.label for t in tags) or "—"` -/
def tagLine (tags : List Tag) : Text :=
  match Py.join ", ".toList (tags.map Tag.label) with
  | [] => "—".toList
  | s => s

/-- `strftime` is `t.strftime("%Y-%m-%d %H:%M UTC")`. -/
def renderDraftText (strftime : Time → Text) (post : Post) (channel : SourceChannel)
    (tags : List Tag) : Text :=
  Py.join ['\n']
    (["<b>".toList ++ stateBadge post.state ++ "</b>  ·  <b>".toList
        ++ hdQuote.escape (sourceLabel channel) ++ "</b>".toList,
      "<i>post #".toList ++ Nat.toDigits 10 post.id ++ "</i>  ·  src msg ".toList
        ++ Nat.toDigits 10 post.sourceMessageId,
      "tags: ".toList ++ hdQuote.escape (tagLine tags) ++ mediaNote post.rawMediaRefs,
      "—".toList,
      cardBody post]
    ++ match post.scheduledFor with
      | none => []
      | some t => ["\n🗓 scheduled for ".toList ++ hdQuote.escape (strftime t)])

/-! ## Alerts and the queue -/

/-- `error[:300]` -/
def alertError (error : Text) : Text := error.take 300

def alertText (post : Post) (error : Text) : Text :=
  "⚠️ <b>Publish failed</b> for post #".toList ++ Nat.toDigits 10 post.id ++ "\n<code>".toList
    ++ alertError error ++ "</code>".toList

/-- `body[:80].replace("\n", " ")` -/
def queuePreview (body : Text) : Text :=
  (body.take 80).map (fun c => if c = '\n' then ' ' else c)

/-- The answer to `/queue`: the five pending posts that were received last. -/
def queueText (db : Db) : Text :=
  let pending := db.posts.rows.filter (fun p => p.state = .pending)
  let recent := (pending.insertionSort (fun p q => q.receivedAt ≤ p.receivedAt)).take 5
  Py.join ['\n']
    (("<b>Pending queue</b> (".toList ++ Nat.toDigits 10 pending.length ++ " total)".toList) ::
    recent.map (fun p =>
      "• #".toList ++ Nat.toDigits 10 p.id ++ ": ".toList ++ queuePreview (bodyText p)))

end TelegramCms
