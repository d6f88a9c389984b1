import TelegramCms.Proof.Parts

/-!
# What `_send_post` delivers

`Returns` is a call of `_send_post` that gets through: the Bot API answers each of its calls
with a message. Files may come and go meanwhile; the first is looked for at the start, the
others when the first is sent.

`text_once_iff`: the text is delivered exactly once, but for a short one under a voice or a
round video message, which is given no caption. `files_once`: of the first ten files those
on disk are delivered once each, if the first one is.
-/

namespace TelegramCms

/-! ## The calls of a send -/

/-- From `pc` on `_send_post` makes these calls and returns, with these files on disk once
the first is sent. -/
inductive Returns (later : List Text) (text : Text) : SendPc → List Call → Prop where
  | last {pc : SendPc} {id mid : Nat} :
      sendStep later text pc (.message id) = .over (.message mid) → Returns later text pc [pc.call]
  | next {pc pc' : SendPc} {id : Nat} {calls : List Call} :
      sendStep later text pc (.message id) = .call pc' → Returns later text pc' calls →
      Returns later text pc (pc.call :: calls)

/-- The call that sends a text no caption could hold. -/
def textCalls (text : Text) : List Call :=
  if caption text = none ∧ text ≠ [] then [.sendMessage text] else []

def groupCalls (later : List Text) (extra : List MediaRef) : List Call :=
  if groupMedia later extra = [] then [] else [.sendMediaGroup (groupMedia later extra)]

/-- The calls from `pc` on. -/
def callsFrom (later : List Text) (text : Text) : SendPc → List Call
  | .message t => [.sendMessage t]
  | .media method file cap extra =>
    .sendMedia method file cap :: groupCalls later extra ++ textCalls text
  | .group _ media => .sendMediaGroup media :: textCalls text
  | .followUp _ t => [.sendMessage t]

section Calls

variable (later : List Text) (text : Text) {pc pc' : SendPc}

theorem callsFrom_sendText (mid : Nat) :
    (sendText text mid = .over (.message mid) ∧ textCalls text = [])
      ∨ ∃ pc', sendText text mid = .call pc' ∧ textCalls text = callsFrom later text pc' := by
  unfold sendText textCalls
  by_cases h : caption text = none ∧ text ≠ []
  · rw [if_pos h, if_pos h]
    exact .inr ⟨_, rfl, rfl⟩
  · rw [if_neg h, if_neg h]
    exact .inl ⟨rfl, rfl⟩

theorem callsFrom_sendGroup (extra : List MediaRef) (mid : Nat) :
    (sendGroup later text extra mid = .over (.message mid)
        ∧ groupCalls later extra ++ textCalls text = [])
      ∨ ∃ pc', sendGroup later text extra mid = .call pc'
        ∧ groupCalls later extra ++ textCalls text = callsFrom later text pc' := by
  unfold sendGroup groupCalls
  cases hg : groupMedia later extra with
  | nil =>
      rw [if_pos rfl]
      exact callsFrom_sendText later text mid
  | cons item items => exact .inr ⟨_, rfl, rfl⟩

/-- One answer, and the calls that are left. -/
theorem sendStep_callsFrom (pc : SendPc) (id : Nat) :
    (∃ mid, sendStep later text pc (.message id) = .over (.message mid)
        ∧ callsFrom later text pc = [pc.call])
      ∨ ∃ pc', sendStep later text pc (.message id) = .call pc'
        ∧ callsFrom later text pc = pc.call :: callsFrom later text pc' := by
  cases pc with
  | message t => exact .inl ⟨id, rfl, rfl⟩
  | media method file cap extra =>
      rcases callsFrom_sendGroup later text extra id with ⟨h, hc⟩ | ⟨pc', h, hc⟩
      · exact .inl ⟨id, h, congrArg (List.cons _) hc⟩
      · exact .inr ⟨pc', h, congrArg (List.cons _) hc⟩
  | group mid media =>
      rcases callsFrom_sendText later text mid with ⟨h, hc⟩ | ⟨pc', h, hc⟩
      · exact .inl ⟨mid, h, congrArg (List.cons _) hc⟩
      · exact .inr ⟨pc', h, congrArg (List.cons _) hc⟩
  | followUp mid t => exact .inl ⟨mid, rfl, rfl⟩

variable {later text}

/-- **The calls of a send that gets through.** -/
theorem Returns.calls_eq {calls : List Call} (h : Returns later text pc calls) :
    calls = callsFrom later text pc := by
  induction h with
  | @last pc id mid hs =>
      rcases sendStep_callsFrom later text pc id with ⟨_, -, hc⟩ | ⟨pc', hs', -⟩
      · exact hc.symm
      · rw [hs'] at hs
        exact absurd hs (by simp)
  | @next pc pc' id calls hs _ ih =>
      rcases sendStep_callsFrom later text pc id with ⟨_, hs', -⟩ | ⟨pc'', hs', hc⟩
      · rw [hs'] at hs
        exact absurd hs (by simp)
      · obtain rfl := SendNext.call.inj (hs'.symm.trans hs)
        rw [hc, ih]

theorem Part.rank_le (part : Part) : part.rank ≤ 2 := by
  cases part <;> decide

/-- A send whose calls are answered with messages gets through: each call is for a later
part. -/
theorem returns_callsFrom (pc : SendPc) : Returns later text pc (callsFrom later text pc) := by
  rcases sendStep_callsFrom later text pc 0 with ⟨mid, hs, hc⟩ | ⟨pc', hs, hc⟩
  · rw [hc]
    exact .last hs
  · have hlt := (sendStep_call hs).2
    rw [hc]
    exact .next hs (returns_callsFrom pc')
termination_by 2 - pc.part.rank
decreasing_by
  have := pc'.part.rank_le
  omega

end Calls

/-! ## The text -/

/-- The call shows the text, as a message or as a caption. -/
def Call.shows (text : Text) : Call → Bool
  | .sendMessage t => t = text
  | .sendMedia _ _ cap => cap = some text
  | .sendMediaGroup _ => false

/-- The text would do as a caption, and the first file is a voice or a round video message. -/
def Uncaptioned (env : Env) (start : List Text) (text : Text) (mediaRefs : List MediaRef) : Prop :=
  text.length ≤ captionLimit
    ∧ ∃ primary ∈ (sendableFiles env.settings.mediaMaxSizeDefault mediaRefs).head?,
      primary.path ∈ start
        ∧ (sendMethod primary.type = .voice ∨ sendMethod primary.type = .videoNote)

section Text

variable {env : Env} {start later : List Text} {text : Text} {mediaRefs : List MediaRef}

theorem textOrBlank_of_ne (ht : text ≠ []) : textOrBlank text = text := by
  cases text with
  | nil => exact absurd rfl ht
  | cons c text => rfl

theorem caption_of_ne (ht : text ≠ []) :
    caption text = if text.length ≤ captionLimit then some text else none := by
  unfold caption
  simp [ht]

theorem countP_groupCalls {extra : List MediaRef} :
    (groupCalls later extra).countP (Call.shows text) = 0 := by
  unfold groupCalls
  split <;> rfl

theorem countP_textCalls (ht : text ≠ []) :
    (textCalls text).countP (Call.shows text) = if text.length ≤ captionLimit then 0 else 1 := by
  unfold textCalls
  rw [caption_of_ne ht]
  by_cases hlen : text.length ≤ captionLimit
  · simp [hlen]
  · simp [hlen, ht, Call.shows]

/-- How often a send that begins with a file shows the text. -/
theorem countP_media (ht : text ≠ []) {method : MediaType} {file : Text} {extra : List MediaRef} :
    (callsFrom later text (.media method file (captionFor method text) extra)).countP
        (Call.shows text)
      = if text.length ≤ captionLimit ∧ (method = .voice ∨ method = .videoNote) then 0 else 1 := by
  rw [callsFrom, List.countP_append, List.countP_cons, countP_groupCalls, countP_textCalls ht,
    captionFor, caption_of_ne ht]
  by_cases hlen : text.length ≤ captionLimit
  · by_cases hm : method = .voice ∨ method = .videoNote
    · simp [hlen, hm, Call.shows]
    · simp [hlen, hm, Call.shows]
  · simp [hlen, Call.shows]

/--
**The text is delivered exactly once, unless it is left off a voice or a round video
message.**

The cases are those of `_send_post`: no file that can be sent; a first file that is on disk, and
then the text is its caption or is sent after it; a first file that is gone, and then the text is
sent alone.
-/
theorem text_once_iff (ht : text ≠ []) {calls : List Call}
    (h : Returns later text (sendPost env start text mediaRefs) calls) :
    calls.countP (Call.shows text) = 1 ↔ ¬ Uncaptioned env start text mediaRefs := by
  rw [h.calls_eq]
  unfold sendPost Uncaptioned
  cases hf : sendableFiles env.settings.mediaMaxSizeDefault mediaRefs with
  | nil => simp [callsFrom, Call.shows, textOrBlank_of_ne ht]
  | cons primary extra =>
      dsimp only
      by_cases hdisk : primary.path ∈ start
      · rw [if_pos hdisk, countP_media ht]
        simp [hdisk]
      · rw [if_neg hdisk]
        simp [callsFrom, Call.shows, textOrBlank_of_ne ht, hdisk]

def voiceNote : MediaRef where
  type := "voice".toList
  file := some "/media/1_0_voice.bin".toList
  size := some 0

/-- A photo carries its text. -/
theorem text_once_photo :
    (callsFrom [] "hi".toList (sendPost (sampleEnv {}) ["/media/1_0_photo.bin".toList] "hi".toList
      [Wire.onePhoto])).countP (Call.shows "hi".toList) = 1 :=
  (text_once_iff (by decide) (returns_callsFrom _)).mpr (by
    rintro ⟨-, primary, hp, -, hm⟩
    obtain rfl := Option.some.inj (show some Wire.onePhoto = some primary from hp)
    exact absurd hm (by decide))

/-- A voice message does not. -/
theorem text_lost :
    ¬ ∀ (env : Env) (start later : List Text) (text : Text) (mediaRefs : List MediaRef)
      (calls : List Call), text ≠ [] →
      Returns later text (sendPost env start text mediaRefs) calls →
      calls.countP (Call.shows text) = 1 := by
  intro hall
  have hone := hall (sampleEnv {}) ["/media/1_0_voice.bin".toList] ["/media/1_0_voice.bin".toList]
    "hi".toList [voiceNote] _ (by decide) (returns_callsFrom _)
  exact absurd hone (by decide)

end Text

/-! ## The files -/

def GroupItem.file : GroupItem → Text
  | .photo file | .video file | .document file => file

/-- The files the call uploads. -/
def Call.files : Call → List Text
  | .sendMessage _ => []
  | .sendMedia _ file _ => [file]
  | .sendMediaGroup media => media.map GroupItem.file

section Files

variable {env : Env} {start later : List Text} {text file : Text} {mediaRefs : List MediaRef}

theorem file_groupItem (m : MediaRef) : (groupItem m).file = m.path := by
  unfold groupItem
  split
  · rfl
  · split <;> rfl

theorem files_groupMedia (extra : List MediaRef) :
    (groupMedia later extra).map GroupItem.file
      = ((extra.take 9).map MediaRef.path).filter (· ∈ later) := by
  rw [groupMedia, List.map_map, List.filter_map]
  exact List.map_congr_left fun m _ => file_groupItem m

theorem files_groupCalls (extra : List MediaRef) :
    (groupCalls later extra).flatMap Call.files
      = ((extra.take 9).map MediaRef.path).filter (· ∈ later) := by
  rw [← files_groupMedia, groupCalls]
  by_cases hg : groupMedia later extra = []
  · rw [if_pos hg, hg]
    rfl
  · rw [if_neg hg]
    simp [Call.files]

theorem files_textCalls : (textCalls text).flatMap Call.files = [] := by
  unfold textCalls
  split <;> rfl

/-- The files of a send whose first file is there. -/
theorem files_sent {primary : MediaRef} {extra : List MediaRef}
    (hfirst : sendableFiles env.settings.mediaMaxSizeDefault mediaRefs = primary :: extra)
    (hdisk : primary.path ∈ start) :
    (callsFrom later text (sendPost env start text mediaRefs)).flatMap Call.files
      = primary.path :: ((extra.take 9).map MediaRef.path).filter (· ∈ later) := by
  unfold sendPost
  rw [hfirst]
  dsimp only
  rw [if_pos hdisk, callsFrom, List.flatMap_append, List.flatMap_cons, files_groupCalls,
    files_textCalls, List.append_nil]
  rfl

/-- **If the first file is there, each of the first ten that is on disk throughout is delivered
exactly once**, whatever became of the others. -/
theorem files_once {calls : List Call}
    (h : Returns later text (sendPost env start text mediaRefs) calls)
    (hfirst : ∃ primary ∈ (sendableFiles env.settings.mediaMaxSizeDefault mediaRefs).head?,
      primary.path ∈ start)
    (hlater : file ∈ later) :
    (calls.flatMap Call.files).count file
      = (((sendableFiles env.settings.mediaMaxSizeDefault mediaRefs).take 10).map
          MediaRef.path).count file := by
  obtain ⟨primary, hp, hdisk⟩ := hfirst
  obtain ⟨extra, hfiles⟩ := List.head?_eq_some_iff.mp hp
  rw [h.calls_eq, files_sent hfiles hdisk, hfiles, List.take_succ_cons, List.map_cons,
    List.count_cons, List.count_cons, List.count_filter (by simpa using hlater)]

/-- Photos on disk under one-letter names. -/
def photos (names : String) : List MediaRef :=
  names.toList.map fun c => { type := "photo".toList, file := some [c] }

/-- The second of three is missing. -/
theorem files_once_gap :
    ((callsFrom [['a'], ['c']] [] (sendPost (sampleEnv {}) [['a'], ['c']] [] (photos "abc"))).flatMap
      Call.files).count ['c'] = 1 := by
  have hr : Returns [['a'], ['c']] [] (sendPost (sampleEnv {}) [['a'], ['c']] [] (photos "abc")) _ :=
    returns_callsFrom _
  rw [files_once hr ⟨_, rfl, by decide⟩ (by decide)]
  decide

/-- The eleventh file is not delivered. -/
theorem eleventh_file :
    ¬ ∀ (env : Env) (start later : List Text) (text file : Text) (mediaRefs : List MediaRef)
      (calls : List Call), Returns later text (sendPost env start text mediaRefs) calls →
      file ∈ start → file ∈ later →
      (calls.flatMap Call.files).count file
        = ((sendableFiles env.settings.mediaMaxSizeDefault mediaRefs).map MediaRef.path).count file := by
  intro hall
  have hone := hall (sampleEnv {}) ((photos "abcdefghijk").map MediaRef.path)
    ((photos "abcdefghijk").map MediaRef.path) [] ['k'] (photos "abcdefghijk") _
    (returns_callsFrom _) (by decide) (by decide)
  exact absurd hone (by decide)

end Files

end TelegramCms
