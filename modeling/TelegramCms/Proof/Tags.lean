import Mathlib.Data.List.Infix
import TelegramCms.Proof.Origins
import TelegramCms.Proof.Stripping

/-!
# The tags of a published post

The tags of a post are printed once, when its template is rendered, and a channel of the
queue policy has none printed then. Editors choose the tags afterwards, through the web
APIs, and what they choose stays in `tag_ids`: no job renders the text again.

So a hashtag reaches the destination channel only from what the post was given: its raw text, the
reply of the LLM, the template and the watermark of the channel (`Source.carries`).
`published_tags_iff`: the text that is delivered shows the hashtags of the tags last decided
on exactly if these sources carry them, and no others.
-/

namespace TelegramCms

open Transition World

/-! ## Hashtags -/

/-- The words that `format_tag_string` joins. -/
def hashtags (env : Env) (labels : List Text) : List Text :=
  (labels.filter (fun l => !l.isEmpty)).map (fun l =>
    '#' :: (env.lower l).map (fun c => if c = ' ' then '_' else c))

/-- The hashtag stands in the text, and no word character follows it. -/
def containsTag (env : Env) (text tag : Text) : Bool :=
  text.tails.any (fun s => tag.isPrefixOf s && !(s.drop tag.length).head?.any env.isWord)

theorem head?_hashtags {env : Env} {labels : List Text} {tag : Text} (h : tag ∈ hashtags env labels) :
    tag.head? = some '#' := by
  obtain ⟨l, -, rfl⟩ := List.mem_map.mp h
  rfl

/-- The text shows the hashtags of the tags of `row`, and of no other tag there is. -/
def ShowsTags (env : Env) (db : Db) (row : Post) (text : Text) : Prop :=
  ∀ tag ∈ hashtags env (db.tags.rows.map Tag.label),
    containsTag env text tag = true ↔ tag ∈ hashtags env (resolveTagLabels db.tags row.tagIds)

instance (env : Env) (db : Db) (row : Post) (text : Text) : Decidable (ShowsTags env db row text) :=
  inferInstanceAs (Decidable (∀ tag ∈ hashtags env (db.tags.rows.map Tag.label),
    containsTag env text tag = true ↔ tag ∈ hashtags env (resolveTagLabels db.tags row.tagIds)))

/-! ## Hashtags in the watermark stage -/

/-- The watermark of the channel, if it has one. -/
def watermarkOf (channel : SourceChannel) : Text :=
  ((if channel.watermarkEnabled then channel.watermarkText else none)).getD []

/-- What the stage makes of a text, for a channel. -/
def watermarked (env : Env) (channel : SourceChannel) (t : Text) : Text :=
  applyWatermark env t (if channel.watermarkEnabled then channel.watermarkText else none)
    channel.stripSourceTags

/-- The hashtag begins with a word character, so that stripping takes it out. -/
def isStripped (env : Env) (tag : Text) : Bool := tag.tail.head?.any env.isWord

/-- The hashtag is in the text, where stripping leaves it. -/
def stripCarries (env : Env) (channel : SourceChannel) (t tag : Text) : Bool :=
  if channel.stripSourceTags then !isStripped env tag && containsTag env (stripTags env t) tag
  else containsTag env t tag

/-- A hashtag may stand across the place where the watermark begins if it has a line break, or
ends in a blank. -/
def isBroken (tag : Text) : Bool := tag.contains '\n' || tag.getLast?.any Py.isSpace

/-- What is left of a hashtag is the blank line, or its first line break, and the beginning of the
watermark. -/
def goesOnIn (env : Env) (w : Text) : Text → Bool
  | ['\n'] => true
  | '\n' :: '\n' :: rest => rest.isPrefixOf w && !(w.drop rest.length).head?.any env.isWord
  | _ => false

/-- The hashtag begins at the end of the text, and ends in the watermark below it. -/
def standsAcross (env : Env) (t w tag : Text) : Bool :=
  tag.inits.any (fun u => u.isSuffixOf t && goesOnIn env w (tag.drop u.length))

/-- The hashtag is in the text where stripping leaves it, or in the watermark, or, if it can be
broken, across the two. -/
def stageCarries (env : Env) (channel : SourceChannel) (t tag : Text) : Bool :=
  if watermarkOf channel = [] then stripCarries env channel t tag
  else if isBroken tag then
    let s := Py.rstrip (if channel.stripSourceTags then stripTags env t else t)
    containsTag env s tag || standsAcross env s (watermarkOf channel) tag
      || containsTag env (watermarkOf channel) tag
  else stripCarries env channel t tag || containsTag env (watermarkOf channel) tag

section Stage

variable {env : Env} {channel : SourceChannel} {ctx : RenderCtx} {t x y tag : Text}

theorem finalText_watermarked (ai : AiOutcome) :
    finalText env ctx ai = watermarked env ctx.channel (ai.text ctx.normalized) := rfl

/-- What stripping leaves, and below it the watermark. -/
theorem watermarked_eq : watermarked env channel t
    = if watermarkOf channel = [] then (if channel.stripSourceTags then stripTags env t else t)
      else Py.rstrip (if channel.stripSourceTags then stripTags env t else t)
        ++ '\n' :: '\n' :: watermarkOf channel := by
  rw [watermarked, watermarkOf]
  cases (if channel.watermarkEnabled = true then channel.watermarkText else none) with
  | none => rfl
  | some w =>
      cases w with
      | nil => rfl
      | cons c w => exact List.append_assoc _ "\n\n".toList (c :: w)

theorem containsTag_iff : containsTag env t tag = true
    ↔ ∃ a b, t = a ++ tag ++ b ∧ b.head?.any env.isWord = false := by
  rw [containsTag, List.any_eq_true]
  constructor
  · rintro ⟨s, hs, hand⟩
    obtain ⟨a, rfl⟩ := (List.mem_tails _ _).mp hs
    obtain ⟨hpre, hword⟩ := Bool.and_eq_true_iff.mp hand
    obtain ⟨b, rfl⟩ := List.isPrefixOf_iff_prefix.mp hpre
    rw [List.drop_left] at hword
    exact ⟨a, b, by rw [List.append_assoc], by simpa using hword⟩
  · rintro ⟨a, b, rfl, hword⟩
    refine ⟨tag ++ b, (List.mem_tails _ _).mpr ⟨a, by rw [List.append_assoc]⟩, ?_⟩
    rw [List.drop_left, hword]
    simp

theorem containsTag_nil (h : tag.head? = some '#') : containsTag env [] tag = false := by
  cases tag with
  | nil => exact absurd h (by simp)
  | cons c tag => rfl

theorem standsAcross_iff : standsAcross env x y tag = true
    ↔ ∃ a u v, x = a ++ u ∧ tag = u ++ v ∧ goesOnIn env y v = true := by
  rw [standsAcross, List.any_eq_true]
  constructor
  · rintro ⟨u, hu, hand⟩
    obtain ⟨v, rfl⟩ := (List.mem_inits _ _).mp hu
    obtain ⟨hsuf, hv⟩ := Bool.and_eq_true_iff.mp hand
    obtain ⟨a, rfl⟩ := List.isSuffixOf_iff_suffix.mp hsuf
    rw [List.drop_left] at hv
    exact ⟨a, u, v, rfl, rfl, hv⟩
  · rintro ⟨a, u, v, rfl, rfl, hv⟩
    refine ⟨u, (List.mem_inits _ _).mpr (List.prefix_append u v), ?_⟩
    rw [List.drop_left, hv, Bool.and_true]
    exact List.isSuffixOf_iff_suffix.mpr (List.suffix_append a u)

theorem goesOnIn_iff {v : Text} : goesOnIn env y v = true
    ↔ v = ['\n'] ∨ ∃ u b, v = '\n' :: '\n' :: u ∧ y = u ++ b ∧ b.head?.any env.isWord = false := by
  unfold goesOnIn
  split
  · simp
  · rename_i u
    rw [Bool.and_eq_true_iff, List.isPrefixOf_iff_prefix]
    constructor
    · rintro ⟨⟨b, rfl⟩, hword⟩
      rw [List.drop_left] at hword
      exact .inr ⟨u, b, rfl, rfl, by simpa using hword⟩
    · rintro (h | ⟨u', b, hu, rfl, hword⟩)
      · exact absurd h (by simp)
      · obtain rfl : u = u' := (List.cons.inj (List.cons.inj hu).2).2
        rw [List.drop_left, hword]
        exact ⟨List.prefix_append u b, rfl⟩
  · rename_i hone htwo
    refine iff_of_false (by simp) ?_
    rintro (rfl | ⟨u, b, rfl, -⟩)
    · exact hone rfl
    · exact htwo u rfl

/-- A hashtag stands above the blank line, across it or below it. -/
theorem containsTag_append_blankLine (hsp : SpaceNotWord env) (h : tag.head? = some '#') :
    containsTag env (x ++ '\n' :: '\n' :: y) tag
      = (containsTag env x tag || standsAcross env x y tag || containsTag env y tag) := by
  have hnl : env.isWord '\n' = false := hsp _ (by decide)
  rw [Bool.eq_iff_iff, Bool.or_eq_true, Bool.or_eq_true, containsTag_iff, containsTag_iff,
    containsTag_iff, standsAcross_iff]
  constructor
  · rintro ⟨a, b, hab, hword⟩
    rw [List.append_assoc] at hab
    rcases List.append_eq_append_iff.mp hab with ⟨u, rfl, hu⟩ | ⟨u, rfl, hu⟩
    · -- it begins below the text, so in the watermark
      rcases tag with _ | ⟨c, tag⟩
      · exact absurd h (by simp)
      obtain rfl := Option.some.inj h
      rcases u with _ | ⟨c, _ | ⟨d, u⟩⟩
      · exact absurd (List.cons.inj hu).1 (by decide)
      · exact absurd (List.cons.inj (List.cons.inj hu).2).1 (by decide)
      · refine .inr ⟨u, b, ?_, hword⟩
        rw [List.append_assoc]
        exact (List.cons.inj (List.cons.inj hu).2).2
    · -- it begins in the text
      rcases List.append_eq_append_iff.mp hu with ⟨v, rfl, hv⟩ | ⟨v, rfl, hv⟩
      · refine .inl (.inl ⟨a, v, by rw [List.append_assoc], ?_⟩)
        cases v with
        | nil => rfl
        | cons c v =>
            rw [hv] at hword
            exact hword
      · rcases v with _ | ⟨c, _ | ⟨d, v⟩⟩
        · exact .inl (.inl ⟨a, [], by simp, rfl⟩)
        · refine .inl (.inr ⟨a, u, [c], rfl, rfl, goesOnIn_iff.mpr (.inl ?_)⟩)
          rw [(List.cons.inj hv).1]
        · obtain ⟨hc, hv⟩ := List.cons.inj hv
          obtain ⟨hd, hv⟩ := List.cons.inj hv
          refine .inl (.inr ⟨a, u, c :: d :: v, rfl, rfl, goesOnIn_iff.mpr (.inr ?_)⟩)
          exact ⟨v, b, by rw [← hc, ← hd], hv, hword⟩
  · rintro ((⟨a, b, rfl, hword⟩ | ⟨a, u, v, rfl, rfl, hv⟩) | ⟨a, b, rfl, hword⟩)
    · refine ⟨a, b ++ '\n' :: '\n' :: y, by simp, ?_⟩
      cases b with
      | nil => exact hnl
      | cons c b => exact hword
    · rcases goesOnIn_iff.mp hv with rfl | ⟨v, b, rfl, rfl, hword⟩
      · exact ⟨a, '\n' :: y, by simp, hnl⟩
      · exact ⟨a, b, by simp, hword⟩
    · exact ⟨x ++ '\n' :: '\n' :: a, b, by simp, hword⟩

/-- A hashtag of one line stands on one of the two sides of a line break. -/
theorem containsTag_append_newline (hsp : SpaceNotWord env) (h : '\n' ∉ tag) :
    containsTag env (x ++ '\n' :: y) tag = (containsTag env x tag || containsTag env y tag) := by
  have hnl : env.isWord '\n' = false := hsp _ (by decide)
  rw [Bool.eq_iff_iff, Bool.or_eq_true, containsTag_iff, containsTag_iff, containsTag_iff]
  constructor
  · rintro ⟨a, b, hab, hword⟩
    rcases split_append_cons h hab.symm with ⟨u, rfl, rfl⟩ | ⟨u, rfl⟩
    · refine .inl ⟨a, u, rfl, ?_⟩
      cases u with
      | nil => rfl
      | cons c u => exact hword
    · exact .inr ⟨u, b, rfl, hword⟩
  · rintro (⟨a, b, rfl, hword⟩ | ⟨a, b, rfl, hword⟩)
    · refine ⟨a, b ++ '\n' :: y, by simp, ?_⟩
      cases b with
      | nil => exact hnl
      | cons c b => exact hword
    · exact ⟨x ++ '\n' :: a, b, by simp, hword⟩

/-- Trimming does not reach a hashtag that ends in no blank. -/
theorem containsTag_rstrip (hsp : SpaceNotWord env) (hne : tag ≠ [])
    (h : tag.getLast?.any Py.isSpace = false) :
    containsTag env (Py.rstrip t) tag = containsTag env t tag := by
  have hsplit : Py.rstrip t ++ t.rtakeWhile Py.isSpace = t := List.rdropWhile_append_rtakeWhile
  have hblank : ∀ c ∈ t.rtakeWhile Py.isSpace, Py.isSpace c = true := fun c hc =>
    List.mem_rtakeWhile_imp hc
  rw [Bool.eq_iff_iff, containsTag_iff, containsTag_iff]
  constructor
  · rintro ⟨a, b, hab, hword⟩
    refine ⟨a, b ++ t.rtakeWhile Py.isSpace, by rw [← List.append_assoc, ← hab, hsplit], ?_⟩
    cases b with
    | cons c b => exact hword
    | nil =>
        rw [List.nil_append]
        cases hz : t.rtakeWhile Py.isSpace with
        | nil => rfl
        | cons c z => exact hsp c (hblank c (by rw [hz]; exact List.mem_cons_self))
  · rintro ⟨a, b, hab, hword⟩
    rw [← hsplit] at hab
    rcases List.append_eq_append_iff.mp hab with ⟨u, hu, htail⟩ | ⟨u, hu, htail⟩
    · rcases List.eq_nil_or_concat u with rfl | ⟨u, c, rfl⟩
      · exact ⟨a, [], by simpa using hu.symm, rfl⟩
      · -- the hashtag would end in a blank
        have hlast := congrArg List.getLast? hu
        rw [List.getLast?_append_of_ne_nil _ hne] at hlast
        rw [hlast, List.concat_eq_append, ← List.append_assoc, List.getLast?_concat, Option.any_some,
          hblank c (by rw [htail]; simp)] at h
        exact absurd h (by simp)
    · refine ⟨a, u, hu, ?_⟩
      cases u with
      | nil => rfl
      | cons c u =>
          rw [htail] at hword
          exact hword

/-- Stripping leaves no hashtag that begins with a word character. -/
theorem containsTag_stripTags (hsp : SpaceNotWord env) (h : tag.head? = some '#')
    (hword : isStripped env tag = true) : containsTag env (stripTags env t) tag = false := by
  rw [Bool.eq_false_iff, Ne, containsTag_iff]
  rintro ⟨a, b, hab, -⟩
  rcases tag with _ | ⟨d, _ | ⟨c, tag⟩⟩
  · exact absurd h (by simp)
  · exact absurd hword (by simp [isStripped])
  · obtain rfl := Option.some.inj h
    have hin : ['#', c] <:+: stripTags env t := ⟨a, tag ++ b, by rw [hab]; simp⟩
    exact noTag_iff.mpr (stripTags_stripped hsp t).hashtag c hword hin

/-- Stripping takes every hashtag that its pattern matches, and no other. -/
theorem containsTag_stage (hsp : SpaceNotWord env) (h : tag.head? = some '#') :
    containsTag env (if channel.stripSourceTags then stripTags env t else t) tag
      = stripCarries env channel t tag := by
  rw [stripCarries]
  split
  · cases hword : isStripped env tag with
    | false => rfl
    | true => exact containsTag_stripTags hsp h hword
  · rfl

/-- **A hashtag comes through the watermark stage from the text or from the watermark.** -/
theorem containsTag_watermarked (hsp : SpaceNotWord env) (h : tag.head? = some '#') :
    containsTag env (watermarked env channel t) tag = stageCarries env channel t tag := by
  rw [watermarked_eq, stageCarries]
  by_cases hw : watermarkOf channel = []
  · rw [if_pos hw, if_pos hw]
    exact containsTag_stage hsp h
  rw [if_neg hw, if_neg hw]
  by_cases hbroken : isBroken tag = true
  · rw [if_pos hbroken]
    exact containsTag_append_blankLine hsp h
  · rw [if_neg hbroken]
    -- a hashtag without line breaks, which trimming cannot cut
    obtain ⟨hnl, hlast⟩ : '\n' ∉ tag ∧ tag.getLast?.any Py.isSpace = false := by
      simpa [isBroken] using hbroken
    have hne : tag ≠ [] := by
      rintro rfl
      exact absurd h (by simp)
    rw [containsTag_append_newline hsp hnl, containsTag_rstrip hsp hne hlast,
      containsTag_stage hsp h]
    exact congrArg _ ((containsTag_append_newline (x := []) hsp hnl).trans
      (by rw [containsTag_nil h, Bool.false_or]))

end Stage

/-- A template prints its tags. -/
def PrintsTags (env : Env) (body : Text) : Prop :=
  ∀ text sourceLabel tags out, env.render body text sourceLabel tags = .ok out → tags <:+: out

/-- The run is about to commit an approve or schedule decision on post `p`. -/
def Proc.decides (p : Nat) : Proc → Bool
  | .callback .approve _ q (.commit _) => q = p
  | .decide req (.commit ..) => req.postId = p ∧ req.decision ≠ .reject
  | _ => false

/-- What the watermark stage begins with: the reply, or the template with no tags to print. -/
def untaggedText (env : Env) (body text sourceLabel : Text) (ai : AiOutcome) : Option Text :=
  ((renderTemplate env body text sourceLabel []).toOption).map ai.text

/-- The hashtag comes with what the post was given. -/
def Source.carries (env : Env) (tag : Text) : Source → Bool
  | .raw text | .reply text => containsTag env text tag
  | .rendered body text sourceLabel _ channel ai =>
    (untaggedText env body text sourceLabel ai).any (fun t => stageCarries env channel t tag)

namespace World

variable {env : Env} {w w' w₀ : World} {a : Action} {p : Nat} {tr : List (World × Action)}

/-- The channel of post `p` has the queue policy. -/
def Queued (p : Nat) (w : World) : Prop :=
  ∀ row ∈ w.row p, ∀ channel ∈ w.db.channels.get row.sourceChannelId, channel.policy = .queue

instance (p : Nat) (w : World) : Decidable (Queued p w) :=
  inferInstanceAs (Decidable (∀ row ∈ w.row p,
    ∀ channel ∈ w.db.channels.get row.sourceChannelId, channel.policy = .queue))

/-- The system right after a step that commits an approve or schedule decision on post `p`. -/
def decisionOn (env : Env) (p : Nat) (w : World) : Action → Option World
  | .advance i .ok => if (w.proc i).any (Proc.decides p) then step env w (.advance i .ok) else none
  | _ => none

/-- The system right after the last decision on post `p`. -/
def lastDecision (env : Env) (p : Nat) (tr : List (World × Action)) : Option World :=
  tr.reverse.findSome? (fun x => decisionOn env p x.1 x.2)

/-- The text shows exactly the tags that post `p` had when it was last decided on. -/
def TagsPublished (env : Env) (p : Nat) (tr : List (World × Action)) (text : Text) : Prop :=
  ∀ u ∈ lastDecision env p tr, ∀ row ∈ u.row p, ShowsTags env u.db row text

instance (env : Env) (p : Nat) (tr : List (World × Action)) (text : Text) :
    Decidable (TagsPublished env p tr text) :=
  inferInstanceAs (Decidable (∀ u ∈ lastDecision env p tr, ∀ row ∈ u.row p,
    ShowsTags env u.db row text))

/-- The source carries exactly the tags that post `p` had when it was last decided on. -/
def TagsCarried (env : Env) (p : Nat) (tr : List (World × Action)) (s : Source) : Prop :=
  ∀ u ∈ lastDecision env p tr, ∀ row ∈ u.row p, ∀ tag ∈ hashtags env (u.db.tags.rows.map Tag.label),
    s.carries env tag = true ↔ tag ∈ hashtags env (resolveTagLabels u.db.tags row.tagIds)

/-- In a queue channel a hashtag is in the text exactly if the source carries it. -/
theorem containsTag_source (hsp : SpaceNotWord env) {s : Source} {text tag : Text}
    (hq : AllSteps (fun w _ => Queued p w) tr) (hs : s.From env tr p)
    (ht : s.text env = .ok text) (htag : tag.head? = some '#') :
    containsTag env text tag = s.carries env tag := by
  cases hs with
  | raw ha hp =>
      obtain rfl := Except.ok.inj ht
      rfl
  | reply ha hi hp =>
      obtain rfl := Except.ok.inj ht
      rfl
  | rendered ha hi hp hrow hch htext hai =>
      rename_i u _ _ _ _ channel raw ai
      -- the template had no tags to print
      have hpol := hq _ ha _ hrow _ hch
      have htags : formatTagString env (resolveTagLabels u.db.tags (normalizeTagIds channel)) = [] := by
        rw [normalizeTagIds, if_neg (by rw [hpol]; simp)]
        rfl
      rw [Source.text, htags] at ht
      rw [Source.carries, untaggedText]
      cases hr : renderTemplate env (templateBody u.db channel) raw (sourceLabel channel) [] with
      | error e =>
          rw [hr] at ht
          exact absurd ht (by simp [Except.map])
      | ok normalized =>
          rw [hr] at ht
          obtain rfl := Except.ok.inj ht
          exact containsTag_watermarked hsp htag

/-- **What is delivered of a post of a queue channel shows exactly the tags last decided on if and
only if these are the tags that came with the post.**

The text has a source among what the post was given, by the invariant that everything a post
holds has one (`delivered_source`). No tag is printed on the way, and the watermark stage brings
in no hashtag but the watermark's own, so the decision has no part in the text. -/
theorem published_tags_iff (hsp : SpaceNotWord env) {d : Delivery} (h0 : Init w₀)
    (h : Trace (step env) w₀ (tr ++ [(w, a)]) w') (hd : w'.log = .delivered d :: w.log)
    (hq : AllSteps (fun w _ => Queued d.post w) (tr ++ [(w, a)])) :
    (∃ s : Source, s.From env (tr ++ [(w, a)]) d.post ∧ s.text env = .ok d.text)
      ∧ ∀ s : Source, s.From env (tr ++ [(w, a)]) d.post → s.text env = .ok d.text →
        (TagsPublished env d.post tr d.text ↔ TagsCarried env d.post tr s) := by
  have hmem : d ∈ w'.deliveries := by
    rw [mem_deliveries, hd]
    exact List.mem_cons_self
  refine ⟨delivered_source h0 h hmem, fun s hs ht => ?_⟩
  have hcarries : ∀ {labels tag}, tag ∈ hashtags env labels →
      containsTag env d.text tag = s.carries env tag := fun htag =>
    containsTag_source hsp hq hs ht (head?_hashtags htag)
  constructor
  · intro hp u hu row hrow tag htag
    rw [← hcarries htag]
    exact hp u hu row hrow tag htag
  · intro hc u hu row hrow tag htag
    rw [hcarries htag]
    exact hc u hu row hrow tag htag

/-- There is a tag `News`, and a message with the text `text` is approved with the tags
`tagIds`, published, and delivered in a last step. -/
def newsApproved (text : String) (tagIds : List Nat) : List Action :=
  .configure (Table.empty.insert sampleChannel) .empty (Table.empty.insert { id := 1, label := "News".toList }) ::
  .arrive 1 1 (some text.toList) :: .advance 0 (.media none) :: goes 0 3 ++ normalizes 1 1 0 ++
  .request (.decide ⟨.go, 1, 1, .approve, some tagIds⟩) :: goes 2 3 ++ sends 1 3 0 6

/-- The delivery of the message `hi`. -/
def hiDelivery : Delivery where
  run := 3
  post := 1
  hash := some digestOfPair
  reservedAt := some 0
  text := "hi\n\n— News".toList
  mediaRefs := []
  messageId := 7

/-- The delivery of a message that has the hashtag of the tag it is approved with. -/
def taggedDelivery : Delivery :=
  { hiDelivery with
    hash := some (computeDedupeHash (sampleEnv {}) (some "hi #news".toList) [])
    text := "hi #news\n\n— News".toList }

theorem published_tags_iff_hashtag :
    ∃ w w', (sample sampleChannel).after (sampleEnv {}) (newsApproved "hi #news" [1]) = some w
      ∧ step (sampleEnv {}) w (.advance 3 (.message 7)) = some w'
      ∧ w'.log = .delivered taggedDelivery :: w.log
      ∧ ((lastDecision (sampleEnv {}) 1 (stepsOf (sampleEnv {}) (sample sampleChannel)
          (newsApproved "hi #news" [1]))).bind (fun u => u.row 1)).map Post.tagIds = some [1]
      ∧ ∃ s : Source, s.text (sampleEnv {}) = .ok taggedDelivery.text
        ∧ TagsCarried (sampleEnv {}) 1
          (stepsOf (sampleEnv {}) (sample sampleChannel) (newsApproved "hi #news" [1])) s := by
  have hrun : ((sample sampleChannel).after (sampleEnv {}) (newsApproved "hi #news" [1])).bind
      (fun w => (step (sampleEnv {}) w (.advance 3 (.message 7))).map (fun w' =>
        Decidable.decide (w'.log = .delivered taggedDelivery :: w.log ∧ Queued 1 w)))
      = some true := by
    decide +kernel
  obtain ⟨w, hw, hstep⟩ := Option.bind_eq_some_iff.mp hrun
  obtain ⟨w', hw', hd⟩ := Option.map_eq_some_iff.mp hstep
  obtain ⟨hlog, hlast⟩ := of_decide_eq_true hd
  have hq : AllSteps (fun w _ => Queued 1 w)
      (stepsOf (sampleEnv {}) (sample sampleChannel) (newsApproved "hi #news" [1])) := by
    decide +kernel
  obtain ⟨⟨s, hs, ht⟩, hiff⟩ := published_tags_iff (sampleEnv_spaceNotWord {}) (sample_init _)
    (.snoc (path_after hw) hw') hlog (allSteps_snoc.mpr ⟨hq, hlast⟩)
  exact ⟨w, w', hw, hw', hlog, by decide +kernel, s, ht, (hiff s hs ht).mp (by decide +kernel)⟩

/-- The post is approved with the tag, and the text that is published does not show it. -/
theorem tagged_unpublished :
    ∃ tr w w', Init (sample sampleChannel)
      ∧ Trace (step (sampleEnv {})) (sample sampleChannel) (tr ++ [(w, .advance 3 (.message 7))]) w'
      ∧ w'.log = .delivered hiDelivery :: w.log ∧ PrintsTags (sampleEnv {}) defaultTemplateBody
      ∧ AllSteps (fun w _ => Queued 1 w) (tr ++ [(w, .advance 3 (.message 7))])
      ∧ ¬ TagsPublished (sampleEnv {}) 1 tr hiDelivery.text := by
  have hrun : ((sample sampleChannel).after (sampleEnv {}) (newsApproved "hi" [1])).bind (fun w =>
      (step (sampleEnv {}) w (.advance 3 (.message 7))).map (fun w' =>
        Decidable.decide (w'.log = .delivered hiDelivery :: w.log ∧ Queued 1 w))) = some true := by
    decide +kernel
  obtain ⟨w, hw, hstep⟩ := Option.bind_eq_some_iff.mp hrun
  obtain ⟨w', hw', hd⟩ := Option.map_eq_some_iff.mp hstep
  obtain ⟨hlog, hlast⟩ := of_decide_eq_true hd
  have hprints : PrintsTags (sampleEnv {}) defaultTemplateBody := by
    intro text label tags out hout
    obtain rfl := Except.ok.inj hout
    cases tags with
    | nil => exact List.nil_infix
    | cons c cs => exact ⟨[], '\n' :: (text ++ ("\n\n— ".toList ++ label)), by simp [List.isEmpty]⟩
  have hq : AllSteps (fun w _ => Queued 1 w)
      (stepsOf (sampleEnv {}) (sample sampleChannel) (newsApproved "hi" [1])) := by decide +kernel
  exact ⟨_, w, w', sample_init _, .snoc (path_after hw) hw', hlog, hprints,
    allSteps_snoc.mpr ⟨hq, hlast⟩, by decide +kernel⟩

end World

end TelegramCms
