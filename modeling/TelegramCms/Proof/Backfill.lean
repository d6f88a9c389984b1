import TelegramCms.Lib.Transition
import TelegramCms.Model.Userbot
import TelegramCms.Proof.Ingest

/-!
# Gaps in what was ingested

`backfill` resumes at the largest message id that has a row. A message below it that has
none is never asked for again: such a gap is permanent.

`gapless_iff` says which steps make one. A row is inserted although an older message was
given up before it had one; or a message is given up that a newer one has overtaken.
-/

namespace TelegramCms

open Transition

/-! ## Gaps -/

/-- Every message after the first ingested one, up to the newest ingested one, has a row or
is being worked on. -/
def Gapless (ids : List Nat) (feed work : List Message) : Prop :=
  ∀ m ∈ feed, ∀ f ∈ ids.head?, f < m.id → m.id ≤ ids.max?.getD 0 → m.id ∈ ids ∨ m ∈ work

/-- Every message after the first ingested one and before `x` has a row or is being worked
on. -/
def NoneBefore (x : Message) (ids : List Nat) (feed work : List Message) : Prop :=
  ∀ m ∈ feed, ∀ f ∈ ids.head?, f < m.id → m.id < x.id → m.id ∈ ids ∨ m ∈ work

/-- `m` may be given up: it has a row, or no newer message has. -/
def MayGo (ids : List Nat) (m : Message) : Prop :=
  ∀ f ∈ ids.head?, f < m.id → m.id ≤ ids.max?.getD 0 → m.id ∈ ids

/-- `m` is newer than all that has a row. -/
def Newer (ids : List Nat) (m : Message) : Prop := ∀ f ∈ ids.head?, ids.max?.getD 0 < m.id

instance (x : Message) (ids : List Nat) (feed work : List Message) :
    Decidable (NoneBefore x ids feed work) :=
  inferInstanceAs (Decidable (∀ m ∈ feed, ∀ f ∈ ids.head?, f < m.id → m.id < x.id →
    m.id ∈ ids ∨ m ∈ work))

instance (ids : List Nat) (m : Message) : Decidable (MayGo ids m) :=
  inferInstanceAs (Decidable (∀ f ∈ ids.head?, f < m.id → m.id ≤ ids.max?.getD 0 → m.id ∈ ids))

section Gaps

variable {ids : List Nat} {feed work work' : List Message} {x : Message}

theorem le_max {i : Nat} (h : i ∈ ids) : i ≤ ids.max?.getD 0 := by
  obtain ⟨a, ha⟩ := Option.isSome_iff_exists.mp (List.isSome_max?_of_mem h)
  rw [ha, Option.getD_some]
  exact (List.max?_eq_some_iff.mp ha).2 i h

theorem max_mem (h : ids ≠ []) : ids.max?.getD 0 ∈ ids := by
  obtain ⟨a, ha⟩ := Option.isSome_iff_exists.mp (List.isSome_max?_of_ne_nil h)
  rw [ha, Option.getD_some]
  exact List.max?_mem ha

theorem max_append (i : Nat) : (ids ++ [i]).max?.getD 0 = max (ids.max?.getD 0) i := by
  have hmem : (ids ++ [i]).max?.getD 0 ∈ ids ++ [i] := max_mem (by simp)
  refine Nat.le_antisymm ?_ (Nat.max_le.mpr ⟨?_, le_max (by simp)⟩)
  · rcases List.mem_append.mp hmem with h | h
    · exact Nat.le_trans (le_max h) (Nat.le_max_left _ _)
    · rw [List.mem_singleton.mp h]; exact Nat.le_max_right _ _
  · by_cases hne : ids = []
    · simp [hne]
    · exact le_max (List.mem_append_left _ (max_mem hne))

/-- Work on `x` ends with a row for `x`. -/
theorem gapless_insert (hfeed : ∀ m ∈ feed, m.id = x.id → m = x) (hx : x ∈ work)
    (hsub : work' ⊆ work) (hrest : ∀ m ∈ work, m ∈ work' ∨ m = x) :
    Gapless (ids ++ [x.id]) feed work' ↔ Gapless ids feed work ∧ NoneBefore x ids feed work := by
  have hhead : ∀ f ∈ ids.head?, f ∈ (ids ++ [x.id]).head? := by
    intro f hf
    cases ids with
    | nil => exact absurd hf (by simp)
    | cons i is => exact hf
  constructor
  · intro h
    have key : ∀ m ∈ feed, ∀ f ∈ ids.head?, f < m.id → m.id ≤ max (ids.max?.getD 0) x.id →
        m.id ∈ ids ∨ m ∈ work := by
      intro m hm f hf hlt hle
      rcases h m hm f (hhead f hf) hlt (by rw [max_append]; exact hle) with hi | hw
      · rcases List.mem_append.mp hi with hi | hi
        · exact .inl hi
        · rw [hfeed m hm (List.mem_singleton.mp hi)]; exact .inr hx
      · exact .inr (hsub hw)
    exact ⟨fun m hm f hf hlt hle => key m hm f hf hlt (Nat.le_trans hle (Nat.le_max_left _ _)),
      fun m hm f hf hlt hlx =>
        key m hm f hf hlt (Nat.le_trans (Nat.le_of_lt hlx) (Nat.le_max_right _ _))⟩
  · rintro ⟨hg, hb⟩ m hm f hf hlt hle
    have hstay : m.id ∈ ids ∨ m ∈ work → m.id ∈ ids ++ [x.id] ∨ m ∈ work' := by
      rintro (hi | hw)
      · exact .inl (List.mem_append_left _ hi)
      · rcases hrest m hw with hw | rfl
        · exact .inr hw
        · exact .inl (by simp)
    rw [max_append] at hle
    cases ids with
    | nil =>
        -- `x` is the first message of all, and the newest
        obtain rfl : x.id = f := by simpa using hf
        have hle : m.id ≤ x.id := by simpa using hle
        omega
    | cons i is =>
        rcases Nat.lt_trichotomy m.id x.id with h | h | h
        · exact hstay (hb m hm f hf hlt h)
        · exact .inl (by simp [h])
        · exact hstay (hg m hm f hf hlt (by omega))

/-- Work on some messages is given up. -/
theorem gapless_drop (hwork : work ⊆ feed) (hsub : work' ⊆ work) :
    Gapless ids feed work' ↔ Gapless ids feed work ∧ ∀ m ∈ work, m ∉ work' → MayGo ids m := by
  constructor
  · intro h
    refine ⟨fun m hm f hf hlt hle => (h m hm f hf hlt hle).imp_right fun hw => hsub hw, ?_⟩
    intro m hm hno f hf hlt hle
    exact (h m (hwork hm) f hf hlt hle).resolve_right hno
  · rintro ⟨hg, hd⟩ m hm f hf hlt hle
    rcases hg m hm f hf hlt hle with hi | hw
    · exact .inl hi
    · by_cases hw' : m ∈ work'
      · exact .inr hw'
      · exact .inl (hd m hw hw' f hf hlt hle)

/-- Messages newer than all that have a row make no difference. -/
theorem gapless_newer {feed' : List Message} (hfeed : feed ⊆ feed') (hsub : work ⊆ work')
    (hf : ∀ m ∈ feed', m ∈ feed ∨ Newer ids m) (hw : ∀ m ∈ work', m ∈ work ∨ Newer ids m) :
    Gapless ids feed' work' ↔ Gapless ids feed work := by
  constructor
  · intro h m hm f hf' hlt hle
    refine (h m (hfeed hm) f hf' hlt hle).imp_right fun hmw => ?_
    exact (hw m hmw).resolve_right fun hn => absurd hle (Nat.not_le.mpr (hn f hf'))
  · intro h m hm f hf' hlt hle
    have hm := (hf m hm).resolve_right fun hn => absurd hle (Nat.not_le.mpr (hn f hf'))
    exact (h m hm f hf' hlt hle).imp_right fun hmw => hsub hmw

theorem Newer.mayGo (h : Newer ids x) : MayGo ids x :=
  fun f hf _ hle => absurd hle (Nat.not_le.mpr (h f hf))

/-- A message stays newer while ids below it are ingested. -/
theorem newer_append {i : Nat} (h : Newer ids x) (hi : i < x.id) : Newer (ids ++ [i]) x := by
  intro f _
  rw [max_append]
  refine Nat.max_lt.mpr ⟨?_, hi⟩
  cases ids with
  | nil => exact Nat.lt_of_le_of_lt (Nat.zero_le _) hi
  | cons j js => exact h j rfl

end Gaps

/-! ## Rows of the channel -/

/-- The ids of the rows of the channel. -/
theorem mem_ingestedIds {db : Db} {c i : Nat} : i ∈ db.ingestedIds c ↔ db.hasMessage c i = true := by
  unfold Db.ingestedIds Db.hasMessage
  simp only [List.mem_map, List.mem_filter, List.any_eq_true, Bool.and_eq_true, decide_eq_true_eq]
  constructor
  · rintro ⟨p, ⟨hp, hc⟩, hi⟩; exact ⟨p, hp, hc, hi⟩
  · rintro ⟨p, hp, hc, hi⟩; exact ⟨p, ⟨hp, hc⟩, hi⟩

/-- Inserting the row of a message of a known channel. -/
theorem ingestedIds_insertPost {db : Db} {c : Nat} (now : Time) (i : Nat) (text : Option Text)
    (hc : db.channels.get c ≠ none) :
    let db' := (db.insertPost now c i text).getD db
    db'.channels = db.channels
    ∧ ((i ∈ db.ingestedIds c ∧ db'.ingestedIds c = db.ingestedIds c)
      ∨ (i ∉ db.ingestedIds c ∧ db'.ingestedIds c = db.ingestedIds c ++ [i])) := by
  intro db'
  cases hm : db.hasMessage c i with
  | true =>
      have he : db' = db := by
        show (db.insertPost now c i text).getD db = db
        rw [insertPost_of_hasMessage hm]; rfl
      rw [he]
      exact ⟨rfl, .inl ⟨mem_ingestedIds.mpr hm, rfl⟩⟩
  | false =>
      have hno : ¬ i ∈ db.ingestedIds c := fun hi => by
        rw [mem_ingestedIds, hm] at hi; exact absurd hi (by simp)
      have hins := @insertPost_of_fresh db now c i text hm hc
      show ((db.insertPost now c i text).getD db).channels = _ ∧ _
      show _ ∧ (_ ∨ (_ ∧ ((db.insertPost now c i text).getD db).ingestedIds c = _))
      rw [hins]
      refine ⟨rfl, .inr ⟨hno, ?_⟩⟩
      unfold Db.ingestedIds
      rw [Option.getD_some, rows_insert db.nextPostId_fresh]
      simp [ingestedPost]

/-- The messages that the userbot is working on, or has before it in its backfill. -/
def UserbotPhase.work : UserbotPhase → List Message
  | .backfill rest _ => rest
  | .listening inFlight => inFlight
  | .down | .between => []

namespace Userbot

variable {channelId : Nat} {u u' : Userbot} {a : UserbotAction}

def work (u : Userbot) : List Message := u.phase.work

/-- The property: nothing between the first and the newest ingested message was lost. -/
def NoGap (channelId : Nat) (u : Userbot) : Prop :=
  Gapless (u.db.ingestedIds channelId) u.feed u.work

/-- The condition on a step. No row is inserted past an older message that was given up
without one; no handler fails, and the userbot does not stop, while a message it is working
on has been overtaken by a newer one. -/
def Orderly (channelId : Nat) (u : Userbot) : UserbotAction → Prop
  | .next true =>
    ∀ x ∈ u.work.head?, NoneBefore x (u.db.ingestedIds channelId) u.feed u.work
  | .handled x true => NoneBefore x (u.db.ingestedIds channelId) u.feed u.work
  | .handled x false => MayGo (u.db.ingestedIds channelId) x
  | .stop => ∀ x ∈ u.work, MayGo (u.db.ingestedIds channelId) x
  | _ => True

instance (channelId : Nat) (u : Userbot) : DecidablePred (Orderly channelId u) := fun a =>
  match a with
  | .next true => inferInstanceAs (Decidable
      (∀ x ∈ u.work.head?, NoneBefore x (u.db.ingestedIds channelId) u.feed u.work))
  | .handled x true =>
    inferInstanceAs (Decidable (NoneBefore x (u.db.ingestedIds channelId) u.feed u.work))
  | .handled x false => inferInstanceAs (Decidable (MayGo (u.db.ingestedIds channelId) x))
  | .stop => inferInstanceAs (Decidable (∀ x ∈ u.work, MayGo (u.db.ingestedIds channelId) x))
  | .next false | .tick _ | .appears .. | .start | .iterRaises | .iterEnds | .register =>
    inferInstanceAs (Decidable True)

/-- Ids in order, and what is worked on is in the feed. -/
structure Tidy (channelId : Nat) (u : Userbot) : Prop where
  known : u.db.channels.get channelId ≠ none
  feed : (u.feed.map Message.id).Pairwise (· < ·)
  ingested : ∀ i ∈ u.db.ingestedIds channelId, ∃ m ∈ u.feed, m.id = i
  sublist : List.Sublist u.work u.feed
  /-- What is left of a backfill is newer than all that has a row. -/
  ahead : ∀ rest room, u.phase = .backfill rest room →
    ∀ m ∈ rest, Newer (u.db.ingestedIds channelId) m

theorem Tidy.inj (ht : Tidy channelId u) {m x : Message} (hm : m ∈ u.feed) (hx : x ∈ u.feed)
    (h : m.id = x.id) : m = x :=
  List.inj_on_of_nodup_map (ht.feed.imp Nat.ne_of_lt) hm hx h

theorem Tidy.work_sorted (ht : Tidy channelId u) : (u.work.map Message.id).Pairwise (· < ·) :=
  ht.feed.sublist (ht.sublist.map _)

/-- A message that appears is newer than all that has a row. -/
theorem Tidy.newer (ht : Tidy channelId u) {x : Message} (hx : ∀ m ∈ u.feed, m.id < x.id) :
    Newer (u.db.ingestedIds channelId) x := by
  intro f hf
  obtain ⟨m, hm, he⟩ := ht.ingested _ (max_mem fun hn => by rw [hn] at hf; exact absurd hf (by simp))
  rw [← he]
  exact hx m hm

/-! ## One step -/

/-- What is worked on once `x` is done with. -/
structure DoneWith (x : Message) (ph ph' : UserbotPhase) : Prop where
  mem : x ∈ ph.work
  sublist : List.Sublist ph'.work ph.work
  gone : x ∉ ph'.work
  rest : ∀ m ∈ ph.work, m ∈ ph'.work ∨ m = x

/-- What has been ingested was in the feed. -/
theorem Tidy.ingested_mem (ht : Tidy channelId u) {x : Message} (hx : x ∈ u.feed) :
    ∀ i ∈ (u.ingest channelId x).db.ingestedIds channelId, ∃ m ∈ u.feed, m.id = i := by
  intro i hi
  rcases (ingestedIds_insertPost u.now x.id (messageText x) ht.known).2 with
    ⟨-, he⟩ | ⟨-, he⟩
  · rw [ingest, he] at hi; exact ht.ingested i hi
  · rw [ingest, he] at hi
    rcases List.mem_append.mp hi with hi | hi
    · exact ht.ingested i hi
    · exact ⟨x, hx, (List.mem_singleton.mp hi).symm⟩

/-- To ingest a message opens a gap if one before it is neither ingested nor at hand. -/
theorem noGap_ingest (ht : Tidy channelId u) {x : Message} {ph : UserbotPhase}
    (hd : DoneWith x u.phase ph) :
    NoGap channelId { u.ingest channelId x with phase := ph }
      ↔ NoGap channelId u ∧ NoneBefore x (u.db.ingestedIds channelId) u.feed u.work := by
  have hx : x ∈ u.feed := ht.sublist.subset hd.mem
  show Gapless ((u.ingest channelId x).db.ingestedIds channelId) u.feed ph.work ↔ _
  rcases (ingestedIds_insertPost u.now x.id (messageText x) ht.known).2 with
    ⟨hmem, he⟩ | ⟨-, he⟩
  · -- the message has a row already
    rw [ingest, he, gapless_drop ht.sublist.subset hd.sublist.subset]
    constructor
    · rintro ⟨hg, -⟩
      exact ⟨hg, fun m hm f hf hlt hlx =>
        hg m hm f hf hlt (Nat.le_trans (Nat.le_of_lt hlx) (le_max hmem))⟩
    · rintro ⟨hg, -⟩
      refine ⟨hg, fun m hm hno => ?_⟩
      obtain rfl := (hd.rest m hm).resolve_left hno
      exact fun _ _ _ _ => hmem
  · rw [ingest, he]
    exact gapless_insert (fun m hm h => ht.inj hm hx h) hd.mem hd.sublist.subset hd.rest

/-- To let it go opens one unless it may go. -/
theorem noGap_drop (ht : Tidy channelId u) {x : Message} {ph : UserbotPhase}
    (hd : DoneWith x u.phase ph) :
    NoGap channelId { u with phase := ph }
      ↔ NoGap channelId u ∧ MayGo (u.db.ingestedIds channelId) x := by
  show Gapless _ _ ph.work ↔ _
  rw [gapless_drop ht.sublist.subset hd.sublist.subset]
  refine and_congr_right fun _ => ⟨fun h => h x hd.mem hd.gone, fun h m hm hno => ?_⟩
  obtain rfl := (hd.rest m hm).resolve_left hno
  exact h

/-- The backfill is done with the message it was at, -/
theorem doneWith_next (ht : Tidy channelId u) {x : Message} {rest : List Message} {room : Nat}
    (hph : u.phase = .backfill (x :: rest) room) : DoneWith x u.phase (.backfill rest room) := by
  have hsorted := ht.work_sorted
  rw [work, hph] at hsorted
  rw [hph]
  refine ⟨List.mem_cons_self, List.sublist_cons_self _ _, fun hm => ?_, fun m hm => ?_⟩
  · exact Nat.lt_irrefl _ ((List.pairwise_cons.mp hsorted).1 x.id (List.mem_map_of_mem hm))
  · exact (List.mem_cons.mp hm).symm

/-- and the handler with its own. -/
theorem doneWith_handled (ht : Tidy channelId u) {x : Message} {inFlight : List Message}
    (hph : u.phase = .listening inFlight) (hx : x ∈ inFlight) :
    DoneWith x u.phase (.listening (inFlight.erase x)) := by
  have hnodup : inFlight.Nodup := by
    have hsorted := ht.work_sorted
    rw [work, hph] at hsorted
    exact List.Nodup.of_map _ (hsorted.imp Nat.ne_of_lt)
  rw [hph]
  refine ⟨hx, List.erase_sublist, fun hm => ?_, fun m hm => ?_⟩
  · exact (hnodup.mem_erase_iff.mp hm).1 rfl
  · by_cases he : m = x
    · exact .inr he
    · exact .inl (hnodup.mem_erase_iff.mpr ⟨he, hm⟩)

/-- Either way what is left of a backfill is newer than what has a row. -/
theorem tidy_done (ht : Tidy channelId u) {x : Message} {ph : UserbotPhase} {committed : Bool}
    (hd : DoneWith x u.phase ph) (hph : ∀ rest room, ph = .backfill rest room →
      ∀ m ∈ rest, Newer (u.db.ingestedIds channelId) m ∧ x.id < m.id) :
    Tidy channelId { (if committed then u.ingest channelId x else u) with phase := ph } := by
  have hx : x ∈ u.feed := ht.sublist.subset hd.mem
  have hins := ingestedIds_insertPost u.now x.id (messageText x) ht.known
  cases committed with
  | false =>
      exact ⟨ht.known, ht.feed, ht.ingested, hd.sublist.trans ht.sublist,
        fun rest room hr m hm => (hph rest room hr m hm).1⟩
  | true =>
      refine ⟨?_, ht.feed, ht.ingested_mem hx, hd.sublist.trans ht.sublist, ?_⟩
      · show (u.ingest channelId x).db.channels.get channelId ≠ none
        rw [ingest, hins.1]
        exact ht.known
      · intro rest room hr m hm
        obtain ⟨hnew, hlt⟩ := hph rest room hr m hm
        show Newer ((u.ingest channelId x).db.ingestedIds channelId) m
        rcases hins.2 with ⟨-, he⟩ | ⟨-, he⟩
        · rw [ingest, he]; exact hnew
        · rw [ingest, he]; exact newer_append hnew hlt

/-- What a step must do: keep the ids in order, and keep the channel free of gaps exactly if
it is orderly. -/
def Sound (channelId : Nat) (u : Userbot) (a : UserbotAction) (u' : Userbot) : Prop :=
  Tidy channelId u' ∧ (NoGap channelId u' ↔ NoGap channelId u ∧ Orderly channelId u a)

/-- Whoever sees a message that appears, it is added to the work or left out. -/
theorem meets_work (ph : UserbotPhase) (x : Message) (yielded : Bool) :
    (ph.meets x yielded).work = ph.work ∨ (ph.meets x yielded).work = ph.work ++ [x] := by
  unfold UserbotPhase.meets
  split
  · split
    · exact .inr rfl
    · exact .inl rfl
  · exact .inr rfl
  · exact .inl rfl

theorem meets_backfill {ph : UserbotPhase} {x : Message} {yielded : Bool} {rest : List Message}
    {room : Nat} (h : ph.meets x yielded = .backfill rest room) :
    ∃ rest₀ room₀, ph = .backfill rest₀ room₀ := by
  cases ph with
  | backfill rest₀ room₀ => exact ⟨rest₀, room₀, rfl⟩
  | _ => exact absurd h (by simp [UserbotPhase.meets])

/-- A message appears: a handler takes it if the userbot listens, and a backfill may yield it. -/
theorem appears_sound (ht : Tidy channelId u) {x : Message} {yielded : Bool}
    (hx : ∀ m ∈ u.feed, m.id < x.id) :
    Sound channelId u (.appears x yielded)
      { u with feed := u.feed ++ [x], phase := u.phase.meets x yielded } := by
  have hnew := ht.newer hx
  -- what is new in a list that `x` was added to is `x`
  have hadd : ∀ {l : List Message}, ∀ m ∈ l ++ [x], m ∈ l ∨ Newer (u.db.ingestedIds channelId) m := by
    intro l m hm
    rcases List.mem_append.mp hm with hm | hm
    · exact .inl hm
    · rw [List.mem_singleton.mp hm]; exact .inr hnew
  have hwork := meets_work u.phase x yielded
  refine ⟨⟨ht.known, ?_, ?_, ?_, ?_⟩, ?_⟩
  · show ((u.feed ++ [x]).map Message.id).Pairwise (· < ·)
    rw [List.map_append, List.pairwise_append]
    refine ⟨ht.feed, by simp, ?_⟩
    intro i hi j hj
    obtain ⟨m, hm, rfl⟩ := List.mem_map.mp hi
    obtain rfl : j = x.id := by simpa using hj
    exact hx m hm
  · intro i hi
    obtain ⟨m, hm, he⟩ := ht.ingested i hi
    exact ⟨m, List.mem_append_left _ hm, he⟩
  · show List.Sublist (u.phase.meets x yielded).work (u.feed ++ [x])
    rcases hwork with hw | hw
    · rw [hw]; exact ht.sublist.trans (List.sublist_append_left _ _)
    · rw [hw]; exact ht.sublist.append (List.Sublist.refl _)
  · intro rest room hph m hm
    obtain ⟨rest₀, room₀, hph₀⟩ := meets_backfill hph
    have hmem : m ∈ (u.phase.meets x yielded).work := by
      have hph : u.phase.meets x yielded = .backfill rest room := hph
      rw [hph]; exact hm
    have hold : m ∈ u.phase.work → Newer (u.db.ingestedIds channelId) m := by
      intro hm
      rw [hph₀] at hm
      exact ht.ahead rest₀ room₀ hph₀ m hm
    rcases hwork with hw | hw
    · rw [hw] at hmem; exact hold hmem
    · rw [hw] at hmem
      rcases hadd m hmem with hmem | hmem
      · exact hold hmem
      · exact hmem
  · rw [and_iff_left (show Orderly channelId u (.appears x yielded) from trivial)]
    show Gapless _ (u.feed ++ [x]) (u.phase.meets x yielded).work ↔ _
    rcases hwork with hw | hw
    · rw [hw]
      exact gapless_newer (List.subset_append_left _ _) (List.Subset.refl _) hadd fun m hm => .inl hm
    · rw [hw]
      exact gapless_newer (List.subset_append_left _ _) (List.subset_append_left _ _) hadd hadd

/-- The userbot starts: what is newer than the last ingested id is to be fetched, up to the limit. -/
theorem start_sound (ht : Tidy channelId u) (hph : u.phase = .down) :
    let rest := iterMessages u.feed (lastIngestedMessageId u.db channelId) backfillLimit
    Sound channelId u .start { u with phase := .backfill rest (backfillLimit - rest.length) } := by
  intro rest
  have hwork : u.work = [] := by rw [work, hph]; rfl
  have hahead : ∀ m ∈ rest, Newer (u.db.ingestedIds channelId) m := by
    intro m hm f _
    exact of_decide_eq_true (List.mem_filter.mp (List.mem_of_mem_take hm)).2
  refine ⟨⟨ht.known, ht.feed, ht.ingested, ?_, ?_⟩, ?_⟩
  · exact (List.take_sublist _ _).trans List.filter_sublist
  · intro rest' room hr m hm
    obtain ⟨rfl, -⟩ := UserbotPhase.backfill.inj hr
    exact hahead m hm
  · rw [and_iff_left (show Orderly channelId u .start from trivial)]
    refine gapless_newer (List.Subset.refl _) ?_ (fun m hm => .inl hm) fun m hm => .inr (hahead m hm)
    rw [hwork]
    exact List.nil_subset _

/-- The backfill goes on to its next message. -/
theorem next_sound (ht : Tidy channelId u) {x : Message} {rest : List Message} {room : Nat}
    {committed : Bool} (hph : u.phase = .backfill (x :: rest) room) :
    Sound channelId u (.next committed)
      { (if committed then u.ingest channelId x else u) with phase := .backfill rest room } := by
  have hd := doneWith_next ht hph
  have hsorted := ht.work_sorted
  have hwork : u.work = x :: rest := by rw [work, hph]; rfl
  rw [hwork] at hsorted
  refine ⟨tidy_done ht hd fun rest' room' hr m hm => ?_, ?_⟩
  · obtain ⟨rfl, -⟩ := UserbotPhase.backfill.inj hr
    exact ⟨ht.ahead _ _ hph m (List.mem_cons_of_mem _ hm),
      (List.pairwise_cons.mp hsorted).1 _ (List.mem_map_of_mem hm)⟩
  · cases committed with
    | true =>
        refine (noGap_ingest ht hd).trans (and_congr_right fun _ => ?_)
        simp only [Orderly, hwork, List.head?_cons, Option.mem_some_iff, forall_eq']
    | false =>
        -- what a backfill gives up is newer than all that has a row
        refine (noGap_drop ht hd).trans (and_congr_right fun _ => ?_)
        exact iff_of_true (ht.ahead _ _ hph x List.mem_cons_self).mayGo trivial

/-- A handler ends. -/
theorem handled_sound (ht : Tidy channelId u) {x : Message} {inFlight : List Message}
    {committed : Bool} (hph : u.phase = .listening inFlight) (hx : x ∈ inFlight) :
    Sound channelId u (.handled x committed)
      { (if committed then u.ingest channelId x else u) with
        phase := .listening (inFlight.erase x) } := by
  have hd := doneWith_handled ht hph hx
  refine ⟨tidy_done ht hd (by simp), ?_⟩
  cases committed with
  | true => exact noGap_ingest ht hd
  | false => exact noGap_drop ht hd

/-- The userbot moves on to a phase in which it works on nothing. -/
theorem idle_sound (ht : Tidy channelId u) {ph : UserbotPhase} (hidle : ph.work = [])
    (ho : Orderly channelId u a ↔ ∀ m ∈ u.work, MayGo (u.db.ingestedIds channelId) m) :
    Sound channelId u a { u with phase := ph } := by
  refine ⟨⟨ht.known, ht.feed, ht.ingested, ?_, ?_⟩, ?_⟩
  · show List.Sublist ph.work u.feed
    rw [hidle]; exact List.nil_sublist _
  · intro rest room hph m hm
    obtain rfl : ph = .backfill rest room := hph
    obtain rfl : rest = [] := hidle
    exact absurd hm (by simp)
  · show Gapless _ _ ph.work ↔ _
    rw [hidle, ho, gapless_drop ht.sublist.subset (List.nil_subset _)]
    exact and_congr_right fun _ => ⟨fun h m hm => h m hm (by simp), fun h m hm _ => h m hm⟩

/-- **One step** keeps the work in order, and keeps the channel without a gap exactly if it is
orderly. -/
theorem step_sound (ht : Tidy channelId u) (h : step channelId u a = some u') :
    Sound channelId u a u' := by
  have hnone : u.work = [] → (True ↔ ∀ m ∈ u.work, MayGo (u.db.ingestedIds channelId) m) := by
    intro hw
    rw [hw]
    simp
  cases a with
  | tick d =>
      obtain rfl := Option.some.inj h
      exact ⟨⟨ht.known, ht.feed, ht.ingested, ht.sublist, ht.ahead⟩, (and_iff_left trivial).symm⟩
  | appears x yielded =>
      simp only [step] at h
      split at h
      · rename_i hx
        obtain rfl := Option.some.inj h
        exact appears_sound ht hx
      · exact absurd h (by simp)
  | start =>
      simp only [step] at h
      split at h
      · rename_i hph
        obtain rfl := Option.some.inj h
        exact start_sound ht hph
      · exact absurd h (by simp)
  | next committed =>
      simp only [step] at h
      split at h
      · rename_i hph
        obtain rfl := Option.some.inj h
        exact next_sound ht hph
      · exact absurd h (by simp)
  | iterRaises =>
      -- what is left of the backfill is newer than all that has a row, so it may go
      simp only [step] at h
      split at h
      · rename_i hph
        obtain rfl := Option.some.inj h
        refine idle_sound ht rfl (iff_of_true trivial fun m hm => ?_)
        rw [work, hph] at hm
        exact (ht.ahead _ _ hph m hm).mayGo
      · exact absurd h (by simp)
  | iterEnds | register =>
      -- nothing is left to do in these phases
      simp only [step] at h
      split at h
      · rename_i hph
        obtain rfl := Option.some.inj h
        exact idle_sound ht rfl (hnone (by rw [work, hph]; rfl))
      · exact absurd h (by simp)
  | handled x committed =>
      simp only [step] at h
      split at h
      · rename_i hph
        split at h
        · rename_i hx
          obtain rfl := Option.some.inj h
          exact handled_sound ht hph hx
        · exact absurd h (by simp)
      · exact absurd h (by simp)
  | stop =>
      simp only [step] at h
      split at h
      · exact absurd h (by simp)
      · obtain rfl := Option.some.inj h
        -- the work at hand is dropped, which is what `Orderly` asks about
        exact idle_sound ht rfl Iff.rfl

/-! ## Runs -/

theorem init_tidy (h : Init channelId u) : Tidy channelId u where
  known := h.known
  feed := h.feed
  ingested i hi := by rw [h.none] at hi; exact absurd hi (by simp)
  sublist := by rw [work, h.phase]; exact List.nil_sublist _
  ahead rest room hph := by rw [h.phase] at hph; exact absurd hph (by simp)

/--
**Once the userbot is listening again, every message between the first and the newest
ingested one has a row, or its handler is at work, exactly if every step so far was
orderly.**

By induction on the run: `NoGap` speaks of the work that is still to come as well as of the rows,
so that it makes sense in the middle of a backfill, and one step keeps it exactly if it is orderly
(`step_sound`). In the phase of listening it is the statement.
-/
theorem gapless_iff {u₀ : Userbot} {tr : List (Userbot × UserbotAction)} {inFlight : List Message}
    (h0 : Init channelId u₀) (hp : Trace (step channelId) u₀ tr u)
    (hph : u.phase = .listening inFlight) :
    (∀ m ∈ u.feed, ∀ f ∈ (u.db.ingestedIds channelId).head?, f < m.id →
        m.id ≤ lastIngestedMessageId u.db channelId →
        u.db.hasMessage channelId m.id = true ∨ m ∈ inFlight)
      ↔ AllSteps (Orderly channelId) tr := by
  have hgap : Tidy channelId u ∧ (NoGap channelId u ↔ AllSteps (Orderly channelId) tr) := by
    clear hph
    induction hp with
    | nil =>
        refine ⟨init_tidy h0, iff_of_true ?_ (allSteps_nil _)⟩
        intro m _ f hf
        rw [h0.none] at hf
        exact absurd hf (by simp)
    | snoc _ hu ih =>
        obtain ⟨ht, ih⟩ := ih
        obtain ⟨ht', hs⟩ := step_sound ht hu
        exact ⟨ht', by rw [hs, ih, allSteps_snoc]⟩
  rw [← hgap.2, NoGap, work, hph]
  simp only [Gapless, mem_ingestedIds, UserbotPhase.work, lastIngestedMessageId]

/-- A channel that has one message so far. -/
def sampleUserbot : Userbot where
  now := 0
  db := { channels := Table.empty.insert sampleChannel }
  feed := [{ id := 1 }]

theorem sampleUserbot_init : Init 1 sampleUserbot :=
  ⟨rfl, by decide, rfl, by decide⟩

/-- The userbot starts, backfills and listens; in between `missed` messages appear. -/
def resumes (missed : List UserbotAction) : List UserbotAction :=
  [.start, .next true, .iterEnds] ++ missed ++ [.register]

/-- A message appears, and its handler does its work. -/
def arrives (id : Nat) : List UserbotAction :=
  [.appears { id := id } false, .handled { id := id } true]

theorem gapless_iff_resumed :
    ∃ u, runs (step 1) sampleUserbot (resumes [] ++ arrives 2 ++ arrives 3) = some u
      ∧ u.phase = .listening [] ∧ u.db.ingestedIds 1 = [1, 2, 3]
      ∧ ∀ m ∈ u.feed, ∀ f ∈ (u.db.ingestedIds 1).head?, f < m.id →
          m.id ≤ lastIngestedMessageId u.db 1 → u.db.hasMessage 1 m.id = true ∨ m ∈ [] := by
  have hrun : (runs (step 1) sampleUserbot (resumes [] ++ arrives 2 ++ arrives 3)).map (fun u =>
      Decidable.decide (u.phase = .listening [] ∧ u.db.ingestedIds 1 = [1, 2, 3])) = some true := by
    decide +kernel
  obtain ⟨u, hu, he⟩ := Option.map_eq_some_iff.mp hrun
  obtain ⟨hph, hids⟩ := of_decide_eq_true he
  exact ⟨u, hu, hph, hids,
    (gapless_iff sampleUserbot_init (.of_runs hu) hph).mpr (by decide +kernel)⟩

/-- What makes `backfill` or a handler give a message up. -/
def UserbotFails : UserbotAction → Bool
  | .next committed | .handled _ committed => !committed
  | .iterRaises => true
  | _ => false

/-- A message appears after the backfill and before the handler is registered; the next one
is ingested. Nothing failed, and the first of the two never gets a row. -/
theorem missed_between :
    ∃ u₀ u tr, Init 1 u₀ ∧ Trace (step 1) u₀ tr u ∧ u.phase = .listening []
      ∧ u.feed.length ≤ backfillLimit ∧ (∀ x ∈ tr, UserbotFails x.2 = false)
      ∧ ¬ ∀ m ∈ u.feed, ∀ f ∈ (u.db.ingestedIds 1).head?, f < m.id →
          m.id ≤ lastIngestedMessageId u.db 1 → u.db.hasMessage 1 m.id = true := by
  have hrun : (runs (step 1) sampleUserbot
      (resumes [.appears { id := 2 } false] ++ arrives 3)).map (fun u =>
        Decidable.decide (u.phase = .listening [] ∧ u.feed.length ≤ backfillLimit
          ∧ ¬ ∀ m ∈ u.feed, ∀ f ∈ (u.db.ingestedIds 1).head?, f < m.id →
            m.id ≤ lastIngestedMessageId u.db 1 → u.db.hasMessage 1 m.id = true)) = some true := by
    decide +kernel
  obtain ⟨u, hu, he⟩ := Option.map_eq_some_iff.mp hrun
  obtain ⟨hph, hlen, hgap⟩ := of_decide_eq_true he
  exact ⟨_, u, _, sampleUserbot_init, .of_runs hu, hph, hlen, by decide +kernel, hgap⟩

end Userbot

end TelegramCms
