import TelegramCms.Proof.Backfill

/-!
# What one backfill takes

`backfill` asks for the messages above the newest ingested one, oldest first, and stops
after `_BACKFILL_LIMIT` of them. So of a longer history it takes the oldest part and not
the most recent one.
-/

namespace TelegramCms

open Transition

/-- The last `limit` messages. -/
def mostRecent (limit : Nat) (messages : List Message) : List Message :=
  messages.drop (messages.length - limit)

namespace Userbot

variable {channelId : Nat} {u u' v v' : Userbot} {a : UserbotAction} {as : List UserbotAction}

/-- The messages that are newer than the last ingested one. -/
def newer (channelId : Nat) (u : Userbot) : List Message :=
  u.feed.filter (fun m => lastIngestedMessageId u.db channelId < m.id)

/-- What may happen during a backfill in which nothing fails. -/
def Undisturbed : UserbotAction → Prop
  | .tick _ | .appears .. | .next true => True
  | _ => False

/-- The property: of the messages that were there when the backfill that led from `u` to
`u'` began, it ingested the most recent `_BACKFILL_LIMIT` that are newer than the last
ingested one, each once. -/
def TookMostRecent (channelId : Nat) (u u' : Userbot) : Prop :=
  ∃ ids, u'.db.ingestedIds channelId = u.db.ingestedIds channelId ++ ids ∧ ids.Nodup
    ∧ (∀ i ∈ ids, ∃ m ∈ u'.feed, m.id = i)
    ∧ ∀ m ∈ u.feed, m.id ∈ ids ↔ m ∈ mostRecent backfillLimit (newer channelId u)

/-! ## The iteration -/

/-- In the midst of a backfill that began in `u`: of the messages it was to yield `done`
have a row, `rest` is left, and `extra` came in meanwhile. -/
structure Underway (channelId : Nat) (u v : Userbot) (done rest extra : List Message)
    (ids : List Nat) : Prop where
  known : v.db.channels.get channelId ≠ none
  phase : ∃ room, v.phase = .backfill (rest ++ extra) room
  split : done ++ rest = (newer channelId u).take backfillLimit
  feed : u.feed ⊆ v.feed
  extraFeed : extra ⊆ v.feed
  later : ∀ m ∈ extra, ∀ f ∈ u.feed, f.id < m.id
  rows : v.db.ingestedIds channelId = u.db.ingestedIds channelId ++ ids
  nodup : ids.Nodup
  fromFeed : ∀ i ∈ ids, ∃ m ∈ v.feed, m.id = i
  took : ∀ m ∈ u.feed, m.id ∈ ids ↔ m ∈ done

theorem newer_sublist : List.Sublist (newer channelId u) u.feed := List.filter_sublist

theorem newer_sorted (hf : (u.feed.map Message.id).Pairwise (· < ·)) :
    ((newer channelId u).map Message.id).Pairwise (· < ·) :=
  hf.sublist (newer_sublist.map _)

theorem newer_nodup (hf : (u.feed.map Message.id).Pairwise (· < ·)) :
    (newer channelId u).Nodup :=
  List.Nodup.of_map _ ((newer_sorted hf).imp Nat.ne_of_lt)

/-- A newer message has no row yet. -/
theorem newer_fresh {m : Message} (hm : m ∈ newer channelId u) :
    m.id ∉ u.db.ingestedIds channelId := by
  intro hi
  have hlt : lastIngestedMessageId u.db channelId < m.id :=
    of_decide_eq_true (List.mem_filter.mp hm).2
  exact absurd (le_max hi) (Nat.not_le.mpr hlt)

theorem underway_start (hk : u.db.channels.get channelId ≠ none)
    (h : step channelId u .start = some v) :
    Underway channelId u v [] ((newer channelId u).take backfillLimit) [] [] := by
  simp only [step] at h
  split at h
  · obtain rfl := Option.some.inj h
    exact ⟨hk, ⟨_, by rw [List.append_nil]; rfl⟩, rfl, List.Subset.refl _, by simp, by simp,
      by simp, List.nodup_nil, by simp, by simp⟩
  · exact absurd h (by simp)

section Steps

variable {done rest extra : List Message} {ids : List Nat}

theorem underway_appears (hu : Underway channelId u v done rest extra ids) {x : Message}
    {yielded : Bool} (h : step channelId v (.appears x yielded) = some v') :
    ∃ extra', Underway channelId u v' done rest extra' ids := by
  obtain ⟨room, hph⟩ := hu.phase
  simp only [step] at h
  split at h
  · rename_i hx
    obtain rfl := Option.some.inj h
    have hold : v.feed ⊆ v.feed ++ [x] := List.subset_append_left _ _
    have hfeed : u.feed ⊆ v.feed ++ [x] := List.Subset.trans hu.feed hold
    have hextra : extra ⊆ v.feed ++ [x] := List.Subset.trans hu.extraFeed hold
    have hids : ∀ i ∈ ids, ∃ m ∈ v.feed ++ [x], m.id = i := by
      intro i hi
      obtain ⟨m, hm, he⟩ := hu.fromFeed i hi
      exact ⟨m, hold hm, he⟩
    -- either the iteration gets to see it, behind everything else, or it does not
    have hmeets : (∃ room', v.phase.meets x yielded = .backfill (rest ++ extra) room')
        ∨ ∃ room', v.phase.meets x yielded = .backfill (rest ++ (extra ++ [x])) room' := by
      rw [hph]
      cases room with
      | zero => exact .inl ⟨0, rfl⟩
      | succ room =>
          cases yielded with
          | false => exact .inl ⟨room + 1, rfl⟩
          | true => exact .inr ⟨room, by simp [UserbotPhase.meets]⟩
    rcases hmeets with hm | hm
    · exact ⟨extra, hu.known, hm, hu.split, hfeed, hextra, hu.later, hu.rows, hu.nodup, hids, hu.took⟩
    · refine ⟨extra ++ [x], hu.known, hm, hu.split, hfeed, ?_, ?_, hu.rows, hu.nodup, hids, hu.took⟩
      · exact List.append_subset.mpr ⟨hextra, List.subset_append_right _ _⟩
      · intro m hm f hf
        rcases List.mem_append.mp hm with hm | hm
        · exact hu.later m hm f hf
        · rw [List.mem_singleton.mp hm]; exact hx f (hu.feed hf)
  · exact absurd h (by simp)

/-- The next message of those that were to be yielded gets its row. -/
theorem underway_next_rest {x : Message} (hf : (u.feed.map Message.id).Pairwise (· < ·))
    (hu : Underway channelId u v done (x :: rest) extra ids) {room : Nat} :
    Underway channelId u
      { v.ingest channelId x with phase := .backfill (rest ++ extra) room }
      (done ++ [x]) rest extra (ids ++ [x.id]) := by
  have hmem : x ∈ newer channelId u := by
    have hx : x ∈ done ++ x :: rest := by simp
    rw [hu.split] at hx
    exact List.mem_of_mem_take hx
  have hxf : x ∈ u.feed := newer_sublist.subset hmem
  have hdone : x ∉ done := by
    have hnodup : (done ++ x :: rest).Nodup := by
      rw [hu.split]
      exact (newer_nodup hf).sublist (List.take_sublist _ _)
    intro hx
    exact (List.nodup_append.mp hnodup).2.2 x hx x (by simp) rfl
  -- so the insert finds no row of it
  have hnew : x.id ∉ ids := fun hi => hdone ((hu.took x hxf).mp hi)
  have hins := ingestedIds_insertPost v.now x.id (messageText x) hu.known
  have hrows : (v.ingest channelId x).db.ingestedIds channelId
      = u.db.ingestedIds channelId ++ (ids ++ [x.id]) := by
    rcases hins.2 with ⟨hi, -⟩ | ⟨-, he⟩
    · rw [hu.rows] at hi
      rcases List.mem_append.mp hi with hi | hi
      · exact absurd hi (newer_fresh hmem)
      · exact absurd hi hnew
    · rw [ingest, he, hu.rows, List.append_assoc]
  refine ⟨?_, ⟨room, rfl⟩, ?_, hu.feed, hu.extraFeed, hu.later, hrows, ?_, ?_, ?_⟩
  · show (v.ingest channelId x).db.channels.get channelId ≠ none
    rw [ingest, hins.1]
    exact hu.known
  · rw [← hu.split]; simp
  · exact List.nodup_append.mpr ⟨hu.nodup, by simp, fun i hi j hj he =>
      hnew (by rw [← List.mem_singleton.mp hj, ← he]; exact hi)⟩
  · intro i hi
    rcases List.mem_append.mp hi with hi | hi
    · exact hu.fromFeed i hi
    · exact ⟨x, hu.feed hxf, (List.mem_singleton.mp hi).symm⟩
  · intro m hm
    have hid : m.id = x.id ↔ m = x :=
      ⟨List.inj_on_of_nodup_map (hf.imp Nat.ne_of_lt) hm hxf, congrArg _⟩
    rw [List.mem_append, List.mem_append, List.mem_singleton, List.mem_singleton, hu.took m hm, hid]

/-- A message that came in meanwhile gets its row, which none of the others is. -/
theorem underway_next_extra {x : Message}
    (hu : Underway channelId u v done [] (x :: extra) ids) {room : Nat} :
    ∃ ids', Underway channelId u
      { v.ingest channelId x with phase := .backfill extra room } done [] extra ids' := by
  have hins := ingestedIds_insertPost v.now x.id (messageText x) hu.known
  have hknown : (v.ingest channelId x).db.channels.get channelId ≠ none := by
    rw [ingest, hins.1]
    exact hu.known
  have hsub : extra ⊆ v.feed := fun m hm => hu.extraFeed (List.mem_cons_of_mem _ hm)
  have hlater : ∀ m ∈ extra, ∀ f ∈ u.feed, f.id < m.id :=
    fun m hm => hu.later m (List.mem_cons_of_mem _ hm)
  -- a handler may have ingested it before
  rcases hins.2 with ⟨-, he⟩ | ⟨hno, he⟩
  · exact ⟨ids, hknown, ⟨room, rfl⟩, hu.split, hu.feed, hsub, hlater,
      by rw [ingest, he]; exact hu.rows, hu.nodup, hu.fromFeed, hu.took⟩
  · have hnew : x.id ∉ ids := by
      intro hi
      rw [hu.rows] at hno
      exact hno (List.mem_append_right _ hi)
    refine ⟨ids ++ [x.id], hknown, ⟨room, rfl⟩, hu.split, hu.feed, hsub, hlater, ?_, ?_, ?_, ?_⟩
    · rw [ingest, he, hu.rows, List.append_assoc]
    · exact List.nodup_append.mpr ⟨hu.nodup, by simp, fun i hi j hj he =>
        hnew (by rw [← List.mem_singleton.mp hj, ← he]; exact hi)⟩
    · intro i hi
      rcases List.mem_append.mp hi with hi | hi
      · exact hu.fromFeed i hi
      · exact ⟨x, hu.extraFeed List.mem_cons_self, (List.mem_singleton.mp hi).symm⟩
    · intro m hm
      have hne : m.id ≠ x.id := Nat.ne_of_lt (hu.later x List.mem_cons_self m hm)
      rw [List.mem_append, hu.took m hm, List.mem_singleton, or_iff_left hne]

theorem underway_step (hf : (u.feed.map Message.id).Pairwise (· < ·))
    (hu : Underway channelId u v done rest extra ids) (ha : Undisturbed a)
    (h : step channelId v a = some v') :
    ∃ done' rest' extra' ids', Underway channelId u v' done' rest' extra' ids' := by
  cases a with
  | tick d =>
      obtain rfl := Option.some.inj h
      exact ⟨done, rest, extra, ids, hu.known, hu.phase, hu.split, hu.feed, hu.extraFeed, hu.later,
        hu.rows, hu.nodup, hu.fromFeed, hu.took⟩
  | appears x yielded =>
      obtain ⟨extra', hu'⟩ := underway_appears hu h
      exact ⟨done, rest, extra', ids, hu'⟩
  | next committed =>
      cases committed with
      | false => exact absurd ha (by simp [Undisturbed])
      | true =>
          obtain ⟨room, hph⟩ := hu.phase
          simp only [step, hph, if_true] at h
          cases rest with
          | cons x rest =>
              obtain rfl := Option.some.inj h
              exact ⟨_, _, _, _, underway_next_rest hf hu⟩
          | nil =>
              cases extra with
              | nil => exact absurd h (by simp)
              | cons x extra =>
                  obtain rfl := Option.some.inj h
                  obtain ⟨ids', hu'⟩ := underway_next_extra hu
                  exact ⟨_, _, _, _, hu'⟩
  | start | iterRaises | iterEnds | register | handled | stop =>
      exact absurd ha (by simp [Undisturbed])

theorem underway_runs (hf : (u.feed.map Message.id).Pairwise (· < ·))
    (hu : Underway channelId u v done rest extra ids) (ha : ∀ a ∈ as, Undisturbed a)
    (h : runs (step channelId) v as = some v') :
    ∃ done' rest' extra' ids', Underway channelId u v' done' rest' extra' ids' := by
  have hg : AllSteps (fun _ a => Undisturbed a) (trail (step channelId) v as) :=
    fun x hx => ha x.2 (mem_trail hx)
  refine (Trace.of_runs h).invariant (G := fun _ a => Undisturbed a)
    (I := fun v => ∃ done rest extra ids, Underway channelId u v done rest extra ids) ?_ hg
    ⟨done, rest, extra, ids, hu⟩
  rintro t a t' ⟨done', rest', extra', ids', ht⟩ hua hs
  exact underway_step hf ht hua hs

end Steps

/-! ## The call -/

/-- Of the messages that were there when it began, a backfill takes the oldest ones that are
newer than the last ingested one. -/
theorem backfill_oldest (hk : u.db.channels.get channelId ≠ none)
    (hf : (u.feed.map Message.id).Pairwise (· < ·)) (ha : ∀ a ∈ as, Undisturbed a)
    (h : runs (step channelId) u (.start :: as ++ [.iterEnds]) = some u') :
    ∃ ids, u'.db.ingestedIds channelId = u.db.ingestedIds channelId ++ ids ∧ ids.Nodup
      ∧ (∀ i ∈ ids, ∃ m ∈ u'.feed, m.id = i)
      ∧ ∀ m ∈ u.feed, m.id ∈ ids ↔ m ∈ (newer channelId u).take backfillLimit := by
  obtain ⟨v, hv, h⟩ := Option.bind_eq_some_iff.mp h
  obtain ⟨w, hw, h⟩ := runs_append.mp h
  obtain ⟨done, rest, extra, ids, hu⟩ := underway_runs hf (underway_start hk hv) ha hw
  obtain ⟨t, ht, h⟩ := Option.bind_eq_some_iff.mp h
  obtain rfl : t = u' := Option.some.inj h
  obtain ⟨room, hph⟩ := hu.phase
  -- the iteration ends when there is nothing left
  cases hrest : rest ++ extra with
  | cons x l =>
      simp only [step, hph, hrest] at ht
      exact absurd ht (by simp)
  | nil =>
      simp only [step, hph, hrest] at ht
      obtain rfl := Option.some.inj ht
      have hdone := hu.split
      rw [(List.append_eq_nil_iff.mp hrest).1, List.append_nil] at hdone
      exact ⟨ids, hu.rows, hu.nodup, hu.fromFeed, by rw [← hdone]; exact hu.took⟩

/-- The oldest part of a list is its most recent part exactly if that is all of it. -/
theorem take_eq_mostRecent_iff {l : List Message} {limit : Nat} (hl : l.Nodup) (h0 : 0 < limit) :
    (∀ m ∈ l, m ∈ l.take limit ↔ m ∈ mostRecent limit l) ↔ l.length ≤ limit := by
  constructor
  · intro h
    by_contra hlt
    have hpos : 0 < l.length := by omega
    -- the oldest message of all is in the one part and not in the other
    have hmem : l[0] ∈ l.take limit := by
      rw [List.mem_take_iff_getElem]
      exact ⟨0, by omega, rfl⟩
    have hdrop := (h l[0] (List.getElem_mem hpos)).mp hmem
    obtain ⟨i, hi, he⟩ := List.mem_drop_iff_getElem.mp hdrop
    have heq := (List.Nodup.getElem_inj_iff hl).mp he
    omega
  · intro h m hm
    rw [mostRecent, Nat.sub_eq_zero_of_le h, List.take_of_length_le h, List.drop_zero]

/--
**A backfill takes the most recent messages exactly if at most `_BACKFILL_LIMIT` are
newer than the last ingested one.**

It takes the oldest of the newer messages (`backfill_oldest`), up to the limit; and the first and
the last so many of a list without repetitions are the same only if they are all of it.
-/
theorem backfill_mostRecent_iff (hk : u.db.channels.get channelId ≠ none)
    (hf : (u.feed.map Message.id).Pairwise (· < ·)) (ha : ∀ a ∈ as, Undisturbed a)
    (h : runs (step channelId) u (.start :: as ++ [.iterEnds]) = some u') :
    TookMostRecent channelId u u' ↔ (newer channelId u).length ≤ backfillLimit := by
  obtain ⟨ids, hrows, hnodup, hfrom, htook⟩ := backfill_oldest hk hf ha h
  rw [← take_eq_mostRecent_iff (newer_nodup hf) (show 0 < backfillLimit by decide)]
  constructor
  · rintro ⟨ids', hrows', -, -, hrecent⟩ m hm
    obtain rfl : ids = ids' := List.append_cancel_left (hrows.symm.trans hrows')
    have hmf := newer_sublist.subset hm
    rw [← htook m hmf, hrecent m hmf]
  · intro hall
    refine ⟨ids, hrows, hnodup, hfrom, fun m hm => ?_⟩
    rw [htook m hm]
    constructor
    · intro ht
      exact (hall m (List.mem_of_mem_take ht)).mp ht
    · intro ht
      exact (hall m (List.mem_of_mem_drop ht)).mpr ht

/-- A channel with `n` messages, none of which was ingested yet. -/
def sampleHistory (n : Nat) : Userbot where
  now := 0
  db := { channels := Table.empty.insert sampleChannel }
  feed := (List.range n).map (fun i => { id := i + 1 })

/-- A backfill that yields `n` messages. -/
def yields (n : Nat) : List UserbotAction := List.replicate n (.next true)

theorem undisturbed_yields {n : Nat} : ∀ a ∈ yields n, Undisturbed a := by
  intro a ha
  rw [List.eq_of_mem_replicate ha]
  trivial

theorem backfill_mostRecent_iff_three :
    ∃ u, runs (step 1) (sampleHistory 3) (.start :: yields 3 ++ [.iterEnds]) = some u
      ∧ TookMostRecent 1 (sampleHistory 3) u := by
  have hrun : (runs (step 1) (sampleHistory 3) (.start :: yields 3 ++ [.iterEnds])).isSome = true := by
    decide +kernel
  obtain ⟨u, hu⟩ := Option.isSome_iff_exists.mp hrun
  exact ⟨u, hu, (backfill_mostRecent_iff (by decide) (by decide) undisturbed_yields hu).mpr
    (by decide)⟩

/-- An iteration yields what it has left, one message at a time. -/
theorem runs_yields (channelId : Nat) {l : List Message} {room : Nat}
    (hph : v.phase = .backfill l room) :
    ∃ w, runs (step channelId) v (yields l.length ++ [.iterEnds]) = some w := by
  induction l generalizing v with
  | nil => exact ⟨{ v with phase := .between }, by simp [yields, runs, step, hph]⟩
  | cons x l ih =>
      have hs : step channelId v (.next true)
          = some { v.ingest channelId x with phase := .backfill l room } := by
        simp only [step, hph, if_true]
      obtain ⟨w, hw⟩ := ih (v := { v.ingest channelId x with phase := .backfill l room }) rfl
      refine ⟨w, ?_⟩
      rw [List.length_cons, yields, List.replicate_succ, List.cons_append, runs, hs]
      exact hw

/-- Of a history of 201 messages a backfill takes the first 200. -/
theorem backfill_took_oldest :
    ∃ u, runs (step 1) (sampleHistory 201) (.start :: yields 200 ++ [.iterEnds]) = some u
      ∧ ¬ TookMostRecent 1 (sampleHistory 201) u := by
  have hstart : ∃ v l room, step 1 (sampleHistory 201) .start = some v
      ∧ v.phase = .backfill l room ∧ l = iterMessages (sampleHistory 201).feed
        (lastIngestedMessageId (sampleHistory 201).db 1) backfillLimit := ⟨_, _, _, rfl, rfl, rfl⟩
  obtain ⟨v, l, room, hv, hph, hl⟩ := hstart
  have hlen : l.length = 200 := by
    rw [hl]
    decide +kernel
  obtain ⟨u, hu⟩ := runs_yields 1 hph
  have hrun : runs (step 1) (sampleHistory 201) (.start :: yields 200 ++ [.iterEnds]) = some u := by
    rw [List.cons_append, runs, hv, ← hlen]
    exact hu
  obtain ⟨ids, hrows, -, -, htook⟩ := backfill_oldest (by decide) (by decide +kernel)
    undisturbed_yields hrun
  refine ⟨u, hrun, ?_⟩
  rintro ⟨ids', hrows', -, -, hrecent⟩
  obtain rfl : ids = ids' := List.append_cancel_left (hrows.symm.trans hrows')
  -- the first message
  have hmem : ({ id := 1 } : Message) ∈ (sampleHistory 201).feed := by decide +kernel
  have hids := (htook _ hmem).mpr (by decide +kernel)
  exact absurd ((hrecent _ hmem).mp hids) (by decide +kernel)

end Userbot

end TelegramCms
