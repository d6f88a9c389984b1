import TelegramCms.Model.Reloader
import TelegramCms.Proof.Backfill

/-!
# What the channel map holds

The reloader goes by telegram ids: it adds channels whose id the map does not hold and removes
those whose id is gone. What the map holds under an id that stays is not looked at again. So
after an iteration the map is current exactly if no row changed under such an id. A channel
that was deleted and created anew keeps its old id in the map, and its messages are lost as
`already-ingested` (`recreated_dropped`).
-/

namespace TelegramCms

open Transition

namespace ChannelMap

variable {resolves : Int → Bool} {channels : List SourceChannel} {m current : ChannelMap}
  {c e : SourceChannel}

/-- An entry under its telegram id replaces the one that was there. -/
theorem mem_put : e ∈ (put m c).rows
    ↔ (e ∈ m.rows ∧ e.telegramChannelId ≠ c.telegramChannelId) ∨ e = c := by
  have hfresh : c.telegramChannelId
      ∉ (m.delete c.telegramChannelId).rows.map SourceChannel.telegramChannelId := by
    simp [Table.delete, Table.filter]
  rw [put, Table.insert, dif_neg hfresh]
  simp [Table.delete, Table.filter]

/-- Rows are put under ids of their own. -/
theorem mem_foldl_put {p : SourceChannel → Bool}
    (hids : (channels.map SourceChannel.telegramChannelId).Nodup)
    (hnew : ∀ c ∈ channels, p c = true → ∀ e ∈ m.rows, e.telegramChannelId ≠ c.telegramChannelId) :
    e ∈ (channels.foldl (fun m c => if p c then put m c else m) m).rows
      ↔ e ∈ m.rows ∨ (e ∈ channels ∧ p e = true) := by
  induction channels generalizing m with
  | nil => simp
  | cons c channels ih =>
      obtain ⟨hc, hids⟩ := List.nodup_cons.mp hids
      rw [List.foldl_cons]
      by_cases hp : p c = true
      · rw [if_pos hp, ih hids, mem_put]
        · constructor
          · rintro ((⟨he, -⟩ | rfl) | ⟨he, hpe⟩)
            · exact .inl he
            · exact .inr ⟨List.mem_cons_self, hp⟩
            · exact .inr ⟨List.mem_cons_of_mem _ he, hpe⟩
          · rintro (he | ⟨he, hpe⟩)
            · exact .inl (.inl ⟨he, hnew c List.mem_cons_self hp e he⟩)
            · rcases List.mem_cons.mp he with rfl | he
              · exact .inl (.inr rfl)
              · exact .inr ⟨he, hpe⟩
        -- the entry that was put has another id than any channel after it
        · intro d hd hpd q hq
          rcases mem_put.mp hq with ⟨hq, -⟩ | rfl
          · exact hnew d (List.mem_cons_of_mem _ hd) hpd q hq
          · exact fun h => hc (List.mem_map.mpr ⟨d, hd, h.symm⟩)
      · rw [if_neg hp, ih hids fun d hd => hnew d (List.mem_cons_of_mem _ hd)]
        constructor
        · rintro (he | ⟨he, hpe⟩)
          · exact .inl he
          · exact .inr ⟨List.mem_cons_of_mem _ he, hpe⟩
        · rintro (he | ⟨he, hpe⟩)
          · exact .inl he
          · rcases List.mem_cons.mp he with rfl | he
            · exact absurd hpe hp
            · exact .inr ⟨he, hpe⟩

theorem mem_foldl_delete {ids : List Int} :
    e ∈ (ids.foldl Table.delete m).rows ↔ e ∈ m.rows ∧ e.telegramChannelId ∉ ids := by
  induction ids generalizing m with
  | nil => simp
  | cons id ids ih =>
      rw [List.foldl_cons, ih]
      simp [Table.delete, Table.filter, and_assoc]

/-- What the map holds after an iteration: what it held under an id that is still there, and
the rows under new ids. -/
theorem mem_reload (hids : (channels.map SourceChannel.telegramChannelId).Nodup) :
    e ∈ (reload resolves channels current).rows
      ↔ (e ∈ current.rows ∧ e.telegramChannelId ∈ channels.map SourceChannel.telegramChannelId)
        ∨ (e ∈ channels ∧ current.get e.telegramChannelId = none
          ∧ resolves e.telegramChannelId = true) := by
  have hadd := mem_foldl_put (e := e) (m := current)
    (p := fun c => (current.get c.telegramChannelId).isNone && resolves c.telegramChannelId) hids
    (fun c hc hp q hq he => by
      have hnone : current.get c.telegramChannelId = none := by
        simpa using (Bool.and_eq_true_iff.mp hp).1
      exact Table.get_eq_none.mp hnone q hq he)
  rw [reload, mem_foldl_delete, addNew, hadd, removedIds]
  have hdb : e ∈ channels → e.telegramChannelId ∈ channels.map SourceChannel.telegramChannelId :=
    fun h => List.mem_map_of_mem h
  constructor
  · rintro ⟨he | ⟨he, hp⟩, hkept⟩
    · refine .inl ⟨he, ?_⟩
      by_contra hgone
      exact hkept (List.mem_filter.mpr ⟨List.mem_map_of_mem he, decide_eq_true hgone⟩)
    · obtain ⟨hnone, hres⟩ := Bool.and_eq_true_iff.mp hp
      exact .inr ⟨he, by simpa using hnone, hres⟩
  · rintro (⟨he, hin⟩ | ⟨he, hnone, hres⟩)
    · exact ⟨.inl he, fun h => (of_decide_eq_true (List.mem_filter.mp h).2) hin⟩
    · refine ⟨.inr ⟨he, by simp [hnone, hres]⟩, fun h => ?_⟩
      exact (of_decide_eq_true (List.mem_filter.mp h).2) (hdb he)

/-- At the start the map has the channels that can be resolved. -/
theorem mem_start (hids : (channels.map SourceChannel.telegramChannelId).Nodup) :
    e ∈ (start resolves channels).rows ↔ e ∈ channels ∧ resolves e.telegramChannelId = true := by
  have h := mem_foldl_put (e := e) (m := Table.empty)
    (p := fun c => resolves c.telegramChannelId) hids (by simp [Table.empty])
  rw [start, h]
  simp [Table.empty]

end ChannelMap

namespace ChannelWatch

variable {resolvable : Int → Bool} {w w' : ChannelWatch} {act : WatchAction}
  {tr : List (ChannelWatch × WatchAction)}

/-- The map holds the current rows of the enabled channels that can be resolved, and nothing
else. -/
structure Current (resolvable : Int → Bool) (w : ChannelWatch) : Prop where
  ids : ∀ tgId, (w.channelMap.get tgId).isSome
    ↔ resolvable tgId = true ∧ ∃ c ∈ w.db.loadChannels, c.telegramChannelId = tgId
  rows : ∀ e ∈ w.channelMap.rows, w.db.channels.get e.id = some e

/-- The property. After an iteration in which no call fails the map is current. A message is
taken for ingested only if it was. -/
def Good (resolvable : Int → Bool) (w : ChannelWatch) : WatchAction → Prop
  | .reload true [] =>
    ∀ w' ∈ w.step resolvable (.reload true []), Current resolvable w'
  | .message chatId message now =>
    ∀ e ∈ w.channelMap.get chatId, w.ingest e message now = none →
      w.db.hasMessage e.id message.id = true
  | _ => True

/-- The condition. An iteration finds no enabled row that differs from the entry under its
telegram id, and a message finds the row of its entry. -/
def Untouched (w : ChannelWatch) : WatchAction → Prop
  | .reload true [] =>
    ∀ c ∈ w.db.loadChannels, ∀ e ∈ w.channelMap.get c.telegramChannelId, e = c
  | .message chatId _ _ => ∀ e ∈ w.channelMap.get chatId, w.db.channels.get e.id ≠ none
  | _ => True

instance (w : ChannelWatch) : DecidablePred (Untouched w)
  | .reload true [] =>
    inferInstanceAs (Decidable
      (∀ c ∈ w.db.loadChannels, ∀ e ∈ w.channelMap.get c.telegramChannelId, e = c))
  | .message chatId _ _ =>
    inferInstanceAs (Decidable (∀ e ∈ w.channelMap.get chatId, w.db.channels.get e.id ≠ none))
  | .reload true (_ :: _) | .reload false _ | .create _ | .update .. | .delete _ | .start _ =>
    .isTrue trivial

/-! ## Reachable states -/

structure Sane (resolvable : Int → Bool) (w : ChannelWatch) : Prop where
  /-- `unique=True` -/
  ids : (w.db.channels.rows.map SourceChannel.telegramChannelId).Nodup
  /-- `ForeignKey("source_channels.id")` -/
  posts : ∀ p ∈ w.db.posts.rows, w.db.channels.get p.sourceChannelId ≠ none
  resolved : ∀ e ∈ w.channelMap.rows, resolvable e.telegramChannelId = true

theorem sane_initial : Sane resolvable {} where
  ids := List.nodup_nil
  posts := by simp [Table.empty]
  resolved := by simp [Table.empty]

theorem Sane.loaded (hw : Sane resolvable w) :
    (w.db.loadChannels.map SourceChannel.telegramChannelId).Nodup :=
  hw.ids.sublist (List.filter_sublist.map _)

theorem resolves_resolvable {fails : List Int} {tgId : Int}
    (h : resolves resolvable fails tgId = true) : resolvable tgId = true :=
  (Bool.and_eq_true_iff.mp h).1

/-- A new row has a telegram id of its own, or is refused. -/
theorem sane_create (hw : Sane resolvable w) (c : SourceChannel) :
    Sane resolvable { w with db := w.create c, nextChannel := w.nextChannel + 1 } := by
  unfold create
  split
  · exact ⟨hw.ids, hw.posts, hw.resolved⟩
  · rename_i hfree
    refine ⟨?_, fun p hp => ?_, hw.resolved⟩
    · dsimp only
      unfold Table.insert
      split
      · exact hw.ids
      · rw [List.map_append, List.nodup_append]
        refine ⟨hw.ids, by simp, fun a ha b hb he => hfree ?_⟩
        obtain ⟨r, hr, rfl⟩ := List.mem_map.mp ha
        rw [List.map_singleton, List.mem_singleton] at hb
        exact List.any_eq_true.mpr ⟨r, hr, decide_eq_true (he.trans hb)⟩
    · obtain ⟨r, hr⟩ := Option.ne_none_iff_exists'.mp (hw.posts p hp)
      dsimp only
      rw [Table.get_insert_of_some hr]
      simp

/-- An update leaves the telegram ids as they are. -/
theorem sane_update (hw : Sane resolvable w) (id : Nat) (c : SourceChannel) :
    Sane resolvable { w with db := w.update id c } := by
  refine ⟨?_, fun p hp => ?_, hw.resolved⟩
  · have hsame : (w.update id c).channels.rows.map SourceChannel.telegramChannelId
        = w.db.channels.rows.map SourceChannel.telegramChannelId := by
      simp only [update, Table.update, List.map_map]
      refine List.map_congr_left fun r _ => ?_
      simp only [Function.comp]
      split <;> rfl
    dsimp only
    rw [hsame]
    exact hw.ids
  · have hold := hw.posts p hp
    dsimp only [update]
    by_cases hid : p.sourceChannelId = id
    · rw [hid, Table.get_update_self]
      rw [hid] at hold
      simpa using hold
    · rw [Table.get_update_ne hid]
      exact hold

/-- The posts of a channel that is deleted go with it. -/
theorem sane_delete (hw : Sane resolvable w) (id : Nat) :
    Sane resolvable { w with db := w.db.deleteChannel id } := by
  refine ⟨hw.ids.sublist (List.filter_sublist.map _), fun p hp => ?_, hw.resolved⟩
  obtain ⟨hp, hne⟩ := List.mem_filter.mp hp
  have hne : p.sourceChannelId ≠ id := of_decide_eq_true hne
  dsimp only [Db.deleteChannel]
  rw [Table.get_delete_ne hne]
  exact hw.posts p hp

/-- A post is inserted for a channel that is there, or not at all. -/
theorem sane_ingest (hw : Sane resolvable w) {e : SourceChannel} {message : Message} {now : Time}
    {db' : Db} (h : w.ingest e message now = some db') : Sane resolvable { w with db := db' } := by
  unfold ingest Db.insertPost at h
  split at h
  · exact absurd h (by simp)
  · rename_i hfree
    obtain ⟨-, hrow⟩ := not_or.mp hfree
    obtain rfl := Option.some.inj h
    refine ⟨hw.ids, fun p hp => ?_, hw.resolved⟩
    rcases Table.mem_insert hp with hp | rfl
    · exact hw.posts p hp
    · exact hrow

/-- **One step**, whoever takes it. -/
theorem sane_step (hw : Sane resolvable w) (h : w.step resolvable act = some w') :
    Sane resolvable w' := by
  cases act with
  | create c => obtain rfl := Option.some.inj h; exact sane_create hw c
  | update id c => obtain rfl := Option.some.inj h; exact sane_update hw id c
  | delete id => obtain rfl := Option.some.inj h; exact sane_delete hw id
  | start fails =>
      obtain rfl := Option.some.inj h
      refine ⟨hw.ids, hw.posts, fun e he => ?_⟩
      exact resolves_resolvable ((ChannelMap.mem_start hw.loaded).mp he).2
  | reload loaded fails =>
      obtain rfl := Option.some.inj h
      refine ⟨hw.ids, hw.posts, fun e he => ?_⟩
      dsimp only at he
      split at he
      · rcases (ChannelMap.mem_reload hw.loaded).mp he with ⟨he, -⟩ | ⟨-, -, hres⟩
        · exact hw.resolved e he
        · exact resolves_resolvable hres
      · exact hw.resolved e he
  | message chatId message now =>
      obtain rfl := Option.some.inj h
      unfold onNewMessage
      split
      · exact hw
      · rename_i e _
        cases hdb : w.ingest e message now with
        | none => exact hw
        | some db' => exact sane_ingest hw hdb

theorem sane_steps (h : Trace (step resolvable) {} tr w) : ∀ x ∈ tr, Sane resolvable x.1 :=
  h.invariant_steps (G := fun _ _ => True) (fun _ _ _ hw _ hs => sane_step hw hs)
    (fun _ _ => trivial) sane_initial

/-! ## Iterations and messages -/

theorem get_isSome {m : ChannelMap} {tgId : Int} :
    (m.get tgId).isSome ↔ ∃ e ∈ m.rows, e.telegramChannelId = tgId := by
  constructor
  · intro h
    obtain ⟨e, he⟩ := Option.isSome_iff_exists.mp h
    exact ⟨e, Table.mem_of_get he, Table.key_of_get he⟩
  · rintro ⟨e, he, rfl⟩
    rw [Table.get_of_mem he]
    rfl

theorem mem_channels {c : SourceChannel} (h : c ∈ w.db.loadChannels) : c ∈ w.db.channels.rows :=
  List.mem_of_mem_filter h

theorem resolves_all (tgId : Int) : resolves resolvable [] tgId = resolvable tgId := by
  simp [resolves]

/-- An iteration leaves the map current exactly if it finds no row that differs from the entry
under its id. -/
theorem reload_current_iff (hw : Sane resolvable w) :
    Current resolvable { w with
        channelMap := .reload (resolves resolvable []) w.db.loadChannels w.channelMap }
      ↔ ∀ c ∈ w.db.loadChannels, ∀ e ∈ w.channelMap.get c.telegramChannelId, e = c := by
  have hmem : ∀ e,
      e ∈ (ChannelMap.reload (resolves resolvable []) w.db.loadChannels w.channelMap).rows ↔ (e ∈ w.channelMap.rows
          ∧ e.telegramChannelId ∈ w.db.loadChannels.map SourceChannel.telegramChannelId)
        ∨ (e ∈ w.db.loadChannels ∧ w.channelMap.get e.telegramChannelId = none
          ∧ resolves resolvable [] e.telegramChannelId = true) :=
    fun e => ChannelMap.mem_reload hw.loaded
  constructor
  · rintro ⟨-, hrows⟩ c hc e he
    have hid : e.telegramChannelId = c.telegramChannelId := Table.key_of_get he
    have hkept := (hmem e).mpr (.inl ⟨Table.mem_of_get he, hid ▸ List.mem_map_of_mem hc⟩)
    -- two rows of the table with one telegram id
    exact List.inj_on_of_nodup_map hw.ids (Table.mem_of_get (hrows e hkept)) (mem_channels hc) hid
  · intro huntouched
    constructor
    · intro tgId
      rw [get_isSome]
      constructor
      · rintro ⟨e, he, rfl⟩
        rcases (hmem e).mp he with ⟨he, hin⟩ | ⟨he, -, hres⟩
        · obtain ⟨c, hc, hid⟩ := List.mem_map.mp hin
          exact ⟨hw.resolved e he, c, hc, hid⟩
        · exact ⟨resolves_resolvable hres, e, he, rfl⟩
      · rintro ⟨hres, c, hc, rfl⟩
        cases hold : w.channelMap.get c.telegramChannelId with
        | none => exact ⟨c, (hmem c).mpr (.inr ⟨hc, hold, by rw [resolves_all]; exact hres⟩), rfl⟩
        | some e =>
            have hid : e.telegramChannelId = c.telegramChannelId := Table.key_of_get hold
            have hkept := (hmem e).mpr (.inl ⟨Table.mem_of_get hold, hid ▸ List.mem_map_of_mem hc⟩)
            exact ⟨e, hkept, hid⟩
    · intro e he
      rcases (hmem e).mp he with ⟨he, hin⟩ | ⟨he, -, -⟩
      · obtain ⟨c, hc, hid⟩ := List.mem_map.mp hin
        have hget : w.channelMap.get c.telegramChannelId = some e := by
          rw [hid]
          exact Table.get_of_mem he
        rw [huntouched c hc e hget]
        exact Table.get_of_mem (mem_channels hc)
      · exact Table.get_of_mem (mem_channels he)

/-- A message is taken for ingested, but was not, exactly if the row of its entry is gone. -/
theorem ingest_good_iff (hw : Sane resolvable w) {e : SourceChannel} {message : Message}
    {now : Time} :
    (w.ingest e message now = none → w.db.hasMessage e.id message.id = true)
      ↔ w.db.channels.get e.id ≠ none := by
  constructor
  · intro hgood hgone
    -- the foreign key fails, which is read as a duplicate
    have hnone : w.ingest e message now = none := if_pos (.inr hgone)
    obtain ⟨p, hp, hsame⟩ := List.any_eq_true.mp (hgood hnone)
    have hid : p.sourceChannelId = e.id := of_decide_eq_true (Bool.and_eq_true_iff.mp hsame).1
    exact hw.posts p hp (hid ▸ hgone)
  · intro hrow hnone
    unfold ingest Db.insertPost at hnone
    split at hnone
    · rename_i h
      exact h.resolve_right hrow
    · exact absurd hnone (by simp)

/-- A current map drops no message that was not ingested. -/
theorem Current.accepts (hc : Current resolvable w) (hw : Sane resolvable w) {chatId : Int}
    {message : Message} {now : Time} : Good resolvable w (.message chatId message now) := by
  intro e he
  refine (ingest_good_iff hw).mpr ?_
  rw [hc.rows e (Table.mem_of_get he)]
  simp

/-- **One step** is good exactly if it is untouched. Of an iteration in which a call fails nothing
is asked. -/
theorem good_iff (hw : Sane resolvable w) : Good resolvable w act ↔ Untouched w act := by
  cases act with
  | reload loaded fails =>
      cases loaded with
      | false => exact Iff.rfl
      | true =>
          cases fails with
          | nil =>
              rw [Good, Untouched, ← reload_current_iff hw]
              simp [step]
          | cons => exact Iff.rfl
  | message chatId message now =>
      exact forall₂_congr fun e _ => ingest_good_iff hw
  | _ => exact Iff.rfl

/--
**In every run, after each iteration in which no call fails the map holds the current rows
of the enabled channels that can be resolved, and no message is taken for ingested that was
not, if and only if each such iteration finds no enabled row that differs from the entry under
its telegram id, and each message finds the row of its entry.**

Step by step (`good_iff`). An iteration adds what is new and drops what is gone, and leaves alone
what it finds under a known id; that the ids differ from row to row is carried along (`Sane`).
-/
theorem map_current_iff (h : Trace (step resolvable) {} tr w) :
    AllSteps (Good resolvable) tr ↔ AllSteps Untouched tr :=
  forall₂_congr fun x hx => good_iff (sane_steps h x hx)

def sampleChannel (id : Nat) : SourceChannel where
  id := id
  telegramChannelId := -1001234567890
  title := "News".toList

def sampleMessage (id : Nat) : WatchAction :=
  .message (-1001234567890) { id := id, rawText := some "text".toList } 0

/-- A channel is disabled, which an iteration notices, and changed and enabled again, which the
next one does. -/
def reenabled : List WatchAction :=
  [.create (sampleChannel 0), .start [], sampleMessage 7,
    .update 1 { sampleChannel 0 with ingestionEnabled := false }, .reload true [],
    .update 1 { sampleChannel 0 with maxMediaSizeBytes := 1000 }, .reload true [], sampleMessage 8]

theorem map_current_iff_reenabled :
    ∃ w, runs (step (fun _ => true)) {} reenabled = some w
      ∧ w.channelMap.rows = [{ sampleChannel 1 with maxMediaSizeBytes := 1000 }]
      ∧ AllSteps (Good (fun _ => true)) (trail (step (fun _ => true)) {} reenabled) := by
  have hrun : (runs (step (fun _ => true)) {} reenabled).map (fun w => w.channelMap.rows)
      = some [{ sampleChannel 1 with maxMediaSizeBytes := 1000 }] := by decide +kernel
  obtain ⟨w, hw, hrows⟩ := Option.map_eq_some_iff.mp hrun
  exact ⟨w, hw, hrows, (map_current_iff (.of_runs hw)).mpr (by decide +kernel)⟩

/-- A channel is deleted and created anew between two iterations. -/
def recreated : List WatchAction :=
  [.create (sampleChannel 0), .start [], .delete 1, .create (sampleChannel 0), .reload true [],
    sampleMessage 7]

/-- The map still holds the deleted row, and the message gets none. -/
theorem recreated_dropped :
    ∃ w, runs (step (fun _ => true)) {} recreated = some w
      ∧ w.db.loadChannels = [sampleChannel 2] ∧ w.channelMap.rows = [sampleChannel 1]
      ∧ w.db.posts.rows = []
      ∧ ¬ AllSteps (Good (fun _ => true)) (trail (step (fun _ => true)) {} recreated) := by
  have hrun : (runs (step (fun _ => true)) {} recreated).map
      (fun w => (w.db.loadChannels, w.channelMap.rows, w.db.posts.rows))
        = some ([sampleChannel 2], [sampleChannel 1], []) := by decide +kernel
  obtain ⟨w, hw, hout⟩ := Option.map_eq_some_iff.mp hrun
  obtain ⟨hloaded, hrest⟩ := Prod.mk.inj hout
  obtain ⟨hrows, hposts⟩ := Prod.mk.inj hrest
  refine ⟨w, hw, hloaded, hrows, hposts, fun hgood => ?_⟩
  have hsane := sane_steps (.of_runs hw)
  have huntouched : AllSteps Untouched (trail (step (fun _ => true)) {} recreated) :=
    fun x hx => (good_iff (hsane x hx)).mp (hgood x hx)
  exact absurd huntouched (by decide +kernel)

end ChannelWatch

end TelegramCms
