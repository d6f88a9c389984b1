import TelegramCms.Model.Ingest

/-!
# A message is ingested once

What `ingest_message` is for: the first call for a message of a channel makes one
`pending` post with one linked `ingested` event, stores the media reference and
enqueues one `normalize` job; a later call changes nothing.

The body of the function does this (`ingestBuilt_once`), since the unique constraint on
(channel, message) decides which call is the first. No call gets there: the function
builds its event with the keyword `post`, which `PostEvent` does not map, so every call
raises before it touches the database (`ingestMessage_raises`).
-/

namespace TelegramCms

variable (env : Env)

/-! ## What one call is to do -/

/-- Nothing outside the database fails during the call. -/
def IngestCall.Answers (call : IngestCall) : Prop :=
  ∀ postId, ∃ ref, downloadMedia env call.out call.message postId call.channel = .ok ref

/-- `post` was ingested from the message of the call, between `s` and `s'`. -/
structure Ingested (call : IngestCall) (s s' : IngestState) (post : Post) : Prop where
  fresh : s.db.posts.get post.id = none
  row : s'.db.posts.rows = s.db.posts.rows ++ [post]
  source : post.sourceChannelId = call.channel.id ∧ post.sourceMessageId = call.message.id
  pending : post.state = .pending
  text : post.rawText = messageText call.message
  /-- The reference that `_download_media` returned is stored. -/
  media : ∃ ref, downloadMedia env call.out call.message post.id call.channel = .ok ref
    ∧ post.rawMediaRefs = ref.toList
  /-- One of the new events is an `ingested` one, and it is linked to the post. -/
  event : ∃ new, s'.db.events = s.db.events ++ new
    ∧ (new.filter (fun e => e.action = .ingested)).map PostEvent.postId = [post.id]
  job : s'.queue = s.queue ++ [enqueueNormalize call.now post.id]
  /-- The configuration is left alone. -/
  channels : s'.db.channels = s.db.channels

/-- The first call for a message ingests it, a later one returns `None` and changes nothing. -/
def IngestedOnce (call : IngestCall) (s : IngestState)
    (out : Except PyError (Option Post) × IngestState) : Prop :=
  if s.db.hasMessage call.channel.id call.message.id then out = (.ok none, s)
  else ∃ post, out.1 = .ok (some post) ∧ Ingested env call s out.2 post

/-- Every call of the sequence does what it is to do, in the state it is made in. -/
def IngestsOnce (ingest : IngestCall → IngestState → Except PyError (Option Post) × IngestState) :
    IngestState → List IngestCall → Prop
  | _, [] => True
  | s, call :: calls =>
    IngestedOnce env call s (ingest call s) ∧ IngestsOnce ingest (ingest call s).2 calls

/-! ## The two transactions -/

variable {env}

theorem insertPost_of_hasMessage {db : Db} {now : Time} {c m : Nat} {text : Option Text}
    (h : db.hasMessage c m = true) : db.insertPost now c m text = none := by
  rw [Db.insertPost, if_pos (.inl h)]

theorem insertPost_of_fresh {db : Db} {now : Time} {c m : Nat} {text : Option Text}
    (h : db.hasMessage c m = false) (hc : db.channels.get c ≠ none) :
    db.insertPost now c m text = some { db with
      posts := db.posts.insert (ingestedPost now db.nextPostId c m text)
      events := db.events ++ [{
        postId := db.nextPostId
        action := .ingested
        payload := [("has_media", .bool false)]
        createdAt := now }] } := by
  rw [Db.insertPost, if_neg]
  rintro (h' | h')
  · rw [h] at h'; exact Bool.noConfusion h'
  · exact hc h'

/-- A row under a fresh id goes to the end of the table. -/
theorem rows_insert {t : Table Nat Post Post.id} {p : Post} (h : t.get p.id = none) :
    (t.insert p).rows = t.rows ++ [p] := by
  rw [Table.insert, dif_neg]
  intro hm
  obtain ⟨q, hq, he⟩ := List.mem_map.mp hm
  exact Table.get_eq_none.mp h q hq he

/-- Updating the row that was just appended leaves the rows before it alone. -/
theorem rows_update_insert {t : Table Nat Post Post.id} {p : Post} (h : t.get p.id = none)
    (f : Post → Post) (hf : ∀ r, (f r).id = r.id) :
    ((t.insert p).update p.id f hf).rows = t.rows ++ [f p] := by
  have hold : t.rows.map (fun r => if r.id = p.id then f r else r) = t.rows := by
    conv_rhs => rw [← List.map_id t.rows]
    refine List.map_congr_left fun r hr => ?_
    rw [if_neg (Table.get_eq_none.mp h r hr), id]
  simp only [Table.update, rows_insert h, List.map_append, List.map_cons, List.map_nil, hold,
    if_true]

theorem storeEvent_action (now : Time) (id : Nat) (refs : List MediaRef) :
    (storeEvent now id refs).action ≠ .ingested := by
  rw [storeEvent]; split <;> simp

/-- **The body of `ingest_message` ingests a message once.** -/
theorem ingestBuilt_once {call : IngestCall} {s : IngestState}
    (hc : s.db.channels.get call.channel.id ≠ none) (ha : call.Answers env) :
    IngestedOnce env call s (ingestBuilt env call s) := by
  rw [IngestedOnce, ingestBuilt]
  cases hm : s.db.hasMessage call.channel.id call.message.id with
  | true =>
      -- the unique constraint refuses the row, and the call returns `None`
      simp only [insertPost_of_hasMessage hm, if_true]
  | false =>
      obtain ⟨ref, hr⟩ := ha s.db.nextPostId
      rw [insertPost_of_fresh hm hc, if_neg Bool.false_ne_true]
      generalize hp : ingestedPost call.now s.db.nextPostId call.channel.id call.message.id
        (messageText call.message) = p
      have hid : p.id = s.db.nextPostId := by rw [← hp]; rfl
      rw [← hid] at hr ⊢
      have hfresh : s.db.posts.get p.id = none := hid ▸ s.db.nextPostId_fresh
      -- the second transaction finds the row of the first
      have hget : (s.db.posts.insert p).get p.id = some p := Table.get_insert_self hfresh
      simp only [hr, hget, Db.commit, Db.write]
      refine ⟨_, rfl, ?_⟩
      exact {
        fresh := hfresh
        row := by
          simp only [rows_update_insert hfresh]
          rw [flush_apply] <;> rfl
        source := by rw [← hp]; exact ⟨rfl, rfl⟩
        pending := by rw [← hp]; rfl
        text := by rw [← hp]; rfl
        media := ⟨ref, hr, rfl⟩
        event := by
          refine ⟨_, List.append_assoc _ _ _, ?_⟩
          simp [storeEvent_action]
        job := rfl
        channels := rfl }

/-! ## The whole function -/

theorem ingestMessageWith_post :
    ingestMessageWith env ("post" :: postEventAttributes) = ingestBuilt env := by
  funext call s
  rfl

/-- **With a `post` relationship on `PostEvent`, every sequence of calls would ingest
each message once**, so the missing relationship is all that is wrong. -/
theorem ingestsOnce_of_relationship {calls : List IngestCall} {s : IngestState}
    (hc : ∀ call ∈ calls, s.db.channels.get call.channel.id ≠ none)
    (ha : ∀ call ∈ calls, call.Answers env) :
    IngestsOnce env (ingestMessageWith env ("post" :: postEventAttributes)) s calls := by
  rw [ingestMessageWith_post]
  induction calls generalizing s with
  | nil => trivial
  | cons call calls ih =>
      have hone := ingestBuilt_once (hc call List.mem_cons_self) (ha call List.mem_cons_self)
      -- the channels of the later calls are still there
      have hchan : (ingestBuilt env call s).2.db.channels = s.db.channels := by
        rw [IngestedOnce] at hone
        split at hone
        · rw [hone]
        · obtain ⟨_, _, hi⟩ := hone
          exact hi.channels
      refine ⟨hone, ih ?_ fun c h => ha c (List.mem_cons_of_mem _ h)⟩
      intro c h
      rw [hchan]
      exact hc c (List.mem_cons_of_mem _ h)

/-- What `PostEvent(post=…)` raises. -/
def postKeywordError : PyError :=
  ⟨.typeError, "post".toList ++ " is an invalid keyword argument for ".toList
    ++ "PostEvent".toList⟩

/-- **Every call of `ingest_message` raises, and leaves no trace.** -/
theorem ingestMessage_raises (call : IngestCall) (s : IngestState) :
    ingestMessage env call s = (.error postKeywordError, s) := rfl

theorem not_ingestedOnce (call : IngestCall) (s : IngestState) :
    ¬ IngestedOnce env call s (ingestMessage env call s) := by
  rw [IngestedOnce, ingestMessage_raises]
  split
  · intro h; exact absurd (congrArg Prod.fst h) (by simp)
  · rintro ⟨_, he, _⟩; exact absurd he (by simp)

/--
**No sequence of calls is ingested as it should be**, but the empty one.

Already the first call is not: the event that every call adds cannot be constructed
(`not_ingestedOnce`), and what follows does not make up for it.
-/
theorem ingestsOnce_iff (calls : List IngestCall) (s : IngestState) :
    IngestsOnce env (ingestMessage env) s calls ↔ calls = [] := by
  constructor
  · intro h
    cases calls with
    | nil => rfl
    | cons call calls => exact absurd h.1 (not_ingestedOnce call s)
  · rintro rfl; trivial

def sampleIngest : IngestState := ⟨{ channels := Table.empty.insert sampleChannel }, []⟩

/-- A text message of a known channel. -/
def sampleCall : IngestCall where
  channel := sampleChannel
  message := { id := 1, rawText := some "hi".toList }
  now := 0

/-- Nothing fails but the constructor, and the message is not ingested. -/
theorem sampleCall_lost :
    sampleIngest.db.channels.get 1 = some sampleChannel
      ∧ sampleCall.Answers (sampleEnv {})
      ∧ ¬ IngestsOnce (sampleEnv {}) (ingestMessage (sampleEnv {})) sampleIngest [sampleCall] :=
  ⟨rfl, fun _ => ⟨none, rfl⟩, fun h => not_ingestedOnce sampleCall sampleIngest h.1⟩

end TelegramCms
