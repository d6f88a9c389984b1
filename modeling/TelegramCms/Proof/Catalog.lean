import TelegramCms.Model.Catalog
import TelegramCms.Proof.Channels
import TelegramCms.Proof.Paths

/-!
# Default tags and their mirror

The default tags of a channel are stored twice: in its row, and as rows of the join
table, which alone has a foreign key on `tags`. Every operation keeps the two copies the
same but one. Deleting a tag takes its rows of the join table along and leaves the id in
the rows of the channels, from where `normalize` writes it to posts. So the copies agree
throughout a run exactly if only tags are deleted that no channel has as a default
(`tags_consistent_iff`).
-/

namespace TelegramCms

open Transition

/-- The two copies of the default tags of a channel are the same, and they are tags. -/
structure ChannelTags (db : Db) (c : SourceChannel) : Prop where
  mirror : ∀ tag, tag ∈ c.defaultTagIds ↔ (db.sourceChannelTags.get (c.id, tag)).isSome
  exist : ∀ tag ∈ c.defaultTagIds, (db.tags.get tag).isSome

def TagsConsistent (db : Db) : Prop := ∀ id c, db.channels.get id = some c → ChannelTags db c

/-! ## Operations on channels -/

section Consistent

variable {db db' : Db} {c : SourceChannel} {p : ChannelPatch} {id : Nat}

/-- What is consistent stays so where nothing is taken away. -/
theorem ChannelTags.mono (h : ChannelTags db c)
    (hlinks : ∀ tag, db'.sourceChannelTags.get (c.id, tag) = db.sourceChannelTags.get (c.id, tag))
    (htags : ∀ tag, (db.tags.get tag).isSome → (db'.tags.get tag).isSome) :
    ChannelTags db' c where
  mirror := by
    intro tag
    rw [hlinks]
    exact h.mirror tag
  exist := fun tag htag => htags tag (h.exist tag htag)

theorem bigints_eq {ns ms : List Int} (h : ns.mapM bigintCol = some ms) : ms = ns := by
  induction ns generalizing ms with
  | nil => exact (Option.some.inj h).symm
  | cons n ns ih =>
      rw [List.mapM_cons] at h
      obtain ⟨m, hm, h⟩ := Option.bind_eq_some_iff.mp h
      obtain ⟨ms', hms, h⟩ := Option.bind_eq_some_iff.mp h
      rw [← Option.some.inj h, bigintCol_some hm, ih hms]

theorem tagIdsCol_eq {ids : List Int} {l : List Nat} (h : tagIdsCol ids = some l) :
    l = ids.map Int.toNat := by
  obtain ⟨ms, hms, rfl⟩ := Option.map_eq_some_iff.mp h
  rw [bigints_eq hms]

/-- A row whose links were set together with its tags. -/
theorem channelTags_of_set {ids : List Int} (hc : c.defaultTagIds = ids.map Int.toNat)
    (hknown : ∀ n ∈ ids, db.hasTag n)
    (htags : db'.tags = db.tags)
    (hlinks : ∀ k, db'.sourceChannelTags.get k = linksSet db c.id ids k) : ChannelTags db' c where
  mirror := by
    intro tag
    rw [hc, hlinks, linksSet, if_pos rfl]
    by_cases h : tag ∈ ids.map Int.toNat <;> simp [h]
  exist := by
    intro tag htag
    rw [hc] at htag
    obtain ⟨n, hn, rfl⟩ := List.mem_map.mp htag
    rw [htags]
    exact (hknown n hn).2

/-- An update of a channel sets its links with its tags, or leaves both. -/
theorem consistent_patched (h : TagsConsistent db) (hc : db.channels.get c.id = some c)
    (hacc : p.Accepted db) (hp : Patched db c p db') : TagsConsistent db' := by
  obtain ⟨c', hrow, hget⟩ := hp.row
  intro id d hd
  rw [hget] at hd
  have htags : ∀ tag, (db.tags.get tag).isSome → (db'.tags.get tag).isSome := by
    intro tag ht
    rw [hp.tags]
    exact ht
  by_cases hid : id = c.id
  · rw [if_pos hid] at hd
    obtain rfl := Option.some.inj hd
    have hcol := hrow.defaultTagIds
    have hlinks := hp.links
    cases hids : p.defaultTagIds.join with
    | none =>
        -- the column is left alone, and so are the links
        rw [hids] at hcol hlinks
        have hold := h c.id c hc
        have hsame : c.defaultTagIds = c'.defaultTagIds := Option.some.inj hcol
        refine ⟨?_, ?_⟩
        · intro tag
          rw [← hsame, hrow.id, hlinks]
          exact hold.mirror tag
        · intro tag htag
          rw [← hsame] at htag
          exact htags tag (hold.exist tag htag)
    | some ids =>
        -- both are written from the same list
        rw [hids] at hcol hlinks
        refine channelTags_of_set (tagIdsCol_eq hcol) (hacc.tags ids hids).exist hp.tags ?_
        rw [hrow.id]
        exact hlinks
  · rw [if_neg hid] at hd
    have hne : d.id ≠ c.id := by
      rw [Table.key_of_get hd]
      exact hid
    refine (h id d hd).mono ?_ htags
    intro tag
    rw [hp.links]
    split
    · rfl
    · rw [linksSet, if_neg hne]

/-- What an update of a channel comes to: nothing, or a patch of a row. -/
def NothingOrPatched (db db' : Db) : Prop :=
  db' = db ∨ ∃ c p, db.channels.get c.id = some c ∧ p.Accepted db ∧ Patched db c p db'

theorem patch_cases (hc : db.channels.get c.id = some c) :
    NothingOrPatched db (settle db (db.patchChannel c p)).1 := by
  rcases @settle_patch db c p hc with ⟨hacc, db', hset, hp⟩ | ⟨-, a, hset, -⟩
  · rw [hset]
    exact .inr ⟨c, p, hc, hacc, hp⟩
  · rw [hset]
    exact .inl rfl

theorem goUpdate_cases (db : Db) (id : Nat) (body : Option Json) :
    NothingOrPatched db (handleUpdateChannel db id body).1 := by
  unfold handleUpdateChannel
  split
  · exact .inl rfl
  · rename_i c hc
    obtain rfl : c.id = id := Table.key_of_get hc
    split
    · exact .inl rfl
    · split
      · exact .inl rfl
      · split
        · exact .inl rfl
        · exact patch_cases hc

theorem pythonUpdate_cases (P : Pydantic) (db : Db) (id : Nat) (body : Json) :
    NothingOrPatched db (updateChannel P db id body).1 := by
  unfold updateChannel
  split
  · exact .inl rfl
  · split
    · exact .inl rfl
    · rename_i c hc
      obtain rfl : c.id = id := Table.key_of_get hc
      exact patch_cases hc

theorem NothingOrPatched.consistent (h : NothingOrPatched db db') (hdb : TagsConsistent db) :
    TagsConsistent db' := by
  rcases h with rfl | ⟨c, p, hc, hacc, hp⟩
  · exact hdb
  · exact consistent_patched hdb hc hacc hp

/-- An update makes no channel. -/
theorem NothingOrPatched.channels (h : NothingOrPatched db db') {i : Nat}
    (hi : db.channels.get i = none) : db'.channels.get i = none := by
  rcases h with rfl | ⟨c, p, hc, -, hp⟩
  · exact hi
  · obtain ⟨c', -, hget⟩ := hp.row
    have hne : i ≠ c.id := by
      intro he
      rw [he, hc] at hi
      exact absurd hi (by simp)
    rw [hget, if_neg hne]
    exact hi

/-- A transaction that creates a channel leaves a new row, with its links. -/
theorem createChannel_ok {tg : Int} (h : db.createChannel id tg p = .ok db') :
    ∃ c, c.id = id ∧ db'.channels = db.channels.insert c ∧ db'.tags = db.tags
      ∧ c.defaultTagIds = (p.defaultTagIds.join.getD []).map Int.toNat
      ∧ (∀ n ∈ p.defaultTagIds.join.getD [], db.hasTag n)
      ∧ ∀ k, db'.sourceChannelTags.get k = linksSet db id (p.defaultTagIds.join.getD []) k := by
  unfold Db.createChannel at h
  dsimp only at h
  split at h
  · split at h
    · exact absurd h (by simp)
    · split at h
      · exact absurd h (by simp)
      · rename_i c happly
        have hrow := apply_iff.mp happly
        have hcol := hrow.defaultTagIds
        obtain ⟨hdb, hknown, hlinks⟩ := setDefaultTagLinks_ok h
        refine ⟨c, hrow.id, by rw [hdb], by rw [hdb], ?_, hknown.exist, hlinks⟩
        cases hids : p.defaultTagIds.join with
        | none =>
            rw [hids] at hcol
            exact (Option.some.inj hcol).symm
        | some ids =>
            rw [hids] at hcol
            exact tagIdsCol_eq hcol
  · exact absurd h (by simp)

theorem createChannel_consistent {tg : Int} (h : TagsConsistent db)
    (hfree : db.channels.get id = none) : TagsConsistent (db.settled (db.createChannel id tg p)) := by
  cases hcr : db.createChannel id tg p with
  | error a => exact h
  | ok db' =>
      obtain ⟨c, rfl, hch, htags, hc, hknown, hlinks⟩ := createChannel_ok hcr
      intro id d hd
      change db'.channels.get id = some d at hd
      rw [hch] at hd
      by_cases hid : id = c.id
      · rw [hid, Table.get_insert_self hfree] at hd
        obtain rfl := Option.some.inj hd
        exact channelTags_of_set hc hknown htags hlinks
      · rw [Table.get_insert_ne hid] at hd
        have hne : d.id ≠ c.id := by
          rw [Table.key_of_get hd]
          exact hid
        refine (h id d hd).mono ?_ ?_
        · intro tag
          change db'.sourceChannelTags.get _ = _
          rw [hlinks, linksSet, if_neg hne]
        · intro tag ht
          change (db'.tags.get tag).isSome
          rw [htags]
          exact ht

theorem deleteChannel_consistent (h : TagsConsistent db) :
    TagsConsistent (db.deleteChannel id) := by
  intro id' d hd
  change (db.channels.delete id).get id' = some d at hd
  by_cases hid : id' = id
  · rw [hid, Table.get_delete_self] at hd
    exact absurd hd (by simp)
  · rw [Table.get_delete_ne hid] at hd
    have hne : d.id ≠ id := by
      rw [Table.key_of_get hd]
      exact hid
    refine (h id' d hd).mono ?_ (fun _ ht => ht)
    intro tag
    change (db.sourceChannelTags.filter _).get _ = _
    rw [linksCleared_get, if_neg hne]

/-! ## Operations on tags -/

theorem createTag_consistent {slug label : Text} {color : Option Text} (h : TagsConsistent db) :
    TagsConsistent (db.settled (db.createTag id slug label color)) := by
  have hkeep : ∀ tag : Tag, TagsConsistent { db with tags := db.tags.insert tag } := by
    intro tag i d hd
    refine (h i d hd).mono (fun _ => rfl) ?_
    intro k hk
    obtain ⟨r, hr⟩ := Option.isSome_iff_exists.mp hk
    rw [Table.get_insert_of_some hr]
    rfl
  unfold Db.createTag
  split
  · split
    · exact h
    · exact hkeep _
  · exact h

/-- After a tag is deleted the copies agree exactly if no channel had it as a default. -/
theorem deleteTag_consistent_iff (h : TagsConsistent db) :
    TagsConsistent (db.deleteTag id) ↔ ∀ c ∈ db.channels.rows, id ∉ c.defaultTagIds := by
  have hlink : ∀ k : Nat × Nat, (db.deleteTag id).sourceChannelTags.get k
      = if k.2 = id then none else db.sourceChannelTags.get k := by
    intro k
    change (db.sourceChannelTags.filter _).get k = _
    rw [Table.get_filter]
    cases hg : db.sourceChannelTags.get k with
    | none => simp
    | some r =>
        have hk : r.tagId = k.2 := congrArg Prod.snd (Table.key_of_get hg)
        by_cases h : k.2 = id <;> simp [hk, h]
  constructor
  -- a default tag keeps its place in the array and loses its link
  · intro h' c hc hid
    have hm := ((h' c.id c (Table.get_of_mem hc)).mirror id).mp hid
    rw [hlink, if_pos rfl] at hm
    exact absurd hm (by simp)
  · intro hno i c hc
    have hold := h i c hc
    have hout := hno c (Table.mem_of_get hc)
    refine ⟨?_, ?_⟩
    · intro tag
      rw [hlink]
      by_cases ht : tag = id
      · rw [if_pos ht, ht]
        exact iff_of_false hout (by simp)
      · rw [if_neg ht]
        exact hold.mirror tag
    · intro tag htag
      have hne : tag ≠ id := fun he => hout (he ▸ htag)
      change ((db.tags.delete id).get tag).isSome
      rw [Table.get_delete_ne hne]
      exact hold.exist tag htag

end Consistent

/-! ## The `normalize` job -/

/-- The tags a run has taken from a channel exist. -/
def NormalizePc.TagsExist (db : Db) : NormalizePc → Prop
  | .transform _ ctx | .commit _ ctx _ => ∀ tag ∈ ctx.tagIds, (db.tags.get tag).isSome
  | _ => True

/-- Everything but posts and events is as it was, and the tags of a post are as they were
or exist. -/
structure TagsWritten (db db' : Db) : Prop where
  channels : db'.channels = db.channels
  links : db'.sourceChannelTags = db.sourceChannelTags
  tags : db'.tags = db.tags
  posts : ∀ q row', db'.posts.get q = some row' → ∃ row, db.posts.get q = some row
    ∧ (row'.tagIds = row.tagIds ∨ ∀ tag ∈ row'.tagIds, (db.tags.get tag).isSome)

theorem TagsWritten.refl (db : Db) : TagsWritten db db :=
  ⟨rfl, rfl, rfl, fun _ row' h => ⟨row', h, .inl rfl⟩⟩

theorem TagsWritten.trans {db₁ db₂ db₃ : Db} (h : TagsWritten db₁ db₂) (h' : TagsWritten db₂ db₃) :
    TagsWritten db₁ db₃ where
  channels := h'.channels.trans h.channels
  links := h'.links.trans h.links
  tags := h'.tags.trans h.tags
  posts := by
    intro q row₃ h₃
    obtain ⟨row₂, h₂, hw'⟩ := h'.posts q row₃ h₃
    obtain ⟨row₁, h₁, hw⟩ := h.posts q row₂ h₂
    refine ⟨row₁, h₁, ?_⟩
    rcases hw' with he | hall
    · rw [he]
      exact hw
    · rw [h.tags] at hall
      exact .inr hall

section Normalize

variable {env : Env} {v : View} {r : Reply} {job : Job} {pc pc' : NormalizePc}

theorem tagsWritten_step {e : Effect NormalizePc} (ht : pc.TagsExist v.db)
    (h : normalizeStep env v job.postId pc r = some e) : TagsWritten v.db e.db := by
  cases normalizeStep_plain h with
  | quiet => exact .refl _
  | enqueues => exact .refl _
  | @writes id set evs row n hs hrow =>
      refine ⟨rfl, rfl, rfl, ?_⟩
      intro q row' hrow'
      by_cases hq : q = id
      · subst hq
        change (v.db.write q set evs).posts.get q = some row' at hrow'
        rw [Db.write_row hrow] at hrow'
        refine ⟨row, hrow, ?_⟩
        obtain ⟨s, hset, he⟩ := Option.map_eq_some_iff.mp hs
        obtain rfl := (Prod.mk.inj he).2
        cases pc with
        | commit post ctx ai =>
            obtain rfl := Option.some.inj hset
            have htags : (flush post (normalizeResult env v post ctx ai)).tagIds
                = changed post.tagIds ctx.tagIds := by
              rw [flush, normalizeResult]
              split <;> rfl
            rw [← Option.some.inj hrow', PostSet.apply_tagIds, htags]
            -- the session writes the tags only if it has changed them
            by_cases hsame : ctx.tagIds = post.tagIds
            · left
              rw [changed, if_pos hsame, Option.getD_none]
            · right
              rw [changed_getD_of_ne _ hsame]
              exact ht
        | _ => exact absurd hset (by simp [NormalizePc.set])
      · change (v.db.write id set evs).posts.get q = some row' at hrow'
        rw [Db.write_row_ne hq] at hrow'
        exact ⟨row', hrow', .inl rfl⟩

/-- Tags are taken from the channel alone, so they exist if the channel's do. -/
theorem tagsExist_step (hdb : TagsConsistent v.db) (ht : pc.TagsExist v.db)
    (h : Goes env v (.normalize job pc) r (.normalize job pc')) : pc'.TagsExist v.db := by
  cases h with
  | normalizes => trivial
  | routes => trivial
  | transforms => exact ht
  | @renders _ post channel normalized _ ctx hch _ hctx hpc =>
      have hall : ∀ tag ∈ ctx.tagIds, (v.db.tags.get tag).isSome := by
        intro tag htag
        rw [hctx] at htag
        simp only [normalizeTagIds] at htag
        split at htag
        · exact (hdb _ _ hch).exist tag htag
        · exact absurd htag (by simp)
      rcases hpc with rfl | rfl <;> exact hall

theorem consistent_of_written {db db' : Db} (h : TagsConsistent db) (hw : TagsWritten db db') :
    TagsConsistent db' := by
  intro id c hc
  rw [hw.channels] at hc
  refine (h id c hc).mono ?_ ?_
  · intro tag
    rw [hw.links]
  · intro tag ht
    rw [hw.tags]
    exact ht

/-- A `normalize` run that is served alone writes tags that exist, however its calls are
answered and wherever it ends. -/
theorem tagsWritten_serve (as : List Answered) {db : Db} (hdb : TagsConsistent db)
    (ht : pc.TagsExist db) : TagsWritten db (Proc.serve env as db (.normalize job pc)) := by
  induction as generalizing db pc with
  | nil => exact .refl _
  | cons a as ih =>
      rw [Proc.serve]
      split
      · exact .refl _
      · rename_i e he
        obtain ⟨e₀, he₀, rfl⟩ := Option.map_eq_some_iff.mp he
        have hw : TagsWritten db e₀.db :=
          @tagsWritten_step env ⟨a.at_, db, 0, true⟩ a.reply job pc e₀ ht he₀
        split
        · rename_i q hq
          obtain ⟨pc', hn, rfl⟩ := Effect.map_goto hq
          have hnext : pc'.TagsExist db := tagsExist_step hdb ht (normalize_goes he₀ hn)
          have hsame : pc'.TagsExist e₀.db ↔ pc'.TagsExist db := by
            cases pc' <;> simp only [NormalizePc.TagsExist, hw.tags]
          exact hw.trans (ih (consistent_of_written hdb hw) (hsame.mpr hnext))
        · exact hw

end Normalize

/-! ## Runs -/

/-- A tag is deleted that no channel has among its default tags. -/
def NotADefault (s : Catalog) : CatalogOp → Prop
  | .deleteTag id => ∀ c ∈ s.db.channels.rows, id ∉ c.defaultTagIds
  | _ => True

instance (s : Catalog) : DecidablePred (NotADefault s) := fun op =>
  match op with
  | .deleteTag id =>
    inferInstanceAs (Decidable (∀ c ∈ s.db.channels.rows, id ∉ c.defaultTagIds))
  | .createTag .. | .createChannel .. | .updateChannelGo .. | .updateChannelPython ..
  | .deleteChannel _ | .normalize .. | .arrive .. => inferInstanceAs (Decidable True)

/-- The copies agree, and no post was given a tag that is none. -/
structure TagsSound (s : Catalog) : Prop where
  consistent : TagsConsistent s.db
  stale : s.stale = []

/-- The sequence is ahead of the primary keys it gave. -/
def SequenceAhead (s : Catalog) : Prop := ∀ id, s.nextChannel ≤ id → s.db.channels.get id = none

namespace Catalog

variable {env : Env} {P : Pydantic} {s s' : Catalog} {op : CatalogOp}

theorem staleTags_nil {p : Nat} {db' : Db} (hw : TagsWritten s.db db') :
    s.staleTags p db' = [] := by
  unfold staleTags
  split
  · rename_i row row' hrow hrow'
    split
    · rfl
    · rename_i hne
      obtain ⟨row₀, hrow₀, htags⟩ := hw.posts p row' hrow'
      obtain rfl := Option.some.inj (hrow₀.symm.trans hrow)
      rcases htags with he | hall
      · exact absurd he hne
      · rw [List.filter_eq_nil_iff]
        intro tag htag
        simpa [Option.isSome_iff_ne_none] using hall tag htag
  · rfl

theorem insertPost_getD {db : Db} {now : Time} {c m : Nat} {text : Option Text} :
    ((db.insertPost now c m text).getD db).channels = db.channels
      ∧ ((db.insertPost now c m text).getD db).sourceChannelTags = db.sourceChannelTags
      ∧ ((db.insertPost now c m text).getD db).tags = db.tags := by
  rw [Db.insertPost]
  split <;> exact ⟨rfl, rfl, rfl⟩

/-- One operation keeps the copies alike exactly if it does not delete a default tag. -/
theorem sound_step_iff (hseq : SequenceAhead s) (h : TagsSound s) (hs : step env P s op = some s') :
    TagsSound s' ↔ NotADefault s op := by
  cases op with
  | createTag slug label color =>
      rw [← Option.some.inj hs]
      exact iff_of_true ⟨createTag_consistent h.consistent, h.stale⟩ trivial
  | createChannel tg p =>
      rw [← Option.some.inj hs]
      -- the sequence gives an id that no channel has
      have hfree := hseq s.nextChannel (Nat.le_refl _)
      exact iff_of_true ⟨createChannel_consistent h.consistent hfree, h.stale⟩ trivial
  | updateChannelGo id body =>
      rw [← Option.some.inj hs]
      exact iff_of_true ⟨(goUpdate_cases s.db id body).consistent h.consistent, h.stale⟩ trivial
  | updateChannelPython id body =>
      rw [← Option.some.inj hs]
      exact iff_of_true ⟨(pythonUpdate_cases P s.db id body).consistent h.consistent, h.stale⟩ trivial
  | deleteChannel id =>
      rw [← Option.some.inj hs]
      refine iff_of_true ⟨?_, h.stale⟩ trivial
      change TagsConsistent (s.deleteChannel id)
      unfold deleteChannel
      split
      · exact h.consistent
      · split
        · exact h.consistent
        · exact deleteChannel_consistent h.consistent
  | normalize p answers =>
      rw [← Option.some.inj hs]
      -- whatever the stages before its commit answer, the post gets tags that are
      have hw : TagsWritten s.db (s.normalized env p answers) :=
        tagsWritten_serve answers h.consistent trivial
      refine iff_of_true ⟨consistent_of_written h.consistent hw, ?_⟩ trivial
      change s.stale ++ s.staleTags p _ = []
      rw [h.stale, staleTags_nil hw]
      rfl
  | arrive now c m text =>
      rw [← Option.some.inj hs]
      obtain ⟨hch, hlinks, htags⟩ := @insertPost_getD s.db now c m text
      refine iff_of_true ⟨?_, h.stale⟩ trivial
      intro id d hd
      change ((s.db.insertPost now c m text).getD s.db).channels.get id = some d at hd
      rw [hch] at hd
      refine (h.consistent id d hd).mono ?_ ?_
      · intro tag
        change ((s.db.insertPost now c m text).getD s.db).sourceChannelTags.get _ = _
        rw [hlinks]
      · intro tag ht
        change (((s.db.insertPost now c m text).getD s.db).tags.get tag).isSome
        rw [htags]
        exact ht
  | deleteTag id =>
      -- the one operation that can part the copies
      rw [← Option.some.inj hs]
      have hiff : TagsSound { s with db := s.deleteTag id } ↔ TagsConsistent (s.deleteTag id) :=
        ⟨fun h' => h'.consistent, fun h' => ⟨h', h.stale⟩⟩
      rw [hiff, deleteTag]
      cases htag : s.db.tags.get id with
      | some tag => exact deleteTag_consistent_iff h.consistent
      | none =>
          -- there is no such tag, so no channel has it
          refine iff_of_true h.consistent ?_
          intro c hc hid
          have hexist := (h.consistent c.id c (Table.get_of_mem hc)).exist id hid
          rw [htag] at hexist
          exact absurd hexist (by simp)

theorem createChannel_get {db : Db} {id i : Nat} {tg : Int} {p : ChannelPatch} (hne : i ≠ id)
    (hi : db.channels.get i = none) :
    (db.settled (db.createChannel id tg p)).channels.get i = none := by
  cases hcr : db.createChannel id tg p with
  | error a => exact hi
  | ok db' =>
      obtain ⟨c, rfl, hch, -⟩ := createChannel_ok hcr
      change db'.channels.get i = none
      rw [hch, Table.get_insert_ne hne]
      exact hi

theorem createTag_channels {db : Db} {id : Nat} {slug label : Text} {color : Option Text} :
    (db.settled (db.createTag id slug label color)).channels = db.channels := by
  unfold Db.createTag
  split
  · split <;> rfl
  · rfl

theorem ahead_step (hsound : TagsSound s) (h : SequenceAhead s) (hs : step env P s op = some s') :
    SequenceAhead s' := by
  intro i hi
  cases op with
  | createTag slug label color =>
      rw [← Option.some.inj hs] at hi ⊢
      change (s.db.settled _).channels.get i = none
      rw [createTag_channels]
      exact h i hi
  | createChannel tg p =>
      rw [← Option.some.inj hs] at hi ⊢
      change s.nextChannel + 1 ≤ i at hi
      -- the id that was free is taken, and the sequence has gone on
      exact createChannel_get (by omega) (h i (by omega))
  | updateChannelGo id body =>
      rw [← Option.some.inj hs] at hi ⊢
      exact (goUpdate_cases s.db id body).channels (h i hi)
  | updateChannelPython id body =>
      rw [← Option.some.inj hs] at hi ⊢
      exact (pythonUpdate_cases P s.db id body).channels (h i hi)
  | deleteChannel id =>
      rw [← Option.some.inj hs] at hi ⊢
      have hno := h i hi
      change (s.deleteChannel id).channels.get i = none
      unfold deleteChannel
      split
      · exact hno
      · split
        · exact hno
        -- what is deleted does not come back
        · change (s.db.channels.delete id).get i = none
          rw [Table.delete, Table.get_filter, hno]
          rfl
  | normalize p answers =>
      rw [← Option.some.inj hs] at hi ⊢
      have hw : TagsWritten s.db (s.normalized env p answers) :=
        tagsWritten_serve answers hsound.consistent trivial
      change (s.normalized env p answers).channels.get i = none
      rw [hw.channels]
      exact h i hi
  | arrive now c m text =>
      rw [← Option.some.inj hs] at hi ⊢
      change ((s.db.insertPost now c m text).getD s.db).channels.get i = none
      rw [insertPost_getD.1]
      exact h i hi
  | deleteTag id =>
      rw [← Option.some.inj hs] at hi ⊢
      have hno := h i hi
      change (s.deleteTag id).channels.get i = none
      unfold deleteTag
      split <;> exact hno

end Catalog

/--
**Throughout a run the copies agree, and no post is given a tag that is none, exactly if
no default tag of a channel is deleted.**

Every other operation writes both copies, or neither. After a deletion the link is gone and the
array still has the tag, and the run is lost at that step already (`Catalog.sound_step_iff`); the
sequence keeps the id from being given again (`SequenceAhead`).
-/
theorem tags_consistent_iff {env : Env} {P : Pydantic} {s s' : Catalog}
    {tr : List (Catalog × CatalogOp)} (h0 : TagsConsistent s.db) (hstale : s.stale = [])
    (hseq : SequenceAhead s) (h : Trace (Catalog.step env P) s tr s') :
    ((∀ x ∈ tr, TagsSound x.1) ∧ TagsSound s') ↔ AllSteps NotADefault tr := by
  refine h.forall_iff (H := fun _ _ => True) (I := SequenceAhead) (P := TagsSound) ?_ ?_ ?_ hseq
    ⟨h0, hstale⟩
  · intro t op u hI hP _ _ hs
    exact Catalog.ahead_step hP hI hs
  · intro t op u hI hP _ hs
    exact Catalog.sound_step_iff hI hP hs
  · intro _ _
    trivial

/-- A tag, and an `auto` channel that has it as its default. -/
def newsChannel : List CatalogOp :=
  [.createTag "news".toList "News".toList none,
    .createChannel 7 {
      title := some (some "a".toList)
      policy := some (some "auto".toList)
      defaultTagIds := some (some [1]) }]

/-- The channel gives the tag up before it is deleted. -/
def givenUp : List CatalogOp :=
  newsChannel ++ [.updateChannelGo 1 (some (.obj [("default_tag_ids".toList, .null)])), .deleteTag 1]

/-- That run stays consistent. -/
theorem givenUp_sound :
    ∃ s, runs (Catalog.step (sampleEnv {}) Pydantic.strict) {} givenUp = some s ∧ TagsSound s := by
  obtain ⟨s, hs⟩ : ∃ s, runs (Catalog.step (sampleEnv {}) Pydantic.strict) {} givenUp = some s :=
    ⟨_, rfl⟩
  have hempty : TagsConsistent ({} : Catalog).db := by
    intro id c hc
    exact absurd hc (by simp)
  have hsteps : AllSteps NotADefault
      (trail (Catalog.step (sampleEnv {}) Pydantic.strict) {} givenUp) := by decide
  exact ⟨s, hs, ((tags_consistent_iff hempty rfl (fun _ _ => rfl) (Trace.of_runs hs)).mpr hsteps).2⟩

/-- The tag is deleted while the channel has it, and a message of the channel is
normalized. -/
def deletedDefault : List CatalogOp :=
  newsChannel ++ [.deleteTag 1, .arrive 0 1 5 (some "hello".toList),
    .normalize 1 (List.replicate 4 ⟨.ok, 0⟩)]

theorem deletedDefault_run :
    ∃ s, runs (Catalog.step (sampleEnv {}) Pydantic.strict) {} deletedDefault = some s
      ∧ s.stale = [1] ∧ (s.db.posts.get 1).map Post.tagIds = some [1]
      ∧ (s.db.tags.get 1).isNone := by
  refine ⟨_, rfl, ?_⟩
  decide

/-- The post gets a tag that has been deleted. -/
theorem stale_tag_written :
    ¬ ∀ (env : Env) (P : Pydantic) (tr : List (Catalog × CatalogOp)) (s : Catalog),
      Trace (Catalog.step env P) {} tr s → TagsSound s := by
  intro hall
  obtain ⟨s, hs, hstale, -⟩ := deletedDefault_run
  have hsound := hall _ _ _ s (Trace.of_runs hs)
  rw [hsound.stale] at hstale
  exact absurd hstale (by simp)

end TelegramCms
