import TelegramCms.Model.Channels

/-!
# The two channel updates

`PATCH /source-channels/{channel_id}` has two implementations over one table. What the
transaction does to the row is the relation `Updated`, one equation a column, and what it
does to the join table is `setDefaultTagLinks_ok`; both services run it. So they can only
differ in what they read off the body, and in three ways they do: a number or a Boolean
that only pydantic takes for one is dropped by the Go service, a list that only pydantic
takes for one is refused by it, and `null` for `default_tag_ids` clears the tags there
and is ignored here (`channel_patch_agree_iff`).
-/

namespace TelegramCms

/-! ## Columns -/

section Columns

variable {α β : Type} {col : β → Option α}

/-- The column takes the value the statement binds, if it binds one. -/
def Takes (col : β → Option α) (v : Option β) : Prop := ∀ x, v = some x → (col x).isSome

theorem takes_iff {cur : α} {v : Option β} : Takes col v ↔ ∃ a, assign col cur v = some a := by
  cases v with
  | none => exact iff_of_true (fun _ h => absurd h (by simp)) ⟨cur, rfl⟩
  | some x => simp [Takes, assign, Option.isSome_iff_exists]

/-- Leaving out what is unchanged makes no difference to a column that would store again
what it holds. -/
theorem assign_changedCol [DecidableEq β] {cur : α} {stored : β} {v : Option β}
    (h : col stored = some cur) : assign col cur (changedCol stored v) = assign col cur v := by
  cases v with
  | none => rfl
  | some x =>
      simp only [changedCol, Option.bind_some, changed]
      by_cases hx : x = stored
      · rw [if_pos hx, hx]
        exact h.symm
      · rw [if_neg hx]

theorem bigintCol_some {n m : Int} (h : bigintCol n = some m) : n = m := by
  unfold bigintCol at h
  split at h
  · exact Option.some.inj h
  · exact absurd h (by simp)

theorem foreignKey_some {ρ : Type} {key : ρ → Nat} {t : Table Nat ρ key} {n : Int} {k : Nat}
    (h : foreignKey t n = some k) : n = k := by
  obtain ⟨m, hm, h⟩ := Option.bind_eq_some_iff.mp h
  have hnm := bigintCol_some hm
  split at h
  · rename_i hpos
    have hk := Option.some.inj h
    omega
  · exact absurd h (by simp)

end Columns

/-! ## The row -/

/-- The row `c'` that the `UPDATE` of `p` makes of `c`. -/
structure Updated (db : Db) (c : SourceChannel) (p : ChannelPatch) (c' : SourceChannel) :
    Prop where
  id : c'.id = c.id
  telegramChannelId : c'.telegramChannelId = c.telegramChannelId
  title : assign (required (varcharCol 256)) c.title p.title = some c'.title
  username : assign (nullable (varcharCol 128)) c.username p.username = some c'.username
  ingestionEnabled :
    assign (required some) c.ingestionEnabled p.ingestionEnabled = some c'.ingestionEnabled
  policy : assign (required policyCol) c.policy p.policy = some c'.policy
  defaultTagIds : assign tagIdsCol c.defaultTagIds p.defaultTagIds.join = some c'.defaultTagIds
  normalizationTemplateId :
    assign (nullable (foreignKey db.templates)) c.normalizationTemplateId
      p.normalizationTemplateId = some c'.normalizationTemplateId
  maxMediaSizeBytes :
    assign (required bigintCol) c.maxMediaSizeBytes p.maxMediaSizeBytes
      = some c'.maxMediaSizeBytes
  sourceLabel : assign (nullable (varcharCol 64)) c.sourceLabel p.sourceLabel = some c'.sourceLabel
  aiEnabled : assign (required some) c.aiEnabled p.aiEnabled = some c'.aiEnabled
  aiMode : assign (required aiModeCol) c.aiMode p.aiMode = some c'.aiMode
  aiTargetLanguage :
    assign (nullable (varcharCol 16)) c.aiTargetLanguage p.aiTargetLanguage
      = some c'.aiTargetLanguage
  aiTonePrompt : assign (nullable textCol) c.aiTonePrompt p.aiTonePrompt = some c'.aiTonePrompt
  aiCustomSystemPrompt :
    assign (nullable textCol) c.aiCustomSystemPrompt p.aiCustomSystemPrompt
      = some c'.aiCustomSystemPrompt
  watermarkEnabled :
    assign (required some) c.watermarkEnabled p.watermarkEnabled = some c'.watermarkEnabled
  watermarkText : assign (nullable textCol) c.watermarkText p.watermarkText = some c'.watermarkText
  stripSourceTags :
    assign (required some) c.stripSourceTags p.stripSourceTags = some c'.stripSourceTags

section Row

variable {db : Db} {c c' : SourceChannel} {p : ChannelPatch}

/-- A patch is applied column by column. -/
theorem apply_iff : p.apply db c = some c' ↔ Updated db c p c' := by
  constructor
  · intro h
    obtain ⟨title, h1, h⟩ := Option.bind_eq_some_iff.mp h
    obtain ⟨username, h2, h⟩ := Option.bind_eq_some_iff.mp h
    obtain ⟨ingestionEnabled, h3, h⟩ := Option.bind_eq_some_iff.mp h
    obtain ⟨policy, h4, h⟩ := Option.bind_eq_some_iff.mp h
    obtain ⟨tagIds, h5, h⟩ := Option.bind_eq_some_iff.mp h
    obtain ⟨template, h6, h⟩ := Option.bind_eq_some_iff.mp h
    obtain ⟨media, h7, h⟩ := Option.bind_eq_some_iff.mp h
    obtain ⟨label, h8, h⟩ := Option.bind_eq_some_iff.mp h
    obtain ⟨aiEnabled, h9, h⟩ := Option.bind_eq_some_iff.mp h
    obtain ⟨aiMode, h10, h⟩ := Option.bind_eq_some_iff.mp h
    obtain ⟨language, h11, h⟩ := Option.bind_eq_some_iff.mp h
    obtain ⟨tone, h12, h⟩ := Option.bind_eq_some_iff.mp h
    obtain ⟨prompt, h13, h⟩ := Option.bind_eq_some_iff.mp h
    obtain ⟨watermark, h14, h⟩ := Option.bind_eq_some_iff.mp h
    obtain ⟨watermarkText, h15, h⟩ := Option.bind_eq_some_iff.mp h
    obtain ⟨strip, h16, h⟩ := Option.bind_eq_some_iff.mp h
    obtain rfl := Option.some.inj h
    exact ⟨rfl, rfl, h1, h2, h3, h4, h5, h6, h7, h8, h9, h10, h11, h12, h13, h14, h15, h16⟩
  · intro h
    obtain ⟨hid, htg, h1, h2, h3, h4, h5, h6, h7, h8, h9, h10, h11, h12, h13, h14, h15, h16⟩ := h
    simp only [ChannelPatch.apply, h1, h2, h3, h4, h5, h6, h7, h8, h9, h10, h11, h12, h13, h14,
      h15, h16, Option.bind_eq_bind, Option.bind_some, Option.pure_def]
    cases c'
    subst hid htg
    rfl

/-- Postgres takes every column the statement assigns. -/
structure ChannelPatch.ColumnsTake (db : Db) (p : ChannelPatch) : Prop where
  title : Takes (required (varcharCol 256)) p.title
  username : Takes (nullable (varcharCol 128)) p.username
  ingestionEnabled : Takes (required some) p.ingestionEnabled
  policy : Takes (required policyCol) p.policy
  defaultTagIds : Takes tagIdsCol p.defaultTagIds.join
  normalizationTemplateId : Takes (nullable (foreignKey db.templates)) p.normalizationTemplateId
  maxMediaSizeBytes : Takes (required bigintCol) p.maxMediaSizeBytes
  sourceLabel : Takes (nullable (varcharCol 64)) p.sourceLabel
  aiEnabled : Takes (required some) p.aiEnabled
  aiMode : Takes (required aiModeCol) p.aiMode
  aiTargetLanguage : Takes (nullable (varcharCol 16)) p.aiTargetLanguage
  aiTonePrompt : Takes (nullable textCol) p.aiTonePrompt
  aiCustomSystemPrompt : Takes (nullable textCol) p.aiCustomSystemPrompt
  watermarkEnabled : Takes (required some) p.watermarkEnabled
  watermarkText : Takes (nullable textCol) p.watermarkText
  stripSourceTags : Takes (required some) p.stripSourceTags

/-- It can be applied if each column takes what it is given. -/
theorem updated_iff (c : SourceChannel) : (∃ c', Updated db c p c') ↔ p.ColumnsTake db := by
  constructor
  · rintro ⟨c', h⟩
    exact {
      title := takes_iff.mpr ⟨_, h.title⟩
      username := takes_iff.mpr ⟨_, h.username⟩
      ingestionEnabled := takes_iff.mpr ⟨_, h.ingestionEnabled⟩
      policy := takes_iff.mpr ⟨_, h.policy⟩
      defaultTagIds := takes_iff.mpr ⟨_, h.defaultTagIds⟩
      normalizationTemplateId := takes_iff.mpr ⟨_, h.normalizationTemplateId⟩
      maxMediaSizeBytes := takes_iff.mpr ⟨_, h.maxMediaSizeBytes⟩
      sourceLabel := takes_iff.mpr ⟨_, h.sourceLabel⟩
      aiEnabled := takes_iff.mpr ⟨_, h.aiEnabled⟩
      aiMode := takes_iff.mpr ⟨_, h.aiMode⟩
      aiTargetLanguage := takes_iff.mpr ⟨_, h.aiTargetLanguage⟩
      aiTonePrompt := takes_iff.mpr ⟨_, h.aiTonePrompt⟩
      aiCustomSystemPrompt := takes_iff.mpr ⟨_, h.aiCustomSystemPrompt⟩
      watermarkEnabled := takes_iff.mpr ⟨_, h.watermarkEnabled⟩
      watermarkText := takes_iff.mpr ⟨_, h.watermarkText⟩
      stripSourceTags := takes_iff.mpr ⟨_, h.stripSourceTags⟩ }
  · intro h
    obtain ⟨title, h1⟩ := takes_iff.mp h.title
    obtain ⟨username, h2⟩ := takes_iff.mp h.username
    obtain ⟨ingestionEnabled, h3⟩ := takes_iff.mp h.ingestionEnabled
    obtain ⟨policy, h4⟩ := takes_iff.mp h.policy
    obtain ⟨defaultTagIds, h5⟩ := takes_iff.mp h.defaultTagIds
    obtain ⟨normalizationTemplateId, h6⟩ := takes_iff.mp h.normalizationTemplateId
    obtain ⟨maxMediaSizeBytes, h7⟩ := takes_iff.mp h.maxMediaSizeBytes
    obtain ⟨sourceLabel, h8⟩ := takes_iff.mp h.sourceLabel
    obtain ⟨aiEnabled, h9⟩ := takes_iff.mp h.aiEnabled
    obtain ⟨aiMode, h10⟩ := takes_iff.mp h.aiMode
    obtain ⟨aiTargetLanguage, h11⟩ := takes_iff.mp h.aiTargetLanguage
    obtain ⟨aiTonePrompt, h12⟩ := takes_iff.mp h.aiTonePrompt
    obtain ⟨aiCustomSystemPrompt, h13⟩ := takes_iff.mp h.aiCustomSystemPrompt
    obtain ⟨watermarkEnabled, h14⟩ := takes_iff.mp h.watermarkEnabled
    obtain ⟨watermarkText, h15⟩ := takes_iff.mp h.watermarkText
    obtain ⟨stripSourceTags, h16⟩ := takes_iff.mp h.stripSourceTags
    exact ⟨{ c with
      title, username, ingestionEnabled, policy, defaultTagIds, normalizationTemplateId
      maxMediaSizeBytes, sourceLabel, aiEnabled, aiMode, aiTargetLanguage, aiTonePrompt
      aiCustomSystemPrompt, watermarkEnabled, watermarkText, stripSourceTags },
      ⟨rfl, rfl, h1, h2, h3, h4, h5, h6, h7, h8, h9, h10, h11, h12, h13, h14, h15, h16⟩⟩

end Row

/-! ## The join table -/

section Links

variable {ch : Nat} {ids : List Int}
  {t t' : Table (Nat × Nat) SourceChannelTag SourceChannelTag.key}

/-- The ids are those of a channel's rows after the inserts; all else is as before. -/
theorem insertLinks_get (h : insertLinks ch ids t = some t') (k : Nat × Nat) :
    t'.get k = if k.1 = ch ∧ k.2 ∈ ids.map Int.toNat then some ⟨k.1, k.2⟩ else t.get k := by
  induction ids generalizing t with
  | nil =>
      rw [← Option.some.inj h]
      simp
  | cons n ns ih =>
      rw [insertLinks] at h
      split at h
      · exact absurd h (by simp)
      · rename_i hfree
        rw [ih h]
        by_cases hk : k = (ch, n.toNat)
        -- the key of this insert
        · have hself : (t.insert ⟨ch, n.toNat⟩).get k = some ⟨ch, n.toNat⟩ := by
            rw [hk]
            exact Table.get_insert_self (Option.not_isSome_iff_eq_none.mp hfree)
          rw [hself, hk]
          simp
        · have hne : (t.insert ⟨ch, n.toNat⟩).get k = t.get k := Table.get_insert_ne hk
          have hiff : (k.1 = ch ∧ k.2 ∈ (n :: ns).map Int.toNat)
              ↔ (k.1 = ch ∧ k.2 ∈ ns.map Int.toNat) := by
            rw [List.map_cons, List.mem_cons]
            constructor
            · rintro ⟨h1, h2 | h2⟩
              · exact absurd (Prod.ext h1 h2) hk
              · exact ⟨h1, h2⟩
            · intro h
              exact ⟨h.1, .inr h.2⟩
          simp only [hne, hiff]

/-- The inserts go through exactly if no key is there already or comes twice. -/
theorem insertLinks_isSome :
    (insertLinks ch ids t).isSome
      ↔ (ids.map Int.toNat).Nodup ∧ ∀ n ∈ ids, t.get (ch, n.toNat) = none := by
  induction ids generalizing t with
  | nil => simp [insertLinks]
  | cons n ns ih =>
      rw [insertLinks]
      cases hn : t.get (ch, n.toNat) with
      | some r => simp [hn]
      | none =>
          -- after this insert its own key is taken, and no other
          have hget : ∀ m : Int, (t.insert ⟨ch, n.toNat⟩).get (ch, m.toNat) = none
              ↔ m.toNat ≠ n.toNat ∧ t.get (ch, m.toNat) = none := by
            intro m
            by_cases hm : m.toNat = n.toNat
            · have hself : (t.insert ⟨ch, n.toNat⟩).get (ch, n.toNat) = some ⟨ch, n.toNat⟩ :=
                Table.get_insert_self hn
              simp [hm, hself]
            · have hne : (t.insert ⟨ch, n.toNat⟩).get (ch, m.toNat) = t.get (ch, m.toNat) :=
                Table.get_insert_ne (by simp [SourceChannelTag.key, hm])
              simp [hm, hne]
          rw [if_neg (by simp), ih, List.map_cons, List.nodup_cons]
          simp only [hget, List.mem_map, not_exists, not_and, List.forall_mem_cons, hn, true_and]
          constructor
          · rintro ⟨hnd, hall⟩
            exact ⟨⟨fun m hm => (hall m hm).1, hnd⟩, fun m hm => (hall m hm).2⟩
          · rintro ⟨⟨hne, hnd⟩, hall⟩
            exact ⟨hnd, fun m hm => ⟨hne m hm, hall m hm⟩⟩

/-- The tags exist, and none is named twice. -/
structure TagsKnown (db : Db) (ids : List Int) : Prop where
  exist : ∀ n ∈ ids, db.hasTag n
  nodup : ids.Nodup

theorem TagsKnown.nodup_toNat {db : Db} (h : TagsKnown db ids) : (ids.map Int.toNat).Nodup := by
  rw [List.nodup_map_iff_inj_on h.nodup]
  intro n hn m hm heq
  have h1 := (h.exist n hn).1
  have h2 := (h.exist m hm).1
  omega

/-- The rows of the join table after the links of channel `ch` were set. -/
def linksSet (db : Db) (ch : Nat) (ids : List Int) (k : Nat × Nat) : Option SourceChannelTag :=
  if k.1 = ch then if k.2 ∈ ids.map Int.toNat then some ⟨k.1, k.2⟩ else none
  else db.sourceChannelTags.get k

theorem linksCleared_get {db : Db} {k : Nat × Nat} :
    (db.sourceChannelTags.filter (fun r => decide (r.sourceChannelId ≠ ch))).get k
      = if k.1 = ch then none else db.sourceChannelTags.get k := by
  rw [Table.get_filter]
  cases hg : db.sourceChannelTags.get k with
  | none => simp
  | some r =>
      have hk : r.sourceChannelId = k.1 := congrArg Prod.fst (Table.key_of_get hg)
      by_cases h : k.1 = ch <;> simp [hk, h]

/-- The links are replaced, if every tag is known and given once. -/
theorem setDefaultTagLinks_ok {db db' : Db} (h : db.setDefaultTagLinks ch ids = .ok db') :
    db' = { db with sourceChannelTags := db'.sourceChannelTags } ∧ TagsKnown db ids
      ∧ ∀ k, db'.sourceChannelTags.get k = linksSet db ch ids k := by
  unfold Db.setDefaultTagLinks at h
  dsimp only at h
  split at h
  · exact absurd h (by simp)
  · rename_i hmissing
    have hexist : ∀ n ∈ ids, db.hasTag n := by
      intro n hn
      by_contra hno
      exact hmissing (List.ne_nil_of_mem (List.mem_filter.mpr ⟨hn, by simpa using hno⟩))
    split at h
    · exact absurd h (by simp)
    · rename_i links hlinks
      obtain rfl := Except.ok.inj h
      have hnodup := (insertLinks_isSome.mp (Option.isSome_iff_exists.mpr ⟨_, hlinks⟩)).1
      refine ⟨rfl, ⟨hexist, hnodup.of_map _⟩, ?_⟩
      intro k
      rw [insertLinks_get hlinks, linksCleared_get, linksSet]
      by_cases hk : k.1 = ch <;> simp [hk]

/-- And in that case they can be. -/
theorem setDefaultTagLinks_of_known {db : Db} (h : TagsKnown db ids) :
    ∃ db', db.setDefaultTagLinks ch ids = .ok db' := by
  have hmissing : ids.filter (fun n => decide (¬ db.hasTag n)) = [] := by
    rw [List.filter_eq_nil_iff]
    intro n hn
    simpa using h.exist n hn
  have hfree : ∀ n ∈ ids, (db.sourceChannelTags.filter
      (fun r => decide (r.sourceChannelId ≠ ch))).get (ch, n.toNat) = none := by
    intro n _
    rw [linksCleared_get, if_pos rfl]
  obtain ⟨links, hlinks⟩ :=
    Option.isSome_iff_exists.mp (insertLinks_isSome.mpr ⟨h.nodup_toNat, hfree⟩)
  refine ⟨{ db with sourceChannelTags := links }, ?_⟩
  simp only [Db.setDefaultTagLinks, hmissing, hlinks]
  simp

end Links

/-! ## The transaction -/

section Transaction

variable {db db' : Db} {c c' : SourceChannel} {p : ChannelPatch}

/-- The database takes the patch: every column its value, and the tags are known. -/
structure ChannelPatch.Accepted (db : Db) (p : ChannelPatch) : Prop where
  columns : p.ColumnsTake db
  tags : ∀ ids, p.defaultTagIds.join = some ids → TagsKnown db ids

/-- What a transaction that commits leaves behind. -/
structure Patched (db : Db) (c : SourceChannel) (p : ChannelPatch) (db' : Db) : Prop where
  row : ∃ c', Updated db c p c'
    ∧ ∀ id, db'.channels.get id = if id = c.id then some c' else db.channels.get id
  links : ∀ k, db'.sourceChannelTags.get k
    = match p.defaultTagIds.join with
      | none => db.sourceChannelTags.get k
      | some ids => linksSet db c.id ids k
  tags : db'.tags = db.tags
  posts : db'.posts = db.posts

theorem setChannel_get (hc : db.channels.get c.id = some c) (hid : c'.id = c.id) (id : Nat) :
    (db.setChannel c').channels.get id = if id = c.id then some c' else db.channels.get id := by
  rw [Db.setChannel]
  dsimp only
  by_cases h : id = c.id
  · rw [if_pos h, h, hid, Table.get_update_self, hc, Option.map_some, ← hid]
  · rw [if_neg h, hid, Table.get_update_ne h]

/-- A patch that goes through was acceptable, and has patched the row and the links. -/
theorem patchChannel_ok (hc : db.channels.get c.id = some c)
    (h : db.patchChannel c p = .ok db') : p.Accepted db ∧ Patched db c p db' := by
  unfold Db.patchChannel at h
  split at h
  · exact absurd h (by simp)
  · rename_i c' happly
    have hrow := apply_iff.mp happly
    have hcols := (updated_iff c).mp ⟨c', hrow⟩
    have hset := setChannel_get hc hrow.id
    split at h
    · rename_i hids
      obtain rfl := Except.ok.inj h
      refine ⟨⟨hcols, ?_⟩, ⟨c', hrow, hset⟩, ?_, rfl, rfl⟩
      · intro ids h'
        rw [hids] at h'
        exact absurd h' (by simp)
      · intro k
        rw [hids]
        rfl
    · rename_i ids hids
      obtain ⟨hdb, hknown, hlinks⟩ := setDefaultTagLinks_ok h
      refine ⟨⟨hcols, ?_⟩, ⟨c', hrow, by rw [hdb]; exact hset⟩, ?_, by rw [hdb]; rfl,
        by rw [hdb]; rfl⟩
      · intro ids' h'
        rw [hids] at h'
        obtain rfl := Option.some.inj h'
        exact ⟨hknown.exist, hknown.nodup⟩
      · intro k
        rw [hids]
        exact hlinks k

/-- A patch that is acceptable goes through. -/
theorem patchChannel_of_accepted (c : SourceChannel) (h : p.Accepted db) :
    ∃ db', db.patchChannel c p = .ok db' := by
  obtain ⟨c', hrow⟩ := (updated_iff c).mpr h.columns
  simp only [Db.patchChannel, apply_iff.mpr hrow]
  cases hids : p.defaultTagIds.join with
  | none => exact ⟨_, rfl⟩
  | some ids =>
      have hknown := h.tags ids hids
      exact setDefaultTagLinks_of_known ⟨hknown.exist, hknown.nodup⟩

/-- The transaction fails with a status that says so. -/
theorem patchChannel_error {a : HttpAnswer} (h : db.patchChannel c p = .error a) :
    400 ≤ a.status := by
  unfold Db.patchChannel at h
  split at h
  · obtain rfl := Except.error.inj h
    decide
  · split at h
    · exact absurd h (by simp)
    · unfold Db.setDefaultTagLinks at h
      dsimp only at h
      split at h
      · rw [← Except.error.inj h]
      · split at h
        · rw [← Except.error.inj h]
          decide
        · exact absurd h (by simp)

/-- A transaction commits or is rolled back, according to what the database makes of the
patch. -/
theorem settle_patch (hc : db.channels.get c.id = some c) :
    (p.Accepted db ∧ ∃ db', settle db (db.patchChannel c p) = (db', ⟨200, none⟩)
        ∧ Patched db c p db')
      ∨ (¬ p.Accepted db ∧ ∃ a, settle db (db.patchChannel c p) = (db, a) ∧ 400 ≤ a.status) := by
  cases hp : db.patchChannel c p with
  | ok db' =>
      obtain ⟨hacc, hpatched⟩ := patchChannel_ok hc hp
      exact .inl ⟨hacc, db', rfl, hpatched⟩
  | error a =>
      right
      refine ⟨?_, a, rfl, patchChannel_error hp⟩
      intro hacc
      obtain ⟨db', hok⟩ := patchChannel_of_accepted c hacc
      rw [hp] at hok
      exact absurd hok (by simp)

end Transaction

/-! ## What the session leaves out -/

/-- The row holds what its columns would store again, as every stored row does. -/
structure SourceChannel.Stored (db : Db) (c : SourceChannel) : Prop where
  title : varcharCol 256 c.title = some c.title
  username : nullable (varcharCol 128) c.username = some c.username
  normalizationTemplateId :
    nullable (foreignKey db.templates) (c.normalizationTemplateId.map Int.ofNat)
      = some c.normalizationTemplateId
  maxMediaSizeBytes : bigintCol c.maxMediaSizeBytes = some c.maxMediaSizeBytes
  sourceLabel : nullable (varcharCol 64) c.sourceLabel = some c.sourceLabel
  aiTargetLanguage : nullable (varcharCol 16) c.aiTargetLanguage = some c.aiTargetLanguage
  aiTonePrompt : nullable textCol c.aiTonePrompt = some c.aiTonePrompt
  aiCustomSystemPrompt : nullable textCol c.aiCustomSystemPrompt = some c.aiCustomSystemPrompt
  watermarkText : nullable textCol c.watermarkText = some c.watermarkText

theorem policyCol_value (p : Policy) : policyCol p.value = some p := by
  cases p <;> rfl

theorem aiModeCol_value (m : AIMode) : aiModeCol m.value = some m := by
  cases m <;> rfl

section Session

variable {db : Db} {c : SourceChannel}

/-- An `UPDATE` of the changed columns alone is as good as one of all. -/
theorem apply_changed (hc : c.Stored db) (p : ChannelPatch) :
    (p.changed c).apply db c = p.apply db c := by
  have hreq : ∀ {α β : Type} {col : β → Option α} {b : β} {a : α}, col b = some a →
      required col (some b) = some a := fun h => h
  have hflag : ∀ b : Bool, required some (some b) = some b := fun _ => rfl
  simp only [ChannelPatch.apply, ChannelPatch.changed,
    assign_changedCol (hreq hc.title), assign_changedCol hc.username,
    assign_changedCol (hflag _), assign_changedCol (hreq (policyCol_value _)),
    assign_changedCol hc.normalizationTemplateId, assign_changedCol (hreq hc.maxMediaSizeBytes),
    assign_changedCol hc.sourceLabel, assign_changedCol (hreq (aiModeCol_value _)),
    assign_changedCol hc.aiTargetLanguage, assign_changedCol hc.aiTonePrompt,
    assign_changedCol hc.aiCustomSystemPrompt, assign_changedCol hc.watermarkText]

/-- The session leaves out what is already in the row, which makes no difference. -/
theorem patchChannel_changed (hc : c.Stored db) (p : ChannelPatch) :
    db.patchChannel c (p.changed c) = db.patchChannel c p := by
  rw [Db.patchChannel, Db.patchChannel, apply_changed hc]
  rfl

end Session

/-! ## What the two services read -/

section Reading

variable {P : Pydantic} {body : Fields} {key : String}

/-- A validated field that was sent was readable. -/
theorem orNone_of_validate {α : Type} {read : Json → Option α} {v : Option (Option α)} {j : Json}
    (h : body.validate read key = some v) (hs : body.sent key = some j) :
    ∃ x, Pydantic.orNone read j = some x ∧ v = some x := by
  rw [Fields.validate, hs] at h
  obtain ⟨x, hx, rfl⟩ := Option.map_eq_some_iff.mp h
  exact ⟨x, hx, rfl⟩

/-- If whatever pydantic accepts is read alike, the fields are. -/
theorem add_eq_of_validate {α : Type} {read : Json → Option α} {go : Json → Option (Option α)}
    {v : Option (Option α)} (hread : ∀ j x, Pydantic.orNone read j = some x → go j = some x)
    (h : body.validate read key = some v) : body.add go key = v := by
  rw [Fields.add]
  cases hs : body.sent key with
  | none =>
      rw [Fields.validate, hs] at h
      exact Option.some.inj h
  | some j =>
      obtain ⟨x, hx, rfl⟩ := orNone_of_validate h hs
      exact hread j x hx

theorem str_of_orNone (j : Json) (x : Option Text) (h : Pydantic.orNone Pydantic.str j = some x) :
    Go.str j = some x := by
  cases j <;> exact h

theorem str_of_enum (values : List Text) (j : Json) (x : Option Text)
    (h : Pydantic.orNone (Pydantic.enum values) j = some x) : Go.str j = some x := by
  cases j with
  | null => exact h
  | str s =>
      simp only [Pydantic.orNone, Pydantic.enum] at h
      split at h
      · exact h
      · exact absurd h (by simp)
  | _ => exact absurd h (by simp [Pydantic.orNone, Pydantic.enum])

/-- If whatever Go reads pydantic reads alike, a field Go has is the validated one. -/
theorem validate_of_add {α : Type} {read : Json → Option α} {go : Json → Option (Option α)}
    {v : Option (Option α)} (hread : ∀ j x, go j = some x → Pydantic.orNone read j = some x)
    (h : body.validate read key = some v) (x : Option α) (hx : body.add go key = some x) :
    v = some x := by
  obtain ⟨j, hs, hj⟩ := Option.bind_eq_some_iff.mp hx
  obtain ⟨y, hy, rfl⟩ := orNone_of_validate h hs
  rw [hread j x hj] at hy
  exact hy.symm

/-- What Go reads as an integer, so does Python. -/
theorem int_of_go (j : Json) (x : Option Int) (h : Go.int j = some x) :
    Pydantic.orNone P.int j = some x := by
  cases j with
  | null => exact h
  | int n =>
      simp only [Go.int] at h
      split at h
      · rename_i hn
        obtain rfl := Option.some.inj h
        rw [Pydantic.orNone, P.int_int n hn, Option.map_some]
        exact fun h => Json.noConfusion h
      · exact absurd h (by simp)
  | _ => exact absurd h (by simp [Go.int])

theorem bool_of_go (j : Json) (x : Option Bool) (h : Go.bool j = some x) :
    Pydantic.orNone P.bool j = some x := by
  cases j with
  | null => exact h
  | bool b =>
      obtain rfl := Option.some.inj h
      rw [Pydantic.orNone, P.bool_bool, Option.map_some]
      exact fun h => Json.noConfusion h
  | _ => exact absurd h (by simp [Go.bool])

/-- An id both services read is the same for both. -/
theorem item_eq {j : Json} {n m : Int} (hgo : Go.item j = some n) (hpy : P.int j = some m) :
    n = m := by
  obtain ⟨x, hx, rfl⟩ := Option.map_eq_some_iff.mp hgo
  have hread := @int_of_go P j x hx
  cases j with
  | null =>
      rw [P.int_null] at hpy
      exact absurd hpy (by simp)
  | _ =>
      simp only [Pydantic.orNone, hpy, Option.map_some, Option.some.injEq] at hread
      rw [← hread]
      rfl

/-- The ids of a list are the same where both read it. -/
theorem items_eq {items : List Json} {ns ms : List Int} (hgo : items.mapM Go.item = some ns)
    (hpy : items.mapM P.int = some ms) : ns = ms := by
  induction items generalizing ns ms with
  | nil =>
      rw [← Option.some.inj hgo, ← Option.some.inj hpy]
  | cons j js ih =>
      rw [List.mapM_cons] at hgo hpy
      obtain ⟨n, hn, hgo⟩ := Option.bind_eq_some_iff.mp hgo
      obtain ⟨ns', hns, hgo⟩ := Option.bind_eq_some_iff.mp hgo
      obtain ⟨m, hm, hpy⟩ := Option.bind_eq_some_iff.mp hpy
      obtain ⟨ms', hms, hpy⟩ := Option.bind_eq_some_iff.mp hpy
      rw [← Option.some.inj hgo, ← Option.some.inj hpy, item_eq hn hm, ih hns hms]

/-- The ids a Go update assigns are the ones pydantic validates, `null` being none at all. -/
theorem tagIds_of_go {v : Option (Option (List Int))} (hbad : body.badTagIds = false)
    (h : body.validate P.ints "default_tag_ids" = some v) :
    (body.add Go.ints "default_tag_ids").map (fun ids => some (ids.getD []))
      = v.map (fun ids => some (ids.getD [])) := by
  rw [Fields.add]
  unfold Fields.badTagIds at hbad
  cases hs : body.sent "default_tag_ids" with
  | none =>
      rw [Fields.validate, hs] at h
      rw [← Option.some.inj h]
      rfl
  | some j =>
      obtain ⟨x, hx, rfl⟩ := orNone_of_validate h hs
      rw [hs] at hbad
      obtain ⟨y, hy⟩ := Option.isSome_iff_exists.mp (by simpa using hbad)
      rw [Option.bind_some, hy]
      cases j with
      | null =>
          rw [← Option.some.inj hx, ← Option.some.inj hy]
      | arr items =>
          obtain ⟨ns, hns, rfl⟩ := Option.map_eq_some_iff.mp hy
          obtain ⟨ms, hms, rfl⟩ := Option.map_eq_some_iff.mp hx
          rw [items_eq hns hms]
      | _ => exact absurd hy (by simp [Go.ints])

end Reading

/-- How the columns a Go update assigns compare with the validated fields: texts are read
alike, a number or a Boolean that Go reads is the validated one. -/
structure ReadAlike (sets data : ChannelPatch) : Prop where
  title : sets.title = data.title
  username : sets.username = data.username
  ingestionEnabled : ∀ v, sets.ingestionEnabled = some v → data.ingestionEnabled = some v
  policy : sets.policy = data.policy
  normalizationTemplateId :
    ∀ v, sets.normalizationTemplateId = some v → data.normalizationTemplateId = some v
  maxMediaSizeBytes : ∀ v, sets.maxMediaSizeBytes = some v → data.maxMediaSizeBytes = some v
  sourceLabel : sets.sourceLabel = data.sourceLabel
  aiEnabled : ∀ v, sets.aiEnabled = some v → data.aiEnabled = some v
  aiMode : sets.aiMode = data.aiMode
  aiTargetLanguage : sets.aiTargetLanguage = data.aiTargetLanguage
  aiTonePrompt : sets.aiTonePrompt = data.aiTonePrompt
  aiCustomSystemPrompt : sets.aiCustomSystemPrompt = data.aiCustomSystemPrompt
  watermarkEnabled : ∀ v, sets.watermarkEnabled = some v → data.watermarkEnabled = some v
  watermarkText : sets.watermarkText = data.watermarkText
  stripSourceTags : ∀ v, sets.stripSourceTags = some v → data.stripSourceTags = some v

/-- **Of a body that is valid to Python both services read the same fields**, with the differences
that `ReadAlike` names. -/
theorem read_alike {P : Pydantic} {body : Fields} {data : ChannelPatch}
    (h : body.channelUpdate P = some data) :
    ReadAlike body.channelSets data
      ∧ (body.badTagIds = false →
          body.channelSets.defaultTagIds = data.defaultTagIds.map (fun ids => some (ids.getD []))) := by
  obtain ⟨title, h1, h⟩ := Option.bind_eq_some_iff.mp h
  obtain ⟨username, h2, h⟩ := Option.bind_eq_some_iff.mp h
  obtain ⟨ingestionEnabled, h3, h⟩ := Option.bind_eq_some_iff.mp h
  obtain ⟨policy, h4, h⟩ := Option.bind_eq_some_iff.mp h
  obtain ⟨defaultTagIds, h5, h⟩ := Option.bind_eq_some_iff.mp h
  obtain ⟨template, h6, h⟩ := Option.bind_eq_some_iff.mp h
  obtain ⟨media, h7, h⟩ := Option.bind_eq_some_iff.mp h
  obtain ⟨label, h8, h⟩ := Option.bind_eq_some_iff.mp h
  obtain ⟨aiEnabled, h9, h⟩ := Option.bind_eq_some_iff.mp h
  obtain ⟨aiMode, h10, h⟩ := Option.bind_eq_some_iff.mp h
  obtain ⟨language, h11, h⟩ := Option.bind_eq_some_iff.mp h
  obtain ⟨tone, h12, h⟩ := Option.bind_eq_some_iff.mp h
  obtain ⟨prompt, h13, h⟩ := Option.bind_eq_some_iff.mp h
  obtain ⟨watermark, h14, h⟩ := Option.bind_eq_some_iff.mp h
  obtain ⟨watermarkText, h15, h⟩ := Option.bind_eq_some_iff.mp h
  obtain ⟨strip, h16, h⟩ := Option.bind_eq_some_iff.mp h
  obtain rfl := Option.some.inj h
  -- what Python takes for a text so does Go, and for the other types it is the other way about
  refine ⟨?_, fun hbad => tagIds_of_go hbad h5⟩
  exact {
    title := add_eq_of_validate str_of_orNone h1
    username := add_eq_of_validate str_of_orNone h2
    ingestionEnabled := validate_of_add bool_of_go h3
    policy := add_eq_of_validate (str_of_enum _) h4
    normalizationTemplateId := validate_of_add int_of_go h6
    maxMediaSizeBytes := validate_of_add int_of_go h7
    sourceLabel := add_eq_of_validate str_of_orNone h8
    aiEnabled := validate_of_add bool_of_go h9
    aiMode := add_eq_of_validate (str_of_enum _) h10
    aiTargetLanguage := add_eq_of_validate str_of_orNone h11
    aiTonePrompt := add_eq_of_validate str_of_orNone h12
    aiCustomSystemPrompt := add_eq_of_validate str_of_orNone h13
    watermarkEnabled := validate_of_add bool_of_go h14
    watermarkText := add_eq_of_validate str_of_orNone h15
    stripSourceTags := validate_of_add bool_of_go h16 }

/-! ## The two updates -/

/-- A field the Go update skips has, as pydantic reads it, the value of its column. -/
def Held {β : Type} (set data : Option β) (cur : β) : Prop :=
  set = none → data = none ∨ data = some cur

instance {β : Type} [DecidableEq β] (set data : Option β) (cur : β) :
    Decidable (Held set data cur) :=
  inferInstanceAs (Decidable (set = none → data = none ∨ data = some cur))

structure SkippedHeld (c : SourceChannel) (sets data : ChannelPatch) : Prop where
  ingestionEnabled : Held sets.ingestionEnabled data.ingestionEnabled (some c.ingestionEnabled)
  normalizationTemplateId :
    Held sets.normalizationTemplateId data.normalizationTemplateId
      (c.normalizationTemplateId.map Int.ofNat)
  maxMediaSizeBytes : Held sets.maxMediaSizeBytes data.maxMediaSizeBytes (some c.maxMediaSizeBytes)
  aiEnabled : Held sets.aiEnabled data.aiEnabled (some c.aiEnabled)
  watermarkEnabled : Held sets.watermarkEnabled data.watermarkEnabled (some c.watermarkEnabled)
  stripSourceTags : Held sets.stripSourceTags data.stripSourceTags (some c.stripSourceTags)

/-- The channel has no tags that `null` could clear. -/
def NoTags (db : Db) (c : SourceChannel) : Prop :=
  c.defaultTagIds = [] ∧ ∀ tag, db.sourceChannelTags.get (c.id, tag) = none

/-- A request failed and left the database as it was. -/
def Failed (db : Db) (x : Db × HttpAnswer) : Prop := x.1 = db ∧ 400 ≤ x.2.status

/-- Both requests fail, or both succeed and leave the same row and the same links. -/
def SameOutcome (db : Db) (id : Nat) (x y : Db × HttpAnswer) : Prop :=
  (Failed db x ∧ Failed db y)
    ∨ (x.2.status < 400 ∧ y.2.status < 400 ∧ x.1.channels.get id = y.1.channels.get id
        ∧ ∀ k, x.1.sourceChannelTags.get k = y.1.sourceChannelTags.get k)

/-- The Go service can read `default_tag_ids`, and the database takes what it assigns. -/
def GoAccepts (db : Db) (body : Fields) : Prop :=
  body.badTagIds = false ∧ body.channelSets.Accepted db

/-- The services agree on a body: both accept what they read off it, nothing that was sent
is lost on the Go side and `null` clears nothing; or neither accepts it. -/
def PatchesAgree (db : Db) (c : SourceChannel) (body : Fields) (data : ChannelPatch) : Prop :=
  (¬ GoAccepts db body ∧ ¬ data.Accepted db)
    ∨ (GoAccepts db body ∧ data.Accepted db ∧ SkippedHeld c body.channelSets data
        ∧ (data.defaultTagIds = some none → NoTags db c))

section Compare

variable {α β : Type} {col : β → Option α} {cur a b : α} {set data : Option β}

/-- A column comes out the same exactly if what one of them does not set is held. -/
theorem same_iff_held {store : α → β} (hread : ∀ v, set = some v → data = some v)
    (hcol : ∀ v x, col v = some x → v = store x) (hcur : col (store cur) = some cur)
    (ha : assign col cur set = some a) (hb : assign col cur data = some b) :
    a = b ↔ Held set data (store cur) := by
  cases set with
  | some v =>
      rw [hread v rfl] at hb
      have hab : a = b := Option.some.inj (ha.symm.trans hb)
      exact iff_of_true hab (fun h => absurd h (by simp))
  | none =>
      obtain rfl : cur = a := Option.some.inj ha
      cases data with
      | none =>
          obtain rfl : cur = b := Option.some.inj hb
          exact iff_of_true rfl (fun _ => .inl rfl)
      | some v =>
          constructor
          · intro hab _
            rw [hcol v b hb, hab]
            exact .inr rfl
          · intro hheld
            have hv : v = store cur := by simpa using hheld rfl
            rw [hv] at hb
            exact Option.some.inj (hcur.symm.trans hb)

theorem same_of_eq (hread : set = data) (ha : assign col cur set = some a)
    (hb : assign col cur data = some b) : a = b := by
  rw [hread] at ha
  exact Option.some.inj (ha.symm.trans hb)

end Compare

section Agree

variable {db : Db} {c g p : SourceChannel} {sets data : ChannelPatch}

theorem bool_same_iff {cur a b : Bool} {set data : Option (Option Bool)}
    (hread : ∀ v, set = some v → data = some v)
    (ha : assign (required some) cur set = some a) (hb : assign (required some) cur data = some b) :
    a = b ↔ Held set data (some cur) := by
  have hcol : ∀ (v : Option Bool) (x : Bool), required some v = some x → v = some x := by
    intro v x hx
    cases v <;> exact hx
  exact same_iff_held hread hcol rfl ha hb

theorem template_same_iff (hc : c.Stored db) (hread : ReadAlike sets data)
    (hg : Updated db c sets g) (hp : Updated db c data p) :
    g.normalizationTemplateId = p.normalizationTemplateId
      ↔ Held sets.normalizationTemplateId data.normalizationTemplateId
          (c.normalizationTemplateId.map Int.ofNat) := by
  refine @same_iff_held _ _ _ _ _ _ _ _ (Option.map Int.ofNat) hread.normalizationTemplateId ?_
    hc.normalizationTemplateId hg.normalizationTemplateId hp.normalizationTemplateId
  intro v x hx
  cases v with
  | none =>
      rw [← Option.some.inj hx]
      rfl
  | some n =>
      obtain ⟨k, hk, rfl⟩ := Option.map_eq_some_iff.mp hx
      rw [foreignKey_some hk]
      rfl

theorem media_same_iff (hc : c.Stored db) (hread : ReadAlike sets data)
    (hg : Updated db c sets g) (hp : Updated db c data p) :
    g.maxMediaSizeBytes = p.maxMediaSizeBytes
      ↔ Held sets.maxMediaSizeBytes data.maxMediaSizeBytes (some c.maxMediaSizeBytes) := by
  refine @same_iff_held _ _ _ _ _ _ _ _ some hread.maxMediaSizeBytes ?_ hc.maxMediaSizeBytes
    hg.maxMediaSizeBytes hp.maxMediaSizeBytes
  intro v x hx
  cases v with
  | none => exact absurd hx (by simp [required])
  | some n => rw [bigintCol_some hx]

/-- The rows are the same exactly if nothing was lost and the tags are the same. -/
theorem rows_same_iff (hc : c.Stored db) (hread : ReadAlike sets data)
    (hg : Updated db c sets g) (hp : Updated db c data p) :
    g = p ↔ SkippedHeld c sets data ∧ g.defaultTagIds = p.defaultTagIds := by
  have hingestion := bool_same_iff hread.ingestionEnabled hg.ingestionEnabled hp.ingestionEnabled
  have hai := bool_same_iff hread.aiEnabled hg.aiEnabled hp.aiEnabled
  have hwatermark := bool_same_iff hread.watermarkEnabled hg.watermarkEnabled hp.watermarkEnabled
  have hstrip := bool_same_iff hread.stripSourceTags hg.stripSourceTags hp.stripSourceTags
  have htemplate := template_same_iff hc hread hg hp
  have hmedia := media_same_iff hc hread hg hp
  constructor
  · rintro rfl
    exact ⟨⟨hingestion.mp rfl, htemplate.mp rfl, hmedia.mp rfl, hai.mp rfl, hwatermark.mp rfl,
      hstrip.mp rfl⟩, rfl⟩
  · rintro ⟨hheld, htags⟩
    -- the other columns come out the same anyway
    have hid : g.id = p.id := hg.id.trans hp.id.symm
    have htg : g.telegramChannelId = p.telegramChannelId :=
      hg.telegramChannelId.trans hp.telegramChannelId.symm
    have htitle := same_of_eq hread.title hg.title hp.title
    have husername := same_of_eq hread.username hg.username hp.username
    have hpolicy := same_of_eq hread.policy hg.policy hp.policy
    have hlabel := same_of_eq hread.sourceLabel hg.sourceLabel hp.sourceLabel
    have hmode := same_of_eq hread.aiMode hg.aiMode hp.aiMode
    have hlang := same_of_eq hread.aiTargetLanguage hg.aiTargetLanguage hp.aiTargetLanguage
    have htone := same_of_eq hread.aiTonePrompt hg.aiTonePrompt hp.aiTonePrompt
    have hprompt :=
      same_of_eq hread.aiCustomSystemPrompt hg.aiCustomSystemPrompt hp.aiCustomSystemPrompt
    have htext := same_of_eq hread.watermarkText hg.watermarkText hp.watermarkText
    have hing := hingestion.mpr hheld.ingestionEnabled
    have htmpl := htemplate.mpr hheld.normalizationTemplateId
    have hmed := hmedia.mpr hheld.maxMediaSizeBytes
    have haie := hai.mpr hheld.aiEnabled
    have hwm := hwatermark.mpr hheld.watermarkEnabled
    have hstr := hstrip.mpr hheld.stripSourceTags
    cases g
    cases p
    simp only [SourceChannel.mk.injEq]
    exact ⟨hid, htg, htitle, husername, hing, hpolicy, htags, htmpl, hmed, hlabel, haie, hmode,
      hlang, htone, hprompt, hwm, htext, hstr⟩

/-- The tags of the row and its links are left the same by the two transactions exactly if
`null` had nothing to clear. -/
theorem tags_same_iff {db₁ db₂ : Db} (hg : Updated db c sets g) (hp : Updated db c data p)
    (hl₁ : ∀ k, db₁.sourceChannelTags.get k
      = match sets.defaultTagIds.join with
        | none => db.sourceChannelTags.get k
        | some ids => linksSet db c.id ids k)
    (hl₂ : ∀ k, db₂.sourceChannelTags.get k
      = match data.defaultTagIds.join with
        | none => db.sourceChannelTags.get k
        | some ids => linksSet db c.id ids k)
    (hids : sets.defaultTagIds = data.defaultTagIds.map (fun ids => some (ids.getD []))) :
    (g.defaultTagIds = p.defaultTagIds
        ∧ ∀ k, db₁.sourceChannelTags.get k = db₂.sourceChannelTags.get k)
      ↔ (data.defaultTagIds = some none → NoTags db c) := by
  have hgt := hg.defaultTagIds
  have hpt := hp.defaultTagIds
  -- short of `null`, the two read the same tags
  have hsame : sets.defaultTagIds = data.defaultTagIds → g.defaultTagIds = p.defaultTagIds
      ∧ ∀ k, db₁.sourceChannelTags.get k = db₂.sourceChannelTags.get k := by
    intro he
    rw [he] at hgt hl₁
    refine ⟨Option.some.inj (hgt.symm.trans hpt), ?_⟩
    intro k
    rw [hl₁, hl₂]
  match hd : data.defaultTagIds with
  | none =>
      exact iff_of_true (hsame (by rw [hids, hd]; rfl)) (fun h => absurd h (by simp))
  | some (some ids) =>
      exact iff_of_true (hsame (by rw [hids, hd]; rfl)) (fun h => absurd h (by simp))
  | some none =>
      rw [hd] at hids hpt hl₂
      rw [hids] at hgt hl₁
      have hnil : [] = g.defaultTagIds := Option.some.inj hgt
      rw [← hnil]
      constructor
      · rintro ⟨htags, hlinks⟩ _
        refine ⟨(Option.some.inj hpt).trans htags.symm, ?_⟩
        intro tag
        have h := hlinks (c.id, tag)
        rw [hl₁, hl₂] at h
        simpa [linksSet] using h.symm
      · intro hno
        obtain ⟨htags, hlinks⟩ := hno rfl
        refine ⟨htags.symm.trans (Option.some.inj hpt), ?_⟩
        intro k
        rw [hl₁, hl₂]
        simp only [Option.map_some, Option.getD_none, Option.join_some, linksSet, List.map_nil]
        by_cases hk : k.1 = c.id
        · rw [if_pos hk, if_neg (by simp), show k = (c.id, k.2) from Prod.ext hk rfl]
          exact (hlinks k.2).symm
        · rw [if_neg hk]

end Agree

/-! ## What the handlers answer -/

section Handlers

variable {P : Pydantic} {db : Db} {id : Nat} {c : SourceChannel} {body : Fields}
  {data : ChannelPatch}

/-- An empty patch is accepted, and leaves everything as it is. -/
theorem patched_empty (hrow : db.channels.get c.id = some c) :
    ({} : ChannelPatch).Accepted db ∧ Patched db c {} db := by
  obtain ⟨db', hdb'⟩ : ∃ db', db.patchChannel c {} = .ok db' := ⟨_, rfl⟩
  obtain ⟨hacc, -⟩ := patchChannel_ok hrow hdb'
  refine ⟨hacc, ⟨c, apply_iff.mp rfl, ?_⟩, fun _ => rfl, rfl, rfl⟩
  intro id
  by_cases h : id = c.id
  · rw [if_pos h, h, hrow]
  · rw [if_neg h]

/-- **Go** patches the row, or answers with an error and leaves the tables alone. -/
theorem go_update_cases (hrow : db.channels.get id = some c) :
    (GoAccepts db body ∧ ∃ db', handleUpdateChannel db id (some (.obj body)) = (db', ⟨200, none⟩)
        ∧ Patched db c body.channelSets db')
      ∨ (¬ GoAccepts db body
        ∧ ∃ a, handleUpdateChannel db id (some (.obj body)) = (db, a) ∧ 400 ≤ a.status) := by
  obtain rfl : c.id = id := Table.key_of_get hrow
  simp only [handleUpdateChannel, hrow, decodePatchBody]
  cases hbad : body.badTagIds with
  | true =>
      right
      refine ⟨fun h => absurd (hbad.symm.trans h.1) (by simp), _, rfl, by decide⟩
  | false =>
      by_cases hempty : body.channelSets = {}
      · left
        rw [if_neg (by simp), if_pos hempty]
        obtain ⟨hacc, hpatched⟩ := patched_empty hrow
        exact ⟨⟨hbad, by rw [hempty]; exact hacc⟩, db, rfl, by rw [hempty]; exact hpatched⟩
      · rw [if_neg (by simp), if_neg hempty]
        rcases settle_patch hrow with ⟨hacc, h⟩ | ⟨hno, h⟩
        · exact .inl ⟨⟨hbad, hacc⟩, h⟩
        · exact .inr ⟨fun hacc => hno hacc.2, h⟩

/-- **Python** does so too, for what it accepts. -/
theorem python_update_cases (hrow : db.channels.get id = some c) (hc : c.Stored db)
    (hdata : body.channelUpdate P = some data) :
    (data.Accepted db ∧ ∃ db', updateChannel P db id (.obj body) = (db', ⟨200, none⟩)
        ∧ Patched db c data db')
      ∨ (¬ data.Accepted db
        ∧ ∃ a, updateChannel P db id (.obj body) = (db, a) ∧ 400 ≤ a.status) := by
  obtain rfl : c.id = id := Table.key_of_get hrow
  simp only [updateChannel, Pydantic.sourceChannelUpdate, hdata, hrow, patchChannel_changed hc]
  exact settle_patch hrow

end Handlers

/--
**The two updates have the same outcome exactly if the services agree on the body**, for
every channel, every table of tags and every valid body.

Each update either fails or leaves a patched row and its links (`go_update_cases`,
`python_update_cases`). If one fails and the other does not, both sides are false; if both go
through, the rows and the links are compared.
-/
theorem channel_patch_agree_iff {P : Pydantic} {db : Db} {id : Nat} {c : SourceChannel}
    {body : Fields} {data : ChannelPatch} (hrow : db.channels.get id = some c)
    (hc : c.Stored db) (hvalid : P.sourceChannelUpdate (.obj body) = some data) :
    SameOutcome db id (handleUpdateChannel db id (some (.obj body)))
        (updateChannel P db id (.obj body))
      ↔ PatchesAgree db c body data := by
  obtain rfl : c.id = id := Table.key_of_get hrow
  obtain ⟨hread, hids⟩ := read_alike hvalid
  rcases @go_update_cases db _ c body hrow with ⟨hgo, db₁, hg, hpg⟩ | ⟨hgo, a, hg, ha⟩
  · rcases python_update_cases hrow hc hvalid with ⟨hpy, db₂, hp, hpp⟩ | ⟨hpy, b, hp, hb⟩
    -- both go through: rows and links are compared
    · obtain ⟨g, hgrow, hgget⟩ := hpg.row
      obtain ⟨p, hprow, hpget⟩ := hpp.row
      have hrows := rows_same_iff hc hread hgrow hprow
      have htags := tags_same_iff hgrow hprow hpg.links hpp.links (hids hgo.1)
      have hsame : SameOutcome db c.id (db₁, ⟨200, none⟩) (db₂, ⟨200, none⟩)
          ↔ g = p ∧ ∀ k, db₁.sourceChannelTags.get k = db₂.sourceChannelTags.get k := by
        simp [SameOutcome, Failed, hgget, hpget]
      rw [hg, hp, hsame, hrows, and_assoc, htags]
      simp [PatchesAgree, hgo, hpy]
    · rw [hg, hp]
      -- one has patched the row and the other has answered with an error
      refine iff_of_false ?_ ?_
      · rintro (⟨h, -⟩ | ⟨-, h, -⟩)
        · exact absurd h.2 (by simp)
        · exact absurd hb (Nat.not_le.mpr h)
      · rintro (h | h)
        · exact h.1 hgo
        · exact hpy h.2.1
  · rcases python_update_cases hrow hc hvalid with ⟨hpy, db₂, hp, hpp⟩ | ⟨hpy, b, hp, hb⟩
    · rw [hg, hp]
      -- the same with the services exchanged
      refine iff_of_false ?_ ?_
      · rintro (⟨-, h⟩ | ⟨h, -⟩)
        · exact absurd h.2 (by simp)
        · exact absurd ha (Nat.not_le.mpr h)
      · rintro (h | h)
        · exact h.2 hpy
        · exact hgo h.1
    · rw [hg, hp]
      exact iff_of_true (.inl ⟨⟨rfl, ha⟩, ⟨rfl, hb⟩⟩) (.inl ⟨hgo, hpy⟩)

/-- A channel with one tag. -/
def taggedChannel : SourceChannel where
  id := 1
  telegramChannelId := 7
  title := "news".toList
  defaultTagIds := [3]

def taggedChannelDb : Db where
  channels := Table.empty.insert taggedChannel
  tags := Table.empty.insert { id := 3, label := [] }
  sourceChannelTags := Table.empty.insert ⟨1, 3⟩

theorem taggedChannel_stored : taggedChannel.Stored taggedChannelDb := by
  constructor <;> decide

/-- On a new title and new tags they agree. -/
theorem retitle_agrees :
    SameOutcome taggedChannelDb 1
      (handleUpdateChannel taggedChannelDb 1
        (some (.obj [("title".toList, .str "press".toList),
          ("default_tag_ids".toList, .arr [.int 3])])))
      (updateChannel Pydantic.strict taggedChannelDb 1
        (.obj [("title".toList, .str "press".toList),
          ("default_tag_ids".toList, .arr [.int 3])])) := by
  have hrow : taggedChannelDb.channels.get 1 = some taggedChannel := rfl
  have hvalid : Pydantic.strict.sourceChannelUpdate
      (.obj [("title".toList, .str "press".toList), ("default_tag_ids".toList, .arr [.int 3])])
        = some { title := some (some "press".toList), defaultTagIds := some (some [3]) } := rfl
  have hgo : ∃ db', taggedChannelDb.patchChannel taggedChannel
      { title := some (some "press".toList), defaultTagIds := some (some [3]) } = .ok db' :=
    ⟨_, rfl⟩
  obtain ⟨db', hok⟩ := hgo
  have hacc := (patchChannel_ok hrow hok).1
  refine (channel_patch_agree_iff hrow taggedChannel_stored hvalid).mpr
    (.inr ⟨⟨rfl, hacc⟩, hacc, ?_, ?_⟩)
  · constructor <;> exact fun _ => .inl rfl
  · intro h
    exact absurd h (by decide)

/-- `{"default_tag_ids": null}` clears the tags in one service and is ignored by the other. -/
theorem null_tags_disagree :
    ¬ ∀ (P : Pydantic) (db : Db) (id : Nat) (c : SourceChannel) (body : Json),
      db.channels.get id = some c → c.Stored db → P.sourceChannelUpdate body ≠ none →
        SameOutcome db id (handleUpdateChannel db id (some body)) (updateChannel P db id body) := by
  intro hall
  have hvalid : Pydantic.strict.sourceChannelUpdate (.obj [("default_tag_ids".toList, .null)])
      = some { defaultTagIds := some none } := rfl
  have h := hall Pydantic.strict taggedChannelDb 1 taggedChannel
    (.obj [("default_tag_ids".toList, .null)]) rfl taggedChannel_stored (by rw [hvalid]; simp)
  rcases h with ⟨⟨-, h⟩, -⟩ | ⟨-, -, hrow, -⟩
  · exact absurd h (by decide)
  · exact absurd hrow (by decide)

end TelegramCms
