import TelegramCms.Model.BackOffice
import TelegramCms.Proof.Rows

/-!
# What deletions and decisions do to each other

Two laws of the back office, over every run of it.

* A decision that names no tags leaves them as they are. The Go handler writes back the
  `tag_ids` it loaded, so the law holds as long as these are still the ones in the row
  (`tags_kept_iff`). The Python handler never breaks it.
* Deleting a channel takes no active post with it. The count that guards the `DELETE` is
  a statement of its own, so the law holds as long as the count, taken again at the
  `DELETE`, is still zero (`active_posts_kept_iff`).
-/

namespace TelegramCms

open Transition Concurrent

variable {v : View} {r : Reply}

/-! ## The steps of the handlers -/

/-- A commit answered with success is the write it was about to make, if the row is there. -/
theorem commit_ok {Pc : Type} {id : Nat} {set : PostSet} {evs : List PostEvent}
    {seen : List Obs} {n : Db → Next Pc} {e : Effect Pc}
    (h : (Reply.ok).await v.raise
      (v.commit id set evs v.raise (fun db => { db := db, seen := seen, next := n db })) = some e) :
    (v.db.posts.get id = none ∧ e.db = v.db)
      ∨ ∃ row, v.db.posts.get id = some row ∧ e.db = v.db.write id set evs := by
  obtain rfl := Option.some.inj h
  rcases View.commit_cases with ⟨hno, hc⟩ | ⟨row, hrow, hc⟩
  · exact .inl ⟨hno, by rw [hc]; rfl⟩
  · exact .inr ⟨row, hrow, by rw [hc]⟩

/-- A decision writes at its commit, and nowhere else. -/
theorem decide_rows {req : DecisionRequest} {pc : DecidePc} {e : Effect DecidePc}
    (h : decideStep v req pc r = some e) :
    (e.db = v.db ∧ ∀ post now, pc = .commit post now → r = .ok → v.db.posts.get req.postId = none)
      ∨ ∃ post now row evs, pc = .commit post now ∧ r = .ok ∧ v.db.posts.get req.postId = some row
          ∧ e.db = v.db.write req.postId (decideSet req post) evs := by
  cases pc with
  | commit post now =>
      rcases Reply.await_cases h with ⟨rfl, -⟩ | ⟨ex, rfl, rfl⟩
      -- a post that was deleted since the load makes the commit raise
      · rcases commit_ok h with ⟨hno, hdb⟩ | ⟨row, hrow, hdb⟩
        · exact .inl ⟨hdb, fun _ _ _ _ => hno⟩
        · exact .inr ⟨post, now, row, _, rfl, rfl, hrow, hdb⟩
      · exact .inl ⟨rfl, fun _ _ _ hr => absurd hr (by simp)⟩
  | load =>
      left
      refine ⟨?_, fun _ _ hpc => absurd hpc (by simp)⟩
      rcases Reply.await_cases h with ⟨rfl, rfl⟩ | ⟨ex, rfl, rfl⟩
      · unfold decideLoad
        split
        · rfl
        · split
          · split <;> rfl
          · rfl
      · rfl
  | enqueue delay =>
      left
      refine ⟨?_, fun _ _ hpc => absurd hpc (by simp)⟩
      rcases Reply.await_cases h with ⟨rfl, rfl⟩ | ⟨ex, rfl, rfl⟩
      · rfl
      · rfl
  | refresh =>
      left
      refine ⟨?_, fun _ _ hpc => absurd hpc (by simp)⟩
      rcases Reply.await_cases h with ⟨rfl, rfl⟩ | ⟨ex, rfl, rfl⟩
      · rfl
      · rfl

/-- An edit of tags writes at its commit, and nowhere else. -/
theorem tags_rows {req : TagsRequest} {pc : TagsPc} {e : Effect TagsPc}
    (h : tagsStep v req pc r = some e) :
    (e.db = v.db ∧ ∀ post, pc = .commit post → r = .ok → v.db.posts.get req.postId = none)
      ∨ ∃ post row evs, pc = .commit post ∧ r = .ok ∧ v.db.posts.get req.postId = some row
          ∧ e.db = v.db.write req.postId (tagsSet req post) evs := by
  cases pc with
  | commit post =>
      rcases Reply.await_cases h with ⟨rfl, -⟩ | ⟨ex, rfl, rfl⟩
      · rcases commit_ok h with ⟨hno, hdb⟩ | ⟨row, hrow, hdb⟩
        · exact .inl ⟨hdb, fun _ _ _ => hno⟩
        · exact .inr ⟨post, row, _, rfl, rfl, hrow, hdb⟩
      · exact .inl ⟨rfl, fun _ _ hr => absurd hr (by simp)⟩
  | load =>
      left
      refine ⟨?_, fun _ hpc => absurd hpc (by simp)⟩
      rcases Reply.await_cases h with ⟨rfl, rfl⟩ | ⟨ex, rfl, rfl⟩
      · split <;> rfl
      · rfl

/-- A press writes at most the state. -/
theorem press_rows {b : Button} {u : Int} {p : Nat} {pc : CallbackPc} {e : Effect CallbackPc}
    (h : callbackStep v b u p pc r = some e) :
    e.db = v.db ∨ ∃ set evs row, set.tagIds = none ∧ v.db.posts.get p = some row
      ∧ e.db = v.db.write p set evs := by
  cases pc with
  | commit post =>
      rcases Reply.await_cases h with ⟨rfl, -⟩ | ⟨ex, rfl, rfl⟩
      · rcases commit_ok h with ⟨-, hdb⟩ | ⟨row, hrow, hdb⟩
        · exact .inl hdb
        · exact .inr ⟨_, _, row, changed_self _, hrow, hdb⟩
      · exact .inl rfl
  | load =>
      left
      rcases Reply.await_cases h with ⟨rfl, rfl⟩ | ⟨ex, rfl, rfl⟩
      · unfold callbackLoad
        split
        · rfl
        · split <;> rfl
      · rfl
  | answer =>
      left
      rcases Reply.await_cases h with ⟨rfl, rfl⟩ | ⟨ex, rfl, rfl⟩
      · cases b <;> rfl
      · rfl
  | enqueue post =>
      left
      rcases Reply.await_cases h with ⟨rfl, rfl⟩ | ⟨ex, rfl, rfl⟩
      · rfl
      · rfl
  | card =>
      left
      rcases Reply.await_cases h with ⟨rfl, rfl⟩ | ⟨ex, rfl, rfl⟩
      · rfl
      · split <;> rfl

/-! ## A decision without tags leaves them alone -/

/-- Every post has the tags that the requests which set tags left it. -/
def TagsOnRecord (o : Office) : Prop :=
  ∀ p row, o.db.posts.get p = some row → row.tagIds = o.tagsOnRecord p

theorem tagsOnRecord_iff {o : Office} :
    TagsOnRecord o ↔ ∀ row ∈ o.db.posts.rows, row.tagIds = o.tagsOnRecord row.id := by
  constructor
  · intro h row hrow
    exact h row.id row (Table.get_of_mem hrow)
  · intro h p row hrow
    obtain rfl : row.id = p := Table.key_of_get hrow
    exact h row (Table.mem_of_get hrow)

instance (o : Office) : Decidable (TagsOnRecord o) := decidable_of_iff _ tagsOnRecord_iff.symm

/-- The `UPDATE` of a Go decision without tags finds the `tag_ids` that it loaded. -/
def LoadedTagsHold (w : Pool Office Clerk) : Act OfficeRequest Answered → Prop
  | .move i a =>
    match w.party i with
    | some (.decide req (.commit post _)) =>
      req.api = .go → req.tagIds = none → a.reply = .ok →
        ∀ row, w.store.db.posts.get req.postId = some row → row.tagIds = post.tagIds
    | _ => True
  | _ => True

section Record

variable {o o' : Office}

theorem record_of_same (h : TagsOnRecord o) (hdb : o'.db.posts = o.db.posts)
    (hrec : ∀ p row, o.db.posts.get p = some row → o'.tagsOnRecord p = o.tagsOnRecord p) :
    TagsOnRecord o' := by
  intro p row hrow
  rw [hdb] at hrow
  rw [hrec p row hrow]
  exact h p row hrow

/-- After a write to one post, its tags and its record are what is left to compare. -/
theorem record_write_iff {q : Nat} {set : PostSet} {evs : List PostEvent} {row : Post}
    (h : TagsOnRecord o) (hrow : o.db.posts.get q = some row) (hdb : o'.db = o.db.write q set evs)
    (hrec : ∀ p, p ≠ q → o'.tagsOnRecord p = o.tagsOnRecord p) :
    TagsOnRecord o' ↔ set.tagIds.getD row.tagIds = o'.tagsOnRecord q := by
  have hself : o'.db.posts.get q = some (set.apply row) := by
    rw [hdb]; exact Db.write_row hrow
  constructor
  · intro h'
    exact h' q _ hself
  · intro heq p row' hrow'
    by_cases hp : p = q
    · subst hp
      rw [hself] at hrow'
      rw [← Option.some.inj hrow', PostSet.apply_tagIds]
      exact heq
    · rw [hdb, Db.write_row_ne hp] at hrow'
      rw [hrec p hp]
      exact h p row' hrow'

/-! What a request that sets tags leaves on record. -/

theorem afterDecide_ne {req : DecisionRequest} {pc : DecidePc} {p : Nat} (hp : p ≠ req.postId) :
    o.afterDecide req pc r p = o.tagsOnRecord p := by
  cases pc with
  | commit post now =>
      cases r with
      | ok => cases htags : req.tagIds <;> simp [Office.afterDecide, htags, hp]
      | _ => rfl
  | _ => rfl

theorem afterDecide_quiet {req : DecisionRequest} {pc : DecidePc}
    (h : ∀ post now, pc = .commit post now → r ≠ .ok) : o.afterDecide req pc r = o.tagsOnRecord := by
  cases pc with
  | commit post now =>
      cases r with
      | ok => exact absurd rfl (h post now rfl)
      | _ => rfl
  | _ => rfl

theorem afterDecide_commit {req : DecisionRequest} {post : Post} {now : Time} :
    o.afterDecide req (.commit post now) .ok req.postId
      = match req.tagIds with
        | none => o.tagsOnRecord req.postId
        | some _ => (decideSet req post).tagIds.getD (o.tagsOnRecord req.postId) := by
  cases htags : req.tagIds <;> simp [Office.afterDecide, htags]

theorem afterEdit_ne {req : TagsRequest} {pc : TagsPc} {p : Nat} (hp : p ≠ req.postId) :
    o.afterEdit req pc r p = o.tagsOnRecord p := by
  cases pc with
  | commit post =>
      cases r with
      | ok => simp [Office.afterEdit, hp]
      | _ => rfl
  | _ => rfl

theorem afterEdit_quiet {req : TagsRequest} {pc : TagsPc}
    (h : ∀ post, pc = .commit post → r ≠ .ok) : o.afterEdit req pc r = o.tagsOnRecord := by
  cases pc with
  | commit post =>
      cases r with
      | ok => exact absurd rfl (h post rfl)
      | _ => rfl
  | _ => rfl

theorem afterEdit_commit {req : TagsRequest} {post : Post} :
    o.afterEdit req (.commit post) .ok req.postId
      = (tagsSet req post).tagIds.getD (o.tagsOnRecord req.postId) := by
  simp [Office.afterEdit]

/-- The tags a decision leaves in a row. -/
theorem decideSet_tagIds {req : DecisionRequest} {post row : Post} (h : req.tagIds = none) :
    (decideSet req post).tagIds.getD row.tagIds = row.tagIds
      ↔ (req.api = .go → row.tagIds = post.tagIds) := by
  cases hapi : req.api with
  | python => simp [decideSet, hapi, h, flush]
  | go =>
      simp only [decideSet, hapi, h, Option.getD_some, Option.getD_none, forall_const]
      exact eq_comm

theorem decide_record {req : DecisionRequest} {pc : DecidePc} {a : Answered}
    {e : Effect DecidePc} (h : TagsOnRecord o)
    (he : decideStep ⟨a.at_, o.db, 0, true⟩ req pc a.reply = some e) :
    TagsOnRecord (o.take (.decide req) (o.afterDecide req pc a.reply) e).1
      ↔ ∀ post now, pc = .commit post now → req.api = .go → req.tagIds = none → a.reply = .ok →
          ∀ row, o.db.posts.get req.postId = some row → row.tagIds = post.tagIds := by
  rcases decide_rows he with ⟨hdb, hno⟩ | ⟨post, now, row, evs, rfl, hok, hrow, hdb⟩
  · refine iff_of_true ?_ ?_
    · refine record_of_same h (by rw [Office.take_db, hdb]) ?_
      intro p row hrow
      by_cases hp : p = req.postId
      · -- the row is there, so nothing was committed to it
        have hquiet : ∀ post now, pc = .commit post now → a.reply ≠ .ok := by
          intro post now hpc hr
          have hgone := hno post now hpc hr
          rw [hp] at hrow
          exact absurd (hgone.symm.trans hrow) (by simp)
        rw [Office.take_tagsOnRecord, afterDecide_quiet hquiet]
      · exact afterDecide_ne hp
    · intro post now hpc _ _ hr row hrow
      exact absurd ((hno post now hpc hr).symm.trans hrow) (by simp)
  · have hold : row.tagIds = o.tagsOnRecord req.postId := h _ _ hrow
    rw [hok]
    have hother : ∀ p, p ≠ req.postId →
        o.afterDecide req (.commit post now) .ok p = o.tagsOnRecord p :=
      fun p hp => afterDecide_ne hp
    refine (record_write_iff h hrow hdb hother).trans ?_
    rw [Office.take_tagsOnRecord, afterDecide_commit, ← hold]
    cases htags : req.tagIds with
    | some l => simp
    | none =>
        rw [decideSet_tagIds htags]
        constructor
        · intro hgo post' now' hpc hapi _ _ row' hrow'
          obtain ⟨rfl, -⟩ := DecidePc.commit.inj hpc
          rw [Option.some.inj (hrow'.symm.trans hrow)]
          exact hgo hapi
        · intro hall hapi
          exact hall post now rfl hapi rfl rfl row hrow

theorem edit_record {req : TagsRequest} {pc : TagsPc} {a : Answered} {e : Effect TagsPc}
    (h : TagsOnRecord o) (he : tagsStep ⟨a.at_, o.db, 0, true⟩ req pc a.reply = some e) :
    TagsOnRecord (o.take (.editTags req) (o.afterEdit req pc a.reply) e).1 := by
  rcases tags_rows he with ⟨hdb, hno⟩ | ⟨post, row, evs, rfl, hok, hrow, hdb⟩
  · refine record_of_same h (by rw [Office.take_db, hdb]) ?_
    intro p row hrow
    by_cases hp : p = req.postId
    · have hquiet : ∀ post, pc = .commit post → a.reply ≠ .ok := by
        intro post hpc hr
        have hgone := hno post hpc hr
        rw [hp] at hrow
        exact absurd (hgone.symm.trans hrow) (by simp)
      rw [Office.take_tagsOnRecord, afterEdit_quiet hquiet]
    · exact afterEdit_ne hp
  · have hold : row.tagIds = o.tagsOnRecord req.postId := h _ _ hrow
    rw [hok]
    have hother : ∀ p, p ≠ req.postId → o.afterEdit req (.commit post) .ok p = o.tagsOnRecord p :=
      fun p hp => afterEdit_ne hp
    refine (record_write_iff h hrow hdb hother).mpr ?_
    rw [Office.take_tagsOnRecord, afterEdit_commit, ← hold]

theorem press_record {b : Button} {u : Int} {p : Nat} {pc : CallbackPc} {a : Answered}
    {e : Effect CallbackPc} (h : TagsOnRecord o)
    (he : callbackStep ⟨a.at_, o.db, 0, true⟩ b u p pc a.reply = some e) :
    TagsOnRecord (o.take (.press b u p) o.tagsOnRecord e).1 := by
  rcases press_rows he with hdb | ⟨set, evs, row, hset, hrow, hdb⟩
  · exact record_of_same h (by rw [Office.take_db, hdb]) (fun _ _ _ => rfl)
  · refine (record_write_iff h hrow hdb ?_).mpr ?_
    · intro _ _; rfl
    · rw [hset]
      exact h _ _ hrow

theorem deleteTag_record {id : Nat} {pc : DeletePc} {reply : Reply} {x : Office × Option Clerk}
    (h : TagsOnRecord o) (he : o.stepDeleteTag id pc reply = some x) : TagsOnRecord x.1 := by
  unfold Office.stepDeleteTag at he
  split at he
  · split at he <;> (obtain rfl := Option.some.inj he; exact h)
  · obtain rfl := Option.some.inj he
    intro p row hrow
    simp only [Db.deleteTag, Table.get_mapRows, Option.map_eq_some_iff] at hrow
    obtain ⟨row₀, hrow₀, rfl⟩ := hrow
    rw [Post.removeTag_tagIds, h p row₀ hrow₀]
  · obtain rfl := Option.some.inj he; exact h
  · exact absurd he (by simp)

theorem deleteChannel_record {id : Nat} {pc : DeletePc} {reply : Reply}
    {x : Office × Option Clerk} (h : TagsOnRecord o)
    (he : o.stepDeleteChannel id pc reply = some x) : TagsOnRecord x.1 := by
  unfold Office.stepDeleteChannel at he
  split at he
  · split at he <;> (obtain rfl := Option.some.inj he; exact h)
  · split at he <;> (obtain rfl := Option.some.inj he; exact h)
  · obtain rfl := Option.some.inj he
    intro p row hrow
    simp only [Db.deleteChannel, Table.get_filter, Option.filter_eq_some_iff] at hrow
    exact h p row hrow.1
  · obtain rfl := Option.some.inj he; exact h
  · exact absurd he (by simp)

theorem arrive_record {now : Time} {id c m : Nat} {text : Option Text} (h : TagsOnRecord o) :
    TagsOnRecord (o.stepArrive now id c m text).1 := by
  unfold Office.stepArrive
  split
  · exact h
  · rename_i hfree
    have hno : o.db.posts.get id = none := by
      by_contra hc
      exact hfree (.inl hc)
    intro p row hrow
    by_cases hp : p = id
    · subst hp
      have hnew := Table.get_insert_self (r := ingestedPost now p c m text) hno
      rw [show (ingestedPost now p c m text).id = p from rfl] at hnew
      dsimp only at hrow
      rw [hnew] at hrow
      rw [← Option.some.inj hrow]
      dsimp only
      rw [if_pos rfl]
      rfl
    · dsimp only at hrow ⊢
      rw [Table.get_insert_ne (r := ingestedPost now id c m text) hp] at hrow
      rw [if_neg hp]
      exact h p row hrow

end Record

/-- One move keeps the tags on record exactly if it meets the condition. -/
theorem record_move_iff {w : Pool Office Clerk} {i : Nat} {a : Answered} {c : Clerk}
    {x : Office × Option Clerk} (h : TagsOnRecord w.store) (hp : w.party i = some c)
    (hx : w.store.next c a = some x) : TagsOnRecord x.1 ↔ LoadedTagsHold w (.move i a) := by
  rw [LoadedTagsHold, hp]
  cases c with
  | decide req pc =>
      obtain ⟨e, he, rfl⟩ := Option.map_eq_some_iff.mp hx
      -- a decision writes the tags only in its commit
      refine (decide_record h he).trans ?_
      cases pc with
      | commit post now =>
          constructor
          · intro hall; exact hall post now rfl
          · rintro hc post' now' hpc
            obtain ⟨rfl, -⟩ := DecidePc.commit.inj hpc
            exact hc
      | _ => simp
  | editTags req pc =>
      obtain ⟨e, he, rfl⟩ := Option.map_eq_some_iff.mp hx
      exact iff_of_true (edit_record h he) trivial
  | press b u p pc =>
      obtain ⟨e, he, rfl⟩ := Option.map_eq_some_iff.mp hx
      exact iff_of_true (press_record h he) trivial
  | deleteTag id pc => exact iff_of_true (deleteTag_record h hx) trivial
  | deleteChannel id pc => exact iff_of_true (deleteChannel_record h hx) trivial
  | arrive id c m text =>
      rw [← Option.some.inj hx]
      exact iff_of_true (arrive_record h) trivial

theorem record_of (db : Db) : TagsOnRecord (Office.of db) := by
  intro p row hrow
  have hget : db.posts.get p = some row := hrow
  simp only [Office.of, hget, Option.map_some, Option.getD_some]

/--
**Every post keeps the tags that the requests which set tags left it, in every state of
a run, exactly if each `UPDATE` of a Go decision without tags finds the `tag_ids` it
loaded.**

The store keeps the tags of each post on record as the requests set them. A decision without
tags writes back what it loaded and does not go on record, so row and record part at that
`UPDATE`, if at all (`record_move_iff`).
-/
theorem tags_kept_iff {db : Db} {w : Pool Office Clerk}
    {tr : List (Pool Office Clerk × Act OfficeRequest Answered)}
    (h : Trace officeProgram.step { store := Office.of db } tr w) :
    ((∀ x ∈ tr, TagsOnRecord x.1.store) ∧ TagsOnRecord w.store) ↔ AllSteps LoadedTagsHold tr := by
  refine Program.forall_store_iff ?_ ?_ ?_ h (record_of db)
  · intro _ _; trivial
  · intro _ _; trivial
  · intro w i a c x hw hp hx
    exact record_move_iff hw hp hx

/-- One post, tagged 1, of one channel. -/
def taggedDb : Db where
  posts := Table.empty.insert
    { id := 1, sourceChannelId := 1, sourceMessageId := 1, rawText := none, receivedAt := 0,
      tagIds := [1] }
  channels := Table.empty.insert { id := 1, telegramChannelId := 7, title := [] }
  tags := (Table.empty.insert { id := 1, label := [] }).insert { id := 2, label := [] }

def answers (i : Nat) : Act OfficeRequest Answered := .move i ⟨.ok, 0⟩

/-- An approve loads the post, an edit sets its tags to `[2]`, then the approve writes. -/
def approveDuringEdit : List (Act OfficeRequest Answered) :=
  [.start (.decide ⟨.go, 1, 1, .approve, none⟩), .start (.editTags ⟨.go, 1, 1, [2]⟩),
    answers 0, answers 1, answers 1, answers 0]

theorem approveDuringEdit_run :
    ∃ w, runs officeProgram.step { store := Office.of taggedDb } approveDuringEdit = some w
      ∧ (w.store.db.posts.get 1).map Post.tagIds = some [1] ∧ w.store.tagsOnRecord 1 = [2] := by
  refine ⟨_, rfl, ?_, ?_⟩ <;> decide

/-- The edit is reverted. -/
theorem edit_reverted :
    ¬ ∀ (db : Db) (tr : List (Pool Office Clerk × Act OfficeRequest Answered))
      (w : Pool Office Clerk), Trace officeProgram.step { store := Office.of db } tr w →
      TagsOnRecord w.store := by
  intro hall
  obtain ⟨w, hw, htags, hrec⟩ := approveDuringEdit_run
  obtain ⟨row, hrow, htags⟩ := Option.map_eq_some_iff.mp htags
  have hkept := hall _ _ w (Trace.of_runs hw) 1 row hrow
  rw [htags, hrec] at hkept
  exact absurd hkept (by decide)

/-- The edit loads first and writes last, with the whole approve in between. -/
def approveInsideEdit : List (Act OfficeRequest Answered) :=
  [.start (.decide ⟨.go, 1, 1, .approve, none⟩), .start (.editTags ⟨.go, 1, 1, [2]⟩),
    answers 1, answers 0, answers 0, answers 1]

/-- The loaded tags hold if the edit writes after the approve, and not if it writes while the
approve is under way. -/
theorem approveDuringEdit_overtaken :
    AllSteps LoadedTagsHold
        (trail officeProgram.step { store := Office.of taggedDb } approveInsideEdit)
      ∧ ¬ AllSteps LoadedTagsHold
        (trail officeProgram.step { store := Office.of taggedDb } approveDuringEdit) := by
  constructor
  · obtain ⟨w, hw, hend⟩ : ∃ w,
        runs officeProgram.step { store := Office.of taggedDb } approveInsideEdit = some w
          ∧ TagsOnRecord w.store := ⟨_, rfl, by decide⟩
    have hthrough : ∀ x ∈ trail officeProgram.step { store := Office.of taggedDb } approveInsideEdit,
        TagsOnRecord x.1.store := by decide
    exact (tags_kept_iff (Trace.of_runs hw)).mp ⟨hthrough, hend⟩
  · intro hsteps
    obtain ⟨w, hw, htags, hrec⟩ := approveDuringEdit_run
    obtain ⟨row, hrow, htags⟩ := Option.map_eq_some_iff.mp htags
    have hkept := ((tags_kept_iff (Trace.of_runs hw)).mpr hsteps).2 1 row hrow
    rw [htags, hrec] at hkept
    exact absurd hkept (by decide)

/-! ## A deleted channel takes no active post with it -/

/-- Every post that went with its channel was final. -/
def OnlyFinalRemoved (o : Office) : Prop := ∀ p ∈ o.removed, p.state.isTerminal = true

instance (o : Office) : Decidable (OnlyFinalRemoved o) :=
  inferInstanceAs (Decidable (∀ p ∈ o.removed, p.state.isTerminal = true))

/-- A `DELETE` of a channel finds no active post: its count would still be zero. -/
def CountStillZero (w : Pool Office Clerk) : Act OfficeRequest Answered → Prop
  | .move i a =>
    match w.party i with
    | some (.deleteChannel id .delete) => a.reply = .ok → w.store.db.activePosts id = 0
    | _ => True
  | _ => True

theorem activePosts_zero_iff {db : Db} {id : Nat} :
    db.activePosts id = 0 ↔ ∀ p ∈ db.postsOf id, p.state.isTerminal = true := by
  rw [Db.activePosts, List.countP_eq_zero]
  refine forall₂_congr fun p _ => ?_
  cases p.state.isTerminal <;> simp

/-- A step of any other handler removes nothing. -/
theorem removed_step {o : Office} {c : Clerk} {a : Answered} {x : Office × Option Clerk}
    (hx : o.next c a = some x) :
    x.1.removed = o.removed
      ∨ ∃ id, c = .deleteChannel id .delete ∧ a.reply = .ok
          ∧ x.1.removed = o.removed ++ o.db.postsOf id := by
  cases c with
  | decide req pc => obtain ⟨e, -, rfl⟩ := Option.map_eq_some_iff.mp hx; exact .inl rfl
  | editTags req pc => obtain ⟨e, -, rfl⟩ := Option.map_eq_some_iff.mp hx; exact .inl rfl
  | press b u p pc => obtain ⟨e, -, rfl⟩ := Option.map_eq_some_iff.mp hx; exact .inl rfl
  | deleteTag id pc =>
      left
      simp only [Office.next, Office.stepDeleteTag] at hx
      split at hx
      · split at hx <;> (obtain rfl := Option.some.inj hx; rfl)
      · obtain rfl := Option.some.inj hx; rfl
      · obtain rfl := Option.some.inj hx; rfl
      · exact absurd hx (by simp)
  | deleteChannel id pc =>
      simp only [Office.next, Office.stepDeleteChannel] at hx
      split at hx
      · left
        split at hx <;> (obtain rfl := Option.some.inj hx; rfl)
      · left
        split at hx <;> (obtain rfl := Option.some.inj hx; rfl)
      -- the `DELETE` is the third of the calls, and takes the posts along
      · rename_i hok
        obtain rfl := Option.some.inj hx
        exact .inr ⟨id, rfl, hok, rfl⟩
      · left; obtain rfl := Option.some.inj hx; rfl
      · exact absurd hx (by simp)
  | arrive id c m text =>
      left
      rw [← Option.some.inj hx, Office.stepArrive]
      split <;> rfl

theorem deleteChannel_step {o : Office} {id : Nat} {a : Answered} {x : Office × Option Clerk}
    (hx : o.next (.deleteChannel id .delete) a = some x) (hok : a.reply = .ok) :
    x.1.removed = o.removed ++ o.db.postsOf id := by
  rw [Office.next, hok] at hx
  rw [← Option.some.inj hx]

theorem removed_move_iff {w : Pool Office Clerk} {i : Nat} {a : Answered} {c : Clerk}
    {x : Office × Option Clerk} (h : OnlyFinalRemoved w.store) (hp : w.party i = some c)
    (hx : w.store.next c a = some x) : OnlyFinalRemoved x.1 ↔ CountStillZero w (.move i a) := by
  simp only [CountStillZero, hp]
  by_cases hdel : ∃ id, c = .deleteChannel id .delete ∧ a.reply = .ok
  · obtain ⟨id, rfl, hok⟩ := hdel
    simp only [OnlyFinalRemoved, deleteChannel_step hx hok, List.forall_mem_append, hok,
      forall_const, activePosts_zero_iff]
    exact and_iff_right h
  · have hkeep : x.1.removed = w.store.removed := by
      rcases removed_step hx with hrem | ⟨id, rfl, hok, -⟩
      · exact hrem
      · exact absurd ⟨id, rfl, hok⟩ hdel
    refine iff_of_true ?_ ?_
    · rw [OnlyFinalRemoved, hkeep]
      exact h
    · split
      · rename_i id hc
        intro hok
        exact absurd ⟨id, Option.some.inj hc, hok⟩ hdel
      · trivial

/--
**No active post is removed in a run exactly if every `DELETE` of a channel finds the
channel as its count found it: without active posts.**

The cascade removes all posts of the channel (`deleteChannel_step`), so what is lost is read off
the table at the `DELETE`; no other move removes a post.
-/
theorem active_posts_kept_iff {db : Db} {w : Pool Office Clerk}
    {tr : List (Pool Office Clerk × Act OfficeRequest Answered)}
    (h : Trace officeProgram.step { store := Office.of db } tr w) :
    ((∀ x ∈ tr, OnlyFinalRemoved x.1.store) ∧ OnlyFinalRemoved w.store)
      ↔ AllSteps CountStillZero tr := by
  refine Program.forall_store_iff ?_ ?_ ?_ h ?_
  · intro _ _; trivial
  · intro _ _; trivial
  · intro w i a c x hw hp hx
    exact removed_move_iff hw hp hx
  · intro p hp; exact absurd hp (by simp [Office.of])

/-- Two channels without posts. -/
def emptyChannelDb : Db where
  channels := (Table.empty.insert { id := 1, telegramChannelId := 7, title := [] }).insert
    { id := 2, telegramChannelId := 8, title := [] }

/-- A message arrives between the count and the `DELETE`. -/
def arrivalDuringDelete : List (Act OfficeRequest Answered) :=
  [.start (.deleteChannel 1), .start (.arrive 1 1 5 none), answers 0, answers 0, answers 1,
    answers 0]

theorem arrivalDuringDelete_run :
    ∃ w, runs officeProgram.step { store := Office.of emptyChannelDb } arrivalDuringDelete = some w
      ∧ ¬ OnlyFinalRemoved w.store := by
  refine ⟨_, rfl, ?_⟩
  decide

/-- The new post goes with the channel. -/
theorem active_post_removed :
    ¬ ∀ (db : Db) (tr : List (Pool Office Clerk × Act OfficeRequest Answered))
      (w : Pool Office Clerk), Trace officeProgram.step { store := Office.of db } tr w →
      OnlyFinalRemoved w.store := by
  intro hall
  obtain ⟨w, hw, hno⟩ := arrivalDuringDelete_run
  exact hno (hall _ _ w (Trace.of_runs hw))

/-- A message of another channel arrives there. -/
def arrivalElsewhere : List (Act OfficeRequest Answered) :=
  [.start (.deleteChannel 1), .start (.arrive 1 2 5 none), answers 0, answers 0, answers 1,
    answers 0]

/-- The count still holds at the `DELETE` unless the message is of the channel. -/
theorem arrivalDuringDelete_overtaken :
    AllSteps CountStillZero
        (trail officeProgram.step { store := Office.of emptyChannelDb } arrivalElsewhere)
      ∧ ¬ AllSteps CountStillZero
        (trail officeProgram.step { store := Office.of emptyChannelDb } arrivalDuringDelete) := by
  constructor
  · obtain ⟨w, hw, hend⟩ : ∃ w,
        runs officeProgram.step { store := Office.of emptyChannelDb } arrivalElsewhere = some w
          ∧ OnlyFinalRemoved w.store := ⟨_, rfl, by decide⟩
    have hthrough : ∀ x ∈ trail officeProgram.step { store := Office.of emptyChannelDb }
        arrivalElsewhere, OnlyFinalRemoved x.1.store := by decide
    exact (active_posts_kept_iff (Trace.of_runs hw)).mp ⟨hthrough, hend⟩
  · intro hsteps
    obtain ⟨w, hw, hno⟩ := arrivalDuringDelete_run
    exact hno ((active_posts_kept_iff (Trace.of_runs hw)).mpr hsteps).2

end TelegramCms
