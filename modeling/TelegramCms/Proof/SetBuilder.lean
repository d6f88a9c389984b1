import TelegramCms.Model.SetBuilder

/-!
# The placeholders of a `PATCH`

Raw assignments have no argument, so the n-th assignment of a statement is in general not
that of the n-th argument. What ties the two together is that an `add` numbers its
placeholder by the arguments there are, its own included: `numbered` says which number
each call gets, and `calls_sets` that this is the text the builder holds.
-/

namespace TelegramCms

open Sql (Assignment)

section Statement

variable {α : Type}

/-! ## What the builder holds -/

/-- The assignments that the calls add to a builder with `n` arguments. -/
def numbered (n : Nat) : List (SetCall α) → List Assignment
  | [] => []
  | .add col _ :: cs => ⟨col.text, .param (n + 1)⟩ :: numbered (n + 1) cs
  | .addRaw raw :: cs => ⟨raw.column.text, .expr raw.expr⟩ :: numbered n cs

/-- The arguments that the calls add. -/
def argsOf : List (SetCall α) → List α
  | [] => []
  | .add _ val :: cs => val :: argsOf cs
  | .addRaw _ :: cs => argsOf cs

/-- **The loop invariant.** -/
theorem foldl_call (cs : List (SetCall α)) (b : SetBuilder α) :
    (cs.foldl SetBuilder.call b).sets
        = b.sets ++ (numbered b.args.length cs).map Assignment.text
      ∧ (cs.foldl SetBuilder.call b).args = b.args ++ argsOf cs := by
  induction cs generalizing b with
  | nil => simp [numbered, argsOf]
  | cons c cs ih =>
      rw [List.foldl_cons]
      obtain ⟨hsets, hargs⟩ := ih (b.call c)
      rw [hsets, hargs]
      cases c with
      | add col val =>
          simp [SetBuilder.call, SetBuilder.add, numbered, argsOf, Assignment.text,
            Sql.Operand.text]
      | addRaw raw =>
          simp [SetBuilder.call, SetBuilder.addRaw, numbered, argsOf, Assignment.text,
            Sql.Operand.text, RawAssignment.text]

/-- Its fragments are the assignments, numbered in the order of the calls, -/
theorem calls_sets (cs : List (SetCall α)) :
    (SetBuilder.calls cs).sets = (numbered 0 cs).map Assignment.text := by
  rw [SetBuilder.calls, (foldl_call cs {}).1]
  rfl

/-- and its arguments those of the calls that have one. -/
theorem calls_args (cs : List (SetCall α)) : (SetBuilder.calls cs).args = argsOf cs := by
  rw [SetBuilder.calls, (foldl_call cs {}).2]
  rfl

/-! ## The text -/

/-- An identifier needs no quotes. -/
theorem Ident.plain (i : Ident) : Sql.Plain i.text := by
  intro c hc
  have hvalid := List.all_eq_true.mp i.valid c hc
  refine ⟨?_, ?_, ?_⟩ <;> rintro rfl <;> exact absurd hvalid (by decide)

theorem numbered_plain (cs : List (SetCall α)) (n : Nat) :
    ∀ a ∈ numbered n cs, a.Plain := by
  induction cs generalizing n with
  | nil => simp [numbered]
  | cons c cs ih =>
      intro a ha
      cases c with
      | add col val =>
          rcases List.mem_cons.mp ha with rfl | ha
          · exact ⟨col.plain, trivial⟩
          · exact ih (n + 1) a ha
      | addRaw raw =>
          rcases List.mem_cons.mp ha with rfl | ha
          · exact ⟨raw.column.plain, raw.plain, raw.no_param⟩
          · exact ih n a ha

theorem numbered_ne_nil {cs : List (SetCall α)} (h : cs ≠ []) (n : Nat) : numbered n cs ≠ [] := by
  cases cs with
  | nil => exact absurd rfl h
  | cons c cs => cases c <;> simp [numbered]

theorem id_plain : Sql.Plain "id".toList := by decide

theorem calls_empty (cs : List (SetCall α)) : (SetBuilder.calls cs).empty = true ↔ cs = [] := by
  rw [SetBuilder.empty, calls_sets, List.isEmpty_iff, List.map_eq_nil_iff]
  constructor
  · intro h
    by_contra hne
    exact numbered_ne_nil hne 0 h
  · rintro rfl
    rfl

/-- The statement that the calls come to. -/
def statement (table : Text) (cs : List (SetCall α)) : Sql.Update where
  table := table
  sets := numbered 0 cs
  key := ⟨"id".toList, .param ((argsOf cs).length + 1)⟩

/-- The pieces that the handlers join, cut at the blanks. -/
theorem join_pieces {update set whereId returning u s w i sets sets' digits digits' : Text}
    (hupdate : update = u ++ [' ']) (hset : set = ' ' :: (s ++ [' ']))
    (hwhere : whereId = ' ' :: (w ++ ' ' :: (i ++ ['=', '$']))) {r : Text}
    (hreturning : returning = ' ' :: (r ++ [' '])) (hsets : sets = sets')
    (hdigits : digits = digits') (table cols : Text) :
    update ++ table ++ set ++ sets ++ whereId ++ digits ++ returning ++ cols
      = u ++ ' ' :: (table ++ ' ' :: (s ++ ' ' :: (sets' ++ ' ' :: (w ++ ' ' ::
        ((i ++ '=' :: '$' :: digits') ++ ' ' :: (r ++ ' ' :: cols)))))) := by
  subst hupdate hset hwhere hreturning hsets hdigits
  simp

/-- **The text is that of a statement**, with the placeholder after the last for the key. -/
theorem update_text (table cols : Text) (cs : List (SetCall α)) (id : α) :
    ((SetBuilder.calls cs).update table cols id).1 = (statement table cs).text cols := by
  have hupdate : "UPDATE ".toList = Sql.Keyword.update.text ++ [' '] := rfl
  have hset : " SET ".toList = ' ' :: (Sql.Keyword.set.text ++ [' ']) := rfl
  have hwhere : " WHERE id=$".toList
      = ' ' :: (Sql.Keyword.where_.text ++ ' ' :: ("id".toList ++ ['=', '$'])) := rfl
  have hreturning : " RETURNING ".toList = ' ' :: (Sql.Keyword.returning.text ++ [' ']) := rfl
  have hclause : (SetBuilder.calls cs).clause
      = ", ".toList.intercalate ((numbered 0 cs).map Assignment.text) := by
    rw [SetBuilder.clause, calls_sets, Py.join]
  have hdigits : Nat.toDigits 10 ((SetBuilder.calls cs).args.length + 1)
      = Nat.toDigits 10 ((argsOf cs).length + 1) := by rw [calls_args]
  exact join_pieces hupdate hset hwhere hreturning hclause hdigits table cols

/-- And the id is the argument after the last. -/
theorem update_args (table cols : Text) (cs : List (SetCall α)) (id : α) :
    ((SetBuilder.calls cs).update table cols id).2 = argsOf cs ++ [id] :=
  congrArg (· ++ [id]) (calls_args cs)

/-! ## The arguments -/

/-- A call finds its argument under the number it was given. -/
theorem mapM_bind {args post : List α} (pre : List α) (cs : List (SetCall α))
    (h : args = pre ++ argsOf cs ++ post) :
    (numbered pre.length cs).mapM (Assignment.bind args) = some (cs.map SetCall.meaning) := by
  induction cs generalizing pre with
  | nil => rfl
  | cons c cs ih =>
      cases c with
      | add col val =>
          have hargs : args = (pre ++ [val]) ++ argsOf cs ++ post := by
            rw [h]
            simp [argsOf]
          have hval : args[pre.length]? = some val := by
            rw [hargs]
            simp
          have hrest := ih (pre ++ [val]) hargs
          rw [List.length_append, List.length_singleton] at hrest
          simp [numbered, Assignment.bind, Sql.Operand.bind, hval, hrest, SetCall.meaning]
      | addRaw raw =>
          have hrest := ih pre h
          simp [numbered, Assignment.bind, Sql.Operand.bind, hrest, SetCall.meaning]

theorem foldr_max_eq {ks : List Nat} {n : Nat} (h : ∀ k ∈ ks, k ≤ n) : ks.foldr max n = n := by
  induction ks with
  | nil => rfl
  | cons k ks ih =>
      rw [List.foldr_cons, ih fun j hj => h j (List.mem_cons_of_mem _ hj)]
      exact max_eq_right (h k List.mem_cons_self)

/-- No fragment asks for an argument that its calls have not brought. -/
theorem numbered_arity (cs : List (SetCall α)) (n : Nat) :
    ∀ a ∈ numbered n cs, a.operand.arity ≤ n + (argsOf cs).length := by
  induction cs generalizing n with
  | nil => simp [numbered]
  | cons c cs ih =>
      intro a ha
      cases c with
      | add col val =>
          rw [argsOf, List.length_cons]
          rcases List.mem_cons.mp ha with rfl | ha
          · simp only [Sql.Operand.arity]
            omega
          · have := ih (n + 1) a ha
            omega
      | addRaw raw =>
          rcases List.mem_cons.mp ha with rfl | ha
          · exact Nat.zero_le _
          · exact ih n a ha

/-- The statement asks for as many arguments as it gets: the id is the last one. -/
theorem statement_arity (table : Text) (cs : List (SetCall α)) :
    (statement table cs).arity = (argsOf cs).length + 1 := by
  have hle : ∀ k ∈ (numbered 0 cs).map (fun a => a.operand.arity), k ≤ (argsOf cs).length + 1 := by
    intro k hk
    obtain ⟨a, ha, rfl⟩ := List.mem_map.mp hk
    have := numbered_arity cs 0 a ha
    omega
  rw [Sql.Update.arity]
  exact foldr_max_eq hle

/--
**The statement assigns to each column what the call for it was given, and its key is the
appended id.**

By induction on the calls the builder has one argument for each placeholder and numbers them in
order (`update_text`, `update_args`). The text is then read back and bound to these arguments.
-/
theorem placeholders_match (table : Ident) (cols : Text) (cs : List (SetCall α)) (id : α)
    (hne : (SetBuilder.calls cs).empty = false) :
    ((Sql.read ((SetBuilder.calls cs).update table.text cols id).1).bind
        (fun u => u.bind ((SetBuilder.calls cs).update table.text cols id).2))
      = some ⟨table.text, cs.map SetCall.meaning, ("id".toList, .arg id)⟩ := by
  have hcs : cs ≠ [] := by
    intro h
    rw [(calls_empty cs).mpr h] at hne
    exact absurd hne (by simp)
  have hkey : (statement table.text cs).key.Plain := ⟨id_plain, trivial⟩
  have hread : Sql.read ((statement table.text cs).text cols) = some (statement table.text cs) :=
    Sql.read_text table.plain.not_mem.1 (numbered_ne_nil hcs 0) (numbered_plain cs 0) hkey cols
  have hsets : (numbered 0 cs).mapM (Assignment.bind (argsOf cs ++ [id]))
      = some (cs.map SetCall.meaning) := mapM_bind [] cs rfl
  have hid : (argsOf cs ++ [id])[(argsOf cs).length]? = some id := by simp
  rw [update_text, update_args, hread, Option.bind_some, Sql.Update.bind, statement_arity,
    if_pos (by simp)]
  simp only [statement, hsets, Assignment.bind, Sql.Operand.bind, hid]
  rfl

end Statement

/-- A role, `disabled_at=now()` and a Telegram id: three assignments, two arguments. -/
def sampleCalls : List (SetCall SqlValue) :=
  AdminRequest.calls
    ⟨.go, 3, { role := some .admin, disabled := some true, tgUserId := some (some 5) }⟩
    { id := 3, username := "maria".toList, passwordHash := "h".toList }

theorem placeholders_match_admin :
    ((Sql.read ((SetBuilder.calls sampleCalls).update (ident "admins").text "id".toList (.int 3)).1).bind
        (fun u => u.bind
          ((SetBuilder.calls sampleCalls).update (ident "admins").text "id".toList (.int 3)).2))
      = some ⟨(ident "admins").text, sampleCalls.map SetCall.meaning, ("id".toList, .arg (.int 3))⟩ :=
  placeholders_match (ident "admins") "id".toList sampleCalls (.int 3) rfl

/-! ## The handlers -/

/-- What a column is assigned, if it is. -/
def assigned {β : Type} (col : String) (value : β → SqlValue) (v : Option β) :
    List (Text × Sql.Source SqlValue) :=
  (v.map (fun v => (col.toList, .arg (value v)))).toList

/-- The columns that a patch assigns, in the order of the statement. -/
def ChannelPatch.assignments (p : ChannelPatch) : List (Text × Sql.Source SqlValue) :=
  assigned "title" .ofText p.title ++ assigned "username" .ofText p.username
    ++ assigned "ingestion_enabled" .ofBool p.ingestionEnabled
    ++ assigned "policy" .ofText p.policy
    ++ assigned "normalization_template_id" .ofInt p.normalizationTemplateId
    ++ assigned "max_media_size_bytes" .ofInt p.maxMediaSizeBytes
    ++ assigned "source_label" .ofText p.sourceLabel
    ++ assigned "ai_enabled" .ofBool p.aiEnabled ++ assigned "ai_mode" .ofText p.aiMode
    ++ assigned "ai_target_language" .ofText p.aiTargetLanguage
    ++ assigned "ai_tone_prompt" .ofText p.aiTonePrompt
    ++ assigned "ai_custom_system_prompt" .ofText p.aiCustomSystemPrompt
    ++ assigned "watermark_enabled" .ofBool p.watermarkEnabled
    ++ assigned "watermark_text" .ofText p.watermarkText
    ++ assigned "strip_source_tags" .ofBool p.stripSourceTags
    ++ assigned "default_tag_ids" .ofInts p.defaultTagIds

/-- A call that is made only if there is a value assigns what there is. -/
theorem toList_meaning {β : Type} (v : Option β) (col : Ident) (value : β → SqlValue) :
    ((v.map (fun v => SetCall.add col (value v))).toList).map SetCall.meaning
      = (v.map (fun v => (col.text, Sql.Source.arg (value v)))).toList := by
  cases v <;> rfl

/-- The statement of `handleUpdateChannel` assigns the columns of the patch that the model
applies to the row. -/
theorem channelCalls_meaning (body : Fields) :
    body.channelCalls.map SetCall.meaning = body.channelSets.assignments := by
  have hids : assigned "default_tag_ids" .ofInts body.channelSets.defaultTagIds
      = ((body.add Go.ints "default_tag_ids").map (fun ids =>
          ("default_tag_ids".toList, Sql.Source.arg (SqlValue.ints (ids.getD []))))).toList := by
    rw [Fields.channelSets, assigned, Option.map_map]
    rfl
  rw [ChannelPatch.assignments, hids]
  simp only [Fields.channelCalls, Fields.aiSettingsCalls, Fields.addStr, Fields.addBool,
    Fields.addInt, Fields.addField, List.map_append, toList_meaning, List.append_assoc]
  rfl

theorem assigned_eq_nil {β : Type} {col : String} {value : β → SqlValue} {v : Option β} :
    assigned col value v = [] ↔ v = none := by
  cases v <;> simp [assigned]

/-- `b.empty()` is the test of the model for an empty patch. -/
theorem channelCalls_empty (body : Fields) :
    (SetBuilder.calls body.channelCalls).empty = true ↔ body.channelSets = {} := by
  rw [calls_empty, ← List.map_eq_nil_iff (f := SetCall.meaning), channelCalls_meaning]
  generalize body.channelSets = p
  constructor
  · intro h
    simp only [ChannelPatch.assignments, List.append_eq_nil_iff, assigned_eq_nil] at h
    cases p
    simp_all
  · rintro rfl
    rfl

/-- What `handleUpdateTag` assigns, field by field. -/
theorem tagCalls_meaning (label color : Option Text) :
    (tagCalls label color).map SetCall.meaning
      = assigned "label" .text label ++ assigned "color" .text color := by
  rw [tagCalls, List.map_append, toList_meaning, toList_meaning]
  rfl

/-- What `handleUpdateTemplate` assigns. -/
theorem templateCalls_meaning (name body : Option Text) :
    (templateCalls name body).map SetCall.meaning
      = assigned "name" .text name ++ assigned "body" .text body := by
  rw [templateCalls, List.map_append, toList_meaning, toList_meaning]
  rfl

/-- An assignment carried out on a row of `admins`. -/
def Admin.assign (now : Time) (a : Admin) : Text × Sql.Source SqlValue → Option Admin
  | (col, .arg (.text s)) =>
    if col = "password_hash".toList then some { a with passwordHash := s }
    else if col = "role".toList then (Go.roleCol s).map (fun r => { a with role := r })
    else none
  | (col, .arg (.int n)) =>
    if col = "tg_user_id".toList then some { a with tgUserId := some n } else none
  | (col, .arg .null) =>
    if col = "tg_user_id".toList then some { a with tgUserId := none } else none
  | (col, .expr e) =>
    if col ≠ "disabled_at".toList then none
    else if e = "now()".toList then some { a with disabledAt := some now }
    else if e = "NULL".toList then some { a with disabledAt := none }
    else none
  | _ => none

section Admins

variable (now : Time) (a : Admin)

theorem assign_passwordHash (v : Option Text) :
    (((v.map (fun hash => SetCall.add (ident "password_hash") (SqlValue.text hash))).toList).map
        SetCall.meaning).foldlM (Admin.assign now) a
      = some { a with passwordHash := v.getD a.passwordHash } := by
  cases v <;> rfl

theorem assign_role (v : Option Role) :
    (((v.map (fun role => SetCall.add (ident "role") (SqlValue.text role.value))).toList).map
        SetCall.meaning).foldlM (Admin.assign now) a
      = some { a with role := v.getD a.role } := by
  cases v with
  | none => rfl
  | some role => cases role <;> rfl

theorem assign_disabledAt (v : Option Bool) :
    ((((v.map (fun d => SetCall.addRaw (if d then disabledAtNow else disabledAtNull))).toList :
        List (SetCall SqlValue))).map SetCall.meaning).foldlM (Admin.assign now) a
      = some { a with
          disabledAt := (v.map (fun d => if d then some now else none)).getD a.disabledAt } := by
  cases v with
  | none => rfl
  | some d => cases d <;> rfl

theorem assign_tgUserId (v : Option (Option Int)) :
    (((v.map (fun n => SetCall.add (ident "tg_user_id") (SqlValue.ofInt n))).toList).map
        SetCall.meaning).foldlM (Admin.assign now) a
      = some { a with tgUserId := v.getD a.tgUserId } := by
  cases v with
  | none => rfl
  | some n => cases n <;> rfl

/-- The `UPDATE` of `handleUpdateAdmin`, carried out assignment by assignment, leaves the row
that the model leaves. -/
theorem adminCalls_apply {req : AdminRequest} (hapi : req.api = .go) (adm : Admin) :
    ((req.calls adm).map SetCall.meaning).foldlM (Admin.assign now) a
      = some ((req.set adm now).apply a) := by
  rw [AdminRequest.calls, List.map_append, List.map_append, List.map_append, List.foldlM_append,
    List.foldlM_append, List.foldlM_append, assign_passwordHash]
  simp only [Option.bind_eq_bind, Option.bind_some, assign_role, assign_disabledAt, assign_tgUserId,
    AdminRequest.set, hapi, AdminSet.apply]

end Admins

end TelegramCms
