import Mathlib.Tactic.Common

/-!
# Reading an `UPDATE` statement

A program often builds the text of an `UPDATE` piece by piece and hands the values over
beside it, as arguments that the text refers to by number. What such a statement does is
in neither of the two alone: `read` takes the text apart again, and `Update.bind` looks the
numbers up.

Only what such builders write is read: assignments of a parameter or of an expression
without blanks, commas and equals signs, and one comparison.
-/

namespace Sql

/-- The right-hand side of an assignment or comparison. -/
inductive Operand where
  | param (n : Nat)
  | expr (text : List Char)
deriving DecidableEq, Repr

/-- `column=operand`, after `SET` or after `WHERE`. -/
structure Assignment where
  column : List Char
  operand : Operand
deriving DecidableEq, Repr

/-- `UPDATE table SET sets WHERE key RETURNING …` -/
structure Update where
  table : List Char
  sets : List Assignment
  key : Assignment
deriving DecidableEq, Repr

inductive Keyword where
  | update | set | where_ | returning
deriving DecidableEq, Repr

def Keyword.text : Keyword → List Char
  | .update => "UPDATE".toList
  | .set => "SET".toList
  | .where_ => "WHERE".toList
  | .returning => "RETURNING".toList

/-! ## Reading -/

def operand : List Char → Operand
  | '$' :: ds =>
    if ds ≠ [] ∧ ds.all Char.isDigit then .param (Nat.ofDigitChars 10 ds 0) else .expr ('$' :: ds)
  | s => .expr s

def assignment (s : List Char) : Option Assignment :=
  match s.splitOn '=' with
  | [column, rhs] => some ⟨column, operand rhs⟩
  | _ => none

/-- The words of the statement are what stands between its blanks. -/
def read (q : List Char) : Option Update :=
  match q.splitOn ' ' with
  | update :: table :: set :: rest =>
    match rest.dropWhile (· ≠ Keyword.where_.text) with
    | _ :: key :: returning :: _ =>
      if update = Keyword.update.text ∧ set = Keyword.set.text
          ∧ returning = Keyword.returning.text then do
        let sets ← ((rest.takeWhile (· ≠ Keyword.where_.text)).flatten.splitOn ',').mapM assignment
        let key ← assignment key
        return ⟨table, sets, key⟩
      else none
    | _ => none
  | _ => none

/-! ## Binding -/

/-- What a column is assigned: an argument, or the value of an expression. -/
inductive Source (α : Type) where
  | arg (v : α)
  | expr (text : List Char)
deriving DecidableEq, Repr

/-- A statement with its arguments in place. -/
structure Bound (α : Type) where
  table : List Char
  sets : List (List Char × Source α)
  key : List Char × Source α
deriving DecidableEq, Repr

section Bind

variable {α : Type} (args : List α)

/-- Parameters are numbered from 1. -/
def Operand.bind : Operand → Option (Source α)
  | .param 0 => none
  | .param (n + 1) => args[n]?.map .arg
  | .expr text => some (.expr text)

def Assignment.bind (a : Assignment) : Option (List Char × Source α) :=
  (a.operand.bind args).map (fun v => (a.column, v))

/-- How many arguments the statement asks for. -/
def Operand.arity : Operand → Nat
  | .param n => n
  | .expr _ => 0

def Update.arity (u : Update) : Nat :=
  (u.sets.map (fun a => a.operand.arity)).foldr max u.key.operand.arity

/-- The number of arguments has to be the one the statement asks for. -/
def Update.bind (u : Update) : Option (Bound α) :=
  if args.length = u.arity then do
    let sets ← u.sets.mapM (Assignment.bind args)
    let key ← u.key.bind args
    return ⟨u.table, sets, key⟩
  else none

end Bind

/-! ## Writing -/

def Operand.text : Operand → List Char
  | .param n => '$' :: Nat.toDigits 10 n
  | .expr text => text

def Assignment.text (a : Assignment) : List Char := a.column ++ '=' :: a.operand.text

/-- `returning` is whatever follows the keyword. -/
def Update.text (u : Update) (returning : List Char) : List Char :=
  Keyword.update.text ++ ' ' :: (u.table ++ ' ' :: (Keyword.set.text ++ ' ' ::
    (", ".toList.intercalate (u.sets.map Assignment.text) ++ ' ' ::
      (Keyword.where_.text ++ ' ' :: (u.key.text ++ ' ' ::
        (Keyword.returning.text ++ ' ' :: returning))))))

/-- Nothing in a word is taken for a separator. -/
def Plain (s : List Char) : Prop := ∀ c ∈ s, c ≠ ' ' ∧ c ≠ ',' ∧ c ≠ '='

instance (s : List Char) : Decidable (Plain s) :=
  List.decidableBAll (fun c => c ≠ ' ' ∧ c ≠ ',' ∧ c ≠ '=') s

theorem Keyword.plain (k : Keyword) : Plain k.text := by
  cases k <;> decide

/-- An expression that is no parameter. -/
def Operand.Plain : Operand → Prop
  | .param _ => True
  | .expr text => Sql.Plain text ∧ text.head? ≠ some '$'

def Assignment.Plain (a : Assignment) : Prop := Sql.Plain a.column ∧ a.operand.Plain

theorem Plain.append {s t : List Char} (hs : Plain s) (ht : Plain t) : Plain (s ++ t) := by
  intro c hc
  rcases List.mem_append.mp hc with hc | hc
  · exact hs c hc
  · exact ht c hc

theorem Plain.not_mem {s : List Char} (h : Plain s) : ' ' ∉ s ∧ ',' ∉ s ∧ '=' ∉ s :=
  ⟨fun hc => (h _ hc).1 rfl, fun hc => (h _ hc).2.1 rfl, fun hc => (h _ hc).2.2 rfl⟩

theorem plain_toDigits (n : Nat) : Plain (Nat.toDigits 10 n) := by
  intro c hc
  have hdigit := Nat.isDigit_of_mem_toDigits (by decide) (by decide) hc
  refine ⟨?_, ?_, ?_⟩ <;> rintro rfl <;> exact absurd hdigit (by decide)

theorem Operand.Plain.text {o : Operand} (h : o.Plain) : Sql.Plain o.text := by
  cases o with
  | param n =>
      intro c hc
      rcases List.mem_cons.mp hc with rfl | hc
      · decide
      · exact plain_toDigits n c hc
  | expr text => exact h.1

/-! ## What is written is read back -/

theorem operand_text {o : Operand} (h : o.Plain) : operand o.text = o := by
  cases o with
  | param n =>
      have hne : Nat.toDigits 10 n ≠ [] := Nat.toDigits_ne_nil
      have hall : (Nat.toDigits 10 n).all Char.isDigit = true :=
        List.all_eq_true.mpr fun c hc => Nat.isDigit_of_mem_toDigits (by decide) (by decide) hc
      rw [Operand.text, operand, if_pos ⟨hne, hall⟩, Nat.ofDigitChars_ten_toDigits]
  | expr text =>
      cases text with
      | nil => rfl
      | cons c cs =>
          have hc : c ≠ '$' := by
            intro hc
            exact h.2 (by rw [hc]; rfl)
          unfold Operand.text operand
          split
          · rename_i hcons
            exact absurd (List.cons.inj hcons).1 hc
          · rfl

theorem assignment_text {a : Assignment} (h : a.Plain) : assignment a.text = some a := by
  have hcolumn := h.1.not_mem.2.2
  have hoperand := h.2.text.not_mem.2.2
  have hsplit : a.text.splitOn '=' = [a.column, a.operand.text] := by
    rw [Assignment.text, List.splitOn_append_cons_self_of_not_mem hcolumn,
      List.splitOn_eq_singleton hoperand]
  simp only [assignment, hsplit, operand_text h.2]

theorem mapM_assignment {as : List Assignment} (h : ∀ a ∈ as, a.Plain) :
    (as.map Assignment.text).mapM assignment = some as := by
  induction as with
  | nil => rfl
  | cons a as ih =>
      have ha := assignment_text (h a List.mem_cons_self)
      have has := ih fun b hb => h b (List.mem_cons_of_mem _ hb)
      simp [ha, has]

/-- An assignment is a word that holds an equals sign and no comma. -/
theorem text_not_mem {a : Assignment} (h : a.Plain) : ' ' ∉ a.text ∧ ',' ∉ a.text := by
  obtain ⟨hblank, hcomma, -⟩ := h.1.not_mem
  obtain ⟨hblank', hcomma', -⟩ := h.2.text.not_mem
  simp [Assignment.text, hblank, hcomma, hblank', hcomma']

/-- The words that a list of assignments comes to. -/
def listWords : List Assignment → List (List Char)
  | [] => []
  | [a] => [a.text]
  | a :: b :: as => (a.text ++ [',']) :: listWords (b :: as)

theorem splitOn_list {as : List Assignment} (hne : as ≠ []) (h : ∀ a ∈ as, a.Plain)
    (rest : List Char) :
    (", ".toList.intercalate (as.map Assignment.text) ++ ' ' :: rest).splitOn ' '
      = listWords as ++ rest.splitOn ' ' := by
  induction as with
  | nil => exact absurd rfl hne
  | cons a as ih =>
      have ha := (text_not_mem (h a List.mem_cons_self)).1
      cases as with
      | nil =>
          rw [List.map_cons, List.map_nil, List.intercalate_singleton, listWords,
            List.splitOn_append_cons_self_of_not_mem ha]
          rfl
      | cons b bs =>
          have hcut : ' ' ∉ a.text ++ [','] := by simp [ha]
          have htail := ih (List.cons_ne_nil b bs) fun x hx => h x (List.mem_cons_of_mem _ hx)
          have hassoc : ", ".toList.intercalate ((a :: b :: bs).map Assignment.text) ++ ' ' :: rest
              = (a.text ++ [',']) ++ ' ' ::
                (", ".toList.intercalate ((b :: bs).map Assignment.text) ++ ' ' :: rest) := by
            simp [List.intercalate_cons_cons]
          rw [hassoc, List.splitOn_append_cons_self_of_not_mem hcut, htail]
          rfl

theorem flatten_listWords {as : List Assignment} :
    (listWords as).flatten = [','].intercalate (as.map Assignment.text) := by
  induction as with
  | nil => rfl
  | cons a as ih =>
      cases as with
      | nil => simp [listWords]
      | cons b bs =>
          rw [listWords, List.flatten_cons, ih]
          simp [List.intercalate_cons_cons]

/-- No word of the list is the keyword that ends it. -/
theorem listWords_ne {as : List Assignment} : ∀ w ∈ listWords as, w ≠ Keyword.where_.text := by
  have hkey := (Keyword.plain .where_).not_mem.2.2
  induction as with
  | nil => simp [listWords]
  | cons a as ih =>
      have ha : '=' ∈ a.text := by simp [Assignment.text]
      intro w hw
      cases as with
      | nil =>
          rw [listWords, List.mem_singleton] at hw
          rw [hw]
          exact fun he => hkey (he ▸ ha)
      | cons b bs =>
          rcases List.mem_cons.mp hw with rfl | hw
          · exact fun he => hkey (he ▸ List.mem_append_left _ ha)
          · exact ih w hw

/-- **A statement that is written in plain words is read back.** -/
theorem read_text {u : Update} (htable : ' ' ∉ u.table) (hne : u.sets ≠ [])
    (hsets : ∀ a ∈ u.sets, a.Plain) (hkey : u.key.Plain) (returning : List Char) :
    read (u.text returning) = some u := by
  have hwords : (u.text returning).splitOn ' '
      = Keyword.update.text :: u.table :: Keyword.set.text ::
        (listWords u.sets ++ Keyword.where_.text :: u.key.text :: Keyword.returning.text ::
          returning.splitOn ' ') := by
    rw [Update.text, List.splitOn_append_cons_self_of_not_mem (Keyword.plain .update).not_mem.1,
      List.splitOn_append_cons_self_of_not_mem htable,
      List.splitOn_append_cons_self_of_not_mem (Keyword.plain .set).not_mem.1,
      splitOn_list hne hsets,
      List.splitOn_append_cons_self_of_not_mem (Keyword.plain .where_).not_mem.1,
      List.splitOn_append_cons_self_of_not_mem (text_not_mem hkey).1,
      List.splitOn_append_cons_self_of_not_mem (Keyword.plain .returning).not_mem.1]
  have htake : (listWords u.sets ++ Keyword.where_.text :: u.key.text :: Keyword.returning.text ::
      returning.splitOn ' ').takeWhile (· ≠ Keyword.where_.text) = listWords u.sets := by
    rw [List.takeWhile_append_of_pos (by simpa using listWords_ne)]
    simp
  have hdrop : (listWords u.sets ++ Keyword.where_.text :: u.key.text :: Keyword.returning.text ::
      returning.splitOn ' ').dropWhile (· ≠ Keyword.where_.text)
      = Keyword.where_.text :: u.key.text :: Keyword.returning.text :: returning.splitOn ' ' := by
    rw [List.dropWhile_append_of_pos (by simpa using listWords_ne)]
    simp
  have hcommas : (listWords u.sets).flatten.splitOn ',' = u.sets.map Assignment.text := by
    rw [flatten_listWords, List.splitOn_intercalate]
    · simp only [List.mem_map, forall_exists_index, and_imp, forall_apply_eq_imp_iff₂]
      exact fun a ha => (text_not_mem (hsets a ha)).2
    · simpa using hne
  simp only [read, hwords, htake, hdrop, hcommas, mapM_assignment hsets, assignment_text hkey]
  simp

end Sql
