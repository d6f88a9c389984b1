import TelegramCms.Lib.PyStr
import TelegramCms.Lib.Words

/-!
# Files of assignments

A file such as `.env` has an assignment, a comment or nothing on each of its lines, and of
several assignments to one name the last counts. Programs differ in what they make of quotes
and blanks; a `Reader` is any that agrees with the others on plain values and reads each line
by itself. It expands no `${NAME}` and no value of its goes over several lines, so a program
that does such things is a `Reader` only on files that give it no occasion to.
-/

namespace EnvFile

/-- What may be the name of a variable. -/
@[ext]
structure Name where
  text : Text
  ne_nil : text ≠ []
  chars : ∀ c ∈ text, c.isAlphanum ∨ c = '_'

instance : DecidableEq Name := fun _ _ => decidable_of_iff _ Name.ext_iff.symm

/-- A text that stays on its line. -/
structure OneLine where
  text : Text
  no_break : '\n' ∉ text

/-- No reader makes anything special of these characters. -/
def plainChars : Text := "-_.,:/@+".toList

def Plain (s : Text) : Prop := ∀ c ∈ s, c.isAlphanum ∨ c ∈ plainChars

instance (s : Text) : Decidable (Plain s) :=
  List.decidableBAll (fun c : Char => c.isAlphanum ∨ c ∈ plainChars) s

theorem Plain.notMem {s : Text} {c : Char} (h : Plain s)
    (hc : c.isAlphanum = false ∧ c ∉ plainChars) : c ∉ s := by
  intro hs
  rcases h c hs with ha | ha
  · rw [hc.1] at ha
    cases ha
  · exact hc.2 ha

theorem Plain.no_break {s : Text} (h : Plain s) : '\n' ∉ s := h.notMem (by decide)

theorem Plain.append {s t : Text} (hs : Plain s) (ht : Plain t) : Plain (s ++ t) := fun c hc =>
  (List.mem_append.mp hc).elim (hs c) (ht c)

/-- What a line assigns, to a program that reads the file line by line: the value is that of the
line, whatever else the file holds. -/
structure Reader where
  entry : Text → Option (Text × Text)
  blank : entry [] = none
  comment : ∀ s, entry ('#' :: s) = none
  key : ∀ (n : Name) (v : Text) (x : Text × Text), entry (n.text ++ '=' :: v) = some x → x.1 = n.text
  plain : ∀ (n : Name) (v : Text), Plain v → entry (n.text ++ '=' :: v) = some (n.text, v)

def lines (file : Text) : List Text := file.splitOn '\n'

/-- The value that the last assignment to the name gives it. -/
def last (entries : List (Text × Text)) (name : Text) : Option Text :=
  (entries.reverse.find? (fun x => x.1 = name)).map Prod.snd

def Reader.read (r : Reader) (file : Text) : List (Text × Text) := (lines file).filterMap r.entry

def Reader.value (r : Reader) (file : Text) (name : Text) : Option Text := last (r.read file) name

/-! ## Writing -/

inductive Line where
  | blank
  | comment (text : OneLine)
  | set (name : Name) (value : Text)

def Line.text : Line → Text
  | .blank => []
  | .comment t => '#' :: t.text
  | .set n v => n.text ++ '=' :: v

/-- The value has no line break in it. -/
def Line.Single : Line → Prop
  | .set _ v => '\n' ∉ v
  | _ => True

def Line.name? : Line → Option Name
  | .set n _ => some n
  | _ => none

/-- The lines, each with its break. -/
def text (ls : List Line) : Text := ls.flatMap (fun l => l.text ++ ['\n'])

def names (ls : List Line) : List Name := ls.filterMap Line.name?

/-! ## The last assignment -/

section Last

variable {l m : List (Text × Text)} {n v : Text}

theorem last_append : last (l ++ m) n = (last m n).or (last l n) := by
  rw [last, last, last, List.reverse_append, List.find?_append]
  cases m.reverse.find? (fun x => x.1 = n) <;> rfl

theorem last_cons_self (h : last l n = none) : last ((n, v) :: l) n = some v := by
  rw [← List.singleton_append, last_append, h]
  simp [last]

theorem last_eq_none : last l n = none ↔ ∀ x ∈ l, x.1 ≠ n := by
  simp [last, List.find?_eq_none]

end Last

/-! ## What was written, read -/

theorem lines_append (s t : Text) : lines (s ++ '\n' :: t) = lines s ++ lines t :=
  List.splitOn_append_cons_self s t

theorem Name.notMem (n : Name) {c : Char} (h : c.isAlphanum = false ∧ c ≠ '_') : c ∉ n.text := by
  intro hc
  rcases n.chars c hc with ha | ha
  · rw [h.1] at ha
    cases ha
  · exact h.2 ha

theorem Line.no_break {l : Line} (hl : l.Single) : '\n' ∉ l.text := by
  cases l with
  | blank => exact List.not_mem_nil
  | comment t =>
    simp only [text, List.mem_cons, not_or]
    exact ⟨by decide, t.no_break⟩
  | set n v =>
    simp only [text, List.mem_append, List.mem_cons, not_or]
    exact ⟨n.notMem (by decide), by decide, hl⟩

theorem lines_text {ls : List Line} (h : ∀ l ∈ ls, l.Single) :
    lines (text ls) = ls.map Line.text ++ [[]] := by
  induction ls with
  | nil => rfl
  | cons l ls ih =>
    obtain ⟨hl, hls⟩ := List.forall_mem_cons.mp h
    have hcons : text (l :: ls) = l.text ++ '\n' :: text ls := by
      rw [text, List.flatMap_cons, List.append_assoc]
      rfl
    rw [hcons, lines_append, ih hls, lines, List.splitOn_eq_singleton (Line.no_break hl)]
    rfl

section Read

variable (r : Reader)

theorem Reader.read_text {ls : List Line} (h : ∀ l ∈ ls, l.Single) :
    r.read (text ls) = (ls.map Line.text).filterMap r.entry := by
  rw [read, lines_text h, List.filterMap_append, List.filterMap_cons_none r.blank, List.filterMap_nil,
    List.append_nil]

theorem Reader.read_append (file : Text) (ls : List Line) :
    r.read (file ++ '\n' :: text ls) = r.read file ++ r.read (text ls) := by
  rw [read, read, read, lines_append, List.filterMap_append]

theorem Line.entry {l : Line} {x : Text × Text} (h : r.entry l.text = some x) :
    ∃ n, l.name? = some n ∧ x.1 = n.text := by
  cases l with
  | blank =>
    rw [text, r.blank] at h
    cases h
  | comment t =>
    rw [text, r.comment] at h
    cases h
  | set n v => exact ⟨n, rfl, r.key n v x h⟩

/-- Lines that set no such name do not give it a value. -/
theorem Reader.last_eq_none {ls : List Line} {n : Name} (h : n ∉ names ls) :
    last ((ls.map Line.text).filterMap r.entry) n.text = none := by
  rw [EnvFile.last_eq_none]
  intro x hx hname
  obtain ⟨t, ht, hentry⟩ := List.mem_filterMap.mp hx
  obtain ⟨l, hl, rfl⟩ := List.mem_map.mp ht
  obtain ⟨n', hn', hkey⟩ := Line.entry r hentry
  obtain rfl : n' = n := Name.ext (hkey.symm.trans hname)
  exact h (List.mem_filterMap.mpr ⟨l, hl, hn'⟩)

/-- A name has the value that was written last, if it is plain. -/
theorem Reader.value_text {pre post : List Line} {n : Name} {v : Text}
    (hs : ∀ l ∈ pre ++ .set n v :: post, l.Single) (hv : Plain v) (h : n ∉ names post) :
    r.value (text (pre ++ .set n v :: post)) n.text = some v := by
  have hset : r.entry (Line.set n v).text = some (n.text, v) := r.plain n v hv
  rw [value, r.read_text hs, List.map_append, List.map_cons, List.filterMap_append,
    List.filterMap_cons_some hset, last_append, last_cons_self (r.last_eq_none h)]
  rfl

/-- The same where no name is written twice. -/
theorem Reader.value_of_mem {ls : List Line} {n : Name} {v : Text} (hs : ∀ l ∈ ls, l.Single)
    (hnd : (names ls).Nodup) (hv : Plain v) (h : .set n v ∈ ls) :
    r.value (text ls) n.text = some v := by
  obtain ⟨pre, post, rfl⟩ := List.append_of_mem h
  refine r.value_text hs hv ?_
  have hnames : names (pre ++ .set n v :: post) = names pre ++ n :: names post := by
    rw [names, List.filterMap_append]
    rfl
  rw [hnames] at hnd
  exact (List.nodup_cons.mp (List.nodup_append.mp hnd).2.1).1

/-- What is added at the end counts, -/
theorem Reader.value_append_self (file : Text) (pre : List Line) {n : Name} {v : Text}
    (hs : ∀ l ∈ pre ++ [.set n v], l.Single) (hv : Plain v) :
    r.value (file ++ '\n' :: text (pre ++ [.set n v])) n.text = some v := by
  have h := r.value_text hs hv (List.not_mem_nil (a := n))
  rw [value] at h ⊢
  rw [read_append, last_append, h]
  rfl

/-- and changes nothing else. -/
theorem Reader.value_append_of_notMem (file : Text) {ls : List Line} {n : Name}
    (hs : ∀ l ∈ ls, l.Single) (h : n ∉ names ls) :
    r.value (file ++ '\n' :: text ls) n.text = r.value file n.text := by
  rw [value, value, read_append, last_append, r.read_text hs, r.last_eq_none h]
  rfl

end Read

/-! ## Substitution -/

/-- `sed 's|^NAME=.*|NAME=value|'` on a line. -/
def substitute (n : Name) (v line : Text) : Text :=
  if n.text ++ ['='] <+: line then n.text ++ '=' :: v else line

/-- The same on every line. -/
def replace (n : Name) (v file : Text) : Text :=
  ['\n'].intercalate ((lines file).map (substitute n v))

section Replace

variable {n m : Name} {v file line : Text}

theorem no_break_of_mem_lines (h : line ∈ lines file) : '\n' ∉ line := by
  intro hb
  have hnot := Words.not_of_mem_splitOnP (p := fun c => c == '\n') h '\n' hb
  simp at hnot

theorem lines_ne_nil : lines file ≠ [] := by
  intro h
  have hfile : ['\n'].intercalate (lines file) = file := List.intercalate_splitOn '\n'
  rw [h] at hfile
  obtain rfl := hfile.symm
  simp [lines] at h

theorem lines_replace (hv : '\n' ∉ v) :
    lines (replace n v file) = (lines file).map (substitute n v) := by
  refine List.splitOn_intercalate '\n' (fun line hline => ?_) (by simp [lines_ne_nil])
  obtain ⟨l, hl, rfl⟩ := List.mem_map.mp hline
  rw [substitute]
  split
  · exact Line.no_break (l := .set n v) hv
  · exact no_break_of_mem_lines hl

theorem last_eq_getLast? (entries : List (Text × Text)) (name : Text) :
    last entries name
      = ((entries.filter (fun x => x.1 = name)).getLast?).map Prod.snd := by
  rw [last, ← List.head?_filter, List.filter_reverse, List.head?_reverse]

theorem eq_of_starts (h : n.text ++ ['='] <+: line) : ∃ t, line = n.text ++ '=' :: t := by
  obtain ⟨t, rfl⟩ := h
  exact ⟨t, List.append_assoc _ _ _⟩

variable (r : Reader)

/-- What the lines of the file assign to the name. -/
def Reader.assigned (n : Name) (file : Text) : List (Text × Text) :=
  (lines file).filterMap (fun l => (r.entry l).filter (fun x => x.1 = n.text))

theorem Reader.value_eq : r.value file n.text = ((r.assigned n file).getLast?).map Prod.snd := by
  rw [value, last_eq_getLast?, read, List.filter_filterMap, assigned]

/-- Every line that assigns to the name begins with it. -/
def Reader.Only (n : Name) (file : Text) : Prop :=
  ∀ l ∈ lines file, ∀ x, r.entry l = some x → x.1 = n.text → n.text ++ ['='] <+: l

/-- A replaced variable has its new value, -/
theorem Reader.value_replace_self (hv : Plain v) (honly : r.Only n file)
    (h : ∃ l ∈ lines file, n.text ++ ['='] <+: l) :
    r.value (replace n v file) n.text = some v := by
  have hset : r.entry (n.text ++ '=' :: v) = some (n.text, v) := r.plain n v hv
  have hall : ∀ x ∈ r.assigned n (replace n v file), x = (n.text, v) := by
    intro x hx
    rw [assigned, lines_replace hv.no_break] at hx
    obtain ⟨line, hline, hx⟩ := List.mem_filterMap.mp hx
    obtain ⟨l, hl, rfl⟩ := List.mem_map.mp hline
    obtain ⟨hx, hkey⟩ := Option.filter_eq_some_iff.mp hx
    have hkey : x.1 = n.text := of_decide_eq_true hkey
    rw [substitute] at hx
    split at hx
    · exact Option.some.inj (hx.symm.trans hset)
    · rename_i hnot
      exact absurd (honly l hl x hx hkey) hnot
  -- some line is replaced, so there is an assignment to read
  have hne : r.assigned n (replace n v file) ≠ [] := by
    obtain ⟨l, hl, hstarts⟩ := h
    have hmem : (n.text, v) ∈ r.assigned n (replace n v file) := by
      rw [assigned, lines_replace hv.no_break]
      refine List.mem_filterMap.mpr ⟨_, List.mem_map_of_mem hl, ?_⟩
      rw [substitute, if_pos hstarts, hset]
      exact Option.filter_eq_some_iff.mpr ⟨rfl, decide_eq_true rfl⟩
    exact List.ne_nil_of_mem hmem
  rw [value_eq, List.getLast?_eq_some_getLast hne, hall _ (List.getLast_mem hne)]
  rfl

/-- and the others keep theirs. -/
theorem Reader.value_replace_of_ne (hv : '\n' ∉ v) (h : m ≠ n) :
    r.value (replace n v file) m.text = r.value file m.text := by
  have hother : ∀ t, (r.entry (n.text ++ '=' :: t)).filter (fun x => x.1 = m.text) = none := by
    intro t
    refine Option.filter_eq_none_iff.mpr fun x hx hkey => h ?_
    exact Name.ext ((of_decide_eq_true hkey).symm.trans (r.key n t x hx))
  have hassigned : r.assigned m (replace n v file) = r.assigned m file := by
    rw [assigned, lines_replace hv, List.filterMap_map, assigned]
    refine List.filterMap_congr fun l _ => ?_
    simp only [Function.comp_apply, substitute]
    split
    · rename_i hstarts
      obtain ⟨t, rfl⟩ := eq_of_starts hstarts
      rw [hother, hother]
    · rfl
  rw [value_eq, value_eq, hassigned]

variable {r}

theorem Reader.Only.replace (hv : '\n' ∉ v) (h : r.Only n file) : r.Only n (replace n v file) := by
  intro line hline x hx hkey
  rw [lines_replace hv] at hline
  obtain ⟨l, hl, rfl⟩ := List.mem_map.mp hline
  rw [substitute] at hx ⊢
  split at hx
  · rename_i hstarts
    rw [if_pos hstarts]
    exact ⟨v, List.append_assoc _ _ _⟩
  · rename_i hnot
    exact absurd (h l hl x hx hkey) hnot

theorem Reader.only_text {ls : List Line} (hs : ∀ l ∈ ls, l.Single) : r.Only n (text ls) := by
  intro line hline x hx hkey
  rw [lines_text hs] at hline
  rcases List.mem_append.mp hline with hline | hline
  · obtain ⟨l, hl, rfl⟩ := List.mem_map.mp hline
    obtain ⟨n', hn', hkey'⟩ := Line.entry r hx
    obtain rfl : n' = n := Name.ext (hkey'.symm.trans hkey)
    cases l with
    | set n₀ v₀ =>
        obtain rfl : n₀ = n' := Option.some.inj hn'
        exact ⟨v₀, List.append_assoc _ _ _⟩
    | blank => cases hn'
    | comment t => cases hn'
  · rw [List.mem_singleton.mp hline, r.blank] at hx
    cases hx

theorem Reader.Only.append {ls : List Line} (hs : ∀ l ∈ ls, l.Single) (h : r.Only n file) :
    r.Only n (file ++ '\n' :: text ls) := by
  intro line hline
  rw [lines_append] at hline
  rcases List.mem_append.mp hline with hline | hline
  · exact h line hline
  · exact only_text hs line hline

end Replace

end EnvFile
