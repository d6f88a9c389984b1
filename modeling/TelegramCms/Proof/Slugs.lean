import TelegramCms.Lib.Words
import TelegramCms.Model.Endpoints
import TelegramCms.Model.Slugs

/-!
# Slugs, in Go and in Python

Both trim the dashes and then cut the slug at 64 characters, so that a cut right behind a
dash leaves it there. Between them they differ in one letter: `str.lower` makes two
characters of U+0130, the second of which no slug has, so that the slug breaks there.
-/

namespace TelegramCms

/-! ## The two as one pass -/

theorem slugRunes_eq_squeeze (prevDash : Bool) (s : Text) :
    Go.slugRunes prevDash s = Words.squeeze slugClass '-' prevDash s := by
  induction s generalizing prevDash with
  | nil => rfl
  | cons c s ih =>
    rw [Go.slugRunes, Words.squeeze, ih, ih]
    simp only [slugClass, decide_eq_true_eq]

/-- What follows a separator may as well be looked at from the next character that is kept. -/
theorem squeeze_dropWhile (s : Text) :
    Words.squeeze slugClass '-' true s
      = Words.squeeze slugClass '-' false (s.dropWhile (fun c => !slugClass c)) := by
  induction s with
  | nil => rfl
  | cons c s ih =>
    cases hc : slugClass c with
    | true =>
      rw [List.dropWhile_cons, if_neg (by simp [hc]), Words.squeeze_keep hc, Words.squeeze_keep hc]
    | false =>
      rw [List.dropWhile_cons, if_pos (by simp [hc]), Words.squeeze_skip hc, if_pos rfl,
        List.nil_append, ih]

theorem subOthers_eq_squeeze (s : Text) :
    Python.subOthers s = Words.squeeze slugClass '-' false s := by
  fun_induction Python.subOthers s with
  | case1 => rfl
  | case2 c s hc ih => rw [Words.squeeze_keep hc, ih]
  | case3 c s hc ih =>
    rw [Words.squeeze_skip (by simpa using hc), ih, squeeze_dropWhile]
    rfl

/-- The slug of a lower-cased text, before it is cut. -/
def uncutSlug (s : Text) : Text := Words.trim '-' (Words.squeeze slugClass '-' false s)

/-- The slug of a lower-cased text. -/
def cutSlug (s : Text) : Option Text :=
  if uncutSlug s = [] then none else some ((uncutSlug s).take 64)

theorem go_slugify (env : ApiEnv) (value : Text) :
    Go.slugify env value = cutSlug (value.map env.toLower) := by
  rw [Go.slugify, slugRunes_eq_squeeze]
  rfl

theorem python_slugify (u : CaseTables) (value : Text) :
    Python.slugify u value = cutSlug (u.lower value) := by
  rw [Python.slugify, subOthers_eq_squeeze]
  rfl

/-! ## Canonical slugs -/

theorem slugClass_dash : slugClass '-' = false := by decide

theorem ne_dash {c : Char} (h : slugClass c = true) : c ≠ '-' := by
  rintro rfl
  exact absurd h (by decide)

theorem toNat_of_slugClass {c : Char} (h : slugClass c = true) : c.toNat < 128 := by
  have hle : c.toNat ≤ 'z'.toNat := by
    simp only [slugClass, decide_eq_true_eq] at h
    rcases h with ⟨-, h⟩ | ⟨-, h⟩
    · exact UInt32.le_iff_toNat_le.mp h
    · exact Nat.le_trans (UInt32.le_iff_toNat_le.mp h) (by decide)
  exact Nat.lt_of_le_of_lt hle (by decide)

theorem toLower_of_slugClass {c : Char} (h : slugClass c = true) : c.toLower = c := by
  have hall : ∀ n < 128, slugClass (Char.ofNat n) = true →
      (Char.ofNat n).toLower = Char.ofNat n := by
    decide
  have hc := hall c.toNat (toNat_of_slugClass h)
  rw [Char.ofNat_toNat] at hc
  exact hc h

/-- A slug: letters and digits with single dashes between them, in at most 64 bytes. -/
structure IsSlug (s : Text) : Prop where
  canonical : Words.Canonical slugClass '-' s
  short : Go.byteLength s ≤ 64

/-- What `slugify` is to make of a text: a slug, which it leaves as it is, unless there is
nothing in the text to make one of. -/
structure Slugifies (env : ApiEnv) (value : Text) : Prop where
  slug : ∀ s, Go.slugify env value = some s → IsSlug s ∧ Go.slugify env s = some s
  fails : Go.slugify env value = none ↔ ∀ c ∈ value.map env.toLower, slugClass c = false

theorem byteLength_eq_length {s : Text} (h : ∀ c ∈ s, slugClass c = true ∨ c = '-') :
    Go.byteLength s = s.length := by
  induction s with
  | nil => rfl
  | cons c s ih =>
    have hc : c.utf8Size = 1 := by
      rw [Char.utf8Size_eq_one_iff]
      rcases h c List.mem_cons_self with hc | rfl
      · have := toNat_of_slugClass hc
        exact UInt32.le_iff_toNat_le.mpr (Nat.le_of_lt_succ this)
      · decide
    rw [Go.byteLength, List.foldr_cons, hc, List.length_cons, Nat.add_comm 1]
    exact congrArg (· + 1) (ih (fun c hc => h c (List.mem_cons_of_mem _ hc)))

theorem cutSlug_eq_none {s : Text} : cutSlug s = none ↔ ∀ c ∈ s, slugClass c = false := by
  rw [← Words.trim_squeeze_eq_nil slugClass_dash, cutSlug]
  split
  · rename_i h
    exact iff_of_true rfl h
  · rename_i h
    exact iff_of_false (by simp) h

theorem cutSlug_eq_some {s t : Text} :
    cutSlug s = some t ↔ uncutSlug s ≠ [] ∧ (uncutSlug s).take 64 = t := by
  rw [cutSlug]
  split
  · rename_i h
    exact iff_of_false (by simp) (fun hs => hs.1 h)
  · rename_i h
    rw [Option.some.injEq]
    exact (and_iff_right h).symm

/-- A slug is its own slug. -/
theorem IsSlug.cutSlug {s : Text} (h : IsSlug s) : cutSlug s = some s := by
  have huncut : uncutSlug s = s := h.canonical.trim_squeeze slugClass_dash
  have hlen := h.short
  rw [byteLength_eq_length h.canonical.chars] at hlen
  rw [cutSlug_eq_some, huncut, List.take_of_length_le hlen]
  exact ⟨h.canonical.ne_nil, rfl⟩

/-- Lower-casing does nothing to it. -/
theorem IsSlug.map_simple {s : Text} (h : IsSlug s) (u : CaseTables) : s.map u.simple = s := by
  refine (List.map_congr_left (fun c hc => ?_)).trans (List.map_id' s)
  rcases h.canonical.chars c hc with hc | rfl
  · rw [u.simple_ascii c (toNat_of_slugClass hc), toLower_of_slugClass hc]
  · exact u.simple_ascii '-' (by decide)

/--
**`slugify` does as it should exactly on the texts in which no first few words, joined, have
63 characters while there are more to come.**

The uncut slug is the words of the text joined by dashes, and only the cut at 64 characters can
spoil it, by a dash that it leaves at the end. A dash stands there exactly if the words before
it, joined, have 63 characters.
-/
theorem slugifies_iff (env : ApiEnv) (u : CaseTables) (value : Text) :
    Slugifies { env with toLower := u.simple } value
      ↔ ∀ ws, ws <+: Words.words slugClass (value.map u.simple) →
        ws ≠ Words.words slugClass (value.map u.simple) → (Words.join '-' ws).length ≠ 63 := by
  have hsep : ∀ w ∈ Words.words slugClass (value.map u.simple), '-' ∉ w :=
    fun w hw => Words.sep_not_mem slugClass_dash hw
  have hjoin : uncutSlug (value.map u.simple)
      = Words.join '-' (Words.words slugClass (value.map u.simple)) :=
    Words.trim_squeeze slugClass_dash
  constructor
  · intro h ws hpre hne hlen
    -- the dash after these words is the last character that is kept
    have hdash : (uncutSlug (value.map u.simple))[63]? = some '-' := by
      rw [hjoin, Words.getElem?_join hsep]
      refine ⟨ws, hpre, ?_, hne, hlen⟩
      rintro rfl
      exact absurd hlen (by decide)
    have huncut : uncutSlug (value.map u.simple) ≠ [] := by
      intro hnil
      rw [hnil] at hdash
      cases hdash
    have hslug := (h.slug _ (by
      rw [go_slugify]
      exact cutSlug_eq_some.mpr ⟨huncut, rfl⟩)).1
    have hcanon := Words.canonical_trim_squeeze slugClass_dash huncut
    exact (hcanon.take (by decide)).mp hslug.canonical hdash
  · intro h
    refine ⟨?_, ?_⟩
    · intro s hs
      rw [go_slugify] at hs
      obtain ⟨huncut, rfl⟩ := cutSlug_eq_some.mp hs
      have hcanon := Words.canonical_trim_squeeze slugClass_dash huncut
      have hslug : IsSlug ((uncutSlug (value.map u.simple)).take 64) := by
        have hcut : Words.Canonical slugClass '-' ((uncutSlug (value.map u.simple)).take 64) := by
          refine (hcanon.take (by decide)).mpr ?_
          intro hdash
          change (uncutSlug (value.map u.simple))[63]? = some '-' at hdash
          rw [hjoin, Words.getElem?_join hsep] at hdash
          -- a dash there is the end of some first words
          obtain ⟨ws, hpre, -, hne, hlen⟩ := hdash
          exact h ws hpre hne hlen
        refine ⟨hcut, ?_⟩
        rw [byteLength_eq_length hcut.chars, List.length_take]
        exact Nat.min_le_left _ _
      refine ⟨hslug, ?_⟩
      rw [go_slugify]
      -- a slug is its own slug
      change cutSlug (List.map u.simple _) = _
      rw [hslug.map_simple u]
      exact hslug.cutSlug
    · rw [go_slugify]
      exact cutSlug_eq_none

/-- Mappings that leave alone what is not ASCII, but for the two that have to be something. -/
def plainTables : CaseTables where
  simple c :=
    if c.toNat < 128 then c.toLower
    else if c = dottedI then 'i'
    else if c = kelvin then 'k'
    else c
  full _ c _ :=
    if c.toNat < 128 then [c.toLower]
    else if c = dottedI then ['i', dotAbove]
    else if c = kelvin then ['k']
    else [c]
  simple_ascii c h := if_pos h
  full_ascii c h := if_pos h
  simple_dottedI := rfl
  full_dottedI := rfl
  simple_kelvin := rfl
  full_kelvin := rfl
  simple_other c h hd hk := by
    rw [if_neg (Nat.not_lt.mpr h), if_neg hd, if_neg hk]
    exact h
  full_other c h hd hk := by
    rw [if_neg (Nat.not_lt.mpr h), if_neg hd, if_neg hk]
    exact ⟨List.cons_ne_nil _ _, fun x hx => by rw [List.mem_singleton.mp hx]; exact h⟩

/-- Nothing but the case matters to a slug. -/
def goApi (u : CaseTables) : ApiEnv where
  now := 0
  parseTime := fun _ => none
  toLower := u.simple
  hashPassword := fun s => s

/-- A word of 63 letters and one more: the cut is right behind the dash. -/
theorem long_word_dash :
    ¬ Slugifies (goApi plainTables) (List.replicate 63 'a' ++ " b".toList) := by
  intro h
  have hs : Go.slugify (goApi plainTables) (List.replicate 63 'a' ++ " b".toList)
      = some (List.replicate 63 'a' ++ ['-']) := by decide +kernel
  exact (h.slug _ hs).1.canonical.last (by decide)

/-! ## Two ways to lower the case -/

/-- What the two mappings make of a character that is not U+0130: the same letter or digit of a
slug, or nothing that a slug has. -/
theorem CaseTables.cases (u : CaseTables) (before : Text) {c : Char} (after : Text)
    (h : c ≠ dottedI) :
    (slugClass (u.simple c) = true ∧ u.full before c after = [u.simple c])
      ∨ (slugClass (u.simple c) = false ∧ u.full before c after ≠ []
        ∧ ∀ x ∈ u.full before c after, slugClass x = false) := by
  have hout : ∀ {x : Char}, 128 ≤ x.toNat → slugClass x = false := by
    intro x hx
    cases hc : slugClass x with
    | false => rfl
    | true => exact absurd (toNat_of_slugClass hc) (Nat.not_lt.mpr hx)
  rcases Nat.lt_or_ge c.toNat 128 with hlt | hge
  -- an ASCII character is lowered alike
  · rw [u.simple_ascii c hlt, u.full_ascii c hlt]
    cases hc : slugClass c.toLower with
    | true => exact Or.inl ⟨rfl, rfl⟩
    | false =>
      refine Or.inr ⟨rfl, List.cons_ne_nil _ _, ?_⟩
      intro x hx
      rw [List.mem_singleton.mp hx]
      exact hc
  -- the Kelvin sign is the one other that becomes a letter
  · by_cases hk : c = kelvin
    · rw [hk, u.simple_kelvin, u.full_kelvin]
      exact Or.inl ⟨by decide, rfl⟩
    · obtain ⟨hne, hfull⟩ : u.full before c after ≠ [] ∧ ∀ x ∈ u.full before c after,
          128 ≤ x.toNat := u.full_other c hge h hk
      exact Or.inr ⟨hout (u.simple_other c hge h hk), hne, fun x hx => hout (hfull x hx)⟩

theorem CaseTables.lowerBetween_append (u : CaseTables) (before after x y : Text) :
    u.lowerBetween before after (x ++ y)
      = u.lowerBetween before (y ++ after) x ++ u.lowerBetween (before ++ x) after y := by
  induction x generalizing before with
  | nil => rw [List.append_nil]; rfl
  | cons c x ih =>
    rw [List.cons_append, lowerBetween, lowerBetween, ih]
    simp only [List.append_assoc, List.singleton_append]

/-- No U+0130 has a letter or digit after it. -/
def Unbroken (u : CaseTables) (v : Text) : Prop :=
  ∀ a c b, v = a ++ dottedI :: c :: b → slugClass (u.simple c) = false

theorem Unbroken.tail {u : CaseTables} {c : Char} {v : Text} (h : Unbroken u (c :: v)) :
    Unbroken u v := by
  intro a d b hv
  exact h (c :: a) d b (by rw [hv]; rfl)

/-- Then the two have the same slug. -/
theorem Unbroken.rtrim {u : CaseTables} {v : Text} (h : Unbroken u v) (before after : Text)
    (prev : Bool) :
    Words.rtrim '-' (Words.squeeze slugClass '-' prev (v.map u.simple))
      = Words.rtrim '-' (Words.squeeze slugClass '-' prev (u.lowerBetween before after v)) := by
  induction v generalizing before prev with
  | nil => rfl
  | cons c v ih =>
    have ih := fun before prev => ih h.tail before prev
    rw [List.map_cons, CaseTables.lowerBetween]
    by_cases hd : c = dottedI
    · subst hd
      have hi : slugClass 'i' = true := by decide
      have hdot : slugClass dotAbove = false := by decide
      rw [u.simple_dottedI, u.full_dottedI, List.cons_append, List.singleton_append,
        Words.squeeze_keep hi, Words.squeeze_keep hi]
      apply Words.rtrim_cons_congr
      cases v with
      | nil =>
        rw [CaseTables.lowerBetween, Words.squeeze_skip hdot]
        rfl
      | cons d v =>
        -- what follows is no letter or digit, so the dot above it makes no difference
        have hnot : slugClass (u.simple d) = false := h [] d v rfl
        have hd : d ≠ dottedI := by
          rintro rfl
          rw [u.simple_dottedI, hi] at hnot
          cases hnot
        rw [ih (before ++ [dottedI]) false, Words.squeeze_skip hdot, if_neg (by decide),
          CaseTables.lowerBetween]
        rcases u.cases (before ++ [dottedI]) (v ++ after) hd with ⟨hyes, -⟩ | ⟨-, hne, hno⟩
        · rw [hnot] at hyes
          cases hyes
        · rw [Words.squeeze_skip_append hne hno, Words.squeeze_skip_append hne hno]
          rfl
    · rcases u.cases before (v ++ after) hd with ⟨hyes, hfull⟩ | ⟨hno, hne, hall⟩
      · rw [hfull, List.singleton_append, Words.squeeze_keep hyes, Words.squeeze_keep hyes]
        exact Words.rtrim_cons_congr (ih _ _)
      · rw [Words.squeeze_skip hno, Words.squeeze_skip_append hne hall]
        cases prev with
        | true => exact ih _ _
        | false => exact Words.rtrim_cons_congr (ih _ _)

/-- The first U+0130 with a letter or digit after it. -/
theorem first_break {u : CaseTables} {v : Text} (h : ¬ Unbroken u v) :
    ∃ a c b, v = a ++ dottedI :: c :: b ∧ slugClass (u.simple c) = true
      ∧ Unbroken u (a ++ [dottedI]) := by
  induction v with
  | nil =>
    refine absurd ?_ h
    intro a c b hv
    simp at hv
  | cons x v ih =>
    by_cases hhere : ∃ c b, x = dottedI ∧ v = c :: b ∧ slugClass (u.simple c) = true
    -- the text breaks at its head
    · obtain ⟨c, b, rfl, rfl, hc⟩ := hhere
      refine ⟨[], c, b, rfl, hc, ?_⟩
      intro a d b' hv
      have := congrArg List.length hv
      simp at this
      omega
    -- it breaks further on, and does not at its head
    · have hrest : ¬ Unbroken u v := by
        intro hv
        apply h
        intro a c b heq
        cases a with
        | nil =>
          obtain ⟨rfl, rfl⟩ := List.cons.inj heq
          cases hc : slugClass (u.simple c) with
          | false => rfl
          | true => exact absurd ⟨c, b, rfl, rfl, hc⟩ hhere
        | cons y a =>
          obtain ⟨-, rfl⟩ := List.cons.inj heq
          exact hv a c b rfl
      obtain ⟨a, c, b, rfl, hc, hun⟩ := ih hrest
      refine ⟨x :: a, c, b, rfl, hc, ?_⟩
      intro a' d b' heq
      cases a' with
      | nil =>
        obtain ⟨hx, hnext⟩ := List.cons.inj heq
        cases hd : slugClass (u.simple d) with
        | false => rfl
        | true =>
          refine absurd ⟨d, ?_⟩ hhere
          cases a with
          | nil =>
            have hdot : dottedI = d := (List.cons.inj hnext).1
            exact ⟨c :: b, hx, by rw [hdot]; rfl, hd⟩
          | cons y a =>
            have hy : y = d := (List.cons.inj hnext).1
            exact ⟨a ++ dottedI :: c :: b, hx, by rw [hy]; rfl, hd⟩
      | cons y a' => exact hun a' d b' (List.cons.inj heq).2

/-! ## Where they part -/

/-- What a text has up to a letter or digit is the beginning of its slug. -/
theorem uncutSlug_append {k : Char} (hk : slugClass k = true) (x y : Text) :
    uncutSlug (x ++ k :: y)
      = uncutSlug (x ++ [k]) ++ Words.rtrim '-' (Words.squeeze slugClass '-' false y) := by
  have happ : ∀ z, uncutSlug (x ++ k :: z) = Words.squeeze slugClass '-' true (x ++ [k])
      ++ Words.rtrim '-' (Words.squeeze slugClass '-' false z) := by
    intro z
    rw [uncutSlug, Words.trim_squeeze_false slugClass_dash, Words.squeeze_append hk]
    exact Words.rtrim_append (Words.getLast?_squeeze hk x) (ne_dash hk)
  rw [happ y, happ []]
  congr 1
  exact (List.append_nil _).symm

/-- The slug of what stands up to and with a U+0130, before it is cut. -/
def slugUpTo (u : CaseTables) (a : Text) : Text := uncutSlug ((a ++ [dottedI]).map u.simple)

theorem simple_upTo (u : CaseTables) (a : Text) :
    (a ++ [dottedI]).map u.simple = a.map u.simple ++ ['i'] := by
  rw [List.map_append, List.map_singleton, u.simple_dottedI]

/-- From a U+0130 on that has a letter or digit after it, the slug goes on with this letter in
Go, and with a dash in Python. -/
theorem slugs_at_break {u : CaseTables} {a b : Text} {c : Char} (hc : slugClass (u.simple c) = true)
    (h : Unbroken u (a ++ [dottedI])) :
    (∃ z, uncutSlug ((a ++ dottedI :: c :: b).map u.simple) = slugUpTo u a ++ u.simple c :: z)
      ∧ ∃ z, uncutSlug (u.lower (a ++ dottedI :: c :: b)) = slugUpTo u a ++ '-' :: z := by
  have hi : slugClass 'i' = true := by decide
  have hdot : slugClass dotAbove = false := by decide
  have hgo : ∀ y, Words.rtrim '-' (Words.squeeze slugClass '-' false (u.simple c :: y))
      = u.simple c :: Words.rtrim '-' (Words.squeeze slugClass '-' false y) := by
    intro y
    rw [Words.squeeze_keep hc, Words.rtrim_cons_of_ne (ne_dash hc)]
  constructor
  · rw [List.map_append, List.map_cons, List.map_cons, u.simple_dottedI, uncutSlug_append hi, hgo,
      slugUpTo, simple_upTo]
    exact ⟨_, rfl⟩
  · -- the two agree on what comes before, whatever Python sees behind it
    obtain ⟨y, hy⟩ : ∃ y, u.lowerBetween (a ++ [dottedI]) [] (c :: b) = u.simple c :: y := by
      rw [CaseTables.lowerBetween]
      by_cases hd : c = dottedI
      · rw [hd, u.full_dottedI, u.simple_dottedI]
        exact ⟨_, rfl⟩
      · rcases u.cases (a ++ [dottedI]) (b ++ []) hd with ⟨-, hfull⟩ | ⟨hno, -⟩
        · rw [hfull]
          exact ⟨_, rfl⟩
        · rw [hc] at hno
          cases hno
    have hlower : u.lower (a ++ dottedI :: c :: b)
        = u.lowerBetween [] (dottedI :: c :: b) a ++ 'i' :: (dotAbove :: u.simple c :: y) := by
      rw [CaseTables.lower, CaseTables.lowerBetween_append, CaseTables.lowerBetween,
        u.full_dottedI, List.nil_append, hy, List.append_nil]
      rfl
    have hupTo : u.lowerBetween [] (c :: b) (a ++ [dottedI])
        = u.lowerBetween [] (dottedI :: c :: b) a ++ 'i' :: [dotAbove] := by
      rw [CaseTables.lowerBetween_append, CaseTables.lowerBetween, u.full_dottedI]
      rfl
    have hsame : slugUpTo u a = uncutSlug (u.lowerBetween [] (dottedI :: c :: b) a ++ ['i']) := by
      have hsq := h.rtrim [] (c :: b) true
      rw [hupTo, ← Words.trim_squeeze_false slugClass_dash,
        ← Words.trim_squeeze_false slugClass_dash] at hsq
      have happ := uncutSlug_append hi (u.lowerBetween [] (dottedI :: c :: b) a) [dotAbove]
      rw [Words.squeeze_skip hdot] at happ
      exact hsq.trans (happ.trans (List.append_nil _))
    have hdash : Words.rtrim '-' (Words.squeeze slugClass '-' false (dotAbove :: u.simple c :: y))
        = '-' :: u.simple c :: Words.rtrim '-' (Words.squeeze slugClass '-' false y) := by
      rw [Words.squeeze_skip hdot, Words.squeeze_keep hc, if_neg (by decide), List.singleton_append,
        Words.rtrim_cons, Words.rtrim_cons_of_ne (ne_dash hc), if_neg (List.cons_ne_nil _ _)]
    rw [hlower, uncutSlug_append hi, ← hsame, hdash]
    exact ⟨_, rfl⟩

/-- What comes later has the longer slug in front of it. -/
theorem length_slugUpTo_le (u : CaseTables) {a a' : Text} (h : a ++ [dottedI] <+: a' ++ [dottedI]) :
    (slugUpTo u a).length ≤ (slugUpTo u a').length := by
  have hi : slugClass 'i' = true := by decide
  obtain ⟨w, hw⟩ := h
  have hmap : (a' ++ [dottedI]).map u.simple = a.map u.simple ++ 'i' :: w.map u.simple := by
    rw [← hw, List.map_append, simple_upTo, List.append_assoc]
    rfl
  rw [slugUpTo, slugUpTo, hmap, uncutSlug_append hi _ (w.map u.simple), simple_upTo,
    List.length_append]
  exact Nat.le_add_right _ _

/--
**The two make the same of a text exactly if the slug has 64 characters already wherever a
U+0130 stands before a letter or digit.**

Python makes two characters of U+0130, the second of which is none of a word, so that a word may
break there (`Unbroken` says none does). The slugs are compared at the first such place, up to
which they are the same: the cut hides the rest if it comes before.
-/
theorem slugify_agree_iff (env : ApiEnv) (u : CaseTables) (value : Text) :
    Go.slugify { env with toLower := u.simple } value = Python.slugify u value
      ↔ ∀ a c b, value = a ++ dottedI :: c :: b → slugClass (u.simple c) = true →
        64 ≤ (slugUpTo u a).length := by
  rw [go_slugify, python_slugify]
  by_cases h : Unbroken u value
  · have hsame : uncutSlug (value.map u.simple) = uncutSlug (u.lower value) := by
      rw [uncutSlug, uncutSlug, Words.trim_squeeze_false slugClass_dash,
        Words.trim_squeeze_false slugClass_dash]
      exact h.rtrim [] [] true
    refine iff_of_true ?_ ?_
    · rw [cutSlug, cutSlug, hsame]
    · intro a c b hv hc
      rw [h a c b hv] at hc
      cases hc
  · obtain ⟨a, c, b, rfl, hc, hun⟩ := first_break h
    obtain ⟨⟨z, hgo⟩, z', hpy⟩ := slugs_at_break (b := b) hc hun
    have hcut : cutSlug ((a ++ dottedI :: c :: b).map u.simple)
        = cutSlug (u.lower (a ++ dottedI :: c :: b)) ↔ 64 ≤ (slugUpTo u a).length := by
      rw [cutSlug_eq_some.mpr ⟨by rw [hgo]; simp, rfl⟩, cutSlug_eq_some.mpr ⟨by rw [hpy]; simp, rfl⟩,
        hgo, hpy, Option.some.injEq]
      constructor
      · intro heq
        by_contra hlt
        have hat := congrArg (fun s => s[(slugUpTo u a).length]?) heq
        simp only [List.getElem?_take, if_pos (Nat.not_le.mp hlt),
          List.getElem?_append_right (Nat.le_refl _), Nat.sub_self, List.getElem?_cons_zero] at hat
        exact ne_dash hc (Option.some.inj hat)
      · intro hle
        rw [List.take_append_of_le_length hle, List.take_append_of_le_length hle]
    refine hcut.trans ⟨?_, fun hall => hall a c b rfl hc⟩
    intro hle a' c' b' hv hc'
    have hpre : a ++ [dottedI] <+: a ++ dottedI :: c :: b := ⟨c :: b, by simp⟩
    have hpre' : a' ++ [dottedI] <+: a ++ dottedI :: c :: b := ⟨c' :: b', by simp [hv]⟩
    rcases Nat.lt_or_ge a'.length a.length with hlt | hge
    · -- an earlier one would have a letter or digit after it before the first has
      have hpre'' : a' ++ [dottedI, c'] <+: a ++ dottedI :: c :: b := ⟨b', by simp [hv]⟩
      obtain ⟨w, hw⟩ := List.prefix_of_prefix_length_le hpre'' hpre (by simp; omega)
      have hno := hun a' c' w (by rw [← hw]; simp)
      rw [hc'] at hno
      cases hno
    · have hlater := List.prefix_of_prefix_length_le hpre hpre' (by simp; omega)
      exact Nat.le_trans hle (length_slugUpTo_le u hlater)

/-- U+0130 is the first letter of a Turkish name. -/
theorem istanbul_disagrees :
    Go.slugify (goApi plainTables) (dottedI :: "stanbul".toList)
      ≠ Python.slugify plainTables (dottedI :: "stanbul".toList) := by
  have hgo : Go.slugify (goApi plainTables) (dottedI :: "stanbul".toList)
      = some "istanbul".toList := by decide +kernel
  have hpy : Python.slugify plainTables (dottedI :: "stanbul".toList)
      = some "i-stanbul".toList := by
    rw [python_slugify]
    decide +kernel
  rw [hgo, hpy]
  decide

end TelegramCms
