import TelegramCms.Model.HealthGate

/-!
# What the health gate passes

A service is up if it has a container and each of its containers is healthy or, without a
healthcheck, running. The gate takes the first line that begins with the name of the service,
as a word, for the line of the service; of a JSON array it reads the last container for every
service; and where neither passes, five probes will do. `Misled` says what that lets through.
-/

namespace TelegramCms

open TextTools

/-! ## Services that are up -/

/-- Healthy or, without a healthcheck, running. -/
def Container.Passes (c : Container) : Prop :=
  c.health = .healthy ∨ (c.health = .none ∧ c.state = .running)

instance (c : Container) : Decidable c.Passes :=
  inferInstanceAs (Decidable (c.health = .healthy ∨ (c.health = .none ∧ c.state = .running)))

namespace GatePoll

variable (poll : GatePoll) (svc : ServiceName)

def Up : Prop :=
  (∃ c ∈ poll.containers, c.service = svc) ∧ ∀ c ∈ poll.containers, c.service = svc → c.Passes

def AllUp (expected : List ServiceName) : Prop := ∀ svc ∈ expected, poll.Up svc

instance (expected : List ServiceName) : Decidable (poll.AllUp expected) :=
  inferInstanceAs (Decidable (∀ svc ∈ expected,
    (∃ c ∈ poll.containers, c.service = svc) ∧ ∀ c ∈ poll.containers, c.service = svc → c.Passes))

/-- The gate reads the table. -/
def Tabular : Prop := poll.table = true ∧ poll.containers ≠ []

/-- The container whose line in the table is the first that begins with the name, taken as a
pattern, and a word boundary. -/
def firstNamed : Option Container :=
  (poll.containers.filter (fun c => beginsWithWord svc.text (HealthGate.tableLine c))).head?

/-- The last container on each line of the JSON output that names the service. -/
def lastNamed : List Container :=
  ((HealthGate.jsonLines poll).filter (HealthGate.namesService svc)).filterMap List.getLast?

end GatePoll

/-- Of the containers read from several lines one may be healthy, the first, if the others
have no healthcheck. -/
def ReadsWell : List Container → Prop
  | [] => False
  | c :: rest =>
    (c.health = .healthy ∧ ∀ d ∈ rest, d.health = .none)
      ∨ (rest = [] ∧ c.health = .none ∧ c.state = .running)

/-- Something expected is not up, and all the same the five probes get an answer, or for each
expected service the container that the gate takes for it passes. -/
structure Misled (expected : List ServiceName) (poll : GatePoll) : Prop where
  down : ¬ poll.AllUp expected
  passes : (∀ s ∈ HealthGate.probed, poll.probe s = true)
    ∨ (poll.Tabular ∧ ∀ svc ∈ expected, ∃ c ∈ poll.firstNamed svc, c.Passes)
    ∨ (¬ poll.Tabular ∧ ∀ svc ∈ expected, ReadsWell (poll.lastNamed svc))

namespace HealthGate

variable {expected : List ServiceName} {poll : GatePoll} {polls : List GatePoll}
  {svc : ServiceName} {c : Container}

/-! ## The fields -/

theorem not_mem_name {ch : Char}
    (h : (ch.isAlphanum || ch == '_' || ch == '-' || ch == '.') = false) : ch ∉ svc.text := by
  intro hmem
  have := List.all_eq_true.mp svc.valid ch hmem
  rw [h] at this
  exact absurd this (by simp)

theorem tab_health (h : Health) : '\t' ∉ h.text := by cases h <;> decide

theorem tab_state (s : ContainerState) : '\t' ∉ s.text := by cases s <;> decide

theorem newline_health (h : Health) : '\n' ∉ h.text := by cases h <;> decide

theorem newline_state (s : ContainerState) : '\n' ∉ s.text := by cases s <;> decide

theorem state_ne_nil (s : ContainerState) : s.text ≠ [] := by cases s <;> decide

theorem health_eq_nil {h : Health} : h.text = [] ↔ h = .none := by cases h <;> decide

theorem health_eq_healthy {h : Health} : h.text = "healthy".toList ↔ h = .healthy := by
  cases h <;> decide

theorem health_ne_none (h : Health) : h.text ≠ "none".toList := by cases h <;> decide

theorem state_eq_running {s : ContainerState} : s.text = "running".toList ↔ s = .running := by
  cases s <;> decide

/-- `cut` finds the two fields of a line that it is asked for. -/
theorem cut_tableLine (c : Container) :
    cut 1 (tableLine c) = c.health.text ∧ cut 2 (tableLine c) = c.state.text := by
  have hname : '\t' ∉ c.service.text := not_mem_name (by decide)
  constructor
  · rw [tableLine, cut_succ hname, cut_zero (tab_health _)]
  · rw [tableLine, cut_succ hname, cut_succ (tab_health _), cut_last (tab_state _)]

/-- The test of the script: healthy, or running without a health check. -/
theorem fieldsPass_iff (health state : Text) :
    fieldsPass health state = true
      ↔ ((health = [] ∨ health = "none".toList) ∧ state = "running".toList)
        ∨ health = "healthy".toList := by
  unfold fieldsPass
  split
  · rename_i h
    simp only [decide_eq_true_eq]
    constructor
    · exact fun hs => .inl ⟨h, hs⟩
    · rintro (⟨-, hs⟩ | hh)
      · exact hs
      · rcases h with h | h <;> exact absurd (h.symm.trans hh) (by decide)
  · rename_i h
    rw [decide_eq_true_eq]
    exact ⟨.inr, fun hor => hor.resolve_left fun hboth => h hboth.1⟩

/-! ## The two strategies -/

/-- **The table**: a service passes by the first container whose line begins with its name. -/
theorem tablePasses_iff :
    tablePasses (poll.containers.map tableLine) svc = true
      ↔ ∃ c ∈ poll.firstNamed svc, c.Passes := by
  have hhead : ((poll.containers.map tableLine).filter (beginsWithWord svc.text)).head?
      = (poll.firstNamed svc).map tableLine := by
    rw [List.filter_map, List.head?_map]
    rfl
  unfold tablePasses
  rw [hhead]
  cases poll.firstNamed svc with
  | none => simp
  | some c =>
      obtain ⟨hhealth, hstate⟩ := cut_tableLine c
      simp only [Option.map_some, hhealth, hstate, fieldsPass_iff, health_eq_nil, health_ne_none,
        state_eq_running, health_eq_healthy, or_false, Option.mem_def, Option.some.injEq,
        exists_eq_left', Container.Passes]
      exact or_comm

theorem sedField_eq (field : Container → Text) (lines : List (List Container)) :
    sedField field lines = captured ((lines.filterMap List.getLast?).map field) := by
  rw [sedField, List.map_filterMap]

/-- **The lines of JSON**: a service passes by what `sed` captures in the lines that name it. -/
theorem jsonPasses_iff :
    jsonPasses (jsonLines poll) svc = true ↔ ReadsWell (poll.lastNamed svc) := by
  unfold jsonPasses GatePoll.lastNamed
  generalize hlines : (jsonLines poll).filter (namesService svc) = lines
  -- a line that names the service has a container on it
  have hne : ∀ line ∈ lines, line ≠ [] := by
    intro line hline hnil
    rw [← hlines, hnil] at hline
    exact absurd (List.mem_filter.mp hline).2 (by simp [namesService])
  cases lines with
  | nil => simp [ReadsWell]
  | cons line lines =>
      obtain ⟨c, hc⟩ := Option.isSome_iff_exists.mp
        (List.getLast?_isSome.mpr (hne line List.mem_cons_self))
      dsimp only
      rw [if_neg (List.cons_ne_nil _ _), sedField_eq, sedField_eq, List.filterMap_cons_some hc]
      generalize lines.filterMap List.getLast? = rest
      have hhealths : ∀ v ∈ c.health.text :: rest.map (fun d => d.health.text), '\n' ∉ v := by
        intro v hv
        rcases List.mem_cons.mp hv with rfl | hv
        · exact newline_health _
        · obtain ⟨d, -, rfl⟩ := List.mem_map.mp hv
          exact newline_health _
      have hstates : ∀ v ∈ c.state.text :: rest.map (fun d => d.state.text), '\n' ∉ v := by
        intro v hv
        rcases List.mem_cons.mp hv with rfl | hv
        · exact newline_state _
        · obtain ⟨d, -, rfl⟩ := List.mem_map.mp hv
          exact newline_state _
      -- every state has a text, so that of a second line would be left over
      have hrest : (∀ u ∈ rest.map (fun d => d.state.text), u = []) ↔ rest = [] := by
        cases rest with
        | nil => simp
        | cons d rest => simp [state_ne_nil]
      rw [fieldsPass_iff, List.map_cons, List.map_cons, captured_eq hhealths (by decide),
        captured_eq hhealths (by decide), captured_eq hhealths (by decide),
        captured_eq hstates (by decide), hrest]
      simp only [health_eq_nil, health_ne_none, health_eq_healthy, state_eq_running,
        false_and, or_false, List.forall_mem_map, ReadsWell]
      constructor
      · rintro (⟨⟨hn, -⟩, hs, hr⟩ | h)
        · exact .inr ⟨hr, hn, hs⟩
        · exact .inl h
      · rintro (h | ⟨hr, hn, hs⟩)
        · exact .inr h
        · exact .inl ⟨⟨hn, by simp [hr]⟩, hs, hr⟩

/-! ## Polls -/

theorem no_brace (c : Container) : (tableLine c).head? ≠ some '{' := by
  have hname : '{' ∉ c.service.text := not_mem_name (by decide)
  intro h
  rw [tableLine, List.head?_append_of_ne_nil _ c.service.ne_nil] at h
  exact hname (List.mem_of_head? h)

/-- The table is taken if it was printed, has lines, and none of them looks like JSON. -/
theorem tabular_iff :
    (poll.table && !(poll.containers.map tableLine).isEmpty
      && (poll.containers.map tableLine).all (fun line => line.head? ≠ some '{')) = true
      ↔ poll.Tabular := by
  have hall : (poll.containers.map tableLine).all (fun line => line.head? ≠ some '{') = true := by
    rw [List.all_eq_true]
    intro line hline
    obtain ⟨c, -, rfl⟩ := List.mem_map.mp hline
    exact decide_eq_true (no_brace c)
  rw [hall, Bool.and_true, Bool.and_eq_true_iff, GatePoll.Tabular]
  simp

theorem readsWell_json (h : ReadsWell (poll.lastNamed svc)) :
    poll.json ≠ .fails ∧ jsonLines poll ≠ [] := by
  have hne : jsonLines poll ≠ [] := by
    intro hnil
    rw [GatePoll.lastNamed, hnil] at h
    exact h
  refine ⟨fun hf => hne ?_, hne⟩
  rw [jsonLines, hf]

/-- The two strategies together: JSON is read where there is no table. -/
theorem checkAllHealthy_iff (hne : expected ≠ []) :
    checkAllHealthy expected poll = true
      ↔ (poll.Tabular ∧ ∀ svc ∈ expected, ∃ c ∈ poll.firstNamed svc, c.Passes)
        ∨ (¬ poll.Tabular ∧ ∀ svc ∈ expected, ReadsWell (poll.lastNamed svc)) := by
  unfold checkAllHealthy
  dsimp only
  by_cases ht : poll.Tabular
  · rw [if_pos (tabular_iff.mpr ht), List.all_eq_true]
    simp only [tablePasses_iff, ht, true_and, not_true_eq_false, false_and, or_false]
  · rw [if_neg fun h => ht (tabular_iff.mp h)]
    have hall : (expected.all (jsonPasses (jsonLines poll))) = true
        ↔ ∀ svc ∈ expected, ReadsWell (poll.lastNamed svc) := by
      rw [List.all_eq_true]
      exact forall₂_congr fun _ _ => jsonPasses_iff
    simp only [ht, false_and, not_false_eq_true, true_and, false_or]
    rw [← hall]
    constructor
    · intro h
      split at h
      · exact absurd h (by simp)
      · exact (Bool.and_eq_true_iff.mp h).2
    · intro h
      -- something is expected, so something was read and the output is not empty
      obtain ⟨svc, hsvc⟩ := List.exists_mem_of_ne_nil _ hne
      obtain ⟨hok, hlines⟩ := readsWell_json (hall.mp h svc hsvc)
      split
      · rename_i hf
        exact absurd hf hok
      · rw [h, Bool.and_true]
        simpa using hlines

/-- The script exits with 0 at the first poll that passes one of its checks. -/
theorem exitStatus_eq_zero :
    exitStatus expected polls = 0
      ↔ ∃ poll ∈ polls, checkAllHealthy expected poll = true ∨ checkViaCurl poll = true := by
  induction polls with
  | nil => simp [exitStatus]
  | cons poll polls ih =>
      rw [exitStatus, List.exists_mem_cons_iff, ← ih, ← Bool.or_eq_true_iff]
      split
      · rename_i h
        simp [h]
      · rename_i h
        simp [h]

/-- A poll that passes finds every expected service up, or is misled. -/
theorem passes_iff (hne : expected ≠ []) (hdown : ¬ poll.AllUp expected) :
    (checkAllHealthy expected poll = true ∨ checkViaCurl poll = true) ↔ Misled expected poll := by
  have hcurl : checkViaCurl poll = true ↔ ∀ s ∈ probed, poll.probe s = true := List.all_eq_true
  rw [checkAllHealthy_iff hne, hcurl]
  constructor
  · rintro ((h | h) | h)
    · exact ⟨hdown, .inr (.inl h)⟩
    · exact ⟨hdown, .inr (.inr h)⟩
    · exact ⟨hdown, .inl h⟩
  · rintro ⟨-, h | h | h⟩
    · exact .inr h
    · exact .inl (.inl h)
    · exact .inl (.inr h)

/--
**The gate exits with 0 only if some poll finds every expected service up, if and only if
some poll does or no poll is misled.**

The gate exits with 0 at the first poll that passes. If some poll finds all services up there is
nothing to show; and in a poll that does not, passing is being misled (`passes_iff`).
-/
theorem gate_sound_iff (hne : expected ≠ []) :
    (exitStatus expected polls = 0 → ∃ poll ∈ polls, poll.AllUp expected)
      ↔ (∃ poll ∈ polls, poll.AllUp expected) ∨ ∀ poll ∈ polls, ¬ Misled expected poll := by
  rw [exitStatus_eq_zero]
  by_cases hup : ∃ poll ∈ polls, poll.AllUp expected
  · exact iff_of_true (fun _ => hup) (.inl hup)
  · have hdown : ∀ poll ∈ polls, ¬ poll.AllUp expected := fun poll hp h => hup ⟨poll, hp, h⟩
    simp only [hup, imp_false, false_or, not_exists, not_and]
    exact forall₂_congr fun poll hp => not_congr (passes_iff hne (hdown poll hp))

def sampleServices : List ServiceName := [Service.postgres.name, Service.worker.name]

/-- Postgres has this health, and the worker is healthy. -/
def samplePoll (table : Bool) (postgres : Health) : GatePoll where
  containers :=
    [⟨Service.postgres.name, postgres, .running⟩, ⟨Service.worker.name, .healthy, .running⟩]
  table := table
  json := .array
  probe := fun _ => false

/-- In the second poll both are healthy. -/
theorem gate_sound_iff_second :
    exitStatus sampleServices [samplePoll true .starting, samplePoll true .healthy] = 0
      ∧ (exitStatus sampleServices [samplePoll true .starting, samplePoll true .healthy] = 0 →
          ∃ poll ∈ [samplePoll true .starting, samplePoll true .healthy],
            poll.AllUp sampleServices) := by
  refine ⟨by decide +kernel, (gate_sound_iff (List.cons_ne_nil _ _)).mpr (.inl ?_)⟩
  exact ⟨samplePoll true .healthy, by simp, by decide +kernel⟩

/-- A Compose that prints an array: the gate reads the health of the worker for both. -/
theorem array_misread :
    exitStatus sampleServices [samplePoll false .unhealthy] = 0
      ∧ ¬ ∃ poll ∈ [samplePoll false .unhealthy], poll.AllUp sampleServices := by
  refine ⟨by decide +kernel, ?_⟩
  rintro ⟨poll, hp, hup⟩
  rw [List.mem_singleton.mp hp] at hup
  revert hup
  decide +kernel

/-! ## Plain polls -/

/-- What the output says of a service can be told by its name. -/
structure Plain (expected : List ServiceName) (poll : GatePoll) : Prop where
  layout : ¬ poll.Tabular → poll.json ≠ .array
  table : ∀ svc ∈ expected, ∀ c ∈ poll.containers,
    beginsWithWord svc.text (tableLine c) = true → c.service = svc
  json : ∀ svc ∈ expected, ∀ c ∈ poll.containers, namesService svc [c] = true → c.service = svc
  /-- No service has two containers. -/
  single : (poll.containers.map Container.service).Nodup

/-- The only container of a service says whether it is up. -/
theorem Plain.up (hp : Plain expected poll) (hc : c ∈ poll.containers) (hpass : c.Passes) :
    poll.Up c.service := by
  refine ⟨⟨c, hc, rfl⟩, fun d hd he => ?_⟩
  rw [List.inj_on_of_nodup_map hp.single hd hc he]
  exact hpass

/-- If the captured fields pass, those of some container do. -/
theorem readsWell_passes {cs : List Container} (h : ReadsWell cs) : ∃ c ∈ cs, c.Passes := by
  cases cs with
  | nil => exact h.elim
  | cons c rest =>
      refine ⟨c, List.mem_cons_self, ?_⟩
      rcases h with ⟨hh, -⟩ | ⟨-, hn, hs⟩
      · exact .inl hh
      · exact .inr ⟨hn, hs⟩

theorem mem_firstNamed (h : c ∈ poll.firstNamed svc) :
    c ∈ poll.containers ∧ beginsWithWord svc.text (tableLine c) = true :=
  List.mem_filter.mp (List.mem_of_head? h)

/-- One object on each line: what is read for a service are the containers with its name. -/
theorem mem_lastNamed (hj : poll.json ≠ .array) (h : c ∈ poll.lastNamed svc) :
    c ∈ poll.containers ∧ namesService svc [c] = true := by
  obtain ⟨line, hline, hlast⟩ := List.mem_filterMap.mp h
  obtain ⟨hline, hnames⟩ := List.mem_filter.mp hline
  unfold jsonLines at hline
  split at hline
  · exact absurd hline (by simp)
  · obtain ⟨d, hd, rfl⟩ := List.mem_map.mp hline
    obtain rfl : d = c := by simpa using hlast
    exact ⟨hd, hnames⟩
  · rename_i ha
    exact absurd ha hj

/-- A plain poll in which the probes do not all get an answer is not misled. -/
theorem Plain.not_misled (hp : Plain expected poll) (hno : ∃ s ∈ probed, poll.probe s = false) :
    ¬ Misled expected poll := by
  rintro ⟨hdown, hprobes | ⟨-, hfirst⟩ | ⟨ht, hlast⟩⟩
  · obtain ⟨s, hs, hno⟩ := hno
    rw [hprobes s hs] at hno
    exact absurd hno (by simp)
  · refine hdown fun svc hsvc => ?_
    obtain ⟨c, hc, hpass⟩ := hfirst svc hsvc
    obtain ⟨hmem, hname⟩ := mem_firstNamed hc
    exact hp.table svc hsvc c hmem hname ▸ hp.up hmem hpass
  · refine hdown fun svc hsvc => ?_
    obtain ⟨c, hc, hpass⟩ := readsWell_passes (hlast svc hsvc)
    obtain ⟨hmem, hname⟩ := mem_lastNamed (hp.layout ht) hc
    exact hp.json svc hsvc c hmem hname ▸ hp.up hmem hpass

/-! ## The services of this repository -/

/-- No name is the beginning of another one, up to a word boundary. -/
theorem beginsWithWord_name (s t : Service) (rest : Text) :
    beginsWithWord s.name.text (t.name.text ++ '\t' :: rest) = decide (s = t) := by
  cases s <;> cases t <;> rfl

/-- No name of a service is a pattern for another, dots and all. -/
theorem dotMatch_name (s t : Service) :
    dotMatch (fun p d => p.toLower == d.toLower) s.name.text t.name.text = decide (s = t) := by
  cases s <;> cases t <;> decide

theorem name_inj {s t : Service} (h : s.name = t.name) : s = t := by
  have hmatch := dotMatch_name s s
  rw [decide_eq_true rfl] at hmatch
  have hother := dotMatch_name s t
  rw [← h, hmatch] at hother
  exact of_decide_eq_true hother.symm

/-- The poll lists containers of these services, no two of one, and not as an array. -/
structure Deployed (stack : Stack) (poll : GatePoll) : Prop where
  services : ∀ c ∈ poll.containers, ∃ s, c.service = Service.name s ∧ (stack s).isSome
  single : (poll.containers.map Container.service).Nodup
  layout : poll.json ≠ .array
  probes : ∀ s, poll.probe s = true → (stack s).isSome

section Deployed

variable {stack : Stack} {s : Service} {services : List Service}

/-- In the stack of this repository a line begins with the name of its own service only. -/
theorem Deployed.firstNamed (hd : Deployed stack poll) :
    poll.firstNamed s.name = poll.containerOf s := by
  have hnames : ∀ c ∈ poll.containers,
      beginsWithWord s.name.text (tableLine c) = decide (c.service = s.name) := by
    intro c hc
    obtain ⟨t, ht, -⟩ := hd.services c hc
    rw [tableLine, ht, beginsWithWord_name]
    exact decide_eq_decide.mpr ⟨fun h => h ▸ rfl, fun h => (name_inj h).symm⟩
  rw [GatePoll.firstNamed, GatePoll.containerOf, List.filter_congr hnames, List.head?_filter]

/-- With one container for each service there is one of its name, at most. -/
theorem filter_single {cs : List Container} (hn : (cs.map Container.service).Nodup)
    (svc : ServiceName) :
    cs.filter (fun c => c.service = svc) = (cs.find? (fun c => c.service = svc)).toList := by
  induction cs with
  | nil => rfl
  | cons c cs ih =>
      obtain ⟨hc, hn⟩ := List.nodup_cons.mp hn
      by_cases he : c.service = svc
      · have hrest : cs.filter (fun d => d.service = svc) = [] := by
          rw [List.filter_eq_nil_iff]
          intro d hd hsame
          exact hc (List.mem_map.mpr ⟨d, hd, (of_decide_eq_true hsame).trans he.symm⟩)
        simp [he, hrest]
      · simp only [List.filter_cons, List.find?_cons, he, decide_false, Bool.false_eq_true, if_false]
        exact ih hn

/-- And in JSON its name is in its own line only. -/
theorem Deployed.lastNamed (hd : Deployed stack poll) (hj : poll.json ≠ .fails) :
    poll.lastNamed s.name = (poll.containerOf s).toList := by
  have hlines : jsonLines poll = poll.containers.map (fun c => [c]) := by
    unfold jsonLines
    split
    · rename_i hf
      exact absurd hf hj
    · rfl
    · rename_i ha
      exact absurd ha hd.layout
  have hnames : ∀ c ∈ poll.containers, namesService s.name [c] = decide (c.service = s.name) := by
    intro c hc
    obtain ⟨t, ht, -⟩ := hd.services c hc
    rw [namesService, List.any_cons, List.any_nil, Bool.or_false, ht, dotMatch_name]
    exact decide_eq_decide.mpr ⟨fun h => h ▸ rfl, fun h => (name_inj h).symm⟩
  have hfilter : poll.containers.filter (namesService s.name ∘ fun c => [c])
      = poll.containers.filter (fun c => c.service = s.name) :=
    List.filter_congr hnames
  rw [GatePoll.lastNamed, hlines, List.filter_map, hfilter, List.filterMap_map,
    GatePoll.containerOf, ← filter_single hd.single]
  exact List.filterMap_some

/-- What `Model/Fleet` looks at for a service. -/
theorem Deployed.linePasses_iff (hd : Deployed stack poll) :
    linePasses stack poll.seen s = true ↔ ∃ c ∈ poll.containerOf s, c.Passes := by
  unfold linePasses GatePoll.seen
  cases hc : poll.containerOf s with
  | none => simp [hc]
  | some c =>
      have hfound := hc
      rw [GatePoll.containerOf] at hfound
      obtain ⟨t, ht, hsome⟩ := hd.services c (List.mem_of_find?_eq_some hfound)
      have hname : c.service = s.name := by simpa using List.find?_some hfound
      have hs : t = s := name_inj (ht.symm.trans hname)
      rw [hs] at hsome
      simp only [hsome, if_true, hc, Option.map_some, Option.mem_def, Option.some.injEq,
        exists_eq_left', Container.Passes]
      cases c.health <;> simp

theorem readsWell_toList {o : Option Container} : ReadsWell o.toList ↔ ∃ c ∈ o, c.Passes := by
  cases o with
  | none => simp [ReadsWell]
  | some c => simp [ReadsWell, Container.Passes]

/-- **The gate of the fleet is this one**, at the services of this repository. -/
theorem Deployed.checkAllHealthy_eq (hd : Deployed stack poll) (hne : services ≠ []) :
    checkAllHealthy (services.map Service.name) poll
      = TelegramCms.checkAllHealthy services stack poll.seen := by
  have hall : (services.all (linePasses stack poll.seen)) = true
      ↔ ∀ s ∈ services, ∃ c ∈ poll.containerOf s, c.Passes := by
    rw [List.all_eq_true]
    exact forall₂_congr fun s _ => hd.linePasses_iff
  have htable : poll.seen.table = true ↔ poll.Tabular := by
    simp [GatePoll.seen, GatePoll.Tabular]
  have hjson : poll.seen.json = true ↔ poll.json ≠ .fails := by
    simp [GatePoll.seen]
  rw [Bool.eq_iff_iff, checkAllHealthy_iff (by simpa using hne), TelegramCms.checkAllHealthy,
    Bool.and_eq_true_iff, Bool.or_eq_true_iff, htable, hjson, hall]
  simp only [List.forall_mem_map]
  by_cases ht : poll.Tabular
  · simp only [ht, true_and, not_true_eq_false, false_and, or_false, true_or]
    exact forall₂_congr fun s _ => by rw [hd.firstNamed]
  · -- one object on each line, or `ps` fails for both
    simp only [ht, false_and, not_false_eq_true, true_and, false_or]
    constructor
    · intro h
      obtain ⟨s, hs⟩ := List.exists_mem_of_ne_nil _ hne
      have hok := (readsWell_json (h s hs)).1
      exact ⟨hok, fun s hs => readsWell_toList.mp (hd.lastNamed hok ▸ h s hs)⟩
    · rintro ⟨hok, h⟩ s hs
      rw [hd.lastNamed hok]
      exact readsWell_toList.mpr (h s hs)

theorem Deployed.checkViaCurl_eq (hd : Deployed stack poll) :
    checkViaCurl poll = TelegramCms.checkViaCurl stack poll.seen := by
  refine List.all_congr rfl fun s => ?_
  rw [Bool.eq_iff_iff, Bool.and_eq_true_iff]
  exact ⟨fun h => ⟨hd.probes s h, h⟩, fun h => h.2⟩

/-- The gate of `Model/Fleet` is this one. -/
theorem exitStatus_eq (hne : services ≠ []) (hd : ∀ poll ∈ polls, Deployed stack poll) :
    exitStatus (services.map Service.name) polls
      = healthGate services stack (polls.map GatePoll.seen) := by
  induction polls with
  | nil => rfl
  | cons poll polls ih =>
      obtain ⟨hpoll, hpolls⟩ := List.forall_mem_cons.mp hd
      rw [List.map_cons, exitStatus, healthGate, hpoll.checkAllHealthy_eq hne, hpoll.checkViaCurl_eq,
        ih hpolls]

end Deployed

end HealthGate

end TelegramCms
