import MediaEngine.Proofs.Compile.Arithmetic
import MediaEngine.Proofs.Integers
import MediaEngine.Settings.Environment

/-! # Settings that are written down and read back

Settings are read back from the value that they are written as, and from an environment whose variables hold their decimal
texts. Any environment yields settings, with a default for each variable that is not set or blank, or is refused for the
first variable that writes no number (`settings_survive`). -/

namespace MediaEngine.Settings
open Text

/-! ## Values -/

theorem atLeastOne_eq (n : Int) : atLeastOne n = max 1 n := by
  unfold atLeastOne
  split <;> omega

theorem floored_eq {s : Settings} {parallel length history : Int} (hparallel : s.maxParallelJobs = max 1 parallel)
    (hlength : s.maxQueueLength = max 1 length) (hhistory : s.historyLimit = max 1 history) :
    floored parallel length s.queueTimeout history = s := by
  obtain ⟨p, l, t, h, hp, hl, hh⟩ := s
  subst hparallel hlength hhistory
  simp only [floored, atLeastOne_eq]

theorem read_toValue (s : Settings) : read s.toValue = .ok s := by
  have hread : read s.toValue = .ok (floored s.maxParallelJobs s.maxQueueLength s.queueTimeout s.historyLimit) := by
    rfl
  rw [hread, floored_eq (max_eq_right s.parallel_pos).symm (max_eq_right s.length_pos).symm (max_eq_right s.history_pos).symm]

/-! ## Variables -/

/-- What a variable asks for: what is written in it, and the default if it is not set or blank. -/
inductive Asks (env : Environment) (name : String) (default : Int) : Int → Prop
  | unset (absent : env.lookup name = none) : Asks env name default default
  | blank {raw : String} (held : env.lookup name = some raw) (blank : ∀ c ∈ raw.toList, isBlank c = true) :
      Asks env name default default
  | set {raw : String} {n : Int} (held : env.lookup name = some raw) (writes : WritesWhole (trimBy isBlank raw.toList) n) :
      Asks env name default n

/-- A variable that is not blank and writes no whole number. -/
structure Spoils (env : Environment) (e : BadVariable) : Prop where
  held : env.lookup e.name = some e.value
  filled : ∃ c ∈ e.value.toList, isBlank c = false
  unwritten : ∀ n, ¬ WritesWhole (trimBy isBlank e.value.toList) n

section Variables
variable {env : Environment} {name raw : String} {default n : Int} {e : BadVariable}

theorem readInt?_trimmed (raw : String) :
    readInt? (String.ofList (trimBy isBlank raw.toList)) = some n ↔ WritesWhole (trimBy isBlank raw.toList) n := by
  have hwhite : ∀ c, isWhiteSpace c = true → isBlank c = true := fun c hc => by rw [isBlank, hc, Bool.true_or]
  have htrimmed := ((trimBy_trimmed isBlank raw.toList).mono hwhite).trimBy
  rw [readInt?_iff, String.toList_ofList, htrimmed]

theorem trimmed_ne_nil : trimBy isBlank raw.toList ≠ [] ↔ ∃ c ∈ raw.toList, isBlank c = false := by
  simp only [ne_eq, trimBy_eq_nil_iff, not_forall, Bool.not_eq_true, exists_prop]

theorem override_unset (h : env.lookup name = none) : override env name default = .ok default := by
  rw [override, h]

theorem override_blank (h : env.lookup name = some raw) (hblank : ∀ c ∈ raw.toList, isBlank c = true) :
    override env name default = .ok default := by
  rw [override, h]
  dsimp only
  rw [trimBy_eq_nil_iff.mpr hblank]
  rfl

theorem override_filled (h : env.lookup name = some raw) (hfilled : ∃ c ∈ raw.toList, isBlank c = false) :
    override env name default = (readInt? (String.ofList (trimBy isBlank raw.toList))).elim (.error ⟨name, raw⟩) .ok := by
  have hne : (trimBy isBlank raw.toList).isEmpty = false := List.isEmpty_eq_false_iff.mpr (trimmed_ne_nil.mpr hfilled)
  rw [override, h]
  dsimp only
  rw [hne, if_neg Bool.false_ne_true]
  cases readInt? (String.ofList (trimBy isBlank raw.toList)) <;> rfl

theorem Asks.override (h : Asks env name default n) : override env name default = .ok n := by
  cases h with
  | unset absent => exact override_unset absent
  | blank held blank => exact override_blank held blank
  | set held writes =>
    rw [override_filled held (trimmed_ne_nil.mp writes.ne_nil), (readInt?_trimmed _).mpr writes]
    rfl

theorem Spoils.override (h : Spoils env e) : override env e.name default = .error e := by
  have hread : readInt? (String.ofList (trimBy isBlank e.value.toList)) = none :=
    Option.eq_none_iff_forall_ne_some.mpr fun n hn => h.unwritten n ((readInt?_trimmed _).mp hn)
  rw [override_filled h.held h.filled, hread]
  rfl

/-- A variable asks for a number or spoils the settings. -/
theorem asks_or_spoils (env : Environment) (name : String) (default : Int) :
    (∃ n, Asks env name default n) ∨ ∃ raw, Spoils env ⟨name, raw⟩ := by
  cases hheld : env.lookup name with
  | none => exact .inl ⟨_, .unset hheld⟩
  | some raw =>
    by_cases hfilled : ∃ c ∈ raw.toList, isBlank c = false
    · by_cases hwrites : ∃ n, WritesWhole (trimBy isBlank raw.toList) n
      · obtain ⟨n, hwrites⟩ := hwrites
        exact .inl ⟨n, .set hheld hwrites⟩
      · exact .inr ⟨raw, hheld, hfilled, not_exists.mp hwrites⟩
    · simp only [not_exists, not_and, Bool.not_eq_false] at hfilled
      exact .inl ⟨_, .blank hheld hfilled⟩

theorem override_ok_iff : Settings.override env name default = .ok n ↔ Asks env name default n := by
  refine ⟨fun h => ?_, Asks.override⟩
  rcases asks_or_spoils env name default with ⟨m, hm⟩ | ⟨raw, hraw⟩
  · cases hm.override.symm.trans h
    exact hm
  · cases hraw.override.symm.trans h

theorem override_error_iff : Settings.override env name default = .error e ↔ e.name = name ∧ Spoils env e := by
  constructor
  · intro h
    rcases asks_or_spoils env name default with ⟨m, hm⟩ | ⟨raw, hraw⟩
    · cases hm.override.symm.trans h
    · cases hraw.override.symm.trans h
      exact ⟨rfl, hraw⟩
  · rintro ⟨rfl, hspoils⟩
    exact hspoils.override

end Variables

/-! ## Environments -/

/-- The variables in the order in which they are looked at. -/
def variableNames : List String := [parallelVariable, lengthVariable, timeoutVariable, historyVariable]

/-- What the variables ask for, the counts raised to one. -/
structure Asked (env : Environment) (s : Settings) : Prop where
  parallel : ∃ n, Asks env parallelVariable defaultParallel n ∧ s.maxParallelJobs = max 1 n
  length : ∃ n, Asks env lengthVariable defaultLength n ∧ s.maxQueueLength = max 1 n
  timeout : Asks env timeoutVariable defaultTimeout s.queueTimeout
  history : ∃ n, Asks env historyVariable defaultHistory n ∧ s.historyLimit = max 1 n

/-- The first of some variables that spoils the settings. -/
def FirstSpoils (env : Environment) (names : List String) (e : BadVariable) : Prop :=
  ∃ before after, names = before ++ e.name :: after ∧ (∀ name ∈ before, ∀ raw, ¬ Spoils env ⟨name, raw⟩) ∧ Spoils env e

section Environments
variable {env : Environment} {s : Settings} {e : BadVariable}

theorem ofEnvironment_ok_iff : ofEnvironment env = .ok s ↔ Asked env s := by
  constructor
  · intro h
    obtain ⟨parallel, hparallel, h⟩ := bind_eq_ok.mp h
    obtain ⟨length, hlength, h⟩ := bind_eq_ok.mp h
    obtain ⟨timeout, htimeout, h⟩ := bind_eq_ok.mp h
    obtain ⟨history, hhistory, h⟩ := bind_eq_ok.mp h
    cases h
    constructor
    case parallel => exact ⟨parallel, override_ok_iff.mp hparallel, atLeastOne_eq parallel⟩
    case length => exact ⟨length, override_ok_iff.mp hlength, atLeastOne_eq length⟩
    case timeout => exact override_ok_iff.mp htimeout
    case history => exact ⟨history, override_ok_iff.mp hhistory, atLeastOne_eq history⟩
  · rintro ⟨⟨parallel, hparallel, hp⟩, ⟨length, hlength, hl⟩, htimeout, ⟨history, hhistory, hh⟩⟩
    refine bind_eq_ok.mpr ⟨parallel, hparallel.override, bind_eq_ok.mpr ⟨length, hlength.override, bind_eq_ok.mpr
      ⟨_, htimeout.override, bind_eq_ok.mpr ⟨history, hhistory.override, ?_⟩⟩⟩⟩
    rw [floored_eq hp hl hh]
    rfl

theorem firstSpoils_nil : ¬ FirstSpoils env [] e := by
  rintro ⟨before, after, hnames, -⟩
  exact List.append_ne_nil_of_right_ne_nil _ (List.cons_ne_nil _ _) hnames.symm

/-- The first variable comes first if it spoils the settings; otherwise it asks for a number. -/
theorem firstSpoils_cons {name : String} {rest : List String} (default : Int) : FirstSpoils env (name :: rest) e ↔
    override env name default = .error e ∨ ∃ n, override env name default = .ok n ∧ FirstSpoils env rest e := by
  constructor
  · rintro ⟨before, after, hnames, hbefore, hspoils⟩
    cases before with
    | nil =>
      obtain ⟨rfl, -⟩ := List.cons.inj hnames
      exact .inl hspoils.override
    | cons first before =>
      obtain ⟨rfl, rfl⟩ := List.cons.inj hnames
      obtain ⟨hfirst, hbefore⟩ := List.forall_mem_cons.mp hbefore
      rcases asks_or_spoils env name default with ⟨n, hn⟩ | ⟨raw, hraw⟩
      · exact .inr ⟨n, hn.override, before, after, rfl, hbefore, hspoils⟩
      · exact absurd hraw (hfirst raw)
  · rintro (hfirst | ⟨n, hn, before, after, rfl, hbefore, hspoils⟩)
    · obtain ⟨rfl, hspoils⟩ := override_error_iff.mp hfirst
      exact ⟨[], rest, rfl, List.forall_mem_nil _, hspoils⟩
    · have hsound : ∀ raw, ¬ Spoils env ⟨name, raw⟩ := fun raw hraw => by cases hraw.override.symm.trans hn
      exact ⟨name :: before, after, rfl, List.forall_mem_cons.mpr ⟨hsound, hbefore⟩, hspoils⟩

theorem ofEnvironment_error_iff : ofEnvironment env = .error e ↔ FirstSpoils env variableNames e := by
  have hreturned : ∀ a : Settings, (pure a : Except BadVariable Settings) = .error e ↔ False := fun a =>
    iff_of_false (fun h => by cases h) id
  rw [variableNames, firstSpoils_cons defaultParallel, firstSpoils_cons defaultLength, firstSpoils_cons defaultTimeout,
    firstSpoils_cons defaultHistory, eq_false firstSpoils_nil]
  simp only [ofEnvironment, bind_eq_error, hreturned]

/-! ## Decimal texts -/

/-- The decimal text of a number, no longer than is read at all, between blanks and after a plus or none where the number
has no sign. -/
def Spells (raw : String) (n : Int) : Prop :=
  ∃ before plus after, raw.toList = before ++ (plus ++ (Number.intText n).toList) ++ after ∧
    (∀ c ∈ before, isBlank c = true) ∧ (∀ c ∈ after, isBlank c = true) ∧ (plus = [] ∨ plus = ['+'] ∧ 0 ≤ n) ∧
    (Decimal.digits n.natAbs).length ≤ digitLimit

theorem Spells.asks {name raw : String} {n : Int} (h : Spells raw n) (held : env.lookup name = some raw) (default : Int) :
    Asks env name default n := by
  obtain ⟨before, plus, after, hraw, hbefore, hafter, hplus, hdigits⟩ := h
  have hwrites := writesWhole_intText hplus hdigits
  have htrimmed : trimBy isBlank raw.toList = plus ++ (Number.intText n).toList := by
    rw [hraw]
    exact hwrites.trimmed.trimBy_around hwrites.ne_nil hbefore hafter
  exact .set held (by rwa [htrimmed])

/-- The variables hold the decimal texts of settings. -/
structure Holds (env : Environment) (s : Settings) : Prop where
  parallel : ∃ raw, env.lookup parallelVariable = some raw ∧ Spells raw s.maxParallelJobs
  length : ∃ raw, env.lookup lengthVariable = some raw ∧ Spells raw s.maxQueueLength
  timeout : ∃ raw, env.lookup timeoutVariable = some raw ∧ Spells raw s.queueTimeout
  history : ∃ raw, env.lookup historyVariable = some raw ∧ Spells raw s.historyLimit

theorem Holds.asked (h : Holds env s) : Asked env s := by
  obtain ⟨⟨parallel, hparallel, hp⟩, ⟨length, hlength, hl⟩, ⟨timeout, htimeout, ht⟩, ⟨history, hhistory, hh⟩⟩ := h
  constructor
  case parallel => exact ⟨_, hp.asks hparallel _, (max_eq_right s.parallel_pos).symm⟩
  case length => exact ⟨_, hl.asks hlength _, (max_eq_right s.length_pos).symm⟩
  case timeout => exact ht.asks htimeout _
  case history => exact ⟨_, hh.asks hhistory _, (max_eq_right s.history_pos).symm⟩

end Environments

/-- Settings are read back from their value and from their decimal texts in an environment; and an environment yields what
its variables ask for, or is refused for the first of them that writes no number. -/
theorem settings_survive :
    (∀ s : Settings, read s.toValue = .ok s ∧ 1 ≤ s.maxParallelJobs ∧ 1 ≤ s.maxQueueLength ∧ 1 ≤ s.historyLimit) ∧
    (∀ env s, Holds env s → ofEnvironment env = .ok s) ∧
    (∀ env s, ofEnvironment env = .ok s ↔ Asked env s) ∧
    ∀ env e, ofEnvironment env = .error e ↔ FirstSpoils env variableNames e := by
  refine ⟨fun s => ?_, fun env s h => ?_, fun env s => ?_, fun env e => ?_⟩
  · exact ⟨s.read_toValue, s.parallel_pos, s.length_pos, s.history_pos⟩
  · exact ofEnvironment_ok_iff.mpr h.asked
  · exact ofEnvironment_ok_iff
  · exact ofEnvironment_error_iff

/-- An environment with blanks and a plus around its numbers, one of them below zero. -/
def looseEnvironment : Environment :=
  [("PATH", "/bin"), (parallelVariable, " +3\n"), (timeoutVariable, "-5000"), (lengthVariable, "\t12 "), (historyVariable, "7")]

/-- An environment with two variables that write no numbers, and one that writes its number in a script of its own. -/
def spoiledEnvironment : Environment :=
  [(historyVariable, "many"), (lengthVariable, " 1__0 "), (parallelVariable, "٣")]

theorem loose_and_spoiled : Holds looseEnvironment (floored 3 12 (-5000) 7) ∧
    ofEnvironment looseEnvironment = .ok (floored 3 12 (-5000) 7) ∧
    FirstSpoils spoiledEnvironment variableNames ⟨lengthVariable, " 1__0 "⟩ := by
  obtain ⟨-, hholds, -, hspoils⟩ := settings_survive
  have hnone : ∀ c ∈ ([] : List Char), isBlank c = true := List.forall_mem_nil _
  have hone : ∀ c, isBlank c = true → ∀ d ∈ [c], isBlank d = true := by simp
  have hloose : Holds looseEnvironment (floored 3 12 (-5000) 7) := by
    constructor
    case parallel =>
      exact ⟨_, rfl, [' '], ['+'], ['\n'], by decide, hone _ rfl, hone _ rfl, .inr ⟨rfl, by decide⟩, by decide⟩
    case length => exact ⟨_, rfl, ['\t'], [], [' '], by decide, hone _ rfl, hone _ rfl, .inl rfl, by decide⟩
    case timeout => exact ⟨_, rfl, [], [], [], by decide, hnone, hnone, .inl rfl, by decide⟩
    case history => exact ⟨_, rfl, [], [], [], by decide, hnone, hnone, .inl rfl, by decide⟩
  have hrefused : ofEnvironment spoiledEnvironment = .error ⟨lengthVariable, " 1__0 "⟩ := by decide
  exact ⟨hloose, hholds _ _ hloose, (hspoils _ _).mp hrefused⟩

end MediaEngine.Settings
