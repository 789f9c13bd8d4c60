import MediaEngine.Proofs.Compile.Dependence
import MediaEngine.Proofs.Exits
import MediaEngine.Proofs.Written.Texts

/-! # The two commands

Whatever arguments a call has, what is kept for a switch is of the kind that the switch takes, or nothing at all where
two dashes stand behind its equals sign (`parse_fits`). So the overrides of a preview are numbers, with which a chain
compiles exactly as it does without them, but for the preview; and `plan` and `validate` agree. -/

namespace MediaEngine.CommandLine

/-! ## What is kept for a switch -/

/-- What may be kept for a switch that takes an argument of a kind. -/
inductive ArgumentKind.Fits : ArgumentKind → Value → Prop
  | text (s : String) : Fits .text (.text s)
  | whole (n : Int) : Fits .whole (.int n)
  | decimal (x : Binary64) : Fits .decimal (.double x)
  | nothing (kind : ArgumentKind) : Fits kind (.list [])

section Reading
variable {g : Grammar} {s : Switch} {kind : ArgumentKind} {argument : String} {attached : Attached} {v : Value}

theorem Switch.read_fits (h : s.read kind argument = .ok v) : kind.Fits v := by
  unfold Switch.read at h
  dsimp only at h
  split at h
  · rename_i w hw
    cases h
    cases kind with
    | text =>
      cases hw
      exact .text argument
    | whole =>
      obtain ⟨n, -, rfl⟩ := Option.map_eq_some_iff.mp hw
      exact .whole n
    | decimal =>
      obtain ⟨x, -, rfl⟩ := Option.map_eq_some_iff.mp hw
      exact .decimal x
  · cases h

theorem Switch.readAttached_fits (h : s.readAttached kind argument = .ok v) : kind.Fits v := by
  unfold Switch.readAttached at h
  split at h
  · cases h
    exact .nothing kind
  · exact read_fits h

theorem Grammar.named_mem {name : String} (h : (name, s) ∈ g.named) : s ∈ g.switches := by
  obtain ⟨s', hs', h⟩ := List.mem_flatMap.mp h
  obtain ⟨n, -, h⟩ := List.mem_map.mp h
  cases h
  exact hs'

theorem Grammar.candidates_mem {cs : List Char} {name : String} (h : (name, s, attached) ∈ g.candidates cs) :
    s ∈ g.switches := by
  unfold Grammar.candidates at h
  split at h
  · obtain ⟨⟨n, s'⟩, hn, h⟩ := List.mem_map.mp h
    cases h
    exact named_mem (List.mem_filter.mp hn).1
  · obtain ⟨⟨n, s'⟩, hn, h⟩ := List.mem_filterMap.mp h
    dsimp only at h
    split at h
    · cases h
      exact named_mem hn
    · split at h <;> cases h
      exact named_mem hn

/-- An argument is taken for no other switch than one of the grammar. -/
theorem Grammar.read_mem (h : g.read argument = .ok (.switch s attached)) : s ∈ g.switches := by
  have named : ∀ {name s'}, g.named.lookup name = some s' → s' ∈ g.switches := fun hlookup => by
    obtain ⟨before, after, hnamed, -⟩ := List.lookup_eq_some_iff.mp hlookup
    exact named_mem (hnamed ▸ List.mem_append_right before List.mem_cons_self)
  unfold Grammar.read at h
  dsimp only at h
  split at h
  · cases h
  split at h
  · rename_i s' hlookup
    cases h
    exact named hlookup
  split at h
  · cases h
  split at h
  · rename_i s' hlookup
    cases h
    exact named hlookup
  unfold Grammar.guess at h
  dsimp only at h
  split at h
  · rename_i hone
    cases h
    exact candidates_mem (hone ▸ List.mem_singleton_self _)
  · split at h <;> cases h
  · cases h

/-- A token that is taken for a switch is taken for one of the grammar. -/
def Grammar.Reads (g : Grammar) (t : Token) : Prop := ∀ s attached, t.reading = .switch s attached → s ∈ g.switches

theorem Grammar.tokens_read {arguments : List String} {tokens : List Token} (h : g.tokens arguments = .ok tokens) :
    ∀ t ∈ tokens, g.Reads t := by
  induction arguments generalizing tokens with
  | nil =>
    cases h
    exact nofun
  | cons a rest ih =>
    unfold Grammar.tokens at h
    split at h
    · cases h
      refine List.forall_mem_cons.mpr ⟨nofun, fun t ht => ?_⟩
      obtain ⟨b, -, rfl⟩ := List.mem_map.mp ht
      exact nofun
    · obtain ⟨reading, hreading, h⟩ := bind_eq_ok.mp h
      obtain ⟨more, hmore, h⟩ := bind_eq_ok.mp h
      cases h
      exact List.forall_mem_cons.mpr ⟨fun s attached hs => read_mem (hreading.trans (congrArg _ hs)), ih hmore⟩

end Reading

theorem Members.mem_set {m : Members} {key : String} {value : Value} {member : String × Value}
    (h : member ∈ Members.set key value m) : member = (key, value) ∨ member ∈ m := by
  induction m with
  | nil => exact .inl (List.mem_singleton.mp h)
  | cons first rest ih =>
    obtain ⟨k, v⟩ := first
    unfold Members.set at h
    split at h
    · rename_i hk
      rcases List.mem_cons.mp h with rfl | h
      · exact .inl (congrArg (·, value) hk)
      · exact .inr (List.mem_cons_of_mem _ h)
    · rcases List.mem_cons.mp h with rfl | h
      · exact .inr List.mem_cons_self
      · exact (ih h).imp_right (List.mem_cons_of_mem _)

/-- All that is kept belongs to switches of the grammar and is of their kinds. -/
def Grammar.Keeps (g : Grammar) (p : Parsed) : Prop :=
  ∀ member ∈ p.values, ∃ s ∈ g.switches, ∃ kind, s.key = member.1 ∧ s.role = .takes kind ∧ kind.Fits member.2

section Parsing
variable {g : Grammar} {p q : Parsed}

theorem Grammar.keeps_empty (g : Grammar) : g.Keeps .empty := by
  intro member hmember
  cases hmember

theorem Grammar.Keeps.take (h : g.Keeps p) {s : Switch} {kind : ArgumentKind} {v : Value} (hs : s ∈ g.switches)
    (hrole : s.role = .takes kind) (hv : kind.Fits v) : g.Keeps (p.take s v) := by
  intro member hmember
  rcases Members.mem_set hmember with rfl | hmember
  · exact ⟨s, hs, kind, rfl, hrole, hv⟩
  · exact h member hmember

theorem Grammar.parseFrom_keeps {tokens : List Token} (htokens : ∀ t ∈ tokens, g.Reads t) (hp : g.Keeps p)
    (h : g.parseFrom p tokens = .ok q) : g.Keeps q := by
  fun_induction Grammar.parseFrom g p tokens
  case case1 | case10 | case11 | case15 | case16 =>
    cases h
    exact hp
  case case2 | case5 | case7 => cases h
  case case3 hrole _ hread ih | case4 hrole _ hread ih =>
    obtain ⟨v, hv, h⟩ := bind_eq_ok.mp h
    obtain ⟨hswitch, hrest⟩ := List.forall_mem_cons.mp htokens
    exact ih v hrest (hp.take (hswitch _ _ hread) hrole (Switch.readAttached_fits hv)) h
  case case6 hrole _ _ _ hread ih =>
    obtain ⟨v, hv, h⟩ := bind_eq_ok.mp h
    obtain ⟨hswitch, hrest⟩ := List.forall_mem_cons.mp htokens
    exact ih v (List.forall_mem_cons.mp hrest).2 (hp.take (hswitch _ _ hread) hrole (Switch.read_fits hv)) h
  case case8 ih | case9 ih | case13 ih | case14 ih => exact ih (List.forall_mem_cons.mp htokens).2 hp h
  case case12 ih | case17 ih => exact ih (List.forall_mem_cons.mp (List.forall_mem_cons.mp htokens).2).2 hp h

theorem Grammar.parse_keeps {arguments : List String} {operand : String} (h : g.parse arguments = .ok (operand, p)) :
    g.Keeps p := by
  unfold Grammar.parse at h
  split at h
  · cases h
  · rename_i tokens htokens
    obtain ⟨q, hq, h⟩ := bind_eq_ok.mp h
    have hkeeps : g.Keeps q := parseFrom_keeps (tokens_read htokens) g.keeps_empty hq
    split at h
    · cases h
    · split at h
      · cases h
        exact hkeeps
      · split at h <;> cases h
        exact hkeeps

theorem Grammar.Keeps.fits (h : g.Keeps p) (hkeys : (g.switches.map Switch.key).Nodup) {s : Switch} {kind : ArgumentKind}
    {v : Value} (hs : s ∈ g.switches) (hrole : s.role = .takes kind) (hv : p.valueOf? s = some v) : kind.Fits v := by
  obtain ⟨before, after, hvalues, -⟩ := List.lookup_eq_some_iff.mp hv
  obtain ⟨s', hs', kind', hkey, hrole', hfits⟩ := h (s.key, v) (hvalues ▸ List.mem_append_right before List.mem_cons_self)
  obtain rfl := List.inj_on_of_nodup_map hkeys hs' hs hkey
  cases hrole.symm.trans hrole'
  exact hfits

end Parsing

/-! ## The overrides -/

/-- The overrides that are given, under their names. -/
def given (o : PreviewOverrides) : Members :=
  (o.width.map fun n => ("width", Value.int n)).toList ++ (o.height.map fun n => ("height", Value.int n)).toList ++
    (o.maxFps.map fun x => ("max_fps", Value.double x)).toList

/-- The overrides are read as they are given. -/
theorem read_given (o : PreviewOverrides) :
    ∃ read, (OptionsInput.value (optionsOf (given o))).read = .ok (.options read) ∧ read.overrides = o := by
  cases o with
  | mk width height maxFps => cases width <;> cases height <;> cases maxFps <;> exact ⟨_, rfl, rfl⟩

theorem Parsed.given_eq {α : Type} {p : Parsed} {s : Switch} {kind : ArgumentKind} {make : α → Value}
    (hmake : ∀ v, kind.Fits v → v ≠ .list [] → ∃ a, v = make a) (hp : planGrammar.Keeps p) (hs : s ∈ planGrammar.switches)
    (hrole : s.role = .takes kind) {name : String} (hno : ∀ member ∈ p.given s name, member.2 ≠ .list []) :
    ∃ a : Option α, p.given s name = (a.map fun a => (name, make a)).toList := by
  unfold Parsed.given at hno ⊢
  cases hv : p.valueOf? s with
  | none => exact ⟨none, rfl⟩
  | some v =>
    rw [hv] at hno
    obtain ⟨a, rfl⟩ := hmake v (hp.fits (by decide) hs hrole hv) (hno _ List.mem_cons_self)
    exact ⟨some a, rfl⟩

/-- Where no switch stands without its argument, the overrides that a call asks for are numbers. -/
theorem given_of_invocation {arguments : List String} {level : Option String} {preview : Members} {indent : Option Int}
    {chain : String} (h : invocation arguments = .ok ⟨level, .plan preview indent, chain⟩)
    (hno : ∀ member ∈ preview, member.2 ≠ .list []) : ∃ o, preview = given o := by
  -- A switch has a number as its argument, or it stands alone, which was excluded.
  have whole : ∀ v, ArgumentKind.whole.Fits v → v ≠ .list [] → ∃ n, v = Value.int n := fun v hv hne => by
    cases hv with
    | whole n => exact ⟨n, rfl⟩
    | nothing => exact absurd rfl hne
  have decimal : ∀ v, ArgumentKind.decimal.Fits v → v ≠ .list [] → ∃ x, v = Value.double x := fun v hv hne => by
    cases hv with
    | decimal x => exact ⟨x, rfl⟩
    | nothing => exact absurd rfl hne
  obtain ⟨⟨word, program⟩, -, h⟩ := bind_eq_ok.mp h
  obtain ⟨⟨chain', p⟩, hp, h⟩ := bind_eq_ok.mp h
  dsimp only at h
  split at h
  · simp only [pure, Except.pure, Except.ok.injEq, Invocation.mk.injEq] at h
    obtain ⟨-, hcommand, -⟩ := h
    split at hcommand
    · rename_i hword
      cases hcommand
      rw [if_pos hword] at hp
      have hkeeps : planGrammar.Keeps p := by
        unfold readBy at hp
        split at hp <;> cases hp
        rename_i hparse
        exact Grammar.parse_keeps hparse
      simp only [List.forall_mem_append] at hno
      obtain ⟨⟨hwidth, hheight⟩, hfps⟩ := hno
      obtain ⟨width, hwidth⟩ := Parsed.given_eq whole hkeeps (by decide) rfl hwidth
      obtain ⟨height, hheight⟩ := Parsed.given_eq whole hkeeps (by decide) rfl hheight
      obtain ⟨maxFps, hfps⟩ := Parsed.given_eq decimal hkeeps (by decide) rfl hfps
      exact ⟨⟨width, height, maxFps⟩, by rw [hwidth, hheight, hfps]; rfl⟩
    · cases hcommand
  · cases h

/-! ## Compilations that differ in the preview -/

/-- What is made of the nodes, but for the preview. -/
def bare (c : Compilation) : Compilation := { c with plan := { c.plan with preview := .sized 0 0 (Binary64.ofNat 0) } }

/-- The options reach nothing but the preview. -/
theorem compileNodes_bare (cwd : String) (o o' : PlanOptions) (nodes : List Chain.Node) :
    (compileNodes cwd (.options o) nodes).map bare = (compileNodes cwd (.options o') nodes).map bare := by
  have hbind : ∀ {α : Type} (x : Except CompileError α) {f f' : α → Except CompileError Compilation},
      (∀ a, (f a).map bare = (f' a).map bare) → (x >>= f).map bare = (x >>= f').map bare := fun x f f' h => by
    cases x with
    | error e => rfl
    | ok a => exact h a
  unfold compileNodes
  dsimp only
  split
  · rfl
  · rfl
  · rfl
  · refine hbind _ fun window => hbind _ fun speed => hbind _ fun stages => ?_
    change ((arithmetic _ >>= _ : Except CompileError Compilation)).map bare = (arithmetic _ >>= _).map bare
    exact hbind _ fun duration => rfl

/-- What a compilation comes to with readable options is what it comes to without any, but for the preview. -/
theorem compilation_bare (cwd : String) (v : Value) (o : PreviewOverrides) :
    (compilation cwd (.value v) (.value (optionsOf (given o)))).map bare = (compilation cwd (.value v) (.value .null)).map bare := by
  obtain ⟨read, hread, -⟩ := read_given o
  unfold compilation
  cases ChainInput.nodes (.value v) with
  | error e => rfl
  | ok nodes =>
    change (OptionsInput.read _ >>= _).map bare = _
    rw [hread]
    exact compileNodes_bare cwd read .none nodes

/-! ## Both commands on one file -/

/-- Two calls end with the same code or by the same failure, and write the same errors. -/
def Outcome.Alike (a b : Outcome) : Prop := a.ending = b.ending ∧ a.errors = b.errors

section Agreement
variable {s : Surroundings} {v : Value} {o : PreviewOverrides}

/-- With overrides a chain compiles as without them, or is refused or fails alike. -/
theorem compileChain_given (s : Surroundings) (v : Value) (o : PreviewOverrides) :
    (∃ e, compileChain s v (given o) = .error e ∧ compileChain s v [] = .error e) ∨
      ∃ c c', compileChain s v (given o) = .ok c ∧ compileChain s v [] = .ok c' ∧ bare c = bare c' := by
  have hbare := compilation_bare s.directory v o
  unfold compileChain
  change (compilation _ _ (.value (optionsOf (given o)))).map bare = (compilation _ _ (.value (optionsOf []))).map bare at hbare
  cases hgiven : compilation s.directory (.value v) (.value (optionsOf (given o))) with
  | ok c =>
    cases hplain : compilation s.directory (.value v) (.value (optionsOf [])) with
    | ok c' =>
      rw [hgiven, hplain] at hbare
      exact .inr ⟨c, c', rfl, rfl, Except.ok.inj hbare⟩
    | error e =>
      rw [hgiven, hplain] at hbare
      cases hbare
  | error e =>
    cases hplain : compilation s.directory (.value v) (.value (optionsOf [])) with
    | ok c' =>
      rw [hgiven, hplain] at hbare
      cases hbare
    | error e' =>
      rw [hgiven, hplain] at hbare
      cases hbare
      cases e <;> exact .inl ⟨_, rfl, rfl⟩

/-- A chain that compiles with overrides compiles to the plan that they make of it. -/
theorem plan_of_given {c : Compilation} (h : compileChain s v (given o) = .ok c) :
    compile s.directory (.value v) (.options ⟨some o⟩) = .ok c.plan := by
  obtain ⟨read, hread, hoverrides⟩ := read_given o
  have hcompilation : compilation s.directory (.value v) (.value (optionsOf (given o))) = .ok c := by
    unfold compileChain at h
    split at h <;> cases h
    assumption
  obtain ⟨nodes, hnodes, hc⟩ := bind_eq_ok.mp hcompilation
  rw [hread] at hc
  have hsource : (OptionsSource.options read).overrides = (OptionsSource.options ⟨some o⟩).overrides :=
    congrArg Except.ok hoverrides
  have hsame : compileNodes s.directory (.options read) nodes = compileNodes s.directory (.options ⟨some o⟩) nodes := by
    unfold compileNodes
    rw [hsource]
  refine bind_eq_ok.mpr ⟨c, bind_eq_ok.mpr ⟨nodes, hnodes, ?_⟩, rfl⟩
  exact hsame.symm.trans hc

theorem plan_of_bare {c : Compilation} (h : compileChain s v [] = .ok c) :
    compile s.directory (.value v) (.value .null) = .ok c.plan := by
  unfold compileChain at h
  split at h <;> cases h
  rename_i hcompilation
  exact bind_eq_ok.mpr ⟨c, hcompilation, rfl⟩

theorem summary_bare {c c' : Compilation} (h : bare c = bare c') : summary s c.plan = summary s c'.plan :=
  (congrArg (fun c => summary s c.plan) h :)

theorem debugLine_bare {c c' : Compilation} (h : bare c = bare c') : debugLine s.time c = debugLine s.time c' :=
  (congrArg (fun c => debugLine s.time c) h :)

end Agreement

section Early
variable {s : Surroundings} {v : Value} {x : Outcome}

theorem Reads.unheld (h : Reads s (.error x)) (v : Value) : ¬ s.Holds v := by
  cases h with
  | stops message _ hno => exact hno v
  | escapes f hno => exact fun hv => hno hv.legible

theorem Reads.unsuccessful (h : Reads s (.error x)) : x.ending ≠ .ok successCode := by
  cases h <;> exact nofun

theorem Compiles.unsuccessful {options : OptionsInput} (h : Compiles s v options (.error x)) :
    x.ending ≠ .ok successCode := by
  cases h <;> exact nofun

theorem Compiles.uncompiled {options : OptionsInput} (h : Compiles s v options (.error x)) (plan : Plan) :
    compile s.directory (.value v) options ≠ .ok plan := by
  cases h with
  | stops _ _ herror | escapes _ _ herror => exact fun hplan => nomatch herror.symm.trans hplan

end Early

section Together
variable {s : Surroundings} {o : PreviewOverrides} {indent : Option Int} {planned validated : Outcome}

/-- What both commands come to on one file: the same end, before there is a plan, or a plan that one of them prints and the
    other one sums up. -/
inductive Together (s : Surroundings) (o : PreviewOverrides) (indent : Option Int) : Outcome → Outcome → Prop
  | early (x : Outcome) : x.ending ≠ .ok successCode →
      (∀ v plan, s.Holds v → compile s.directory (.value v) (.value .null) ≠ .ok plan) → Together s o indent x x
  | late {v : Value} {plan bare : Plan} (errors : String) : s.Holds v →
      compile s.directory (.value v) (.options ⟨some o⟩) = .ok plan →
      compile s.directory (.value v) (.value .null) = .ok bare →
      Together s o indent
        (match planText indent plan with
          | .ok output => ⟨.ok successCode, output, errors⟩
          | .error f => ⟨.error f, "", errors⟩)
        ⟨.ok successCode, summary s plan, errors⟩

theorem runs_together (s : Surroundings) (o : PreviewOverrides) (indent : Option Int) (level chain : String) :
    Together s o indent (Invocation.run ⟨some level, .plan (given o) indent, chain⟩ s)
      (Invocation.run ⟨some level, .validate, chain⟩ s) := by
  let i : Invocation := ⟨some level, .plan (given o) indent, chain⟩
  let j : Invocation := ⟨some level, .validate, chain⟩
  change Together s o indent (i.run s) (j.run s)
  have hreads := readChain_reads s
  -- Both commands read and compile the same, so they part only in what they print.
  cases hread : readChain s with
  | error x =>
    have hi : i.report s (levelOf level) = .error x := report_unread _ hread
    have hj : j.report s (levelOf level) = .error x := report_unread _ hread
    rw [hread] at hreads
    rw [run_of_report rfl (.inr hi), run_of_report rfl (.inr hj)]
    exact .early x hreads.unsuccessful fun v _ hv => absurd hv (hreads.unheld v)
  | ok v =>
    rw [hread] at hreads
    cases hreads with
    | value hv =>
      rcases compileChain_given s v o with ⟨x, hgiven, hplain⟩ | ⟨c, c', hgiven, hplain, hbare⟩
      · have hi : i.report s (levelOf level) = .error x := report_uncompiled _ hread hgiven
        have hj : j.report s (levelOf level) = .error x := report_uncompiled _ hread hplain
        have hcompiles := compileChain_compiles s v .validate
        rw [Command.preview, hplain] at hcompiles
        rw [run_of_report rfl (.inr hi), run_of_report rfl (.inr hj)]
        refine .early x hcompiles.unsuccessful fun w plan hw => ?_
        rw [hw.unique hv]
        exact hcompiles.uncompiled plan
      · have hi := @report_compiled s i v c (levelOf level) hread hgiven
        have hj := @report_compiled s j v c' (levelOf level) hread hplain
        rw [run_of_report rfl (.inl hi), run_of_report rfl (.inl hj)]
        change Together _ _ _ _ ⟨_, summary s c'.plan, if _ then debugLine s.time c' else ""⟩
        rw [← summary_bare hbare, ← debugLine_bare hbare]
        exact .late _ hv (plan_of_given hgiven) (plan_of_bare hplain)

theorem Together.alike_iff (h : Together s o indent planned validated) : planned.Alike validated ↔
    ∀ v plan, s.Holds v → compile s.directory (.value v) (.value .null) = .ok plan →
      (Command.plan (given o) indent).Printable := by
  cases h with
  | early x _ hno => exact iff_of_true ⟨rfl, rfl⟩ fun v plan hv hplan => absurd hplan (hno v plan hv)
  | @late v plan bare errors hv _ hbare =>
    have hprint := print_ok_iff (.plan (given o) indent) s plan
    cases htext : planText indent plan with
    | ok output => exact iff_of_true ⟨rfl, rfl⟩ fun _ _ _ _ => hprint.mp ⟨output, htext⟩
    | error f =>
      refine iff_of_false (fun h => nomatch h.1) fun hall => ?_
      obtain ⟨output, houtput⟩ := hprint.mpr (hall v bare hv hbare)
      cases htext.symm.trans houtput

theorem planText_eq_ok {plan : Plan} {output : String} (hw : plan.isWritable = true) (h : planText indent plan = .ok output) :
    ∃ text, plan.json? indent = some text ∧ output = text ++ "\n" := by
  unfold planText at h
  split at h
  · cases h
  · split at h <;> cases h
    rename_i layout hlayout
    exact ⟨_, (Plan.json?_eq_some hw).mpr ⟨layout, hlayout, rfl⟩, rfl⟩

theorem Together.success (h : Together s o indent planned validated) (hsuccess : planned.ending = .ok successCode) :
    ∃ v plan text, s.Holds v ∧ compile s.directory (.value v) (.options ⟨some o⟩) = .ok plan ∧
      plan.json? indent = some text ∧ planned.output = text ++ "\n" ∧ validated.output = summary s plan := by
  cases h with
  | early x hx => exact absurd hsuccess hx
  | @late v plan bare errors hv hplan _ =>
    obtain ⟨_, _, _, _, _, ha⟩ := compile_assembled hplan
    cases htext : planText indent plan with
    | error f =>
      rw [htext] at hsuccess
      cases hsuccess
    | ok output =>
      obtain ⟨text, hjson, rfl⟩ := planText_eq_ok ha.isWritable htext
      exact ⟨v, plan, text, hv, hplan, hjson, rfl, rfl⟩

end Together

/-- On one file, at one log level and at the same time, `plan` with overrides that are given as numbers ends as `validate`
    does, exactly as long as there is the indentation that it is asked for or no plan to be printed. If it succeeds, it
    prints the plan that the overrides make of the chain, and `validate` sums up the same plan. -/
theorem plan_and_validate_agree {arguments : List String} {level chain : String} {preview : Members} {indent : Option Int}
    (h : invocation arguments = .ok ⟨some level, .plan preview indent, chain⟩)
    (hno : ∀ member ∈ preview, member.2 ≠ .list []) (s : Surroundings) :
    let planned := Invocation.run ⟨some level, .plan preview indent, chain⟩ s
    let validated := Invocation.run ⟨some level, .validate, chain⟩ s
    (planned.Alike validated ↔ ∀ v plan, s.Holds v → compile s.directory (.value v) (.value .null) = .ok plan →
      (Command.plan preview indent).Printable) ∧
    (planned.ending = .ok successCode → ∃ v o plan text, s.Holds v ∧ preview = given o ∧
      compile s.directory (.value v) (.options ⟨some o⟩) = .ok plan ∧
      plan.json? indent = some text ∧ planned.output = text ++ "\n" ∧ validated.output = summary s plan) := by
  obtain ⟨o, rfl⟩ := given_of_invocation h hno
  have htogether := runs_together s o indent level chain
  refine ⟨htogether.alike_iff, fun hsuccess => ?_⟩
  obtain ⟨v, plan, text, hv, hplan, htext, hplanned, hvalidated⟩ := htogether.success hsuccess
  exact ⟨v, o, plan, text, hv, rfl, hplan, htext, hplanned, hvalidated⟩

/-- The numbers of members that are all numbers. -/
def numbers? : Members → Option (List (String × Number))
  | [] => some []
  | (name, .number n) :: rest => (numbers? rest).map ((name, n) :: ·)
  | _ => none

theorem numbers?_eq_some {m : Members} {ns : List (String × Number)} (h : numbers? m = some ns) :
    m = ns.map fun member => (member.1, .number member.2) := by
  fun_induction numbers? generalizing ns with
  | case1 =>
    cases h
    rfl
  | case2 name n rest ih =>
    obtain ⟨ms, hms, rfl⟩ := Option.map_eq_some_iff.mp h
    rw [List.map_cons, ← ih hms]
  | case3 => cases h

/-- What a call of `plan` asks for, if its overrides are numbers. -/
def asked? : Except Exit Invocation → Option (Option String × List (String × Number) × Option Int × String)
  | .ok ⟨level, .plan preview indent, chain⟩ => (numbers? preview).map (level, ·, indent, chain)
  | _ => none

theorem asked?_eq_some {x : Except Exit Invocation} {level : Option String} {ns : List (String × Number)}
    {indent : Option Int} {chain : String} (h : asked? x = some (level, ns, indent, chain)) :
    x = .ok ⟨level, .plan (ns.map fun member => (member.1, .number member.2)) indent, chain⟩ := by
  unfold asked? at h
  split at h
  · obtain ⟨ms, hms, h⟩ := Option.map_eq_some_iff.mp h
    cases h
    rw [← numbers?_eq_some hms]
  · cases h

/-- A directory with a chain that compiles. -/
def withChain : Surroundings := ⟨"/work", "/work/chain.json", .bytes (ratedChain "30").toUTF8, "", 985⟩

/-- A width of zero is an override, with which both commands succeed. -/
theorem zero_width_agrees :
    let i : Invocation := ⟨some "WARNING", .plan [("width", .int 0)] (some 4), "chain.json"⟩
    let j : Invocation := ⟨some "WARNING", .validate, "chain.json"⟩
    invocation ["plan", "--preview-width=0", "chain.json", "--indent", "4"] = .ok i ∧
      invocation ["validate", "chain.json"] = .ok j ∧ (i.run withChain).Alike (j.run withChain) ∧
      (i.run withChain).ending = .ok successCode ∧
      ∃ v o plan text, withChain.Holds v ∧ [("width", .int 0)] = given o ∧
        compile "/work" (.value v) (.options ⟨some o⟩) = .ok plan ∧ plan.json? (some 4) = some text ∧
        (i.run withChain).output = text ++ "\n" ∧ (j.run withChain).output = summary withChain plan := by
  intro i j
  have hi : invocation ["plan", "--preview-width=0", "chain.json", "--indent", "4"] = .ok i :=
    asked?_eq_some (show _ = some (_, [("width", .int 0)], _, _) by decide +kernel)
  have hno : ∀ member ∈ [("width", Value.int 0)], member.2 ≠ .list [] := by
    intro member hmember
    rw [List.mem_singleton.mp hmember]
    exact nofun
  have hsuccess : (i.run withChain).ending = .ok successCode := ok_of_toOption (by decide +kernel)
  obtain ⟨halike, hprinted⟩ := plan_and_validate_agree hi hno withChain
  exact ⟨hi, rfl, halike.mpr fun _ _ _ _ => ⟨4, rfl, by decide, by decide⟩, hsuccess, hprinted hsuccess⟩

/-- A negative indentation is as good as none, but not beyond the limit: there `plan` fails where `validate` succeeds. -/
theorem wide_indent_disagrees : ∃ i j,
    invocation ["plan", "--indent=-99999999999999999999", "chain.json"] = .ok i ∧
      invocation ["validate", "chain.json"] = .ok j ∧ i.level = some "WARNING" ∧ j.level = some "WARNING" ∧
      (j.run withChain).ending = .ok successCode ∧ (∀ code, (i.run withChain).ending ≠ .ok code) ∧
      ¬ (i.run withChain).Alike (j.run withChain) := by
  let i : Invocation := ⟨some "WARNING", .plan [] (some (-99999999999999999999)), "chain.json"⟩
  let j : Invocation := ⟨some "WARNING", .validate, "chain.json"⟩
  have hfails : (i.run withChain).ending.toOption = none := by decide +kernel
  have hsuccess : (j.run withChain).ending = .ok successCode := ok_of_toOption (by decide +kernel)
  have hno : ∀ code, (i.run withChain).ending ≠ .ok code := fun code h => by
    rw [h] at hfails
    cases hfails
  have hi : invocation ["plan", "--indent=-99999999999999999999", "chain.json"] = .ok i :=
    asked?_eq_some (show _ = some (_, [], _, _) by decide +kernel)
  exact ⟨i, j, hi, rfl, rfl, rfl, hsuccess, hno, fun h => hno successCode (h.1.trans hsuccess)⟩

end MediaEngine.CommandLine
