import MediaEngine.CommandLine
import MediaEngine.Proofs.Compile.Refusals

/-! # How a call ends

A call is carried out in three parts: the chain is read from the file, it is compiled, and the plan is printed. Each of
them goes on, ends the call with a code of its own, or fails without one. Here it is told in terms of the file and
the arguments when a call ends with a code at all (`Reportable`), and with which (`exit_codes`). -/

namespace MediaEngine

/-- Whether a text with this problem is not JSON, rather than JSON that is not read. -/
def Json.Problem.isMistake : Json.Problem → Bool
  | .tooManyDigits _ | .tooDeep => false
  | _ => true

namespace CommandLine
open Chain
variable {s : Surroundings} {i : Invocation} {v : Value}

/-! ## The parts of a call -/

/-- The text in the file, with every line break a line feed; none where its bytes are no text. -/
def Surroundings.text? (s : Surroundings) : Option String :=
  match s.file with
  | .bytes content => (String.fromUTF8? content).map fun text => String.ofList (unifyBreaks text.toList)
  | _ => none

/-- The text in the file is JSON that writes this value. -/
def Surroundings.Holds (s : Surroundings) (v : Value) : Prop :=
  ∃ text, s.text? = some text ∧ Json.parseWithin s.depthLimit text = .ok v

/-- There is no file, or there is a text in it which is read as JSON or is not JSON. -/
def Surroundings.Legible (s : Surroundings) : Prop :=
  s.file = .missing ∨
    ∃ text, s.text? = some text ∧ ∀ e, Json.parseWithin s.depthLimit text = .error e → e.problem.isMistake = true

theorem Surroundings.Holds.unique {w : Value} (hv : s.Holds v) (hw : s.Holds w) : v = w := by
  obtain ⟨text, htext, hparse⟩ := hv
  obtain ⟨text', htext', hparse'⟩ := hw
  cases htext.symm.trans htext'
  cases hparse.symm.trans hparse'
  rfl

theorem Surroundings.Holds.legible (h : s.Holds v) : s.Legible := by
  obtain ⟨text, htext, hparse⟩ := h
  refine .inr ⟨text, htext, fun e he => ?_⟩
  cases hparse.symm.trans he

/-- What reading the chain comes to. -/
inductive Reads (s : Surroundings) : Except Outcome Value → Prop
  | value {v : Value} : s.Holds v → Reads s (.ok v)
  | stops (message : String) : s.Legible → (∀ v, ¬ s.Holds v) → Reads s (.error (stopWith systemCode message))
  | escapes (f : Failure) : ¬ s.Legible → Reads s (.error (escape f))

theorem readChain_reads (s : Surroundings) : Reads s (readChain s) := by
  have unheld : s.text? = none → ∀ v, ¬ s.Holds v := fun hno v h => by
    obtain ⟨text, htext, -⟩ := h
    cases hno.symm.trans htext
  have illegible : s.text? = none → s.file ≠ .missing → ¬ s.Legible := fun hno hfile h => by
    rcases h with h | ⟨text, htext, -⟩
    · exact hfile h
    · cases hno.symm.trans htext
  -- It stops at the file, at the decoding of its bytes, or at the text, in this order.
  unfold readChain
  cases hfile : s.file with
  | missing => exact .stops _ (.inl hfile) (unheld (by rw [Surroundings.text?, hfile]))
  | overlong | directory =>
    refine .escapes _ (illegible (by rw [Surroundings.text?, hfile]) fun h => ?_)
    cases hfile.symm.trans h
  | bytes content =>
    have htext : s.text? = (String.fromUTF8? content).map fun text => String.ofList (unifyBreaks text.toList) := by
      rw [Surroundings.text?, hfile]
    have hfile' : s.file ≠ .missing := fun h => by cases hfile.symm.trans h
    dsimp only
    cases hcontent : String.fromUTF8? content with
    | none => exact .escapes _ (illegible (by rw [htext, hcontent]; rfl) hfile')
    | some raw =>
      rw [hcontent, Option.map_some] at htext
      dsimp only
      cases hparse : Json.parseWithin s.depthLimit (String.ofList (unifyBreaks raw.toList)) with
      | ok v => exact .value ⟨_, htext, hparse⟩
      | error e =>
        have hno : ∀ v, ¬ s.Holds v := fun v ⟨text, htext', hparse'⟩ => by
          cases htext.symm.trans htext'
          cases hparse.symm.trans hparse'
        have hlegible : s.Legible ↔ e.problem.isMistake = true := by
          constructor
          · rintro (h | ⟨text, htext', hall⟩)
            · exact absurd h hfile'
            · cases htext.symm.trans htext'
              exact hall e hparse
          · refine fun h => .inr ⟨_, htext, fun e' he' => ?_⟩
            cases hparse.symm.trans he'
            exact h
        dsimp only
        split
        · rename_i count hproblem
          exact .escapes _ fun h => by
            have hmistake := hlegible.mp h
            rw [hproblem] at hmistake
            cases hmistake
        · rename_i hproblem
          exact .escapes _ fun h => by
            have hmistake := hlegible.mp h
            rw [hproblem] at hmistake
            cases hmistake
        · rename_i hmany hdeep
          refine .stops _ (hlegible.mpr ?_) hno
          cases hproblem : e.problem with
          | tooManyDigits count => exact absurd hproblem (hmany count)
          | tooDeep => exact absurd hproblem hdeep
          | _ => rfl

/-- The options of a command. -/
def Command.options (c : Command) : OptionsInput := .value (optionsOf c.preview)

theorem Command.options_offered (c : Command) : c.options.Offered := by
  unfold Command.options optionsOf
  split <;> trivial

/-- No list or object is a tag in the chain, and the arithmetic of what is asked for succeeds. -/
def Answerable (v : Value) (options : OptionsInput) : Prop :=
  Taggable v ∧ ∀ nodes, Compilable v options nodes → (Parts.ofNodes nodes).Computable

/-- What does not compile is refused exactly if it can be answered, and all else is a matter of arithmetic or of tags. -/
theorem error_answers {cwd : String} {options : OptionsInput} {e : CompileError} (ho : options.Offered)
    (h : compile cwd (.value v) options = .error e) : (Answerable v options ∧ e.isRefusal = true) ∨
      (¬ Answerable v options ∧ ((∃ a, e = .arithmetic a) ∨ ∃ t, e = .tag t)) := by
  by_cases ht : Taggable v
  · by_cases hc : ∃ nodes, Compilable v options nodes
    · obtain ⟨nodes, hn⟩ := hc
      have hno : ¬ (Parts.ofNodes nodes).Computable := fun hcomputable => by
        obtain ⟨plan, hplan⟩ := (compile_compilable cwd ho hn).mpr hcomputable
        cases hplan.symm.trans h
      obtain ⟨a, ha⟩ := compile_overflows cwd ho hn hno
      cases ha.symm.trans h
      exact .inr ⟨fun hs => hno (hs.2 nodes hn), .inl ⟨a, rfl⟩⟩
    · obtain ⟨e', he', hrefusal⟩ := compile_refused cwd ho ht hc
      cases he'.symm.trans h
      exact .inl ⟨⟨ht, fun nodes hn => absurd ⟨nodes, hn⟩ hc⟩, hrefusal⟩
  · obtain ⟨values, hv, x, hx, hu⟩ : ∃ values, chainItems v = some values ∧ ∃ x ∈ values, Untaggable x := by
      unfold Taggable at ht
      push Not at ht
      exact ht
    obtain ⟨t, hn⟩ := compile_untaggable cwd options hv hx hu
    cases hn.symm.trans h
    exact .inr ⟨fun hs => ht hs.1, .inr ⟨t, rfl⟩⟩

theorem plan_answers {cwd : String} {options : OptionsInput} {plan : Plan} (ho : options.Offered)
    (h : compile cwd (.value v) options = .ok plan) : Answerable v options := by
  refine ⟨fun values hv x hx hu => ?_, fun nodes hn => (compile_compilable cwd ho hn).mp ⟨plan, h⟩⟩
  obtain ⟨t, hn⟩ := compile_untaggable cwd options hv hx hu
  cases hn.symm.trans h

/-- What compiling the chain comes to. -/
inductive Compiles (s : Surroundings) (v : Value) (options : OptionsInput) : Except Outcome Compilation → Prop
  | plan {c : Compilation} : Answerable v options → compile s.directory (.value v) options = .ok c.plan →
      Compiles s v options (.ok c)
  | stops {e : CompileError} (message : String) : Answerable v options → compile s.directory (.value v) options = .error e →
      e.isRefusal = true → Compiles s v options (.error (stopWith refusalCode message))
  | escapes {e : CompileError} (f : Failure) : ¬ Answerable v options → compile s.directory (.value v) options = .error e →
      Compiles s v options (.error (escape f))

theorem compileChain_compiles (s : Surroundings) (v : Value) (c : Command) :
    Compiles s v c.options (compileChain s v c.preview) := by
  have ho := c.options_offered
  unfold compileChain
  cases hx : compilation s.directory (.value v) (.value (optionsOf c.preview)) with
  | ok made =>
    have hplan : compile s.directory (.value v) c.options = .ok made.plan := by
      rw [compile, Command.options, hx]
      rfl
    exact .plan (plan_answers ho hplan) hplan
  | error e =>
    have herror : compile s.directory (.value v) c.options = .error e := compile_of_error s.directory hx
    rcases error_answers ho herror with ⟨hs, hrefusal⟩ | ⟨hs, ⟨a, rfl⟩ | ⟨t, rfl⟩⟩
    · cases e with
      | arithmetic | tag | notOptions => cases hrefusal
      | _ => exact .stops _ hs herror rfl
    · exact .escapes _ hs herror
    · exact .escapes _ hs herror

/-- What is printed has an indentation, and not too large a one. -/
def Command.Printable : Command → Prop
  | .validate => True
  | .plan _ indent => ∃ n, indent = some n ∧ -Json.indentLimit ≤ n ∧ n < Json.indentLimit

theorem print_ok_iff (c : Command) (s : Surroundings) (p : Plan) : (∃ output, c.print s p = .ok output) ↔ c.Printable := by
  cases c with
  | validate => exact iff_of_true ⟨_, rfl⟩ trivial
  | plan preview indent =>
    change (∃ output, planText indent p = .ok output) ↔ _
    unfold planText
    cases indent with
    | none => exact iff_of_false (fun ⟨_, h⟩ => by cases h) fun ⟨_, h, _⟩ => by cases h
    | some n =>
      dsimp only
      unfold Json.Layout.ofIndent?
      dsimp only
      split
      · rename_i layout hlayout
        split at hlayout
        · rename_i hfits
          exact iff_of_true ⟨_, rfl⟩ ⟨n, rfl, hfits⟩
        · cases hlayout
      · rename_i hlayout
        split at hlayout
        · cases hlayout
        · rename_i hfits
          refine iff_of_false (fun ⟨_, h⟩ => by cases h) fun ⟨m, hm, h⟩ => hfits ?_
          cases hm
          exact h

/-! ## The whole call -/

/-- A call that ends with a code: it has a log level, the file can be read or is not JSON, what it holds can be answered,
    and if it is to be printed, it has an indentation that is not too large. -/
structure Reportable (i : Invocation) (s : Surroundings) : Prop where
  level : i.level ≠ none
  legible : s.Legible
  answerable : ∀ v, s.Holds v → Answerable v i.command.options
  printable : ∀ v plan, s.Holds v → compile s.directory (.value v) i.command.options = .ok plan → i.command.Printable

section Report
variable {o : Outcome} {c : Compilation} {f : Failure} {output : String} (level : Nat)

theorem report_unread (h : readChain s = .error o) : i.report s level = .error o := by
  rw [Invocation.report, h]
  rfl

theorem report_uncompiled (h : readChain s = .ok v) (hc : compileChain s v i.command.preview = .error o) :
    i.report s level = .error o := by
  rw [Invocation.report, h]
  change (compileChain s v i.command.preview >>= _) = _
  rw [hc]
  rfl

/-- The errors of a call that compiles the chain are the line of the log about it, if such lines are logged. -/
theorem report_compiled (h : readChain s = .ok v) (hc : compileChain s v i.command.preview = .ok c) :
    i.report s level = .ok (match i.command.print s c.plan with
      | .ok output => ⟨.ok successCode, output, if logsDebug level then debugLine s.time c else ""⟩
      | .error f => ⟨.error f, "", if logsDebug level then debugLine s.time c else ""⟩) := by
  rw [Invocation.report, h]
  change (compileChain s v i.command.preview >>= _) = _
  rw [hc]
  change (match i.command.print s c.plan with | .ok _ => _ | .error _ => _) = _
  cases i.command.print s c.plan <;> rfl

end Report

/-- An end that comes early is the end all the same. -/
theorem run_of_report {name : String} (hlevel : i.level = some name) {o : Outcome}
    (h : i.report s (levelOf name) = .ok o ∨ i.report s (levelOf name) = .error o) : i.run s = o := by
  rw [Invocation.run, hlevel]
  dsimp only
  rcases h with h | h <;> rw [h]

/-- A call at a log level ends in the way of the first of its parts that does not go on. -/
inductive Ends (i : Invocation) (s : Surroundings) : Except Failure Nat → Prop
  | unread (f : Failure) : ¬ s.Legible → Ends i s (.error f)
  | mistaken : s.Legible → (∀ v, ¬ s.Holds v) → Ends i s (.ok systemCode)
  | unanswered {v : Value} (f : Failure) : s.Holds v → ¬ Answerable v i.command.options → Ends i s (.error f)
  | refused {v : Value} {e : CompileError} : s.Holds v → Answerable v i.command.options →
      compile s.directory (.value v) i.command.options = .error e → e.isRefusal = true → Ends i s (.ok refusalCode)
  | unprinted {v : Value} {plan : Plan} (f : Failure) : s.Holds v →
      compile s.directory (.value v) i.command.options = .ok plan → ¬ i.command.Printable → Ends i s (.error f)
  | printed {v : Value} {plan : Plan} : s.Holds v → Answerable v i.command.options →
      compile s.directory (.value v) i.command.options = .ok plan → i.command.Printable → Ends i s (.ok successCode)

theorem run_ends {name : String} (hlevel : i.level = some name) : Ends i s (i.run s).ending := by
  have hreads := readChain_reads s
  -- The run stops where the chain cannot be read, where it does not compile, or where the plan cannot be printed.
  cases hread : readChain s with
  | error o =>
    rw [run_of_report hlevel (.inr (report_unread _ hread))]
    rw [hread] at hreads
    cases hreads with
    | stops message hlegible hno => exact .mistaken hlegible hno
    | escapes f hno => exact .unread f hno
  | ok v =>
    rw [hread] at hreads
    cases hreads with
    | value hv =>
      have hcompiles := compileChain_compiles s v i.command
      cases hcompile : compileChain s v i.command.preview with
      | error o =>
        rw [run_of_report hlevel (.inr (report_uncompiled _ hread hcompile))]
        rw [hcompile] at hcompiles
        cases hcompiles with
        | stops message ha herror hrefusal => exact .refused hv ha herror hrefusal
        | escapes f ha _ => exact .unanswered f hv ha
      | ok c =>
        rw [hcompile] at hcompiles
        cases hcompiles with
        | plan ha hplan =>
          rw [run_of_report hlevel (.inl (report_compiled _ hread hcompile))]
          have hprint := print_ok_iff i.command s c.plan
          cases hp : i.command.print s c.plan with
          | error f =>
            refine .unprinted f hv hplan fun hprintable => ?_
            obtain ⟨output, ho⟩ := hprint.mpr hprintable
            cases hp.symm.trans ho
          | ok output => exact .printed hv ha hplan (hprint.mp ⟨output, hp⟩)

namespace Ends
variable {ending : Except Failure Nat}

theorem reportable_iff (h : Ends i s ending) (hlevel : i.level ≠ none) : (∃ code, ending = .ok code) ↔ Reportable i s := by
  cases h with
  | unread f hno => exact iff_of_false (fun ⟨_, h⟩ => by cases h) fun hr => hno hr.legible
  | mistaken hlegible hno =>
    exact iff_of_true ⟨_, rfl⟩ ⟨hlevel, hlegible, fun w hw => absurd hw (hno w), fun w _ hw => absurd hw (hno w)⟩
  | @unanswered v f hv hno => exact iff_of_false (fun ⟨_, h⟩ => by cases h) fun hr => hno (hr.answerable v hv)
  | refused hv ha herror =>
    refine iff_of_true ⟨_, rfl⟩ ⟨hlevel, hv.legible, fun w hw => hw.unique hv ▸ ha, fun w plan hw hplan => ?_⟩
    rw [hw.unique hv] at hplan
    cases herror.symm.trans hplan
  | unprinted f hv hplan hno => exact iff_of_false (fun ⟨_, h⟩ => by cases h) fun hr => hno (hr.printable _ _ hv hplan)
  | printed hv ha _ hp => exact iff_of_true ⟨_, rfl⟩ ⟨hlevel, hv.legible, fun w hw => hw.unique hv ▸ ha, fun _ _ _ _ => hp⟩

theorem success_iff (h : Ends i s ending) (hr : Reportable i s) :
    ending = .ok successCode ↔ ∃ v plan, s.Holds v ∧ compile s.directory (.value v) i.command.options = .ok plan := by
  cases h with
  | unread f hno => exact absurd hr.legible hno
  | mistaken _ hno => exact iff_of_false (fun h => by cases h) fun ⟨w, _, hw, _⟩ => hno w hw
  | unanswered f hv hno => exact absurd (hr.answerable _ hv) hno
  | refused hv _ herror =>
    refine iff_of_false (fun h => by cases h) fun ⟨w, plan, hw, hplan⟩ => ?_
    rw [hw.unique hv] at hplan
    cases herror.symm.trans hplan
  | unprinted f hv hplan hno => exact absurd (hr.printable _ _ hv hplan) hno
  | printed hv _ hplan _ => exact iff_of_true rfl ⟨_, _, hv, hplan⟩

theorem refusal_iff (h : Ends i s ending) (hr : Reportable i s) : ending = .ok refusalCode ↔
    ∃ v e, s.Holds v ∧ compile s.directory (.value v) i.command.options = .error e ∧ e.isRefusal = true := by
  cases h with
  | unread f hno => exact absurd hr.legible hno
  | mistaken _ hno => exact iff_of_false (fun h => by cases h) fun ⟨w, _, hw, _⟩ => hno w hw
  | unanswered f hv hno => exact absurd (hr.answerable _ hv) hno
  | refused hv _ herror hrefusal => exact iff_of_true rfl ⟨_, _, hv, herror, hrefusal⟩
  | unprinted f hv hplan hno => exact absurd (hr.printable _ _ hv hplan) hno
  | printed hv _ hplan _ =>
    refine iff_of_false (fun h => by cases h) fun ⟨w, e, hw, herror, _⟩ => ?_
    rw [hw.unique hv] at herror
    cases herror.symm.trans hplan

theorem system_iff (h : Ends i s ending) (hr : Reportable i s) : ending = .ok systemCode ↔ ∀ v, ¬ s.Holds v := by
  cases h with
  | unread f hno => exact absurd hr.legible hno
  | mistaken _ hno => exact iff_of_true rfl hno
  | unanswered f hv hno => exact absurd (hr.answerable _ hv) hno
  | refused hv => exact iff_of_false (fun h => by cases h) fun hno => hno _ hv
  | unprinted f hv hplan hno => exact absurd (hr.printable _ _ hv hplan) hno
  | printed hv => exact iff_of_false (fun h => by cases h) fun hno => hno _ hv

end Ends

/-- Where the file can be read or is not JSON, it holds nothing exactly if there is none or its bytes write no value. -/
theorem Surroundings.Legible.unheld_iff (h : s.Legible) :
    (∀ v, ¬ s.Holds v) ↔ s.file = .missing ∨ ∃ content, s.file = .bytes content ∧ ∀ v, ¬ s.Holds v := by
  constructor
  · intro hno
    rcases h with h | ⟨text, htext, -⟩
    · exact .inl h
    · cases hfile : s.file with
      | bytes content => exact .inr ⟨content, rfl, hno⟩
      | missing | overlong | directory =>
        rw [Surroundings.text?, hfile] at htext
        cases htext
  · rintro (hfile | ⟨-, -, hno⟩)
    · rintro v ⟨text, htext, -⟩
      rw [Surroundings.text?, hfile] at htext
      cases htext
    · exact hno

/-- A call ends with a code exactly if it can be reported; and then this is 0 exactly if what the file holds compiles, 1
    exactly if what it holds is refused, and 4 exactly if there is no file or nothing in it is JSON. -/
theorem exit_codes (i : Invocation) (s : Surroundings) :
    ((∃ code, (i.run s).ending = .ok code) ↔ Reportable i s) ∧
    (Reportable i s →
      ((i.run s).ending = .ok 0 ↔ ∃ v plan, s.Holds v ∧ compile s.directory (.value v) i.command.options = .ok plan) ∧
      ((i.run s).ending = .ok 1 ↔
        ∃ v e, s.Holds v ∧ compile s.directory (.value v) i.command.options = .error e ∧ e.isRefusal = true) ∧
      ((i.run s).ending = .ok 4 ↔ s.file = .missing ∨ ∃ content, s.file = .bytes content ∧ ∀ v, ¬ s.Holds v)) := by
  cases hlevel : i.level with
  | none =>
    have hno : ¬ Reportable i s := fun h => h.level hlevel
    refine ⟨iff_of_false (fun ⟨code, h⟩ => ?_) hno, fun h => absurd h hno⟩
    rw [Invocation.run, hlevel] at h
    cases h
  | some name =>
    have hends : Ends i s (i.run s).ending := run_ends hlevel
    have hgiven : i.level ≠ none := fun h => by cases hlevel.symm.trans h
    refine ⟨hends.reportable_iff hgiven, fun hr => ⟨hends.success_iff hr, hends.refusal_iff hr, ?_⟩⟩
    exact (hends.system_iff hr).trans hr.legible.unheld_iff

theorem ok_of_toOption {ε α : Type} {x : Except ε α} {a : α} (h : x.toOption = some a) : x = .ok a := by
  cases x with
  | error => cases h
  | ok => exact congrArg _ (Option.some.inj h)

/-- A chain that loads and exports is planned with code 0. -/
theorem plain_chain_exits :
    let i : Invocation := ⟨some "WARNING", .plan [] (some 2), "chain.json"⟩
    let text := "[\x7b\"typeId\":\"loadVideo\",\"path\":\"in.mp4\"\x7d,\x7b\"typeId\":\"export\"\x7d]"
    let s : Surroundings := ⟨"/work", "/work/chain.json", .bytes text.toUTF8, "", 985⟩
    invocation ["plan", "chain.json"] = .ok i ∧ Reportable i s ∧ (i.run s).ending = .ok 0 ∧
      ∃ v plan, s.Holds v ∧ compile s.directory (.value v) i.command.options = .ok plan := by
  intro i text s
  have hend : (i.run s).ending = .ok 0 := ok_of_toOption (by decide +kernel)
  obtain ⟨hcode, hcodes⟩ := exit_codes i s
  have hr : Reportable i s := hcode.mp ⟨0, hend⟩
  exact ⟨rfl, hr, hend, (hcodes hr).1.mp hend⟩

/-- Bytes that are no text are not JSON, and a chain in which a list stands for a tag is; for neither there is a code. -/
theorem calls_without_code :
    ∃ i s t v, invocation ["validate", "chain.json"] = .ok i ∧
      (s.file = .bytes ⟨#[0xFF]⟩ ∧ (∀ v, ¬ s.Holds v) ∧ ∀ code, (i.run s).ending ≠ .ok code) ∧
      t.Holds v ∧ ∀ code, (i.run t).ending ≠ .ok code := by
  let i : Invocation := ⟨some "WARNING", .validate, "chain.json"⟩
  let s : Surroundings := ⟨"/work", "/work/chain.json", .bytes ⟨#[0xFF]⟩, "", 985⟩
  let t : Surroundings := ⟨"/work", "/work/chain.json", .bytes "[\x7b\"typeId\":[\"trim\"]\x7d]".toUTF8, "", 985⟩
  have hs : (i.run s).ending.toOption = none := by decide +kernel
  have ht : (i.run t).ending.toOption = none := by decide +kernel
  have hno : s.text? = none := by decide +kernel
  have hread : (readChain t).toOption.isSome = true := by decide +kernel
  obtain ⟨v, hv⟩ : ∃ v, t.Holds v := by
    have hreads := readChain_reads t
    cases hx : readChain t with
    | error o =>
      rw [hx] at hread
      cases hread
    | ok v =>
      rw [hx] at hreads
      cases hreads with
      | value hv => exact ⟨v, hv⟩
  refine ⟨i, s, t, v, rfl, ⟨rfl, fun w ⟨text, htext, _⟩ => ?_, fun code h => ?_⟩, hv, fun code h => ?_⟩
  · cases hno.symm.trans htext
  · rw [h] at hs
    cases hs
  · rw [h] at ht
    cases ht

end CommandLine
end MediaEngine
