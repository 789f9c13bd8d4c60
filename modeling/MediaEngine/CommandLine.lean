import MediaEngine.CommandLine.Invocation
import MediaEngine.Compile
import MediaEngine.Json.Parser
import MediaEngine.Json.Printer
import MediaEngine.Plan.Printer
import MediaEngine.Text.Case

/-!
# The program

What an invocation does with a chain: it is read from the content of a file, compiled, and reported on.
The program ends with code 0 if the chain compiles, 1 if it does not, and 4 if there is no file or no JSON
in it; a failure that is none of these escapes.
-/

namespace MediaEngine.CommandLine

/-- What is found under the path of a chain. -/
inductive FileContent where
  | missing
  /-- The path, or a name in it, is longer than those of files. -/
  | overlong
  | directory
  | bytes (content : ByteArray)

/-- What surrounds a call: the working directory, the absolute path of the chain, what is found there, the
    time of day as log lines show it, and how deep a value may nest that is read. -/
structure Surroundings where
  directory : String
  path : String
  file : FileContent
  time : String
  /-- How many lists and objects in the file may lie inside each other. The interpreter that runs the program
      sets the limit, and what is called already when the file is read counts towards it. -/
  depthLimit : Nat := 985

/-- A failure that the program does not report by a code. -/
inductive Failure where
  | arithmetic (error : ArithmeticError)
  | tag (error : Chain.UnusableTag)
  /-- A whole number in the file has this many digits, which is too many. -/
  | tooManyDigits (count : Nat)
  /-- Lists and objects in the file nest too deep. -/
  | tooDeep
  /-- The bytes are no text. -/
  | notText
  | directory (path : String)
  | overlongPath (path : String)
  | indentTooLarge
  /-- The switch for the log level stands without a name. -/
  | noLevel
  /-- The switch for the indentation stands without a number. -/
  | noIndent

/-- How a call ends: with a code, or by a failure. -/
structure Outcome where
  ending : Except Failure Nat
  output : String
  errors : String

/-- The codes of a call that is carried out. -/
def successCode : Nat := 0
def refusalCode : Nat := 1
def systemCode : Nat := 4

namespace Failure

/-- What a failure says. -/
def message : Failure → String
  | arithmetic error => error.message
  | tag error => error.message
  | tooManyDigits count => Json.Problem.message (.tooManyDigits count)
  | tooDeep => Json.Problem.message .tooDeep
  | notText => "The chain file is not UTF-8 text"
  | directory path => "Is a directory: " ++ path
  | overlongPath path => "File name too long: " ++ path
  | indentTooLarge => "The indentation is too large"
  | noLevel => "The log level is missing"
  | noIndent => "The indentation is missing"

end Failure

/-! ### Log levels -/

/-- The log levels by name. -/
def levels : List (String × Nat) :=
  [("CRITICAL", 50), ("FATAL", 50), ("ERROR", 40), ("WARN", 30), ("WARNING", 30), ("INFO", 20),
    ("DEBUG", 10), ("NOTSET", 0)]

/-- The level of a name, in any case; an unknown name means the level of information. -/
def levelOf (name : String) : Nat := (levels.lookup (Text.upper name)).getD 20

/-- Whether lines for whoever debugs are logged at a level. -/
def logsDebug (level : Nat) : Bool := decide (level ≤ 10)

/-- A line of the log about a compilation. -/
def debugLine (time : String) (c : Compilation) : String :=
  time ++ " [DEBUG] nvengine.ffmpeg.builder: " ++ c.note ++ "\n"

/-! ### Reading the chain -/

/-- The absolute path of a chain, links aside; many slashes in front mean no more than one. -/
def chainPath (directory chain : String) : String :=
  match chain.toList with
  | '/' :: rest => Path.absolute directory (String.ofList ('/' :: rest.dropWhile (· == '/')))
  | _ => Path.absolute directory chain

/-- Every line break as a single line feed. -/
def unifyBreaks : List Char → List Char
  | [] => []
  | '\r' :: '\n' :: rest => '\n' :: unifyBreaks rest
  | c :: rest => (if c = '\r' then '\n' else c) :: unifyBreaks rest

/-- Ends a call with a code and a message. -/
def stopWith (code : Nat) (message : String) : Outcome := ⟨.ok code, "", message ++ "\n"⟩

/-- Ends a call by a failure. -/
def escape (f : Failure) : Outcome := ⟨.error f, "", ""⟩

/-- The value that a file holds. -/
def readChain (s : Surroundings) : Except Outcome Value :=
  match s.file with
  | .missing => .error (stopWith systemCode ("ERROR: Chain file not found: " ++ s.path))
  | .overlong => .error (escape (.overlongPath s.path))
  | .directory => .error (escape (.directory s.path))
  | .bytes content =>
    match String.fromUTF8? content with
    | none => .error (escape .notText)
    | some text =>
      match Json.parseWithin s.depthLimit (String.ofList (unifyBreaks text.toList)) with
      | .ok v => .ok v
      | .error e =>
        match e.problem with
        | .tooManyDigits count => .error (escape (.tooManyDigits count))
        | .tooDeep => .error (escape .tooDeep)
        | _ => .error (stopWith systemCode ("ERROR: Invalid JSON in " ++ s.path ++ ": " ++ e.message))

/-! ### Compiling it -/

/-- The options that overrides of the preview mean. -/
def optionsOf (preview : Members) : Value :=
  if preview.isEmpty then .null else .object [("preview", .object preview)]

/-- The compilation of a chain. -/
def compileChain (s : Surroundings) (chain : Value) (preview : Members) : Except Outcome Compilation :=
  match compilation s.directory (.value chain) (.value (optionsOf preview)) with
  | .ok c => .ok c
  | .error (.arithmetic e) => .error (escape (.arithmetic e))
  | .error (.tag e) => .error (escape (.tag e))
  | .error e => .error (stopWith refusalCode ("✗ Chain does not compile: " ++ e.message))

/-- What `validate` prints. -/
def summary (s : Surroundings) (p : Plan) : String :=
  "✓ Chain compiles: " ++ s.path ++ "\n" ++
    "  Stages: " ++ Number.intText p.stages.length ++ "\n" ++
    "  Strict cut: " ++ (Value.bool p.metadata.strictCut).shown ++ "\n" ++
    "  Estimated duration: " ++ (Value.doubleOr p.metadata.estimatedDuration).shown ++ " ms\n"

/-- What `plan` prints. -/
def planText (indent : Option Int) (p : Plan) : Except Failure String :=
  match indent with
  | none => .error .noIndent
  | some n =>
    match Json.Layout.ofIndent? (some n) with
    | some layout => .ok (Json.render layout p.toValue ++ "\n")
    | none => .error .indentTooLarge

/-- What a command prints. -/
def Command.print (c : Command) (s : Surroundings) (p : Plan) : Except Failure String :=
  match c with
  | .validate => .ok (summary s p)
  | .plan _ indent => planText indent p

/-- The overrides of the preview that a command is given. -/
def Command.preview : Command → Members
  | .validate => []
  | .plan preview _ => preview

/-- Carries an invocation out at a log level. -/
def Invocation.report (i : Invocation) (s : Surroundings) (level : Nat) : Except Outcome Outcome := do
  let chain ← readChain s
  let c ← compileChain s chain i.command.preview
  let errors := if logsDebug level then debugLine s.time c else ""
  match i.command.print s c.plan with
  | .ok output => return ⟨.ok successCode, output, errors⟩
  | .error f => return ⟨.error f, "", errors⟩

/-- Carries an invocation out. -/
def Invocation.run (i : Invocation) (s : Surroundings) : Outcome :=
  match i.level with
  | none => escape .noLevel
  | some name =>
    match i.report s (levelOf name) with
    | .ok o => o
    | .error o => o

/-- The end of a call that is not carried out. -/
def Exit.outcome (e : Exit) : Outcome := ⟨.ok e.code, e.output, e.errors⟩

end MediaEngine.CommandLine
