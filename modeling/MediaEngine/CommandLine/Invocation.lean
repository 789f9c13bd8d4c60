import MediaEngine.CommandLine.Grammar

/-!
# Invocations

The program has two commands: `validate` tells whether the chain in a file compiles, and `plan` prints
the plan. Here are their grammars, with the texts that tell how to use them, and what a call of the
program comes to: an invocation, or an exit at once with one of these texts.
-/

namespace MediaEngine.CommandLine

/-! ### The grammars -/

def helpSwitch : Switch := ⟨["-h", "--help"], .help⟩
def levelSwitch : Switch := ⟨["--log-level"], .takes .text⟩
def widthSwitch : Switch := ⟨["--preview-width"], .takes .whole⟩
def heightSwitch : Switch := ⟨["--preview-height"], .takes .whole⟩
def maxFpsSwitch : Switch := ⟨["--preview-max-fps"], .takes .decimal⟩
def indentSwitch : Switch := ⟨["--indent"], .takes .whole⟩

def validateWord : String := "validate"
def planWord : String := "plan"

def programUsage : String := "usage: nvengine [-h] [--log-level LOG_LEVEL] \x7bvalidate,plan\x7d ...\n"

def programHelp : String := programUsage ++
  "\nNodeVision engine - media chain to FFmpeg plan compiler\n" ++
  "\npositional arguments:\n" ++
  "  \x7bvalidate,plan\x7d       Command to execute\n" ++
  "    validate            Check that a media chain JSON file compiles\n" ++
  "    plan                Compile a media chain JSON file and print the FFmpeg\n" ++
  "                        plan\n" ++
  "\noptions:\n" ++
  "  -h, --help            show this help message and exit\n" ++
  "  --log-level LOG_LEVEL\n" ++
  "                        Logging level (default: WARNING)\n"

/-- The arguments of the program. -/
def programGrammar : Grammar where
  program := "nvengine"
  usage := programUsage
  help := programHelp
  switches := [helpSwitch, levelSwitch]
  operand := "command"
  kind := .command [validateWord, planWord]

def validateUsage : String := "usage: nvengine validate [-h] chain\n"

def validateHelp : String := validateUsage ++
  "\npositional arguments:\n" ++
  "  chain       Path to media chain JSON file\n" ++
  "\noptions:\n" ++
  "  -h, --help  show this help message and exit\n"

/-- The arguments of the command `validate`. -/
def validateGrammar : Grammar where
  program := "nvengine validate"
  usage := validateUsage
  help := validateHelp
  switches := [helpSwitch]
  operand := "chain"
  kind := .single

def planUsage : String :=
  "usage: nvengine plan [-h] [--preview-width PREVIEW_WIDTH]\n" ++
  "                     [--preview-height PREVIEW_HEIGHT]\n" ++
  "                     [--preview-max-fps PREVIEW_MAX_FPS] [--indent INDENT]\n" ++
  "                     chain\n"

def planHelp : String := planUsage ++
  "\npositional arguments:\n" ++
  "  chain                 Path to media chain JSON file\n" ++
  "\noptions:\n" ++
  "  -h, --help            show this help message and exit\n" ++
  "  --preview-width PREVIEW_WIDTH\n" ++
  "  --preview-height PREVIEW_HEIGHT\n" ++
  "  --preview-max-fps PREVIEW_MAX_FPS\n" ++
  "  --indent INDENT       JSON indentation level (default: 2)\n"

/-- The arguments of the command `plan`. -/
def planGrammar : Grammar where
  program := "nvengine plan"
  usage := planUsage
  help := planHelp
  switches := [helpSwitch, widthSwitch, heightSwitch, maxFpsSwitch, indentSwitch]
  operand := "chain"
  kind := .single

/-! ### Invocations -/

/-- What is to be done with a chain. -/
inductive Command where
  | validate
  /-- Prints the plan for these overrides of the preview, with this indentation; there is none if the
      switch for it stands without a number. -/
  | plan (preview : Members) (indent : Option Int)

/-- A call of the program that is carried out. -/
structure Invocation where
  /-- The log level; there is none if the switch for it stands without a name. -/
  level : Option String
  command : Command
  chain : String

/-- An end of the program: its code, and what it writes. -/
structure Exit where
  code : Nat
  output : String
  errors : String
  deriving DecidableEq

/-- The code of a program that is misused. -/
def misuseCode : Nat := 2

/-- The end of a program that does not go on. -/
def Stop.exit (g : Grammar) : Stop → Exit
  | .help => ⟨0, g.help, ""⟩
  | .misuse m => ⟨misuseCode, "", g.usage ++ g.program ++ ": error: " ++ m.message ++ "\n"⟩

/-- Arguments read by a grammar. -/
def readBy (g : Grammar) (arguments : List String) : Except Exit (String × Parsed) :=
  match g.parse arguments with
  | .ok p => .ok p
  | .error stop => .error (stop.exit g)

/-- The value of a switch, if it is given. -/
def Parsed.valueOf? (p : Parsed) (s : Switch) : Option Value := p.values.find? s.key

/-- The text given with a switch, or a default where it is not given. -/
def Parsed.textOr (p : Parsed) (s : Switch) (default : String) : Option String :=
  match p.valueOf? s with
  | some (.text t) => some t
  | some _ => none
  | none => some default

/-- The whole number given with a switch, or a default where it is not given. -/
def Parsed.wholeOr (p : Parsed) (s : Switch) (default : Int) : Option Int :=
  match p.valueOf? s with
  | some (.number (.int n)) => some n
  | some _ => none
  | none => some default

/-- The value of a switch, under another name, if it is given. -/
def Parsed.given (p : Parsed) (s : Switch) (name : String) : Members :=
  ((p.valueOf? s).map fun v => (name, v)).toList

/-- The command `plan` with its switches. -/
def planCommand (p : Parsed) : Command :=
  .plan (p.given widthSwitch "width" ++ p.given heightSwitch "height" ++
      p.given maxFpsSwitch "max_fps")
    (p.wholeOr indentSwitch 2)

/-- The invocation that arguments ask for. Whatever is left over, in front of the command or behind it, is
    a misuse of the program. -/
def invocation (arguments : List String) : Except Exit Invocation := do
  let (word, program) ← readBy programGrammar arguments
  let grammar := if word = planWord then planGrammar else validateGrammar
  let (chain, p) ← readBy grammar program.following
  let left := program.extras ++ p.extras
  if left.isEmpty then
    return {
      level := program.textOr levelSwitch "WARNING"
      command := if word = planWord then planCommand p else .validate
      chain := chain }
  else throw ((Stop.misuse (.unrecognized left)).exit programGrammar)

end MediaEngine.CommandLine
