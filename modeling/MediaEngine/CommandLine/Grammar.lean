import MediaEngine.Decimal.Reading
import MediaEngine.Text.Integer
import MediaEngine.Value

/-!
# Arguments

A grammar says which switches a program has and what its operand is. Arguments that start with a dash are
switches, unless they look like negative numbers or hold a blank; a switch may be shortened as long as
only one fits, and its own argument follows it or stands behind an equals sign, where two dashes stand
for none. Behind two dashes there are no switches. The operand is the first argument that is no switch; a command is an operand to which
all that follows belongs.
-/

namespace MediaEngine.CommandLine

/-- What the argument of a switch has to be. -/
inductive ArgumentKind where
  | text
  | whole
  | decimal
  deriving DecidableEq

/-- What a switch is for. -/
inductive Role where
  | help
  | takes (kind : ArgumentKind)
  deriving DecidableEq

/-- A switch, under all its names. -/
structure Switch where
  names : List String
  role : Role
  deriving DecidableEq

/-- What an operand is. -/
inductive OperandKind where
  /-- One argument. -/
  | single
  /-- One of these words, and all arguments behind it. -/
  | command (choices : List String)
  deriving DecidableEq

/-- The arguments of a program, and how it tells about them. -/
structure Grammar where
  program : String
  usage : String
  help : String
  switches : List Switch
  operand : String
  kind : OperandKind

/-- What is wrong with arguments. -/
inductive Misuse where
  /-- Several switches fit. -/
  | ambiguous (argument : String) (candidates : List String)
  /-- A switch has no argument but needs one. -/
  | noArgument (switch : Switch)
  /-- A switch has an argument but takes none. -/
  | unwantedArgument (switch : Switch) (argument : String)
  /-- The argument of a switch is not of its kind. -/
  | badArgument (switch : Switch) (kind : ArgumentKind) (argument : String)
  | missingOperand (name : String)
  | unknownCommand (operand : String) (word : String) (choices : List String)
  | unrecognized (arguments : List String)
  deriving DecidableEq

/-- The name under which the value of a switch is kept: its last one. -/
def Switch.key (s : Switch) : String := s.names.getLastD ""

/-- The names of a switch in messages. -/
def Switch.shown (s : Switch) : String := "/".intercalate s.names

/-- The name of a kind in messages. -/
def ArgumentKind.name : ArgumentKind → String
  | text => "str"
  | whole => "int"
  | decimal => "float"

/-- The wording of a misuse. -/
def Misuse.message : Misuse → String
  | ambiguous argument candidates =>
    "ambiguous option: " ++ argument ++ " could match " ++ ", ".intercalate candidates
  | noArgument switch => "argument " ++ switch.shown ++ ": expected one argument"
  | unwantedArgument switch argument =>
    "argument " ++ switch.shown ++ ": ignored explicit argument " ++ Text.quoted argument
  | badArgument switch kind argument =>
    "argument " ++ switch.shown ++ ": invalid " ++ kind.name ++ " value: " ++ Text.quoted argument
  | missingOperand name => "the following arguments are required: " ++ name
  | unknownCommand operand word choices =>
    "argument " ++ operand ++ ": invalid choice: " ++ Text.quoted word ++ " (choose from " ++
      ", ".intercalate (choices.map Text.quoted) ++ ")"
  | unrecognized arguments => "unrecognized arguments: " ++ " ".intercalate arguments

/-! ### Reading single arguments -/

/-- What is written together with a switch. -/
inductive Attached where
  | nothing
  /-- Behind an equals sign. -/
  | behindEquals (argument : String)
  /-- Behind a short name, directly or with an equals sign between. -/
  | joined (argument : String)
  deriving DecidableEq

/-- What an argument is taken for. -/
inductive Reading where
  | plain
  /-- Two dashes, the first time they occur. -/
  | separator
  | switch (s : Switch) (attached : Attached)
  | unknownSwitch
  deriving DecidableEq

/-- An argument and what it is taken for. -/
structure Token where
  text : String
  reading : Reading
  deriving DecidableEq

/-- Two dashes. -/
def dashes : String := "--"

/-- The switches under each of their names. -/
def Grammar.named (g : Grammar) : List (String × Switch) :=
  g.switches.flatMap fun s => s.names.map fun n => (n, s)

/-- A text in front of the first equals sign, and what stands behind it. -/
def splitEquals (cs : List Char) : List Char × Attached :=
  match cs.dropWhile (· != '=') with
  | [] => (cs, .nothing)
  | _ :: rest => (cs.takeWhile (· != '='), .behindEquals (String.ofList rest))

/-- What is written together with a whole name. Behind the equals sign of a short name stands the same as
    directly behind it, if anything stands there. -/
def Attached.toName (attached : Attached) (name : List Char) : Attached :=
  match attached with
  | .behindEquals argument =>
    if name.length = 2 && !argument.isEmpty then .joined argument else .behindEquals argument
  | other => other

/-- The switches that a text may stand for. Behind two dashes it is the beginning of a name; behind one
    dash it is the beginning of a name or a short name followed by an argument. -/
def Grammar.candidates (g : Grammar) (cs : List Char) : List (String × Switch × Attached) :=
  match cs with
  | '-' :: '-' :: _ =>
    let (start, attached) := splitEquals cs
    (g.named.filter fun (n, _) => start.isPrefixOf n.toList).map fun (n, s) => (n, s, attached)
  | _ =>
    g.named.filterMap fun (n, s) =>
      if n.toList = cs.take 2 then some (n, s, .joined (String.ofList (cs.drop 2)))
      else if cs.isPrefixOf n.toList then some (n, s, .nothing)
      else none

/-- Whether characters are digits. -/
def areDigits (cs : List Char) : Bool := cs.all fun c => (Text.digitValue? c).isSome

/-- Whether a text is a negative number written with digits and at most one point. -/
def isNegativeNumber (cs : List Char) : Bool :=
  match cs with
  | '-' :: body =>
    let body := if body.getLast? = some '\n' then body.dropLast else body
    let fraction := (body.dropWhile (· != '.')).drop 1
    if body.contains '.' then
      areDigits (body.takeWhile (· != '.')) && !fraction.isEmpty && areDigits fraction
    else !body.isEmpty && areDigits body
  | _ => false

/-- What an argument that starts with a dash and is no name is taken for. -/
def Grammar.guess (g : Grammar) (argument : String) : Except Misuse Reading :=
  let cs := argument.toList
  match g.candidates cs with
  | [(_, s, attached)] => .ok (.switch s attached)
  | [] => .ok (if isNegativeNumber cs || cs.contains ' ' then .plain else .unknownSwitch)
  | several => .error (.ambiguous argument (several.map (·.1)))

/-- What an argument in front of two dashes is taken for. -/
def Grammar.read (g : Grammar) (argument : String) : Except Misuse Reading :=
  let cs := argument.toList
  if cs.head? ≠ some '-' then .ok .plain
  else
    match g.named.lookup argument with
    | some s => .ok (.switch s .nothing)
    | none =>
      if cs.length = 1 then .ok .plain
      else
        let (start, attached) := splitEquals cs
        match g.named.lookup (String.ofList start) with
        | some s => .ok (.switch s (attached.toName start))
        | none => g.guess argument

/-- All arguments with what they are taken for. -/
def Grammar.tokens (g : Grammar) : List String → Except Misuse (List Token)
  | [] => .ok []
  | a :: rest =>
    if a = dashes then .ok (⟨a, .separator⟩ :: rest.map fun b => ⟨b, .plain⟩)
    else do return ⟨a, ← g.read a⟩ :: (← g.tokens rest)

/-! ### Reading all arguments -/

/-- What arguments come to: the operand with what belongs to it, the arguments of switches, and what was
    left over. -/
structure Parsed where
  operand : Option String
  following : List String
  values : Members
  extras : List String

/-- Why a program does not go on: it is asked for help, or misused. -/
inductive Stop where
  | help
  | misuse (m : Misuse)
  deriving DecidableEq

/-- The value of an argument of a switch. -/
def Switch.read (s : Switch) (kind : ArgumentKind) (argument : String) : Except Stop Value :=
  let value := match kind with
    | .text => some (.text argument)
    | .whole => (Text.readInt? argument).map Value.int
    | .decimal => (Decimal.readDouble? Text.isWhiteSpace Text.digitValue? argument).map Value.double
  match value with
  | some v => .ok v
  | none => .error (.misuse (.badArgument s kind argument))

/-- The value of what is written together with a switch. Two dashes are no argument but an empty list of
    them, whatever the kind. -/
def Switch.readAttached (s : Switch) (kind : ArgumentKind) (argument : String) : Except Stop Value :=
  if argument = dashes then .ok (.list []) else s.read kind argument

/-- What letters behind the short name of the switch for help come to. The same letter stands for the
    switch once more; from any other letter on they are an argument, which is not wanted. -/
def Switch.helpWith (s : Switch) : List Char → Stop
  | [] => .help
  | c :: rest =>
    if s.names.contains (String.ofList ['-', c]) then s.helpWith rest
    else .misuse (.unwantedArgument s (String.ofList (c :: rest)))

/-- What the switch for help comes to. -/
def Switch.stop (s : Switch) : Attached → Stop
  | .nothing => .help
  | .behindEquals argument => .misuse (.unwantedArgument s argument)
  | .joined argument => s.helpWith argument.toList

namespace Parsed

/-- Nothing yet. -/
def empty : Parsed := ⟨none, [], [], []⟩

/-- Leaves an argument over. -/
def leaveOver (p : Parsed) (argument : String) : Parsed := { p with extras := p.extras ++ [argument] }

/-- Takes the value of a switch. -/
def take (p : Parsed) (s : Switch) (value : Value) : Parsed :=
  { p with values := p.values.set s.key value }

/-- Takes the one argument that is the operand. -/
def single (p : Parsed) (operand : String) : Parsed := { p with operand := some operand }

/-- Takes a command with all that follows it. -/
def command (p : Parsed) (operand : String) (following : List Token) : Parsed :=
  { p with operand := some operand, following := following.map Token.text }

end Parsed

/-- Goes through the tokens, on from what came before. -/
def Grammar.parseFrom (g : Grammar) (p : Parsed) : List Token → Except Stop Parsed
  | [] => .ok p
  | t :: rest =>
    match t.reading with
    | .switch s attached =>
      match s.role with
      | .help => .error (s.stop attached)
      | .takes kind =>
        match attached with
        | .behindEquals argument => do g.parseFrom (p.take s (← s.readAttached kind argument)) rest
        | .joined argument => do g.parseFrom (p.take s (← s.readAttached kind argument)) rest
        | .nothing =>
          match rest with
          | [] => .error (.misuse (.noArgument s))
          | next :: more =>
            if next.reading = .plain then do g.parseFrom (p.take s (← s.read kind next.text)) more
            else .error (.misuse (.noArgument s))
    | .unknownSwitch => g.parseFrom (p.leaveOver t.text) rest
    | .plain =>
      if p.operand.isSome then g.parseFrom (p.leaveOver t.text) rest
      else
        match g.kind with
        | .command _ => .ok (p.command t.text rest)
        | .single =>
          match rest with
          | [] => .ok (p.single t.text)
          | next :: more =>
            if next.reading = .separator then g.parseFrom (p.single t.text) more
            else g.parseFrom (p.single t.text) (next :: more)
    | .separator =>
      if p.operand.isSome then g.parseFrom (p.leaveOver t.text) rest
      else
        match rest with
        | [] => .ok (p.leaveOver t.text)
        | next :: more =>
          match g.kind with
          | .command _ => .ok (p.command t.text (next :: more))
          | .single => g.parseFrom (p.single next.text) more

/-- Reads arguments; the operand has to be among them. -/
def Grammar.parse (g : Grammar) (arguments : List String) : Except Stop (String × Parsed) :=
  match g.tokens arguments with
  | .error m => .error (.misuse m)
  | .ok tokens => do
    let p ← g.parseFrom .empty tokens
    match p.operand with
    | none => .error (.misuse (.missingOperand g.operand))
    | some operand =>
      match g.kind with
      | .single => return (operand, p)
      | .command choices =>
        if choices.contains operand then return (operand, p)
        else .error (.misuse (.unknownCommand g.operand operand choices))

end MediaEngine.CommandLine
