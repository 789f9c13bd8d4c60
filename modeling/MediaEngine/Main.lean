import MediaEngine.CommandLine
import Std.Time.Format
import Std.Time.Zoned

/-!
# The executable

Looks the chain up, lets the library work, writes what it answers, and ends with its code.
-/

namespace MediaEngine.CommandLine

/-- The absolute path of a chain, and what is found there. -/
def lookUp (directory chain : String) : IO (String × FileContent) := do
  try
    let path ← IO.FS.realPath (if chain.isEmpty then "." else chain)
    if ← path.isDir then return (path.toString, .directory)
    else return (path.toString, .bytes (← IO.FS.readBinFile path))
  catch _ => return (chainPath directory chain, .missing)

/-- Carries an invocation out where the program was called. -/
def carryOut (i : Invocation) : IO Outcome := do
  let directory := (← IO.currentDir).toString
  let (path, file) ← lookUp directory i.chain
  let time := (← Std.Time.PlainTime.now).format "HH:mm:ss"
  return i.run { directory, path, file, time }

/-- Writes an outcome; a failure that escapes is told last. -/
def conclude (o : Outcome) : IO UInt32 := do
  (← IO.getStdout).putStr o.output
  (← IO.getStderr).putStr o.errors
  match o.ending with
  | .ok code => return code.toUInt32
  | .error failure =>
    (← IO.getStderr).putStr (failure.message ++ "\n")
    return 1

end MediaEngine.CommandLine

open MediaEngine.CommandLine in
/-- The program. -/
def main (arguments : List String) : IO UInt32 := do
  match invocation arguments with
  | .ok i => conclude (← carryOut i)
  | .error e => conclude e.outcome
