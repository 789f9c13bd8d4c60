/-!
# Absolute paths

A path is resolved against a working directory and written in its normal form: no empty and no `.`
component, and `..` undone by the component before it. A path that starts with exactly two slashes keeps
both; any other absolute path starts with one.
-/

namespace MediaEngine.Path

/-- The components between slashes; there is always at least one. -/
def components : List Char → List (List Char)
  | [] => [[]]
  | c :: rest =>
    if c = '/' then [] :: components rest
    else
      match components rest with
      | [] => [[c]]
      | first :: more => (c :: first) :: more

/-- The slashes kept in front: none for a relative path, two where exactly two are written, else one. -/
def leadingSlashes : List Char → Nat
  | '/' :: '/' :: '/' :: _ => 1
  | '/' :: '/' :: _ => 2
  | '/' :: _ => 1
  | _ => 0

/-- Puts one component on the kept ones, the last kept first. At the root `..` is dropped; where nothing
    is left to undo it is kept. -/
def keep (rooted : Bool) (kept : List (List Char)) (component : List Char) : List (List Char) :=
  if component = [] ∨ component = ['.'] then kept
  else if component = ['.', '.'] then
    match kept with
    | [] => if rooted then [] else [component]
    | last :: before => if last = ['.', '.'] then component :: kept else before
  else component :: kept

/-- The normal form of a path. -/
def normalized (cs : List Char) : List Char :=
  let slashes := leadingSlashes cs
  let kept := (components cs).foldl (keep (decide (0 < slashes))) []
  let body := List.replicate slashes '/' ++ ['/'].intercalate kept.reverse
  if body = [] then ['.'] else body

/-- A path seen from a directory; an absolute path does not depend on it. -/
def join (directory path : List Char) : List Char :=
  match path with
  | '/' :: _ => path
  | _ =>
    if directory = [] ∨ directory.getLast? = some '/' then directory ++ path
    else directory ++ '/' :: path

/-- The absolute path in normal form. -/
def absolute (directory path : String) : String :=
  String.ofList (normalized (join directory.toList path.toList))

end MediaEngine.Path
