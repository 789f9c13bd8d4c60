import MediaEngine.Schema.Issue

/-!
# Checked results

The result of reading a value: what was read, or every issue found on the way. Reading two parts of a
value finds the issues of both, in order.
-/

namespace MediaEngine.Schema

/-- What was read, or the issues found. -/
inductive Checked (α : Type) where
  | ok (a : α)
  | bad (issues : List Issue)

namespace Checked
variable {α β : Type}

/-- A single problem at the place itself. -/
def problem (p : Problem) : Checked α := .bad [⟨[], p⟩]

/-- Applies a function to what was read. -/
def map (f : α → β) : Checked α → Checked β
  | .ok a => .ok (f a)
  | .bad issues => .bad issues

/-- Applies what was read first to what was read second; the issues of both are kept. -/
def apply : Checked (α → β) → Checked α → Checked β
  | .ok f, .ok a => .ok (f a)
  | .bad first, .ok _ => .bad first
  | .ok _, .bad second => .bad second
  | .bad first, .bad second => .bad (first ++ second)

instance : Applicative Checked where
  pure := .ok
  seq f x := f.apply (x ())

/-- The issues moved one step inward. -/
def under (step : Place) : Checked α → Checked α
  | .ok a => .ok a
  | .bad issues => .bad (issues.map fun i => { i with place := step :: i.place })

/-- Goes on only with what was read without an issue. -/
def andThen (x : Checked α) (f : α → Checked β) : Checked β :=
  match x with
  | .ok a => f a
  | .bad issues => .bad issues

/-- The first of two readings that succeeds; if none does, the issues of both. -/
def orElse (x y : Checked α) : Checked α :=
  match x, y with
  | .ok a, _ => .ok a
  | .bad _, .ok b => .ok b
  | .bad first, .bad second => .bad (first ++ second)

/-- The result under a title. -/
def titled (title : String) : Checked α → Except Report α
  | .ok a => .ok a
  | .bad issues => .error ⟨title, issues⟩

/-- What was read, if there were no issues. -/
def toOption : Checked α → Option α
  | .ok a => some a
  | .bad _ => none

end Checked

/-- Reads every item of a list, each issue under the item's position. -/
def readItems {α : Type} (read : Value → Checked α) : Nat → List Value → Checked (List α)
  | _, [] => .ok []
  | i, v :: rest => List.cons <$> (read v).under (.index i) <*> readItems read (i + 1) rest

end MediaEngine.Schema
