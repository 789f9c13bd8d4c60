import MediaEngine.Settings

/-!
# Settings from the environment

Four variables override the settings. A variable that is not set or blank leaves its setting alone; the
first one, in a fixed order, that does not hold a whole number is an error.
-/

namespace MediaEngine.Settings
open Text

/-- The variables and their values. -/
abbrev Environment := List (String × String)

/-- A variable that does not hold a whole number, and what it holds. -/
structure BadVariable where
  name : String
  value : String
  deriving DecidableEq

/-- The wording. -/
def BadVariable.message (e : BadVariable) : String :=
  "Invalid integer for " ++ e.name ++ ": " ++ quoted e.value

def parallelVariable : String := "NVENGINE_MAX_PARALLEL_JOBS"
def lengthVariable : String := "NVENGINE_MAX_QUEUE_LENGTH"
def timeoutVariable : String := "NVENGINE_QUEUE_TIMEOUT_MS"
def historyVariable : String := "NVENGINE_HISTORY_LIMIT"

/-- The number that a variable holds, or a default where it is not set or blank. -/
def override (env : Environment) (name : String) (default : Int) : Except BadVariable Int :=
  match env.lookup name with
  | none => .ok default
  | some raw =>
    let text := trimBy isBlank raw.toList
    if text.isEmpty then .ok default
    else
      match readInt? (String.ofList text) with
      | some n => .ok n
      | none => .error ⟨name, raw⟩

/-- The settings that an environment asks for. -/
def ofEnvironment (env : Environment) : Except BadVariable Settings := do
  let parallel ← override env parallelVariable defaultParallel
  let length ← override env lengthVariable defaultLength
  let timeout ← override env timeoutVariable defaultTimeout
  let history ← override env historyVariable defaultHistory
  return floored parallel length timeout history

end MediaEngine.Settings
