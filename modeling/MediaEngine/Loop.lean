/-!
# The loop

Tasks take turns: those that are ready go in the order in which they became ready. Time stands still
while they do. A timer comes due at a later time; of several, the one that is due first fires first, and
of those due together the one that was set first. A task may wait for a gate; once opened, a gate stays
open.
-/

namespace MediaEngine

/-- A timer that is set, and what it does. -/
structure Timer (α : Type) where
  due : Nat
  action : α
  deriving DecidableEq

/-- The clock, the tasks that are ready, the timers in the order they were set, and the gates. -/
structure Loop (α : Type) where
  now : Nat
  ready : List Nat
  timers : List (Timer α)
  openGates : List String
  /-- The tasks that wait for a gate, in order. -/
  atGates : List (String × Nat)

namespace Loop
variable {α : Type}

/-- A loop at time zero in which nothing is to be done. -/
def start : Loop α := ⟨0, [], [], [], []⟩

/-- Makes tasks ready, behind all that are. -/
def wake (l : Loop α) (tasks : List Nat) : Loop α := { l with ready := l.ready ++ tasks }

/-- The task that goes next, and the loop without it. -/
def next? (l : Loop α) : Option (Nat × Loop α) :=
  match l.ready with
  | [] => none
  | task :: rest => some (task, { l with ready := rest })

/-- Sets a timer. -/
def arm (l : Loop α) (due : Nat) (action : α) : Loop α :=
  { l with timers := l.timers ++ [⟨due, action⟩] }

/-- Removes the timers of an action. -/
def disarm [BEq α] (l : Loop α) (action : α) : Loop α :=
  { l with timers := l.timers.filter (·.action != action) }

/-- The timer that fires first. -/
def earliest : List (Timer α) → Option (Timer α)
  | [] => none
  | t :: rest =>
    match earliest rest with
    | none => some t
    | some u => if u.due < t.due then some u else some t

/-- The timer that fires next, if one is due by a time; the loop without it, at the time it is due. -/
def fire? [DecidableEq α] (l : Loop α) (limit : Nat) : Option (α × Loop α) :=
  match earliest l.timers with
  | none => none
  | some t =>
    if t.due ≤ limit then some (t.action, { l with timers := l.timers.erase t, now := max l.now t.due })
    else none

/-- Moves the clock on. -/
def moveTo (l : Loop α) (time : Nat) : Loop α := { l with now := max l.now time }

/-- Whether a gate is open. -/
def isOpen (l : Loop α) (gate : String) : Bool := l.openGates.contains gate

/-- Lets a task wait for a gate. -/
def await (l : Loop α) (gate : String) (task : Nat) : Loop α :=
  { l with atGates := l.atGates ++ [(gate, task)] }

/-- Lets a task wait for no gate any longer. -/
def leave (l : Loop α) (task : Nat) : Loop α :=
  { l with atGates := l.atGates.filter (·.2 != task) }

/-- The tasks that wait for a gate, in order. -/
def awaiting (l : Loop α) (gate : String) : List Nat :=
  (l.atGates.filter (·.1 == gate)).map (·.2)

/-- Opens a gate; no task waits for it any longer. -/
def openGate (l : Loop α) (gate : String) : Loop α :=
  { l with
    openGates := if l.isOpen gate then l.openGates else gate :: l.openGates
    atGates := l.atGates.filter (·.1 != gate) }

end Loop

end MediaEngine
