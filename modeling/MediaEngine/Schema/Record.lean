import MediaEngine.Schema.Scalar

/-!
# Reading records

A record is read from the members of an object. A member may be written under one of two keys, the second
spelling winning where both are there; an issue is reported under the key that was found.
-/

namespace MediaEngine.Schema
variable {α : Type}

/-- A member's key: the name of the member, and how it is spelled by preference. -/
structure Key where
  name : String
  spelling : String
  deriving DecidableEq

/-- A key that is spelled as its name. -/
def Key.only (name : String) : Key := ⟨name, name⟩

/-- The name or the preferred spelling. -/
def Key.spelled (k : Key) (preferred : Bool) : String := if preferred then k.spelling else k.name

/-- The spelling found among the members, and its value. -/
def Key.find? (k : Key) (m : Members) : Option (String × Value) :=
  match m.find? k.spelling with
  | some v => some (k.spelling, v)
  | none => (m.find? k.name).map (k.name, ·)

/-- A member that has to be there. -/
def required (k : Key) (read : Value → Checked α) (m : Members) : Checked α :=
  match k.find? m with
  | some (key, v) => (read v).under (.key key)
  | none => .bad [⟨[.key k.spelling], .missing⟩]

/-- A member with a value that stands in for it. -/
def withDefault (k : Key) (read : Value → Checked α) (default : α) (m : Members) : Checked α :=
  match k.find? m with
  | some (key, v) => (read v).under (.key key)
  | none => .ok default

/-- A member that may be missing or nothing. -/
def nullable (k : Key) (read : Value → Checked α) (m : Members) : Checked (Option α) :=
  withDefault k (orNothing read) none m

/-- No members other than those of the given keys. -/
def closed (keys : List Key) (m : Members) : Checked Unit :=
  let strangers := m.filter fun (key, _) => !keys.any fun k => k.name == key || k.spelling == key
  match strangers with
  | [] => .ok ()
  | _ => .bad (strangers.map fun (key, _) => ⟨[.key key], .unexpectedKey⟩)

/-- A record of a title, read from an object's members. -/
def record (title : String) (read : Members → Checked α) : Value → Checked α
  | .object members => read members
  | _ => .problem (.notRecord title)

end MediaEngine.Schema
