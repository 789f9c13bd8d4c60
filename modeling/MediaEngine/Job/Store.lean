import MediaEngine.Job.History

/-!
# Stores

A store takes the entries of jobs that have ended and shows them, the newest first. A bounded store
forgets; a selective store forgets nothing but refuses the jobs of some names.
-/

namespace MediaEngine.Job

/-- Where entries are kept. -/
inductive Store where
  | bounded (history : History)
  | selective (refused : List String) (entries : List Entry)

namespace Store

/-- The entries, the newest first. -/
def entries : Store → List Entry
  | bounded h => h.entries
  | selective _ es => es

/-- The store with one more entry; `none` where it is refused. -/
def record? (s : Store) (e : Entry) : Option Store :=
  match s with
  | bounded h => some (bounded (h.record e))
  | selective refused es =>
    if refused.contains e.name then none else some (selective refused (e :: es))

/-- Whether a store that is supplied counts as no store at all: a bounded one without entries does. -/
def isVoid : Store → Bool
  | bounded h => h.entries.isEmpty
  | selective _ _ => false

/-- The store that is used: the supplied one, unless it counts as none; else a bounded one of a limit.
    `none` if that limit is beyond the capacity. -/
def chosen? (supplied : Option Store) (limit : Int) : Option Store :=
  match supplied.filter (!·.isVoid) with
  | some s => some s
  | none => (History.empty? limit).map bounded

end Store

end MediaEngine.Job
