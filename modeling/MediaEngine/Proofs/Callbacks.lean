import Mathlib.Data.List.Flatten
import Mathlib.Data.List.Forall2
import Mathlib.Data.List.Induction
import Mathlib.Data.List.Nodup
import Mathlib.Data.List.Pairwise
import MediaEngine.Job.Token.Session

/-! # Callbacks of a token

What callbacks do while they are called leaves a signalled token alone; they only note what they are told
(`react_tells`). So the signal calls the callbacks that stand then, one after the other, whatever they do; one that is
added later is called at once; and where no two have the same name none is called twice (`callbacks_called_once`). -/

namespace MediaEngine.Job

/-! ## Notes -/

/-- A call of a callback, and the reason it was given. -/
def called? : Value → Option (String × Value)
  | .list [.text name, reason] => some (name, reason)
  | _ => none

/-- A task that waits no longer, and the reason it was given. -/
def returned? : Value → Option (String × Value)
  | .list [.text name, .text "waited", reason] => some (name, reason)
  | _ => none

/-- A callback that has signalled the token, and whether it was the first to. -/
def answered? : Value → Option (String × Bool)
  | .list [.text name, .text "cancel", .bool first] => some (name, first)
  | _ => none

theorem returned?_pair (v w : Value) : returned? (.list [v, w]) = none := by
  unfold returned?
  split
  · rename_i h
    cases h
  · rfl

theorem answered?_pair (v w : Value) : answered? (.list [v, w]) = none := by
  unfold answered?
  split
  · rename_i h
    cases h
  · rfl

namespace Session
variable {s t u : Session} {reason : Option String} {names more : List String}

def calls (s : Session) : List (String × Value) := s.notes.filterMap called?

def returns (s : Session) : List (String × Value) := s.notes.filterMap returned?

def answers (s : Session) : List (String × Bool) := s.notes.filterMap answered?

theorem filterMap_note {α : Type} (look : Value → Option α) (s : Session) (vs : List Value) :
    (s.note vs).notes.filterMap look = s.notes.filterMap look ++ (look (.list vs)).toList := by
  simp only [note, List.filterMap_append]
  cases hlook : look (.list vs) <;> simp [hlook]

theorem calls_note (vs : List Value) : (s.note vs).calls = s.calls ++ (called? (.list vs)).toList := filterMap_note _ s vs

theorem returns_note (vs : List Value) : (s.note vs).returns = s.returns ++ (returned? (.list vs)).toList := filterMap_note _ s vs

theorem answers_note (vs : List Value) : (s.note vs).answers = s.answers ++ (answered? (.list vs)).toList := filterMap_note _ s vs

/-! ## A signalled token -/

/-- The token was signalled, and nobody is left to be told. -/
def Signalled (s : Session) (reason : Option String) : Prop := s.token = ⟨true, reason, [], []⟩

/-- Some callbacks were called and given the reason, and nothing else was done but to answer that it was signalled
already. -/
structure Told (s t : Session) (reason : Option String) (names : List String) : Prop where
  token : t.token = s.token
  known : t.known = s.known
  ready : t.ready = s.ready
  calls : t.calls = s.calls ++ names.map (·, .textOr reason)
  returns : t.returns = s.returns
  answers : ∃ late, t.answers = s.answers ++ late ∧ ∀ a ∈ late, a.2 = false

theorem Told.refl (s : Session) (reason : Option String) : Told s s reason [] where
  token := rfl
  known := rfl
  ready := rfl
  calls := (List.append_nil _).symm
  returns := rfl
  answers := ⟨[], (List.append_nil _).symm, List.forall_mem_nil _⟩

theorem Told.trans (h : Told s t reason names) (h' : Told t u reason more) : Told s u reason (names ++ more) where
  token := h'.token.trans h.token
  known := h'.known.trans h.known
  ready := h'.ready.trans h.ready
  calls := by rw [h'.calls, h.calls, List.map_append, List.append_assoc]
  returns := h'.returns.trans h.returns
  answers := by
    obtain ⟨late, hlate, hfalse⟩ := h.answers
    obtain ⟨later, hlater, hfalse'⟩ := h'.answers
    exact ⟨late ++ later, by rw [hlater, hlate, List.append_assoc], List.forall_mem_append.mpr ⟨hfalse, hfalse'⟩⟩

theorem Told.signalled (h : Told s t reason names) (hs : s.Signalled reason) : t.Signalled reason := h.token.trans hs

theorem told_call (hs : s.Signalled reason) (name : String) : Told s (s.note [.text name, .textOr s.token.reason]) reason [name] where
  token := rfl
  known := rfl
  ready := rfl
  calls := by rw [calls_note, hs]; rfl
  returns := by rw [returns_note, returned?_pair]; exact List.append_nil _
  answers := ⟨[], by rw [answers_note, answered?_pair]; rfl, List.forall_mem_nil _⟩

theorem told_cancel (hs : s.Signalled reason) (again : Option String) (name : String) :
    Told s (s.note [.text name, .text "cancel", .bool (s.token.signal again).isSome]) reason [] where
  token := rfl
  known := rfl
  ready := rfl
  calls := by rw [calls_note]; rfl
  returns := by rw [returns_note]; exact List.append_nil _
  answers := ⟨[(name, false)], by rw [answers_note, hs]; rfl, fun a ha => by rw [List.mem_singleton.mp ha]⟩

theorem told_allowRemoval (s : Session) (reason : Option String) (name : String) : Told s (s.allowRemoval name) reason [] where
  token := rfl
  known := rfl
  ready := rfl
  calls := (List.append_nil _).symm
  returns := rfl
  answers := ⟨[], (List.append_nil _).symm, List.forall_mem_nil _⟩

theorem removeFirst_signalled (hs : s.Signalled reason) (name : String) :
    s.removeFirst name = .ok s ∨ s.removeFirst name = .error .unknownName := by
  unfold removeFirst
  split
  · rw [hs]
    exact .inl rfl
  · exact .inr rfl

/-- To signal the token again does nothing. -/
theorem cancel_signalled (hs : s.Signalled reason) (again : Option String) : s.cancel again = (s, false) := by
  unfold cancel Token.signal
  rw [hs]
  rfl

/-- The session once its token is signalled, before the callbacks are called. -/
def signalling (s : Session) (reason : Option String) : Session :=
  { s with token := ⟨true, reason, [], []⟩, ready := s.ready ++ s.token.waiters }

theorem cancel_first (hs : s.token.cancelled = false) (reason : Option String) :
    s.cancel reason = ((s.signalling reason).callAll s.token.callbacks, true) := by
  unfold cancel Token.signal
  rw [hs]
  rfl

end Session

/-! ## Reactions -/

/-- The names of the callbacks that a reaction may add. -/
def Reaction.names : Reaction → List String
  | .add name reaction => name :: reaction.names
  | .attempt reaction => reaction.names
  | .andThen first second => first.names ++ second.names
  | _ => []

/-- The names of a callback and of those it may add. -/
def NamedCallback.names (c : NamedCallback) : List String := c.name :: c.reaction.names

/-- A reaction adds callbacks, in this order, and fails or does not. That a name cannot be removed is found out when it is tried. -/
inductive Reaction.Adds : Reaction → List String → Bool → Prop
  | nothing : Adds .nothing [] false
  | fail : Adds .fail [] true
  | cancel {reason} : Adds (.cancel reason) [] false
  | remove {name failed} : Adds (.remove name) [] failed
  | add {name reaction names failed} : Adds reaction names failed → Adds (.add name reaction) (name :: names) failed
  | attempt {reaction names failed} : Adds reaction names failed → Adds (.attempt reaction) names false
  | stops {first second names} : Adds first names true → Adds (.andThen first second) names true
  | goesOn {first second names more failed} : Adds first names false → Adds second more failed →
      Adds (.andThen first second) (names ++ more) failed

/-- The callbacks that are called where one is called: itself, and those that it adds. -/
def NamedCallback.Calls (c : NamedCallback) (names : List String) : Prop :=
  ∃ added failed, c.reaction.Adds added failed ∧ names = c.name :: added

theorem Reaction.Adds.sublist {reaction : Reaction} {names : List String} {failed : Bool} (h : reaction.Adds names failed) :
    names.Sublist reaction.names := by
  induction h with
  | nothing | fail | cancel | remove => exact List.Sublist.refl _
  | add _ ih => exact ih.cons_cons _
  | attempt _ ih => exact ih
  | stops _ ih => exact ih.trans (List.sublist_append_left _ _)
  | goesOn _ _ ih ih' => exact ih.append ih'

theorem NamedCallback.Calls.sublist {c : NamedCallback} {names : List String} (h : c.Calls names) : names.Sublist c.names := by
  obtain ⟨added, failed, hadds, rfl⟩ := h
  exact hadds.sublist.cons_cons _

namespace Session
variable {s t : Session} {reason : Option String} {c : NamedCallback} {cs : List NamedCallback}

/-- What a callback of a signalled token does is told, and nothing else. -/
theorem react_tells (reaction : Reaction) (name : String) (hs : s.Signalled reason) :
    ∃ names failed, reaction.Adds names failed ∧ Told s (react reaction name s).1 reason names ∧
      (failed = false ↔ (react reaction name s).2 = .ok ()) := by
  induction reaction generalizing s name with
  | nothing => exact ⟨[], false, .nothing, .refl s reason, iff_of_true rfl rfl⟩
  | fail => exact ⟨[], true, .fail, .refl s reason, iff_of_false Bool.noConfusion fun h => by cases h⟩
  | cancel again => exact ⟨[], false, .cancel, told_cancel hs again name, iff_of_true rfl rfl⟩
  | remove other =>
    simp only [react]
    rcases removeFirst_signalled hs other with h | h <;> rw [h]
    · exact ⟨[], false, .remove, .refl s reason, iff_of_true rfl rfl⟩
    · exact ⟨[], true, .remove, .refl s reason, iff_of_false Bool.noConfusion fun h => by cases h⟩
  | add new reaction ih =>
    have hcall := told_call hs new
    obtain ⟨names, failed, hadds, htold, hfailed⟩ := ih new (hcall.signalled hs)
    simp only [react]
    rcases hr : react reaction new (s.note [.text new, .textOr s.token.reason]) with ⟨t, e | ⟨⟩⟩ <;> rw [hr] at htold hfailed
    · refine ⟨_, failed, .add hadds, hcall.trans htold, hfailed.trans (iff_of_false ?_ ?_)⟩ <;> exact fun h => by cases h
    -- The remover is at hand only once the new callback has returned.
    · have hallowed := (hcall.trans htold).trans (told_allowRemoval t reason new)
      rw [List.append_nil] at hallowed
      exact ⟨_, failed, .add hadds, hallowed, hfailed⟩
  | attempt reaction ih =>
    obtain ⟨names, failed, hadds, htold, -⟩ := ih name hs
    exact ⟨names, false, .attempt hadds, htold, iff_of_true rfl rfl⟩
  | andThen first second ih ih' =>
    obtain ⟨names, failed, hadds, htold, hfailed⟩ := ih name hs
    simp only [react]
    rcases hr : react first name s with ⟨t, e | ⟨⟩⟩ <;> rw [hr] at htold hfailed
    · cases failed with
      | false => cases hfailed.mp rfl
      | true => exact ⟨names, true, .stops hadds, htold, hfailed⟩
    · obtain ⟨more, failed', hadds', htold', hfailed'⟩ := ih' name (htold.signalled hs)
      obtain rfl := hfailed.mpr rfl
      exact ⟨names ++ more, failed', .goesOn hadds hadds', htold.trans htold', hfailed'⟩

theorem call_tells (c : NamedCallback) (hs : s.Signalled reason) : ∃ names, c.Calls names ∧ Told s (s.call c).1 reason names := by
  have hcall := told_call hs c.name
  obtain ⟨names, failed, hadds, htold, -⟩ := react_tells c.reaction c.name (hcall.signalled hs)
  exact ⟨c.name :: names, ⟨names, failed, hadds, rfl⟩, hcall.trans htold⟩

/-- Callbacks are called one after the other, whatever they do. -/
theorem callAll_tells (cs : List NamedCallback) (hs : s.Signalled reason) :
    ∃ called, List.Forall₂ NamedCallback.Calls cs called ∧ Told s (s.callAll cs) reason called.flatten := by
  induction cs generalizing s with
  | nil => exact ⟨[], .nil, .refl s reason⟩
  | cons c rest ih =>
    obtain ⟨names, hcalls, htold⟩ := call_tells c hs
    obtain ⟨called, hrest, hall⟩ := ih (htold.signalled hs)
    exact ⟨names :: called, .cons hcalls hrest, htold.trans hall⟩

end Session

/-! ## Steps -/

def SessionStep.added? : SessionStep → Option NamedCallback
  | .add c => some c
  | _ => none

def SessionStep.task? : SessionStep → Option String
  | .wait name => some name
  | _ => none

/-- The callbacks that are added by some steps. -/
def adds (steps : List SessionStep) : List NamedCallback := steps.filterMap SessionStep.added?

def tasks (steps : List SessionStep) : List String := steps.filterMap SessionStep.task?

/-- The callbacks that are added by some steps and not removed by a later one. -/
def staying : List SessionStep → List NamedCallback
  | [] => []
  | .add c :: rest => if .remove c.name ∈ rest then staying rest else c :: staying rest
  | _ :: rest => staying rest

/-- No two callbacks that are added, or that one of them may add, have the same name. -/
def Distinct (steps : List SessionStep) : Prop := ((adds steps).flatMap NamedCallback.names).Nodup

instance (steps : List SessionStep) : Decidable (Distinct steps) := inferInstanceAs (Decidable (List.Nodup _))

section Steps
variable {before after steps : List SessionStep} {c d : NamedCallback}

theorem adds_append : adds (before ++ after) = adds before ++ adds after := List.filterMap_append

theorem tasks_append : tasks (before ++ after) = tasks before ++ tasks after := List.filterMap_append

theorem adds_concat (steps : List SessionStep) (step : SessionStep) : adds (steps ++ [step]) = adds steps ++ step.added?.toList := by
  rw [adds_append]
  cases step <;> rfl

theorem tasks_concat (steps : List SessionStep) (step : SessionStep) : tasks (steps ++ [step]) = tasks steps ++ step.task?.toList := by
  rw [tasks_append]
  cases step <;> rfl

/-- Later steps take those callbacks away that they remove, and add theirs. -/
theorem staying_append : staying (before ++ after) =
    (staying before).filter (fun c => .remove c.name ∉ after) ++ staying after := by
  induction before with
  | nil => rfl
  | cons step rest ih =>
    cases step with
    | add c =>
      simp only [List.cons_append, staying, List.mem_append, ih]
      by_cases hrest : .remove c.name ∈ rest
      · simp only [hrest, true_or, if_true]
      · by_cases hafter : .remove c.name ∈ after <;> simp [hrest, hafter]
    | _ => exact ih

theorem staying_concat {step : SessionStep} (h : ∀ name, step ≠ .remove name) :
    staying (steps ++ [step]) = staying steps ++ step.added?.toList := by
  have hall : ∀ c ∈ staying steps, decide (.remove c.name ∉ [step]) = true := fun c _ =>
    decide_eq_true fun hmem => h c.name (List.mem_singleton.mp hmem).symm
  rw [staying_append, List.filter_eq_self.mpr hall]
  cases step <;> simp [staying, SessionStep.added?]

theorem staying_remove (steps : List SessionStep) (name : String) :
    staying (steps ++ [.remove name]) = (staying steps).filter (·.name ≠ name) := by
  simp [staying_append, staying]

theorem staying_adds (steps : List SessionStep) : (staying steps).Sublist (adds steps) := by
  induction steps with
  | nil => exact List.Sublist.refl _
  | cons step rest ih =>
    cases step with
    | add c =>
      simp only [staying]
      split
      · exact ih.cons c
      · exact ih.cons_cons c
    | _ => exact ih

theorem Distinct.left (h : Distinct (before ++ after)) : Distinct before := by
  unfold Distinct at h
  rw [adds_append, List.flatMap_append] at h
  exact (List.nodup_append.mp h).1

/-- A name belongs to one callback that is added. -/
theorem Distinct.eq_of_mem (h : Distinct steps) (hc : c ∈ adds steps) (hd : d ∈ adds steps) {name : String} (hnc : name ∈ c.names)
    (hnd : name ∈ d.names) : c = d := by
  by_contra hne
  have hapart := (List.nodup_flatMap.mp h).2
  have hsymm : Std.Symm (Function.onFun List.Disjoint NamedCallback.names) := ⟨fun _ _ h _ hy hx => h hx hy⟩
  exact hapart.forall hc hd hne hnc hnd

theorem Distinct.nodup (h : Distinct steps) : (adds steps).Nodup := by
  refine (List.nodup_flatMap.mp h).2.imp fun {c d} hapart heq => ?_
  exact hapart (List.mem_cons_self (a := c.name)) (heq ▸ List.mem_cons_self)

/-- A callback that is added last has a name of its own. -/
theorem Distinct.fresh (h : Distinct (steps ++ [.add c])) : ∀ d ∈ adds steps, d.name ≠ c.name := by
  intro d hd heq
  have hnodup := h.nodup
  have hadds : adds (steps ++ [.add c]) = adds steps ++ [c] := adds_append
  rw [hadds] at hnodup
  have hdc : d = c := h.eq_of_mem (hadds ▸ List.mem_append_left _ hd) (hadds ▸ List.mem_append_right _ (List.mem_singleton_self c))
    List.mem_cons_self (heq ▸ List.mem_cons_self)
  exact (List.nodup_append.mp hnodup).2.2 d hd c (List.mem_singleton_self c) hdc

end Steps

namespace Session
variable {before after steps : List SessionStep} {s t : Session} {reason : Option String}

def run (s : Session) (steps : List SessionStep) : Session := steps.foldl (fun s step => (s.step step).1) s

theorem run_append (s : Session) (before after : List SessionStep) : s.run (before ++ after) = (s.run before).run after :=
  List.foldl_append

/-! ## Before the signal -/

/-- How a session stands after some steps that have not signalled the token. -/
structure Awaits (steps : List SessionStep) (s : Session) : Prop where
  cancelled : s.token.cancelled = false
  callbacks : s.token.callbacks = staying steps
  known : s.known = adds steps
  removable : ∀ c ∈ adds steps, c.name ∈ s.removable
  notes : s.notes = []
  tasks : (s.token.waiters ++ s.ready).Perm (tasks steps)

theorem awaits_start : Awaits [] start where
  cancelled := rfl
  callbacks := rfl
  known := rfl
  removable := List.forall_mem_nil _
  notes := rfl
  tasks := .nil

theorem knownOr_fresh {c : NamedCallback} (h : ∀ d ∈ s.known, d.name ≠ c.name) : s.knownOr c = c := by
  have hnone : s.known.find? (·.name == c.name) = none :=
    List.find?_eq_none.mpr fun d hd heq => h d hd (beq_iff_eq.mp heq)
  rw [knownOr, hnone]
  rfl

/-- Tasks that go on before the signal wait for it. -/
theorem settle_waiting (hs : s.token.cancelled = false) :
    s.settle = { s with ready := [], token := { s.token with waiters := s.token.waiters ++ s.ready } } := by
  suffices hfold : ∀ (ready : List String) (t : Session), t.token.cancelled = false →
      ready.foldl resume t = { t with token := { t.token with waiters := t.token.waiters ++ ready } } from hfold _ _ hs
  intro ready
  induction ready with
  | nil =>
    intro t _
    simp
  | cons name rest ih =>
    intro t ht
    have hresume : t.resume name = { t with token := t.token.park name } := by simp [resume, ht]
    rw [List.foldl_cons, hresume, ih { t with token := t.token.park name } ht]
    simp [Token.park]

/-- A step that neither adds nor removes and lets no task wait leaves a session as it stands. -/
theorem Awaits.idle {step : SessionStep} (h : Awaits steps s) (hadd : step.added? = none) (htask : step.task? = none)
    (hremove : ∀ name, step ≠ .remove name) : Awaits (steps ++ [step]) s where
  cancelled := h.cancelled
  callbacks := by rw [staying_concat hremove, hadd, h.callbacks]; exact (List.append_nil _).symm
  known := by rw [adds_concat, hadd, h.known]; exact (List.append_nil _).symm
  removable := by rw [adds_concat, hadd]; simpa using h.removable
  notes := h.notes
  tasks := by rw [tasks_concat, htask]; simpa using h.tasks

theorem Awaits.add {c : NamedCallback} (h : Awaits steps s) (hd : Distinct (steps ++ [.add c])) :
    Awaits (steps ++ [.add c]) (s.add c).1 := by
  have hfresh : s.knownOr c = c := knownOr_fresh (h.known ▸ hd.fresh)
  have hadd : (s.add c).1 = { s with known := s.known ++ [c], token := s.token.register c }.allowRemoval c.name := by
    simp [Session.add, hfresh, h.cancelled]
  rw [hadd]
  exact {
    cancelled := h.cancelled
    callbacks := by rw [staying_concat fun _ => SessionStep.noConfusion, ← h.callbacks]; rfl
    known := by rw [adds_concat, ← h.known]; rfl
    removable := by
      rw [adds_concat]
      intro d hmem
      rcases List.mem_append.mp hmem with hmem | hmem
      · exact List.mem_cons_of_mem _ (h.removable d hmem)
      · rw [List.mem_singleton.mp hmem]
        exact List.mem_cons_self
    notes := h.notes
    tasks := by rw [tasks_concat]; exact (List.append_nil (Job.tasks steps)).symm ▸ h.tasks }

/-- The first registration of a name is the only one. -/
theorem step_remove (hnodup : s.token.callbacks.Nodup) (hremovable : ∀ c ∈ s.token.callbacks, c.name ∈ s.removable)
    (hname : ∀ c ∈ s.token.callbacks, ∀ d ∈ s.token.callbacks, c.name = d.name → c = d) (name : String) :
    (s.step (.remove name)).1 = { s with token := { s.token with callbacks := s.token.callbacks.filter (·.name ≠ name) } } := by
  by_cases hnone : ∀ c ∈ s.token.callbacks, c.name ≠ name
  · have hfilter : s.token.callbacks.filter (·.name ≠ name) = s.token.callbacks :=
      List.filter_eq_self.mpr fun c hc => decide_eq_true (hnone c hc)
    have hfind : s.token.callbacks.find? (·.name == name) = none :=
      List.find?_eq_none.mpr fun c hc heq => hnone c hc (beq_iff_eq.mp heq)
    rw [hfilter]
    simp only [Session.step, removeFirst, hfind]
    split <;> rename_i h <;> split at h <;> cases h <;> rfl
  · simp only [not_forall, not_not] at hnone
    obtain ⟨c, hc, rfl⟩ := hnone
    have hfound : (s.token.callbacks.find? (·.name == c.name)).isSome = true :=
      List.find?_isSome.mpr ⟨c, hc, beq_self_eq_true c.name⟩
    obtain ⟨d, hd⟩ := Option.isSome_iff_exists.mp hfound
    have hsame : (d.name == c.name) = true := List.find?_some (p := fun e : NamedCallback => e.name == c.name) hd
    obtain rfl : d = c := hname d (List.mem_of_find?_eq_some hd) c hc (beq_iff_eq.mp hsame)
    have hfilter : s.token.callbacks.erase d = s.token.callbacks.filter (·.name ≠ d.name) := by
      rw [hnodup.erase_eq_filter]
      refine List.filter_congr fun e he => ?_
      rw [bne, Bool.eq_iff_iff, Bool.not_eq_true', beq_eq_false_iff_ne, decide_eq_true_eq]
      exact not_congr ⟨fun h => h ▸ rfl, hname e he d hc⟩
    simp only [Session.step, removeFirst, List.contains_iff_mem.mpr (hremovable d hc), if_true, hd, Token.unregister, hfilter]

theorem Awaits.remove (h : Awaits steps s) (hd : Distinct steps) (name : String) :
    Awaits (steps ++ [.remove name]) (s.step (.remove name)).1 := by
  have hmem : ∀ c ∈ s.token.callbacks, c ∈ adds steps := fun c hc => (staying_adds steps).subset (h.callbacks ▸ hc)
  have hnodup : s.token.callbacks.Nodup := h.callbacks ▸ hd.nodup.sublist (staying_adds steps)
  rw [step_remove hnodup (fun c hc => h.removable c (hmem c hc)) fun c hc d hd' heq =>
    hd.eq_of_mem (hmem c hc) (hmem d hd') List.mem_cons_self (heq ▸ List.mem_cons_self)]
  exact {
    cancelled := h.cancelled
    callbacks := by rw [staying_remove, ← h.callbacks]
    known := by rw [adds_concat]; exact h.known.trans (List.append_nil _).symm
    removable := by rw [adds_concat]; exact (List.append_nil (adds steps)).symm ▸ h.removable
    notes := h.notes
    tasks := by rw [tasks_concat]; exact (List.append_nil (Job.tasks steps)).symm ▸ h.tasks }

theorem Awaits.wait (h : Awaits steps s) (name : String) : Awaits (steps ++ [.wait name]) (s.step (.wait name)).1 where
  cancelled := h.cancelled
  callbacks := by rw [staying_concat fun _ => SessionStep.noConfusion]; exact h.callbacks.trans (List.append_nil _).symm
  known := by rw [adds_concat]; exact h.known.trans (List.append_nil _).symm
  removable := by rw [adds_concat]; exact (List.append_nil (adds steps)).symm ▸ h.removable
  notes := h.notes
  tasks := by
    rw [tasks_concat]
    change (s.token.waiters ++ (s.ready ++ [name])).Perm _
    rw [← List.append_assoc]
    exact h.tasks.append_right [name]

theorem Awaits.settle (h : Awaits steps s) : Awaits (steps ++ [.settle]) (s.step .settle).1 := by
  have hidle : Awaits (steps ++ [.settle]) s := h.idle rfl rfl nofun
  change Awaits (steps ++ [.settle]) s.settle
  rw [settle_waiting h.cancelled]
  exact { hidle with tasks := by simpa using hidle.tasks }

theorem Awaits.step {step : SessionStep} (h : Awaits steps s) (hno : ∀ r, step ≠ .cancel r) (hd : Distinct (steps ++ [step])) :
    Awaits (steps ++ [step]) (s.step step).1 := by
  cases step with
  | cancel r => exact absurd rfl (hno r)
  | add c => exact h.add hd
  | remove name => exact h.remove hd.left name
  | check | describe => exact h.idle rfl rfl nofun
  | wait name => exact h.wait name
  | settle => exact h.settle

/-- Steps that do not signal the token keep a session waiting. -/
theorem awaits_run (hno : ∀ r, .cancel r ∉ steps) (hd : Distinct steps) : Awaits steps (start.run steps) := by
  induction steps using List.reverseRecOn with
  | nil => exact awaits_start
  | append_singleton steps step ih =>
    rw [run_append]
    have hbefore := ih (fun r hr => hno r (List.mem_append_left _ hr)) hd.left
    exact hbefore.step (fun r hr => hno r (hr ▸ List.mem_append_right _ (List.mem_singleton_self _))) hd

/-! ## From the signal on -/

/-- How a session stands after the token was signalled and some more steps. -/
structure Fires (before after : List SessionStep) (reason : Option String) (s : Session) : Prop where
  signalled : s.Signalled reason
  known : s.known = adds (before ++ after)
  calls : ∃ first later, List.Forall₂ NamedCallback.Calls (staying before) first ∧
    List.Forall₂ NamedCallback.Calls (adds after) later ∧ s.calls = (first.flatten ++ later.flatten).map (·, .textOr reason)
  answers : ∀ a ∈ s.answers, a.2 = false
  tasks : ∃ names, s.returns = names.map (·, .textOr reason) ∧ (names ++ s.ready).Perm (tasks (before ++ after))

/-- The signal calls the callbacks that stand, and those who wait are ready. -/
theorem Awaits.signal (h : Awaits before s) (reason : Option String) :
    (s.step (.cancel reason)).2 = .ok (.bool true) ∧ Fires before [] reason (s.step (.cancel reason)).1 := by
  have hu : (s.signalling reason).Signalled reason := rfl
  have hstep : s.step (.cancel reason) = ((s.signalling reason).callAll (staying before), .ok (.bool true)) := by
    simp only [Session.step, cancel_first h.cancelled, h.callbacks]
  obtain ⟨called, hcalls, htold⟩ := callAll_tells (staying before) hu
  obtain ⟨late, hlate, hfalse⟩ := htold.answers
  have hnotes : (s.signalling reason).notes = [] := h.notes
  rw [hstep]
  refine ⟨rfl, {
    signalled := htold.signalled hu
    known := by rw [htold.known, List.append_nil]; exact h.known
    calls := ⟨called, [], hcalls, .nil, ?_⟩
    answers := ?_
    tasks := ⟨[], ?_, ?_⟩ }⟩
  · rw [htold.calls, calls, hnotes, List.flatten_nil, List.append_nil]
    rfl
  · rw [hlate, answers, hnotes]
    exact hfalse
  · rw [htold.returns, returns, hnotes]
    rfl
  · rw [htold.ready, List.append_nil before]
    have hswap : (s.ready ++ s.token.waiters).Perm (s.token.waiters ++ s.ready) := List.perm_append_comm
    exact hswap.trans h.tasks

/-- A step that neither adds a callback nor lets a task wait leaves a session as it stands. -/
theorem Fires.idle {step : SessionStep} (h : Fires before after reason s) (hadd : step.added? = none) (htask : step.task? = none) :
    Fires before (after ++ [step]) reason s := by
  have hadds : ∀ steps, adds (steps ++ [step]) = adds steps := fun steps => by rw [adds_concat, hadd]; exact List.append_nil _
  have htasks : ∀ steps, Job.tasks (steps ++ [step]) = Job.tasks steps := fun steps => by
    rw [tasks_concat, htask]
    exact List.append_nil _
  refine ⟨h.signalled, ?_, ?_, h.answers, ?_⟩
  · rw [← List.append_assoc, hadds]
    exact h.known
  · rw [hadds]
    exact h.calls
  · rw [← List.append_assoc, htasks]
    exact h.tasks

theorem Fires.add {c : NamedCallback} (h : Fires before after reason s) (hd : Distinct (before ++ (after ++ [.add c]))) :
    Fires before (after ++ [.add c]) reason (s.step (.add c)).1 := by
  rw [← List.append_assoc] at hd
  have hfresh : s.knownOr c = c := knownOr_fresh (h.known ▸ hd.fresh)
  let u : Session := { s with known := s.known ++ [c] }
  have hu : u.Signalled reason := h.signalled
  have hcancelled : s.token.cancelled = true := by rw [h.signalled]
  have hstep : (s.step (.add c)).1 = (react (.add c.name c.reaction) c.name u).1 := by
    simp [Session.step, Session.add, hfresh, hcancelled, u]
  obtain ⟨names, failed, hadds, htold, -⟩ := react_tells (.add c.name c.reaction) c.name hu
  obtain ⟨first, later, hfirst, hlater, hcalls⟩ := h.calls
  obtain ⟨returned, hreturns, htasks⟩ := h.tasks
  obtain ⟨late, hlate, hfalse⟩ := htold.answers
  rw [hstep]
  -- The token was signalled before, so the callback is called at once, and it is told last.
  cases hadds with
  | add hadds =>
    rename_i added
    exact {
      signalled := htold.signalled hu
      known := by rw [htold.known, ← List.append_assoc, adds_concat, ← h.known]; rfl
      calls := by
        refine ⟨first, later ++ [c.name :: added], hfirst, ?_, ?_⟩
        · rw [adds_concat]
          exact List.rel_append hlater (.cons ⟨added, failed, hadds, rfl⟩ .nil)
        · rw [htold.calls, show u.calls = s.calls from rfl, hcalls]
          simp
      answers := by
        rw [hlate]
        exact List.forall_mem_append.mpr ⟨h.answers, hfalse⟩
      tasks := by
        refine ⟨returned, htold.returns.trans hreturns, ?_⟩
        rw [htold.ready, ← List.append_assoc, tasks_concat]
        exact (List.append_nil (Job.tasks (before ++ after))).symm ▸ htasks }

theorem Fires.wait (h : Fires before after reason s) (name : String) :
    Fires before (after ++ [.wait name]) reason (s.step (.wait name)).1 := by
  obtain ⟨returned, hreturns, htasks⟩ := h.tasks
  refine ⟨h.signalled, ?_, ?_, h.answers, returned, hreturns, ?_⟩
  · rw [← List.append_assoc, adds_concat]
    exact h.known.trans (List.append_nil _).symm
  · rw [adds_concat]
    exact (List.append_nil (adds after)).symm ▸ h.calls
  · rw [← List.append_assoc, tasks_concat]
    change (returned ++ (s.ready ++ [name])).Perm _
    rw [← List.append_assoc]
    exact htasks.append_right [name]

/-- Tasks that go on after the signal are given the reason. -/
theorem settle_signalled (hs : s.Signalled reason) : s.settle =
    { s with ready := [], notes := s.notes ++ s.ready.map fun name => .list [.text name, .text "waited", .textOr reason] } := by
  suffices hfold : ∀ (ready : List String) (t : Session), t.Signalled reason → ready.foldl resume t =
      { t with notes := t.notes ++ ready.map fun name => .list [.text name, .text "waited", .textOr reason] } from
    hfold s.ready { s with ready := [] } hs
  intro ready
  induction ready with
  | nil =>
    intro t _
    simp
  | cons name rest ih =>
    intro t ht
    have hresume : t.resume name = t.note [.text name, .text "waited", .textOr reason] := by
      rw [resume, ht]
      rfl
    rw [List.foldl_cons, hresume, ih (t.note [.text name, .text "waited", .textOr reason]) ht]
    simp [note]

theorem settle_returns (hs : s.Signalled reason) : s.settle.calls = s.calls ∧ s.settle.answers = s.answers ∧
    s.settle.returns = s.returns ++ s.ready.map (·, .textOr reason) := by
  have hcalled : ∀ name, called? (.list [.text name, .text "waited", .textOr reason]) = none := fun _ => rfl
  have hanswered : ∀ name, answered? (.list [.text name, .text "waited", .textOr reason]) = none := fun _ => by cases reason <;> rfl
  have hreturned : ∀ name, returned? (.list [.text name, .text "waited", .textOr reason]) = some (name, .textOr reason) := fun _ => rfl
  rw [settle_signalled hs]
  simp [calls, answers, returns, hcalled, hanswered, hreturned]

theorem Fires.settle (h : Fires before after reason s) : Fires before (after ++ [.settle]) reason (s.step .settle).1 ∧
    (s.step .settle).1.ready = [] := by
  have hidle : Fires before (after ++ [.settle]) reason s := h.idle rfl rfl
  obtain ⟨returned, hreturns, htasks⟩ := hidle.tasks
  obtain ⟨hcalls, hanswers, hsettled⟩ := settle_returns h.signalled
  have hready : s.settle.ready = [] := by rw [settle_signalled h.signalled]
  change Fires before (after ++ [.settle]) reason s.settle ∧ s.settle.ready = []
  refine ⟨{
    signalled := ?_
    known := ?_
    calls := by rw [hcalls]; exact hidle.calls
    answers := by rw [hanswers]; exact hidle.answers
    tasks := ⟨returned ++ s.ready, ?_, ?_⟩ }, hready⟩
  · rw [settle_signalled h.signalled]
    exact h.signalled
  · rw [settle_signalled h.signalled]
    exact hidle.known
  · rw [hsettled, hreturns, List.map_append]
  · rw [hready, List.append_nil]
    exact htasks

theorem Fires.step {step : SessionStep} (h : Fires before after reason s) (hd : Distinct (before ++ (after ++ [step]))) :
    Fires before (after ++ [step]) reason (s.step step).1 := by
  cases step with
  | cancel again =>
    simp only [Session.step, cancel_signalled h.signalled]
    exact h.idle rfl rfl
  | add c => exact h.add hd
  | remove name =>
    have hsame : (s.step (.remove name)).1 = s := by
      simp only [Session.step]
      rcases removeFirst_signalled h.signalled name with hr | hr <;> rw [hr]
    rw [hsame]
    exact h.idle rfl rfl
  | check | describe => exact h.idle rfl rfl
  | wait name => exact h.wait name
  | settle => exact h.settle.1

/-- The signal and all that follows. -/
theorem fires_run (hno : ∀ r, .cancel r ∉ before) (reason : Option String) (hd : Distinct (before ++ after)) :
    Fires before after reason (start.run (before ++ .cancel reason :: after)) := by
  have hbefore := awaits_run hno hd.left
  have hsplit : start.run (before ++ .cancel reason :: after) = (((start.run before).step (.cancel reason)).1).run after :=
    run_append _ _ _
  rw [hsplit]
  clear hsplit
  induction after using List.reverseRecOn with
  | nil => exact (hbefore.signal reason).2
  | append_singleton after step ih =>
    rw [run_append]
    have hleft : Distinct (before ++ after) := by
      rw [← List.append_assoc] at hd
      exact hd.left
    exact (ih hleft).step hd

/-! ## Once and for all -/

theorem called_sublist {cs : List NamedCallback} {called : List (List String)} (h : List.Forall₂ NamedCallback.Calls cs called) :
    called.flatten.Sublist (cs.flatMap NamedCallback.names) := by
  induction h with
  | nil => exact List.Sublist.refl _
  | cons hc _ ih => exact hc.sublist.append ih

section Called
variable {first later : List (List String)} (hfirst : List.Forall₂ NamedCallback.Calls (staying before) first)
  (hlater : List.Forall₂ NamedCallback.Calls (adds after) later)

include hfirst hlater

/-- What is called is among what is added, in the order in which it is added. -/
theorem calls_sublist : (first.flatten ++ later.flatten).Sublist ((adds (before ++ after)).flatMap NamedCallback.names) := by
  rw [adds_append, List.flatMap_append]
  exact ((called_sublist hfirst).trans ((staying_adds before).flatMap _)).append (called_sublist hlater)

theorem removed_not_called {c : NamedCallback} (hd : Distinct (before ++ after)) (hc : c ∈ adds before) (hno : c ∉ staying before) :
    c.name ∉ first.flatten ++ later.flatten := by
  have hall : adds (before ++ after) = adds before ++ adds after := adds_append
  have hmem : c ∈ adds (before ++ after) := hall ▸ List.mem_append_left _ hc
  intro hcalled
  rcases List.mem_append.mp hcalled with hcalled | hcalled
  · obtain ⟨d, hstands, hname⟩ := List.mem_flatMap.mp ((called_sublist hfirst).subset hcalled)
    have hd' : d ∈ adds (before ++ after) := hall ▸ List.mem_append_left _ ((staying_adds before).subset hstands)
    exact hno (hd.eq_of_mem hmem hd' List.mem_cons_self hname ▸ hstands)
  · obtain ⟨d, hadded, hname⟩ := List.mem_flatMap.mp ((called_sublist hlater).subset hcalled)
    have hd' : d ∈ adds (before ++ after) := hall ▸ List.mem_append_right _ hadded
    have hnodup := hd.nodup
    rw [hall] at hnodup
    exact (List.nodup_append.mp hnodup).2.2 c hc d hadded (hd.eq_of_mem hmem hd' List.mem_cons_self hname)

end Called

/-- How a session stands whose token was signalled after some steps and before others: only that signal counted, it called the
callbacks that stood, later ones were called at once, and all tasks that wait go on. -/
structure FiresOnce (before after : List SessionStep) (reason : Option String) (s : Session) : Prop where
  token : s.token.cancelled = true ∧ s.token.reason = reason
  again : ∀ other, s.step (.cancel other) = (s, .ok (.bool false))
  answers : ∀ a ∈ s.answers, a.2 = false
  calls : ∃ first later, List.Forall₂ NamedCallback.Calls (staying before) first ∧
    List.Forall₂ NamedCallback.Calls (adds after) later ∧ s.calls = (first.flatten ++ later.flatten).map (·, .textOr reason)
  once : (s.calls.map Prod.fst).Nodup
  removed : ∀ c ∈ adds before, c ∉ staying before → c.name ∉ s.calls.map Prod.fst
  tasks : (s.step .settle).1.returns.Perm ((tasks (before ++ after)).map (·, .textOr reason))

/-- The first signal calls every callback that stands once and in order, whatever they do; those that are added later are called
once as well, at once; and those who wait are given the reason of that signal. -/
theorem callbacks_called_once (before after : List SessionStep) (reason : Option String) (hfirst : ∀ r, .cancel r ∉ before)
    (hdistinct : Distinct (before ++ after)) :
    ((start.run before).step (.cancel reason)).2 = .ok (.bool true) ∧
      FiresOnce before after reason (start.run (before ++ .cancel reason :: after)) := by
  have hfires := fires_run hfirst reason hdistinct
  refine ⟨((awaits_run hfirst hdistinct.left).signal reason).1, ?_⟩
  obtain ⟨first, later, hcalled, hadded, hcalls⟩ := hfires.calls
  obtain ⟨hsettled, hready⟩ := hfires.settle
  obtain ⟨returned, hreturns, htasks⟩ := hsettled.tasks
  have hnames : (start.run (before ++ .cancel reason :: after)).calls.map Prod.fst = first.flatten ++ later.flatten := by
    rw [hcalls, List.map_map]
    exact List.map_id _
  exact {
    token := by rw [hfires.signalled]; exact ⟨rfl, rfl⟩
    again := fun other => by simp only [Session.step, cancel_signalled hfires.signalled]
    answers := hfires.answers
    calls := hfires.calls
    once := hnames ▸ (List.Nodup.sublist (calls_sublist hcalled hadded) hdistinct)
    removed := fun c hc hno => hnames ▸ removed_not_called hcalled hadded hdistinct hc hno
    tasks := by
      rw [hready, List.append_nil, ← List.append_assoc, tasks_concat] at htasks
      rw [hreturns]
      exact (htasks.trans (.of_eq (List.append_nil _))).map _ }

/-- Callbacks that fail, that signal the token again and that add others, one that is removed, and tasks that wait. -/
theorem failing_callbacks_called_once :
    let before : List SessionStep := [.wait "w", .settle, .add ⟨"a", .fail⟩,
      .add ⟨"b", .andThen (.cancel (some "late")) (.add "c" (.andThen (.add "d" .fail) (.add "e" .nothing)))⟩,
      .add ⟨"f", .nothing⟩, .remove "f", .add ⟨"g", .remove "a"⟩]
    let after : List SessionStep := [.cancel none, .add ⟨"h", .fail⟩, .wait "v"]
    Session.FiresOnce before after (some "stop") (start.run (before ++ .cancel (some "stop") :: after)) ∧
      (start.run (before ++ .cancel (some "stop") :: after)).calls.map Prod.fst = ["a", "b", "c", "d", "g", "h"] := by
  intro before after
  exact ⟨(callbacks_called_once before after (some "stop") (by simp [before]) (by decide +kernel)).2, by decide +kernel⟩

end Session

end MediaEngine.Job
