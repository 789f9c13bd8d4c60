import MediaEngine.Schema.Record

/-! # What is read under a key

The members of an object have a value under a key, in whichever spelling it is found (`Key.value?`), and what is read of a
field depends on this value alone. Where no key is there twice, a key is found under its preferred spelling if this is
there, and under its name otherwise (`Key.find?_eq_some_iff`). -/

namespace MediaEngine
open Schema

/-! ## Members -/

namespace Members
variable {key : String} {v : Value} {m : Members}

@[simp] theorem find?_nil (key : String) : Members.find? [] key = none := rfl

@[simp] theorem find?_cons (key key' : String) (v : Value) (rest : Members) :
    Members.find? ((key, v) :: rest) key' = if key' == key then some v else rest.find? key' := by
  rw [Members.find?, List.lookup_cons]
  cases key' == key <;> rfl

theorem find?_cons_self (key : String) (v : Value) (rest : Members) : Members.find? ((key, v) :: rest) key = some v := by
  simp

theorem find?_cons_ne {key' : String} (h : key' ≠ key) (v : Value) (rest : Members) :
    Members.find? ((key, v) :: rest) key' = rest.find? key' := by
  simp [h]

theorem find?_eq_none_iff : m.find? key = none ↔ key ∉ m.map (·.1) := by
  induction m with
  | nil => exact iff_of_true rfl List.not_mem_nil
  | cons member rest ih =>
    by_cases hkey : key = member.1
    · rw [hkey, find?_cons_self]
      exact iff_of_false (fun h => by cases h) fun h => h List.mem_cons_self
    · rw [find?_cons_ne hkey, ih, List.map_cons, List.mem_cons, not_or]
      exact (and_iff_right hkey).symm

/-- Where no key is there twice, each member is found. -/
theorem find?_eq_some_iff (hm : (m.map (·.1)).Nodup) : m.find? key = some v ↔ (key, v) ∈ m := by
  induction m with
  | nil => exact iff_of_false (fun h => by cases h) List.not_mem_nil
  | cons member rest ih =>
    obtain ⟨other, w⟩ := member
    obtain ⟨hnew, hrest⟩ := List.nodup_cons.mp hm
    by_cases hkey : key = other
    · subst hkey
      have hout : (key, v) ∉ rest := fun h => hnew (List.mem_map_of_mem (f := (·.1)) h)
      simp [hout, eq_comm]
    · simp [find?_cons_ne hkey, ih hrest, hkey]

end Members

/-! ## What was read, without the issues -/

namespace Schema
variable {α β : Type}

namespace Checked

@[simp] theorem toOption_pure (a : α) : (pure a : Checked α).toOption = some a := rfl

@[simp] theorem toOption_seq (f : Checked (α → β)) (x : Checked α) : (f <*> x).toOption = f.toOption <*> x.toOption := by
  cases f <;> cases x <;> rfl

@[simp] theorem toOption_map (f : α → β) (x : Checked α) : (f <$> x).toOption = f <$> x.toOption := by
  cases x <;> rfl

@[simp] theorem toOption_seqLeft (x : Checked α) (y : Checked β) : (x <* y).toOption = x.toOption <* y.toOption := by
  cases x <;> cases y <;> rfl

@[simp] theorem toOption_mapped (f : α → β) (x : Checked α) : (x.map f).toOption = x.toOption.map f := by
  cases x <;> rfl

@[simp] theorem toOption_under (x : Checked α) (step : Place) : (x.under step).toOption = x.toOption := by
  cases x <;> rfl

theorem toOption_eq_some {x : Checked α} {a : α} : x.toOption = some a ↔ x = .ok a := by
  cases x <;> simp [toOption]

theorem map_eq_ok {f : α → β} {x : Checked α} {b : β} : x.map f = .ok b ↔ ∃ a, x = .ok a ∧ f a = b := by
  cases x <;> simp [Checked.map]

theorem fmap_eq_ok {f : α → β} {x : Checked α} {b : β} : f <$> x = .ok b ↔ ∃ a, x = .ok a ∧ f a = b := by
  simp only [← toOption_eq_some, toOption_map, Option.map_eq_map, Option.map_eq_some_iff]

theorem seq_eq_ok {f : Checked (α → β)} {x : Checked α} {b : β} :
    f <*> x = .ok b ↔ ∃ g, f = .ok g ∧ ∃ a, x = .ok a ∧ g a = b := by
  rcases f with g | issues
  · rcases x with a | issues
    · exact ⟨fun h => ⟨g, rfl, a, rfl, Checked.ok.inj h⟩, fun ⟨_, hg, _, ha, h⟩ => by cases hg; cases ha; exact congrArg _ h⟩
    · exact iff_of_false nofun nofun
  · exact iff_of_false (by cases x <;> exact nofun) nofun

theorem seqLeft_eq_ok {x : Checked α} {y : Checked β} {a : α} : x <* y = .ok a ↔ x = .ok a ∧ ∃ b, y = .ok b := by
  rcases x with a' | issues
  · rcases y with b | issues
    · exact ⟨fun h => ⟨h, b, rfl⟩, fun h => h.1⟩
    · exact iff_of_false nofun nofun
  · exact iff_of_false (by cases y <;> exact nofun) nofun

theorem orElse_eq_ok {x y : Checked α} {a : α} : x.orElse y = .ok a ↔ x = .ok a ∨ (∃ issues, x = .bad issues) ∧ y = .ok a := by
  cases x <;> cases y <;> simp [orElse]

end Checked

/-! ## Keys -/

/-- The value found under a key, however it is spelled. -/
def Key.value? (k : Key) (m : Members) : Option Value := (k.find? m).map (·.2)

section Keys
variable {k : Key} {key : String} {v : Value} {m : Members}

@[simp] theorem only_name (name : String) : (Key.only name).name = name := rfl

@[simp] theorem only_spelling (name : String) : (Key.only name).spelling = name := rfl

/-- The preferred spelling is looked for first. -/
theorem value?_eq (k : Key) (m : Members) : k.value? m = (m.find? k.spelling).or (m.find? k.name) := by
  unfold Key.value? Key.find?
  cases m.find? k.spelling with
  | none => cases m.find? k.name <;> rfl
  | some v => rfl

/-- A key with a single spelling. -/
@[simp] theorem value?_only (name : String) (m : Members) : (Key.only name).value? m = m.find? name := by
  rw [value?_eq]
  exact Option.or_self

@[simp] theorem toOption_required (k : Key) (read : Value → Checked α) (m : Members) :
    (required k read m).toOption = (k.value? m).bind fun v => (read v).toOption := by
  unfold required Key.value?
  rcases k.find? m with _ | ⟨key, v⟩
  · rfl
  · exact Checked.toOption_under _ _

@[simp] theorem toOption_withDefault (k : Key) (read : Value → Checked α) (default : α) (m : Members) :
    (withDefault k read default m).toOption = (k.value? m).elim (some default) fun v => (read v).toOption := by
  unfold withDefault Key.value?
  rcases k.find? m with _ | ⟨key, v⟩
  · rfl
  · exact Checked.toOption_under _ _

theorem withDefault_eq_ok {read : Value → Checked α} {default a : α} :
    withDefault k read default m = .ok a ↔ (k.value? m).elim (a = default) fun v => read v = .ok a := by
  rw [← Checked.toOption_eq_some, toOption_withDefault]
  cases k.value? m with
  | none => exact ⟨fun h => (Option.some.inj h).symm, fun h => congrArg some h.symm⟩
  | some v => exact Checked.toOption_eq_some

/-- The key is written in one of its two spellings. -/
def Key.Spells (k : Key) (key : String) : Prop := key = k.spelling ∨ key = k.name

/-- The key is there in this spelling, and not in one that comes first. -/
def Key.FoundUnder (k : Key) (m : Members) (key : String) : Prop :=
  key ∈ m.map (·.1) ∧ (key = k.spelling ∨ key = k.name ∧ k.spelling ∉ m.map (·.1))

theorem Key.FoundUnder.spells (h : k.FoundUnder m key) : k.Spells key := h.2.imp_right And.left

theorem Key.find?_eq_some_iff (hm : (m.map (·.1)).Nodup) : k.find? m = some (key, v) ↔ k.FoundUnder m key ∧ (key, v) ∈ m := by
  have hthere : (key, v) ∈ m → key ∈ m.map (·.1) := fun h => List.mem_map_of_mem h
  unfold Key.find?
  cases hspelling : m.find? k.spelling with
  | some w =>
    have hw := (Members.find?_eq_some_iff hm).mp hspelling
    dsimp only
    constructor
    · intro h
      cases h
      exact ⟨⟨hthere hw, .inl rfl⟩, hw⟩
    · rintro ⟨⟨-, rfl | ⟨rfl, hno⟩⟩, hv⟩
      · rw [Option.some.inj (hspelling.symm.trans ((Members.find?_eq_some_iff hm).mpr hv))]
      · exact absurd (List.mem_map_of_mem hw) hno
  | none =>
    have hno := Members.find?_eq_none_iff.mp hspelling
    dsimp only
    constructor
    · intro h
      obtain ⟨w, hw, h⟩ := Option.map_eq_some_iff.mp h
      cases h
      have hv := (Members.find?_eq_some_iff hm).mp hw
      exact ⟨⟨hthere hv, .inr ⟨rfl, hno⟩⟩, hv⟩
    · rintro ⟨⟨hkey, rfl | ⟨rfl, -⟩⟩, hv⟩
      · exact absurd hkey hno
      · rw [(Members.find?_eq_some_iff hm).mpr hv, Option.map_some]

theorem Key.find?_eq_none_iff : k.find? m = none ↔ k.spelling ∉ m.map (·.1) ∧ k.name ∉ m.map (·.1) := by
  unfold Key.find?
  cases hspelling : m.find? k.spelling with
  | some w =>
    refine iff_of_false (fun h => by cases h) fun h => ?_
    rw [Members.find?_eq_none_iff.mpr h.1] at hspelling
    cases hspelling
  | none =>
    have hno := Members.find?_eq_none_iff.mp hspelling
    rw [Option.map_eq_none_iff, Members.find?_eq_none_iff]
    exact (and_iff_right hno).symm

end Keys

end Schema

end MediaEngine
