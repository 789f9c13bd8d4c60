import MediaEngine.Proofs.Compile.Reading
import MediaEngine.Value.Height

/-! # Values as they are written

Writing replaces the numbers that are not finite, and nothing else (`finiteOnly_eq`). A value that was written
before is written as it is, and it is as high as it was. Each kind of member is read back from what is written
for it. -/

namespace MediaEngine
open Schema

/-! ## Numbers that are not finite -/

namespace Value

mutual

/-- Whether every number in the value is finite, inside lists and objects too. -/
def allFinite : Value → Bool
  | .number (.float x) => x.isFinite
  | .list items => itemsFinite items
  | .object members => membersFinite members
  | _ => true

/-- Whether every number in the items is finite. -/
def itemsFinite : List Value → Bool
  | [] => true
  | v :: rest => v.allFinite && itemsFinite rest

/-- Whether every number in the members is finite. -/
def membersFinite : Members → Bool
  | [] => true
  | (_, v) :: rest => v.allFinite && membersFinite rest

end

mutual

theorem finiteOnly_eq : ∀ {v : Value}, v.allFinite = true → v.finiteOnly = v
  | .null, _ => rfl
  | .bool _, _ => rfl
  | .number (.int _), _ => rfl
  | .number (.float _), h => if_pos h
  | .text _, _ => rfl
  | .list _, h => congrArg Value.list (finiteItems_eq h)
  | .object _, h => congrArg Value.object (finiteMembers_eq h)

theorem finiteItems_eq : ∀ {items : List Value}, itemsFinite items = true → finiteItems items = items
  | [], _ => rfl
  | _ :: _, h =>
    have ⟨hv, hrest⟩ := Bool.and_eq_true_iff.mp h
    congrArg₂ List.cons (finiteOnly_eq hv) (finiteItems_eq hrest)

theorem finiteMembers_eq : ∀ {m : Members}, membersFinite m = true → finiteMembers m = m
  | [], _ => rfl
  | (k, _) :: _, h =>
    have ⟨hv, hrest⟩ := Bool.and_eq_true_iff.mp h
    congrArg₂ (fun v rest => (k, v) :: rest) (finiteOnly_eq hv) (finiteMembers_eq hrest)

end

mutual

theorem allFinite_finiteOnly : ∀ v : Value, v.finiteOnly.allFinite = true
  | .null => rfl
  | .bool _ => rfl
  | .number (.int _) => rfl
  | .number (.float x) => by
    rw [finiteOnly]
    split
    · assumption
    · rfl
  | .text _ => rfl
  | .list items => itemsFinite_finiteItems items
  | .object members => membersFinite_finiteMembers members

theorem itemsFinite_finiteItems : ∀ items : List Value, itemsFinite (finiteItems items) = true
  | [] => rfl
  | v :: rest => Bool.and_eq_true_iff.mpr ⟨allFinite_finiteOnly v, itemsFinite_finiteItems rest⟩

theorem membersFinite_finiteMembers : ∀ m : Members, membersFinite (finiteMembers m) = true
  | [] => rfl
  | (_, v) :: rest => Bool.and_eq_true_iff.mpr ⟨allFinite_finiteOnly v, membersFinite_finiteMembers rest⟩

end

mutual

@[simp] theorem height_finiteOnly : ∀ v : Value, v.finiteOnly.height = v.height
  | .null => rfl
  | .bool _ => rfl
  | .number (.int _) => rfl
  | .number (.float x) => by
    rw [finiteOnly]
    split <;> rfl
  | .text _ => rfl
  | .list items => congrArg (1 + ·) (itemsHeight_finiteItems items)
  | .object members => congrArg (1 + ·) (membersHeight_finiteMembers members)

theorem itemsHeight_finiteItems : ∀ items : List Value, itemsHeight (finiteItems items) = itemsHeight items
  | [] => rfl
  | v :: rest => congrArg₂ max (height_finiteOnly v) (itemsHeight_finiteItems rest)

theorem membersHeight_finiteMembers : ∀ m : Members, membersHeight (finiteMembers m) = membersHeight m
  | [] => rfl
  | (_, v) :: rest => congrArg₂ max (height_finiteOnly v) (membersHeight_finiteMembers rest)

end

@[simp] theorem isWritable_finiteOnly (v : Value) : v.finiteOnly.isWritable = v.isWritable := by
  rw [isWritable, isWritable, height_finiteOnly]

theorem finiteMembers_eq_iff {m : Members} : finiteMembers m = m ↔ membersFinite m = true :=
  ⟨fun h => h ▸ membersFinite_finiteMembers m, finiteMembers_eq⟩

/-- What was written before is written as it is. -/
@[simp] theorem finiteMembers_written (m : Members) : finiteMembers (finiteMembers m) = finiteMembers m :=
  finiteMembers_eq (membersFinite_finiteMembers m)

end Value

@[simp] theorem areWritable_finiteMembers : ∀ m : Members, Members.areWritable (Value.finiteMembers m) = m.areWritable
  | [] => rfl
  | (_, v) :: rest => congrArg₂ (· && ·) v.isWritable_finiteOnly (areWritable_finiteMembers rest)

/-- No member is a list or an object. -/
def Members.Flat (m : Members) : Prop := ∀ member ∈ m, member.2.height = 1

theorem Members.Flat.areWritable {m : Members} (h : m.Flat) : m.areWritable = true := by
  refine List.all_eq_true.mpr fun member hm => decide_eq_true ?_
  rw [h member hm]
  decide

/-- A list around a value, this many times. -/
def nested : Nat → Value → Value
  | 0, v => v
  | n + 1, v => .list [nested n v]

/-! ## Members read back -/

namespace Schema
variable {α β : Type} {read : Value → Checked α}

@[simp] theorem toOption_ok (a : α) : (Checked.ok a).toOption = some a := rfl

@[simp] theorem toOption_seqRight (x : Checked α) (y : Checked β) : (x *> y).toOption = x.toOption *> y.toOption := by
  cases x <;> cases y <;> rfl

@[simp] theorem readText_text (s : String) : readText (.text s) = .ok s := rfl

@[simp] theorem readInteger_int (n : Int) : readInteger (.int n) = .ok n := rfl

@[simp] theorem readDouble_double (x : Binary64) : readDouble (.double x) = .ok x := rfl

@[simp] theorem readTruth_bool (b : Bool) : readTruth (.bool b) = .ok b := rfl

@[simp] theorem readObject_object (m : Members) : readObject (.object m) = .ok m := rfl

@[simp] theorem record_object (title : String) (read : Members → Checked α) (m : Members) :
    record title read (.object m) = read m := rfl

/-- A text of a fixed choice with a single text. -/
@[simp] theorem readChoice_only (word : String) : readChoice [(word, ())] (.text word) = .ok () := by
  simp [readChoice, pick]

theorem readChoice_loadKind (kind : Chain.LoadKind) :
    readChoice Chain.LoadKind.choices (.text kind.text) = .ok kind := by
  cases kind <;> rfl

theorem readChoice_vsync (vsync : Chain.Vsync) : readChoice Chain.Vsync.choices (.text vsync.text) = .ok vsync := by
  cases vsync <;> rfl

/-- What may be nothing is read back from what is written for it, as long as that is not nothing. -/
theorem orNothing_getD (toValue : α → Value) (hread : ∀ a, read (toValue a) = .ok a) (hnull : ∀ a, toValue a ≠ .null)
    (a : Option α) : orNothing read ((a.map toValue).getD .null) = .ok a := by
  cases a with
  | none => rfl
  | some a =>
    change orNothing read (toValue a) = _
    rw [orNothing.eq_2 _ _ (hnull a), hread]
    rfl

@[simp] theorem orNothing_textOr (s : Option String) : orNothing readText (.textOr s) = .ok s :=
  orNothing_getD Value.text (fun _ => rfl) (fun _ h => by cases h) s

@[simp] theorem orNothing_intOr (n : Option Int) : orNothing readInteger (.intOr n) = .ok n :=
  orNothing_getD Value.int (fun _ => rfl) (fun _ h => by cases h) n

@[simp] theorem orNothing_doubleOr (x : Option Binary64) : orNothing readDouble (.doubleOr x) = .ok x :=
  orNothing_getD Value.double (fun _ => rfl) (fun _ h => by cases h) x

theorem readItems_map {write : β → Value} {f : β → α} (h : ∀ b, read (write b) = .ok (f b)) (i : Nat) (bs : List β) :
    readItems read i (bs.map write) = .ok (bs.map f) := by
  induction bs generalizing i with
  | nil => rfl
  | cons b rest ih =>
    rw [List.map_cons, readItems, h, ih]
    rfl

/-- Items are read back one by one. -/
theorem readList_map {write : β → Value} {f : β → α} (h : ∀ b, read (write b) = .ok (f b)) (bs : List β) :
    readList read (.list (bs.map write)) = .ok (bs.map f) :=
  readItems_map h 0 bs

end Schema

end MediaEngine
