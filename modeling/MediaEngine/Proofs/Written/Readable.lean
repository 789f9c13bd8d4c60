import MediaEngine.Chain.Node.Printer
import MediaEngine.Proofs.Compile.Reading
import MediaEngine.Proofs.Json.Reading

/-! # What is read of readable values

Whatever is read of a readable value has no longer whole numbers than the value itself may have: a text writes at most
as many digits, and a double that is read as a whole number fits into a word. So a node that is read of readable members
is written with readable members (`ofMembers_readable`). -/

namespace MediaEngine
open Chain Schema Text

/-! ## Values -/

namespace Value

@[simp] theorem readable_null : Value.null.readable = true := rfl

@[simp] theorem readable_bool (b : Bool) : (Value.bool b).readable = true := rfl

@[simp] theorem readable_text (s : String) : (Value.text s).readable = true := rfl

@[simp] theorem readable_double (x : Binary64) : (Value.double x).readable = true := rfl

@[simp] theorem readable_float (x : Binary64) : (Value.number (.float x)).readable = true := rfl

theorem itemsReadable_iff {vs : List Value} : itemsReadable vs = true ↔ ∀ v ∈ vs, v.readable = true := by
  induction vs with
  | nil => exact iff_of_true rfl fun _ hv => by cases hv
  | cons v rest ih => rw [itemsReadable, Bool.and_eq_true, ih, List.forall_mem_cons]

theorem membersReadable_iff {m : Members} : membersReadable m = true ↔ ∀ member ∈ m, member.2.readable = true := by
  induction m with
  | nil => exact iff_of_true rfl fun _ hm => by cases hm
  | cons member rest ih => rw [membersReadable, Bool.and_eq_true, ih, List.forall_mem_cons]

theorem readable_object {m : Members} :
    (Value.object m).readable = true ↔ (m.map Prod.fst).Nodup ∧ membersReadable m = true := by
  rw [readable, Bool.and_eq_true, decide_eq_true_eq]

theorem find?_readable {m : Members} {key : String} {v : Value} (hm : membersReadable m = true) (h : m.find? key = some v) :
    v.readable = true := by
  obtain ⟨before, after, rfl, -⟩ := List.lookup_eq_some_iff.mp h
  exact membersReadable_iff.mp hm _ (List.mem_append_right _ List.mem_cons_self)

/-- What may be nothing is readable if what it is otherwise is. -/
theorem readable_getD {α : Type} {toValue : α → Value} {a : Option α} (h : ∀ x, a = some x → (toValue x).readable = true) :
    ((a.map toValue).getD .null).readable = true := by
  cases a with
  | none => rfl
  | some x => exact h x rfl

@[simp] theorem readable_textOr (s : Option String) : (Value.textOr s).readable = true := readable_getD fun _ _ => rfl

@[simp] theorem readable_doubleOr (x : Option Binary64) : (Value.doubleOr x).readable = true := readable_getD fun _ _ => rfl

theorem keys_finiteMembers (m : Members) : (finiteMembers m).map Prod.fst = m.map Prod.fst := by
  induction m with
  | nil => rfl
  | cons member rest ih => rw [finiteMembers, List.map_cons, List.map_cons, ih]

mutual

/-- A value stays readable without its numbers that are not finite. -/
theorem readable_finiteOnly : ∀ v : Value, v.readable = true → v.finiteOnly.readable = true
  | .null => fun _ => rfl
  | .bool _ => fun _ => rfl
  | .number (.int _) => id
  | .number (.float x) => fun _ => by
    rw [finiteOnly]
    split <;> rfl
  | .text _ => fun _ => rfl
  | .list vs => readable_finiteItems vs
  | .object m => fun h => by
    obtain ⟨hkeys, hm⟩ := readable_object.mp h
    exact readable_object.mpr ⟨(keys_finiteMembers m).symm ▸ hkeys, readable_finiteMembers m hm⟩

theorem readable_finiteItems : ∀ vs : List Value, itemsReadable vs = true → itemsReadable (finiteItems vs) = true
  | [] => id
  | v :: rest => fun h => by
    obtain ⟨hv, hrest⟩ := Bool.and_eq_true_iff.mp h
    exact Bool.and_eq_true_iff.mpr ⟨readable_finiteOnly v hv, readable_finiteItems rest hrest⟩

theorem readable_finiteMembers : ∀ m : Members, membersReadable m = true → membersReadable (finiteMembers m) = true
  | [] => id
  | (_, v) :: rest => fun h => by
    obtain ⟨hv, hrest⟩ := Bool.and_eq_true_iff.mp h
    exact Bool.and_eq_true_iff.mpr ⟨readable_finiteOnly v hv, readable_finiteMembers rest hrest⟩

end

end Value

/-! ## Whole numbers -/

section Integers
variable {cs : List Char} {n : Int}

theorem readable_of_lt {k : Nat} (h : n.natAbs < 2 ^ k) (hk : k ≤ digitLimit) : (Value.int n).readable = true := by
  rw [Json.readable_int]
  calc n.natAbs < 2 ^ k := h
    _ ≤ 10 ^ k := Nat.pow_le_pow_left (by decide) k
    _ ≤ 10 ^ digitLimit := Nat.pow_le_pow_right (by decide) hk

/-- A whole number with a double is readable. -/
theorem readable_of_covers (h : Binary64.Covers n) : (Value.int n).readable = true :=
  readable_of_lt (Nat.lt_of_lt_of_le h (Nat.sub_le _ _)) (by decide)

theorem readable_of_covered {x : Number} (h : x.Covered) : (Value.number x).readable = true := by
  cases x with
  | int n => exact readable_of_covers h
  | float x => rfl

theorem plainNat?_lt {n : Nat} (h : plainNat? cs = some n) : n < 10 ^ digitLimit := by
  unfold plainNat? at h
  split at h
  · cases h
    exact Nat.pow_pos (by decide)
  · split at h
    · rename_i hcond
      cases h
      simp only [Bool.and_eq_true, decide_eq_true_eq] at hcond
      exact Nat.lt_of_lt_of_le (Json.natOf_lt cs) (Nat.pow_le_pow_right (by decide) hcond.2)
    · cases h

theorem plainInt?_readable (h : plainInt? cs = some n) : (Value.int n).readable = true := by
  rw [Json.readable_int]
  unfold plainInt? at h
  split at h <;>
  · obtain ⟨k, hk, rfl⟩ := Option.map_eq_some_iff.mp h
    rw [Json.natAbs_signedInt]
    exact plainNat?_lt hk

/-- What is left of a loosely written number is a plain one. -/
theorem looseInt?_readable (h : looseInt? cs = some n) : (Value.int n).readable = true := by
  unfold looseInt? at h
  split at h
  · cases h
  all_goals
    obtain ⟨digits, -, h⟩ := Option.bind_eq_some_iff.mp h
    exact plainInt?_readable h

theorem integerText_readable {s : String} (h : integerText s = .ok n) : (Value.int n).readable = true := by
  unfold integerText at h
  dsimp only at h
  split at h
  · cases h
  · split at h
    · rename_i k hk
      cases h
      rcases Option.or_eq_some_iff.mp hk with hplain | ⟨-, hloose⟩
      · exact plainInt?_readable hplain
      · exact looseInt?_readable hloose
    · cases h

theorem integerOfDouble_readable {x : Binary64} (h : integerOfDouble x = .ok n) : (Value.int n).readable = true := by
  unfold integerOfDouble at h
  split at h
  · split at h
    · cases h
    · split at h
      · rename_i s u _ _ hlimit
        cases h
        have hword : Number.wordLimit.toNat = 2 ^ 63 := rfl
        rw [hword, Nat.mul_comm] at hlimit
        refine readable_of_lt (k := 63) ?_ (by decide)
        rw [Json.natAbs_signedInt]
        exact Nat.div_lt_of_lt_mul hlimit
      · cases h
  · cases h

end Integers

/-! ## Members -/

namespace Schema
variable {α : Type} {m : Members}

/-- What is read of readable values is written as readable values. -/
def Keeps (read : Value → Checked α) (toValue : α → Value) : Prop :=
  ∀ v a, v.readable = true → read v = .ok a → (toValue a).readable = true

section Keeps
variable {read : Value → Checked α} {toValue : α → Value} {k : Key} {a : α}

theorem keeps_orNothing (h : Keeps read toValue) : Keeps (orNothing read) fun a => (a.map toValue).getD .null := by
  intro v a hv ha
  refine Value.readable_getD fun x hx => ?_
  unfold orNothing at ha
  split at ha
  · cases ha
    cases hx
  · obtain ⟨y, hy, rfl⟩ := Checked.map_eq_ok.mp ha
    cases hx
    exact h v _ hv hy

theorem value?_readable {v : Value} (hm : Value.membersReadable m = true) (h : k.value? m = some v) : v.readable = true := by
  rw [value?_eq] at h
  have hlookup : ∀ key w, Members.find? m key = some w → w.readable = true := fun key w hw =>
    Value.find?_readable hm hw
  rcases Option.or_eq_some_iff.mp h with h | ⟨-, h⟩ <;> exact hlookup _ _ h

theorem required_readable (h : Keeps read toValue) (hm : Value.membersReadable m = true) (ha : required k read m = .ok a) :
    (toValue a).readable = true := by
  rw [← Checked.toOption_eq_some, toOption_required] at ha
  obtain ⟨v, hv, ha⟩ := Option.bind_eq_some_iff.mp ha
  exact h v a (value?_readable hm hv) (Checked.toOption_eq_some.mp ha)

theorem withDefault_readable {default : α} (h : Keeps read toValue) (hdefault : (toValue default).readable = true)
    (hm : Value.membersReadable m = true) (ha : withDefault k read default m = .ok a) : (toValue a).readable = true := by
  rw [← Checked.toOption_eq_some, toOption_withDefault] at ha
  cases hv : k.value? m with
  | none =>
    rw [hv] at ha
    cases ha
    exact hdefault
  | some v =>
    rw [hv] at ha
    exact h v a (value?_readable hm hv) (Checked.toOption_eq_some.mp ha)

theorem nullable_readable {a : Option α} (h : Keeps read toValue) (hm : Value.membersReadable m = true)
    (ha : nullable k read m = .ok a) : ((a.map toValue).getD .null).readable = true := by
  have hread := withDefault_readable (keeps_orNothing h) rfl hm ha
  exact hread

end Keeps

theorem keeps_any : Keeps readAny Value.finiteOnly := by
  intro v a hv ha
  cases ha
  exact Value.readable_finiteOnly _ hv

theorem keeps_integer : Keeps readInteger Value.int := by
  intro v n hv hn
  unfold readInteger at hn
  split at hn
  · cases hn
    exact hv
  · exact integerOfDouble_readable hn
  · rename_i b
    cases b <;> cases hn <;> exact readable_of_lt (k := 1) (by decide) (by decide)
  · exact integerText_readable hn
  · cases hn

end Schema

/-! ## Nodes -/

namespace Chain
open Checked

theorem keeps_dimension : Keeps Dimension.read Dimension.toValue := by
  intro v d hv hd
  unfold Dimension.read at hd
  split at hd
  · cases hd
    exact hv
  · cases hd
    rfl
  · rcases orElse_eq_ok.mp hd with hd | ⟨-, hd⟩
    · obtain ⟨n, hn, rfl⟩ := map_eq_ok.mp (under_ok.mp hd)
      exact keeps_integer v n hv hn
    · rcases orElse_eq_ok.mp hd with hd | ⟨-, hd⟩ <;> obtain ⟨x, -, rfl⟩ := map_eq_ok.mp (under_ok.mp hd) <;> rfl

theorem keeps_number : Keeps readNumber Value.number := by
  intro v n hv hn
  unfold readNumber at hn
  split at hn
  · cases hn
    exact hv
  · rcases orElse_eq_ok.mp hn with hn | ⟨-, hn⟩ <;> obtain ⟨x, hx, rfl⟩ := map_eq_ok.mp (under_ok.mp hn)
    · exact keeps_integer v x hv hx
    · rfl

variable {m : Members}

theorem keeps_region : Keeps (record Region.title Region.read) (Value.object ∘ Region.members) := by
  intro v r hv hr
  unfold record at hr
  split at hr
  · rename_i m
    obtain ⟨-, hm⟩ := Value.readable_object.mp hv
    simp only [Region.read, seq_eq_ok, fmap_eq_ok] at hr
    obtain ⟨_, ⟨_, ⟨_, ⟨x, hx, rfl⟩, y, hy, rfl⟩, width, hwidth, rfl⟩, height, hheight, rfl⟩ := hr
    refine Value.readable_object.mpr ⟨?_, ?_⟩
    · simp [Region.members, Keys.x, Keys.y, Keys.width, Keys.height]
    · simp [Region.members, Value.membersReadable_iff, numberOr, nullable_readable keeps_number hm hx,
        nullable_readable keeps_number hm hy, nullable_readable keeps_number hm hwidth,
        nullable_readable keeps_number hm hheight]
  · cases hr

/-- A node that is read of readable members is written with readable members. -/
theorem ofMembers_readable {kind : NodeKind} {n : Node} (preferred : Bool) (hm : Value.membersReadable m = true)
    (h : Node.ofMembers kind m = .ok n) : Value.membersReadable (n.members preferred) = true := by
  rw [Value.membersReadable_iff]
  cases kind <;> obtain ⟨n, hn, rfl⟩ := map_eq_ok.mp h
  case trim =>
    simp only [Trim.read, seq_eq_ok, seqLeft_eq_ok, fmap_eq_ok] at hn
    obtain ⟨_, ⟨_, ⟨_, ⟨_, ⟨⟨_, -, rfl⟩, -⟩, start, hstart, rfl⟩, stop, hstop, rfl⟩, _, -, rfl⟩, region, hregion, rfl⟩ := hn
    simp [Node.members, Header.members, Value.objectOr, withDefault_readable keeps_any rfl hm hstart,
      withDefault_readable keeps_any rfl hm hstop, nullable_readable keeps_region hm hregion]
  case resize =>
    simp only [Resize.read, seq_eq_ok, seqLeft_eq_ok, fmap_eq_ok] at hn
    obtain ⟨_, ⟨_, ⟨_, ⟨⟨_, -, rfl⟩, -⟩, width, hwidth, rfl⟩, height, hheight, rfl⟩, _, -, rfl⟩ := hn
    simp [Node.members, Header.members, required_readable keeps_integer hm hwidth,
      required_readable keeps_integer hm hheight]
  case crop =>
    simp only [Crop.read, seq_eq_ok, seqLeft_eq_ok, fmap_eq_ok] at hn
    obtain ⟨_, ⟨_, ⟨_, ⟨_, ⟨⟨_, -, rfl⟩, -⟩, width, hwidth, rfl⟩, height, hheight, rfl⟩, x, hx, rfl⟩, y, hy, rfl⟩ := hn
    simp [Node.members, Header.members, dimensionOr, required_readable keeps_dimension hm hwidth,
      required_readable keeps_dimension hm hheight, nullable_readable keeps_dimension hm hx,
      nullable_readable keeps_dimension hm hy]
  case overlay =>
    simp only [Overlay.read, seq_eq_ok, seqLeft_eq_ok, fmap_eq_ok] at hn
    obtain ⟨_, ⟨_, ⟨_, ⟨_, ⟨⟨_, -, rfl⟩, -⟩, _, -, rfl⟩, x, hx, rfl⟩, y, hy, rfl⟩, opacity, hopacity, rfl⟩ := hn
    simp [Node.members, Header.members, dimensionOr, nullable_readable keeps_dimension hm hx,
      nullable_readable keeps_dimension hm hy, withDefault_readable keeps_any rfl hm hopacity]
  case caption =>
    simp only [Caption.read, seq_eq_ok, seqLeft_eq_ok, fmap_eq_ok] at hn
    obtain ⟨_, ⟨_, ⟨_, ⟨_, ⟨_, ⟨⟨_, -, rfl⟩, -⟩, _, -, rfl⟩, size, hsize, rfl⟩, _, -, rfl⟩, _, -, rfl⟩, _, -, rfl⟩ := hn
    simp [Node.members, Header.members, Value.intOr, nullable_readable keeps_integer hm hsize]
  case speed =>
    simp only [Speed.read, seq_eq_ok, seqLeft_eq_ok, fmap_eq_ok] at hn
    obtain ⟨_, ⟨⟨_, -, rfl⟩, -⟩, ratio, hratio, rfl⟩ := hn
    simp [Node.members, Header.members, withDefault_readable keeps_any rfl hm hratio]
  -- The other kinds have no member but texts and doubles.
  all_goals simp [Node.members, Header.members]

theorem validates_readable {values : List Value} {nodes : List Node} (preferred : Bool) (h : List.Forall₂ Validates values nodes)
    (hvalues : Value.itemsReadable values = true) : ∀ n ∈ nodes, Value.membersReadable (n.members preferred) = true := by
  induction h with
  | nil => exact fun n hn => by cases hn
  | cons hv _ ih =>
    obtain ⟨m, kind, rfl, -, hread⟩ := hv
    have ⟨hm, hrest⟩ := Bool.and_eq_true_iff.mp hvalues
    exact List.forall_mem_cons.mpr ⟨ofMembers_readable preferred (Value.readable_object.mp hm).2 hread, ih hrest⟩

theorem chainItems_readable {v : Value} {values : List Value} (hv : v.readable = true) (h : chainItems v = some values) :
    Value.itemsReadable values = true := by
  unfold chainItems at h
  split at h
  · cases h
    exact hv
  · split at h
    · rename_i hfind
      cases h
      exact Value.find?_readable (Value.readable_object.mp hv).2 hfind
    · cases h
  · cases h

/-- The nodes of a readable value are written with readable members. -/
theorem nodes_readable {v : Value} {nodes : List Node} (preferred : Bool) (hv : v.readable = true)
    (h : ChainInput.nodes (.value v) = .ok nodes) : ∀ n ∈ nodes, Value.membersReadable (n.members preferred) = true := by
  cases hitems : chainItems v with
  | none =>
    obtain ⟨e, he, -⟩ := nodes_without_items hitems
    cases he.symm.trans h
  | some values =>
    rw [nodes_of_items hitems, nodesOfItems_ok] at h
    exact validates_readable preferred ((readNodesFrom_ok 0 _ _).mp h) (chainItems_readable hv hitems)

end Chain

/-! ## Options -/

/-- The overrides of a preview as an object. -/
def PreviewOverrides.toValue (o : PreviewOverrides) : Value :=
  .object [("width", .intOr o.width), ("height", .intOr o.height), ("max_fps", .doubleOr o.maxFps)]

section Options
open Checked

theorem keeps_overrides : Keeps (record "PreviewOverrides" PlanOptions.readOverrides) PreviewOverrides.toValue := by
  intro v o hv ho
  unfold record at ho
  split at ho
  · obtain ⟨-, hm⟩ := Value.readable_object.mp hv
    simp only [PlanOptions.readOverrides, seq_eq_ok, seqLeft_eq_ok, fmap_eq_ok] at ho
    obtain ⟨⟨_, ⟨_, ⟨width, hwidth, rfl⟩, height, hheight, rfl⟩, maxFps, -, rfl⟩, -⟩ := ho
    refine Value.readable_object.mpr ⟨by simp, ?_⟩
    simp [Value.membersReadable_iff, Value.intOr, nullable_readable keeps_integer hm hwidth,
      nullable_readable keeps_integer hm hheight]
  · cases ho

/-- The overrides of readable options are readable. -/
theorem overrides_readable {v : Value} {o : PlanOptions} (hv : v.readable = true)
    (h : OptionsInput.read (.value v) = .ok (.options o)) : o.overrides.toValue.readable = true := by
  unfold OptionsInput.read at h
  split at h
  · rename_i heq
    cases heq
  · cases h
    rfl
  · rename_i m heq
    cases heq
    split at h
    · rename_i hread
      cases h
      simp only [PlanOptions.read, record_object, PlanOptions.readMembers, seqLeft_eq_ok, fmap_eq_ok] at hread
      obtain ⟨⟨preview, hpreview, rfl⟩, -⟩ := hread
      have hread := nullable_readable keeps_overrides (Value.readable_object.mp hv).2 hpreview
      cases preview with
      | none => rfl
      | some overrides => exact hread
    · cases h
  · cases h

end Options

end MediaEngine
