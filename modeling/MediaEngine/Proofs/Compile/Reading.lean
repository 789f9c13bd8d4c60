import MediaEngine.Proofs.Compile.Assembly
import MediaEngine.Proofs.Compile.Refusals
import MediaEngine.Proofs.Records

/-! # What is read of a node

The node that an object is read as depends on the values under the keys of its kind, and on nothing else:
neither on other members nor on how the keys are spelled (`ofMembers_reads`). Two lists of items that are read
alike one by one compile to the same plan (`same_items_same_plan`). -/

namespace MediaEngine
open Chain Schema

/-- The kind of a node. -/
def Chain.Node.kind : Node → NodeKind
  | .load _ => .load
  | .trim _ => .trim
  | .resize _ => .resize
  | .crop _ => .crop
  | .overlay _ => .overlay
  | .caption _ => .caption
  | .speed _ => .speed
  | .frameRate _ => .frameRate
  | .export _ => .export

/-! ## The keys of a node -/

/-- The keys that every kind of node reads. -/
def Chain.Keys.shared : List Key := [Keys.id, Keys.version, Keys.kind]

/-- The keys that a kind of node reads. -/
def Chain.NodeKind.keys : NodeKind → List Key
  | .load => Keys.shared ++ [Keys.path, Keys.duration, Keys.fps]
  | .trim => Keys.shared ++ [Keys.start, Keys.stop, Keys.strict, Keys.region]
  | .resize => Keys.shared ++ [Keys.width, Keys.height, Keys.mode]
  | .crop => Keys.shared ++ [Keys.width, Keys.height, Keys.x, Keys.y]
  | .overlay => Keys.shared ++ [Keys.source, Keys.x, Keys.y, Keys.opacity]
  | .caption => Keys.shared ++ [Keys.text, Keys.fontSize, Keys.color, Keys.x, Keys.y]
  | .speed => Keys.shared ++ [Keys.ratio]
  | .frameRate => Keys.shared ++ [Keys.fps, Keys.vsync]
  | .export => Keys.shared ++ [Keys.container, Keys.videoCodec, Keys.audioCodec, Keys.pixelFormat]

/-- The keys that a region reads. -/
def Chain.Region.keys : List Key := [Keys.x, Keys.y, Keys.width, Keys.height]

/-- The members have the same value under a key, or both have a region there and these are read alike. -/
def Schema.Key.Alike (k : Key) (m m' : Members) : Prop :=
  k.value? m = k.value? m' ∨ (k = Keys.region ∧ ∃ r r', k.value? m = some (.object r) ∧ k.value? m' = some (.object r') ∧
    ∀ k ∈ Region.keys, k.value? r = k.value? r')

section Members
variable {m m' : Members} {kind : NodeKind}

theorem kind_mem_keys (kind : NodeKind) : Keys.kind ∈ kind.keys := by
  cases kind <;> simp [NodeKind.keys, Keys.shared]

theorem alike_iff {k : Key} (hk : k ≠ Keys.region) : k.Alike m m' ↔ k.value? m = k.value? m' :=
  or_iff_left fun h => hk h.1

theorem region_reads (h : Keys.region.Alike m m') :
    (nullable Keys.region (record Region.title Region.read) m).toOption =
      (nullable Keys.region (record Region.title Region.read) m').toOption := by
  rcases h with h | ⟨-, r, r', hr, hr', h⟩
  · simp [nullable, h]
  · simp only [Region.keys, List.forall_mem_cons] at h
    simp [nullable, hr, hr', orNothing, record, Region.read, h]

/-- Members that are alike under the keys of a kind are read as the same node of this kind. -/
theorem ofMembers_reads (h : ∀ k ∈ kind.keys, k.Alike m m') (node : Node) :
    Node.ofMembers kind m = .ok node ↔ Node.ofMembers kind m' = .ok node := by
  have hread : (Node.ofMembers kind m).toOption = (Node.ofMembers kind m').toOption := by
    cases kind <;>
      simp only [NodeKind.keys, Keys.shared, List.cons_append, List.nil_append, List.forall_mem_cons] at h <;>
      simp (disch := decide) only [alike_iff] at h
    case trim =>
      have hregion := region_reads h.2.2.2.2.2.2.1
      simp only [nullable, toOption_withDefault] at hregion
      simp [Node.ofMembers, Trim.read, Header.read, readTag, nullable, h, hregion]
    all_goals
      simp [Node.ofMembers, Load.read, Resize.read, Crop.read, Overlay.read, Caption.read, Speed.read,
        FrameRate.read, Export.read, Header.read, readTag, nullable, h]
  rw [← Checked.toOption_eq_some, hread, Checked.toOption_eq_some]

theorem ofValue_reads (h : Keys.kind.value? m = Keys.kind.value? m') :
    Tag.ofValue (.object m) = Tag.ofValue (.object m') := by
  unfold Key.value? at h
  rcases hm : Keys.kind.find? m with _ | ⟨key, v⟩ <;> rcases hm' : Keys.kind.find? m' with _ | ⟨key', v'⟩ <;>
    rw [hm, hm'] at h <;> simp only [Tag.ofValue, hm, hm']
  · cases h
  · cases h
  · cases h
    cases v <;> rfl

/-- Objects with alike members under the keys of every kind they may be of validate as the same nodes. -/
theorem validates_reads (hkind : Keys.kind.value? m = Keys.kind.value? m')
    (h : ∀ kind, Tag.ofValue (.object m) = .ok (.known kind) → ∀ k ∈ kind.keys, k.Alike m m') (node : Node) :
    Validates (.object m) node ↔ Validates (.object m') node := by
  have htag := ofValue_reads hkind
  constructor
  · rintro ⟨_, kind, hm, hof, hread⟩
    cases hm
    exact ⟨m', kind, rfl, htag ▸ hof, (ofMembers_reads (h kind hof) node).mp hread⟩
  · rintro ⟨_, kind, hm, hof, hread⟩
    cases hm
    rw [← htag] at hof
    exact ⟨m, kind, rfl, hof, (ofMembers_reads (h kind hof) node).mpr hread⟩

end Members

/-! ## Items -/

/-- Both items are read as the same node, or neither is read as one. -/
def Chain.Item.SameNode (a b : Item) : Prop := ∀ node, a.read = .ok (.ok node) ↔ b.read = .ok (.ok node)

theorem nodesOfItems_ok {items : List Item} {nodes : List Node} :
    nodesOfItems items = .ok nodes ↔ readNodes items = .ok (.ok nodes) := by
  unfold nodesOfItems
  rcases readNodes items with e | checked
  · simp
  · cases checked <;> simp

theorem readNodes_same {a b : List Item} (h : List.Forall₂ Item.SameNode a b) (nodes : List Node) :
    readNodes a = .ok (.ok nodes) ↔ readNodes b = .ok (.ok nodes) := by
  unfold readNodes
  rw [readItems_ok, readItems_ok]
  induction h generalizing nodes with
  | nil => rfl
  | cons hitem _ ih =>
    rw [List.forall₂_cons_left_iff, List.forall₂_cons_left_iff]
    simp only [hitem _, ih]

theorem same_items_same_plan {a b : List Item} (h : List.Forall₂ Item.SameNode a b) (cwd : String)
    (options : OptionsInput) : SamePlan (compile cwd (.items a) options) (compile cwd (.items b) options) := by
  refine same_nodes_same_plan (fun nodes => ?_) cwd options
  change nodesOfItems a = .ok nodes ↔ nodesOfItems b = .ok nodes
  rw [nodesOfItems_ok, nodesOfItems_ok]
  exact readNodes_same h nodes

/-- A list of values compiles as the list of items that are still to be read. -/
theorem compile_values (cwd : String) (values : List Value) (options : OptionsInput) :
    compile cwd (.value (.list values)) options = compile cwd (.items (values.map .raw)) options := rfl

theorem same_values_same_plan {a b : List Value} (h : List.Forall₂ (fun v v' => ∀ node, Validates v node ↔ Validates v' node) a b)
    (cwd : String) (options : OptionsInput) :
    SamePlan (compile cwd (.value (.list a)) options) (compile cwd (.value (.list b)) options) := by
  rw [compile_values, compile_values]
  refine same_items_same_plan ?_ cwd options
  rw [List.forall₂_map_left_iff, List.forall₂_map_right_iff]
  refine h.imp fun v v' hv node => ?_
  rw [read_raw_ok, read_raw_ok]
  exact hv node

end MediaEngine
