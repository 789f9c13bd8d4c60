import MediaEngine.Proofs.Compile.Reading

/-! # Forms of a chain

A list of objects, an object that holds it, the chain that is read from it and the list with nodes in the place
of objects compile to the same plan or all to none. How the keys of the objects are spelled makes no difference
as long as none is there in both spellings (`forms_agree`). -/

namespace MediaEngine
open Chain Schema

/-! ## Chains that are read before -/

section Read
variable {m : Members} {values : List Value} {items : List Item} {nodes : List Node}

theorem ofItems_ok {c : MediaChain} :
    MediaChain.ofItems items = .ok (.ok c) ↔ readNodes items = .ok (.ok c.nodes) := by
  unfold MediaChain.ofItems
  rcases readNodes items with e | (ns | issues)
  · exact iff_of_false (fun h => by cases h) fun h => by cases h
  · refine ⟨fun h => ?_, fun h => ?_⟩
    · cases h
      rfl
    · cases h
      rfl
  · exact iff_of_false (fun h => by cases h) fun h => by cases h

theorem ofItems_bad : (∃ issues, MediaChain.ofItems items = .ok (.bad issues)) ↔
    ∃ issues, readNodes items = .ok (.bad issues) := by
  unfold MediaChain.ofItems
  rcases readNodes items with e | (ns | issues)
  · exact iff_of_false (fun ⟨_, h⟩ => by cases h) fun ⟨_, h⟩ => by cases h
  · exact iff_of_false (fun ⟨_, h⟩ => by cases h) fun ⟨_, h⟩ => by cases h
  · exact iff_of_true ⟨_, rfl⟩ ⟨_, rfl⟩

theorem ofItems_error {e : UnusableTag} : MediaChain.ofItems items = .error e ↔ readNodes items = .error e := by
  unfold MediaChain.ofItems
  rcases readNodes items with e' | checked
  · refine ⟨fun h => ?_, fun h => ?_⟩ <;> cases h <;> rfl
  · exact iff_of_false (fun h => by cases h) fun h => by cases h

/-- An object with a list of nodes is read as its items are. -/
theorem read_object (h : m.find? "nodes" = some (.list values)) :
    MediaChain.read (.object m) = MediaChain.ofItems (values.map .raw) := by
  change Members.find? m Keys.nodes.name = _ at h
  simp only [MediaChain.read, h]

theorem nodes_object (h : m.find? "nodes" = some (.list values)) :
    ChainInput.nodes (.value (.object m)) = nodesOfItems (values.map .raw) := by
  change Members.find? m Keys.nodes.name = _ at h
  simp only [ChainInput.nodes, h]

end Read

/-! ## Errors of the nodes -/

/-- The error tells of the items of a chain. -/
def CompileError.OfItems : CompileError → Prop
  | .malformed _ => True
  | .tag _ => True
  | _ => False

theorem arithmetic_error {α : Type} {x : Except ArithmeticError α} {e : CompileError} (h : arithmetic x = .error e) :
    ¬ e.OfItems := by
  cases x with
  | ok a => cases h
  | error e' =>
    cases h
    exact id

theorem compileNodes_error {cwd : String} {options : OptionsSource} {nodes : List Node} {e : CompileError}
    (h : compileNodes cwd options nodes = .error e) : ¬ e.OfItems := by
  unfold compileNodes at h
  dsimp only at h
  split at h
  · cases h
    exact id
  · cases h
    exact id
  · cases h
    exact id
  · rcases bind_eq_error.mp h with h | ⟨_, -, h⟩
    · exact arithmetic_error h
    rcases bind_eq_error.mp h with h | ⟨_, -, h⟩
    · exact arithmetic_error h
    rcases bind_eq_error.mp h with h | ⟨_, -, h⟩
    · exact arithmetic_error h
    rcases bind_eq_error.mp h with h | ⟨_, -, h⟩
    · cases options with
      | options o => cases h
      | unusable kindName =>
        cases h
        exact id
    rcases bind_eq_error.mp h with h | ⟨_, -, h⟩
    · exact arithmetic_error h
    · cases h

theorem options_error {options : OptionsInput} {e : CompileError} (h : options.read = .error e) : ¬ e.OfItems := by
  unfold OptionsInput.read at h
  split at h
  · cases h
  · cases h
  · split at h
    · cases h
    · cases h
      exact id
  · cases h

/-- Errors of the items come from reading the nodes, and all that reading them comes to is shown. -/
theorem compile_error_ofItems {cwd : String} {chain : ChainInput} {options : OptionsInput} {e : CompileError}
    (he : e.OfItems) : compile cwd chain options = .error e ↔ chain.nodes = .error e := by
  have hcompile : compile cwd chain options = .error e ↔ compilation cwd chain options = .error e := by
    refine bind_eq_error.trans ⟨fun h => ?_, .inl⟩
    rcases h with h | ⟨_, -, h⟩
    · exact h
    · cases h
  rw [hcompile]
  refine bind_eq_error.trans ⟨fun h => ?_, .inl⟩
  rcases h with h | ⟨nodes, -, h⟩
  · exact h
  rcases bind_eq_error.mp h with h | ⟨source, -, h⟩
  · exact absurd he (options_error h)
  · exact absurd he (compileNodes_error h)

theorem nodesOfItems_malformed {items : List Item} {issues : List Issue} :
    nodesOfItems items = .error (.malformed issues) ↔ readNodes items = .ok (.bad issues) := by
  unfold nodesOfItems
  rcases readNodes items with e | (nodes | bad) <;> simp

theorem nodesOfItems_tag {items : List Item} {e : UnusableTag} :
    nodesOfItems items = .error (.tag e) ↔ readNodes items = .error e := by
  unfold nodesOfItems
  rcases readNodes items with e' | (nodes | bad) <;> simp

/-! ## Items -/

/-- The item stands for a value: it is the value, or a node that the value validates as. -/
def Stands (v : Value) (item : Item) : Prop := item = .raw v ∨ ∃ node, Validates v node ∧ item = .ready node

theorem validates_unique {v : Value} {a b : Node} (ha : Validates v a) (hb : Validates v b) : a = b := by
  have h := (read_raw_ok.mpr ha).symm.trans (read_raw_ok.mpr hb)
  cases h
  rfl

theorem stands_same {v : Value} {item : Item} (h : Stands v item) : (Item.raw v).SameNode item := by
  intro node
  rcases h with rfl | ⟨ready, hv, rfl⟩
  · rfl
  · rw [read_raw_ok]
    refine ⟨fun h => ?_, fun h => ?_⟩
    · rw [validates_unique h hv]
      rfl
    · cases h
      exact hv

/-! ## Spellings -/

/-- The keys that nodes of some kind read. -/
def Chain.Keys.all : List Key := NodeKind.all.flatMap NodeKind.keys

/-- The key with underscores for the one with inner capitals; any other key is left as it is. -/
def snakeCase (key : String) : String := ((Keys.all.find? (·.spelling == key)).map (·.name)).getD key

/-- The members under keys with underscores. -/
def snakeMembers (m : Members) : Members := m.map fun member => (snakeCase member.1, member.2)

/-- No key is there twice, be it in the same spelling or in both. -/
def SpeltOnce (m : Members) : Prop := ((snakeMembers m).map (·.1)).Nodup

/-- Some keys of an object are spelled in their other way. -/
def Respelled (v v' : Value) : Prop :=
  v = v' ∨ ∃ m m', v = .object m ∧ v' = .object m' ∧ SpeltOnce m ∧ snakeMembers m = snakeMembers m'

section Spelling
variable {k : Key} {key : String} {m m' : Members}

theorem snakeCase_spells (hk : k ∈ Keys.all) : snakeCase k.spelling = k.name ∧ snakeCase k.name = k.name := by
  have hall : ∀ k ∈ Keys.all, snakeCase k.spelling = k.name ∧ snakeCase k.name = k.name := by decide +kernel
  exact hall k hk

theorem key_of_name {k' : Key} (hk : k ∈ Keys.all) (hk' : k' ∈ Keys.all) (h : k'.name = k.name) : k' = k := by
  have hall : ∀ k ∈ Keys.all, ∀ k' ∈ Keys.all, k'.name = k.name → k' = k := by decide +kernel
  exact hall k hk k' hk' h

theorem snakeCase_eq (hk : k ∈ Keys.all) : snakeCase key = k.name ↔ key = k.name ∨ key = k.spelling := by
  constructor
  · intro h
    cases hfind : Keys.all.find? (·.spelling == key) with
    | none =>
      rw [snakeCase, hfind] at h
      exact .inl h
    | some k' =>
      rw [snakeCase, hfind] at h
      obtain rfl := key_of_name hk (List.mem_of_find?_eq_some hfind) h
      have hspelling := List.find?_some hfind
      exact .inr (beq_iff_eq.mp hspelling).symm
  · rintro (rfl | rfl)
    · exact (snakeCase_spells hk).2
    · exact (snakeCase_spells hk).1

/-- The value under a key is the one under the key with underscores, once all keys are spelled so. -/
theorem value?_snake (hk : k ∈ Keys.all) (hm : SpeltOnce m) : k.value? m = (snakeMembers m).find? k.name := by
  induction m with
  | nil => rfl
  | cons member rest ih =>
    obtain ⟨key, v⟩ := member
    obtain ⟨hnew, hrest⟩ := List.nodup_cons.mp hm
    change k.value? ((key, v) :: rest) = Members.find? ((snakeCase key, v) :: snakeMembers rest) k.name
    by_cases hkey : snakeCase key = k.name
    · rw [hkey, Members.find?_cons_self]
      -- No further member has this key, so that the other spelling is not found in front of this one.
      have hother : key ≠ k.spelling → Members.find? rest k.spelling = none := fun hne => by
        refine Members.find?_eq_none_iff.mpr fun hmem => hnew ?_
        obtain ⟨other, hother, hspelling⟩ := List.mem_map.mp hmem
        refine List.mem_map.mpr ⟨_, List.mem_map_of_mem hother, ?_⟩
        change snakeCase other.1 = snakeCase key
        rw [hspelling, hkey, (snakeCase_spells hk).1]
      by_cases hspelling : key = k.spelling
      · simp only [Key.value?, Key.find?, ← hspelling, Members.find?_cons_self, Option.map_some]
      · have hname : key = k.name := ((snakeCase_eq hk).mp hkey).resolve_right hspelling
        simp only [Key.value?, Key.find?, Members.find?_cons_ne (Ne.symm hspelling), hother hspelling, ← hname, Members.find?_cons_self,
          Option.map_some]
    · obtain ⟨hname, hspelling⟩ := not_or.mp fun h => hkey ((snakeCase_eq hk).mpr h)
      rw [Members.find?_cons_ne (Ne.symm hkey), ← ih hrest]
      simp only [Key.value?, Key.find?, Members.find?_cons_ne (Ne.symm hname), Members.find?_cons_ne (Ne.symm hspelling)]

theorem mem_all_keys {kind : NodeKind} (hk : k ∈ kind.keys) : k ∈ Keys.all :=
  List.mem_flatMap.mpr ⟨kind, by cases kind <;> simp [NodeKind.all], hk⟩

theorem respelled_validates {v v' : Value} (h : Respelled v v') (node : Node) : Validates v node ↔ Validates v' node := by
  rcases h with rfl | ⟨m, m', rfl, rfl, hm, hsame⟩
  · rfl
  · have hm' : SpeltOnce m' := by
      unfold SpeltOnce
      rw [← hsame]
      exact hm
    have hvalue : ∀ {k : Key} {kind : NodeKind}, k ∈ kind.keys → k.value? m = k.value? m' := fun hk => by
      rw [value?_snake (mem_all_keys hk) hm, value?_snake (mem_all_keys hk) hm', hsame]
    exact validates_reads (hvalue (kind_mem_keys .load)) (fun _ _ k hk => .inl (hvalue hk)) node

end Spelling

/-- All forms of a list of values mean the same: an object that holds it, the chain that is read from this object, the
    list in which nodes stand for some of the values, and the list in other spellings. The object is not read as a
    chain exactly where compiling the list fails for its items. -/
theorem forms_agree (cwd : String) (values : List Value) (options : OptionsInput) :
    (∀ m : Members, m.find? "nodes" = some (.list values) →
      SamePlan (compile cwd (.value (.list values)) options) (compile cwd (.value (.object m)) options) ∧
      (∀ plan, compile cwd (.value (.list values)) options = .ok plan ↔
        ∃ c, MediaChain.read (.object m) = .ok (.ok c) ∧ compile cwd (.chain c) options = .ok plan) ∧
      ((∃ issues, MediaChain.read (.object m) = .ok (.bad issues)) ↔
        ∃ issues, compile cwd (.value (.list values)) options = .error (.malformed issues)) ∧
      ∀ e, MediaChain.read (.object m) = .error e ↔ compile cwd (.value (.list values)) options = .error (.tag e)) ∧
    (∀ items, List.Forall₂ Stands values items →
      SamePlan (compile cwd (.value (.list values)) options) (compile cwd (.items items) options)) ∧
    ∀ values', List.Forall₂ Respelled values values' →
      SamePlan (compile cwd (.value (.list values)) options) (compile cwd (.value (.list values')) options) := by
  have hlist : ChainInput.nodes (.value (.list values)) = nodesOfItems (values.map .raw) := rfl
  refine ⟨fun m hm => ⟨?object, ?chain, ?malformed, ?tag⟩, fun items hitems => ?items, fun values' hv => ?spelling⟩
  case object =>
    refine same_nodes_same_plan (fun nodes => ?_) cwd options
    rw [hlist, nodes_object hm]
  case chain =>
    intro plan
    rw [read_object hm]
    constructor
    · intro h
      obtain ⟨nodes, load, w, speed, hnodes, ha⟩ := compile_assembled h
      exact ⟨⟨nodes⟩, ofItems_ok.mpr (nodesOfItems_ok.mp hnodes), ha.compile rfl⟩
    · rintro ⟨c, hc, h⟩
      obtain ⟨nodes, load, w, speed, hnodes, ha⟩ := compile_assembled h
      cases hnodes
      exact ha.compile (nodesOfItems_ok.mpr (ofItems_ok.mp hc))
  case malformed =>
    rw [read_object hm, ofItems_bad]
    simp only [compile_error_ofItems (e := .malformed _) trivial, hlist, nodesOfItems_malformed]
  case tag =>
    intro e
    rw [read_object hm, ofItems_error, compile_error_ofItems (e := .tag e) trivial, hlist, nodesOfItems_tag]
  case items =>
    rw [compile_values]
    refine same_items_same_plan ?_ cwd options
    rw [List.forall₂_map_left_iff]
    exact hitems.imp fun _ _ => stands_same
  case spelling => exact same_values_same_plan (hv.imp fun _ _ => respelled_validates) cwd options

/-- A source and an export, as a list, in an object with a further member, read before, with a node for the export,
    and in the other spelling. -/
theorem plain_chain_forms :
    let source : Members := [("typeId", .text "loadVideo"), ("path", .text "in.mp4"), ("durationMs", .int 5000)]
    let respelled : Members := [("type_id", .text "loadVideo"), ("path", .text "in.mp4"), ("duration_ms", .int 5000)]
    let result : Value := .object [("typeId", .text "export")]
    let target : Export := ⟨⟨none, defaultVersion⟩, none, none, none, none⟩
    let held : Members := [("title", .text "a"), ("nodes", .list [.object source, result])]
    ∃ plan c, compile "/work" (.value (.list [.object source, result])) (.value .null) = .ok plan ∧
      compile "/work" (.value (.object held)) (.value .null) = .ok plan ∧
      MediaChain.read (.object held) = .ok (.ok c) ∧ compile "/work" (.chain c) (.value .null) = .ok plan ∧
      compile "/work" (.items [.raw (.object source), .ready (.export target)]) (.value .null) = .ok plan ∧
      compile "/work" (.value (.list [.object respelled, result])) (.value .null) = .ok plan := by
  intro source respelled result target held
  obtain ⟨hobject, hitems, hspelling⟩ := forms_agree "/work" [.object source, result] (.value .null)
  obtain ⟨hsame, hread, -, -⟩ := hobject held rfl
  have hcompiles : (compile "/work" (.value (.list [.object source, result])) (.value .null)).toOption.map
      (·.stages.length) = some 3 := by
    decide +kernel
  have hstands : Stands result (.ready (.export target)) := .inr ⟨_, read_raw_ok.mp rfl, rfl⟩
  have hrespelled : Respelled (.object source) (.object respelled) := by
    have hkind : snakeCase "typeId" = "type_id" ∧ snakeCase "type_id" = "type_id" := by decide +kernel
    have hduration : snakeCase "durationMs" = "duration_ms" ∧ snakeCase "duration_ms" = "duration_ms" := by decide +kernel
    have hpath : snakeCase "path" = "path" := by decide +kernel
    refine .inr ⟨_, _, rfl, rfl, ?_, ?_⟩
    · simp [SpeltOnce, snakeMembers, source, hkind, hduration, hpath]
    · simp [snakeMembers, source, respelled, hkind, hduration, hpath]
  obtain ⟨plan, hplan, -⟩ := ok_of_toOption_map hcompiles
  obtain ⟨c, hc, hchain⟩ := (hread plan).mp hplan
  refine ⟨plan, c, hplan, (hsame plan).mp hplan, hc, hchain, ?_, ?_⟩
  · exact (hitems _ (.cons (.inl rfl) (.cons hstands .nil)) plan).mp hplan
  · exact (hspelling _ (.cons hrespelled (.cons (.inl rfl) .nil)) plan).mp hplan

end MediaEngine
