import MediaEngine.Path

/-! # Paths in normal form

An absolute path in normal form is one slash or two, and behind them names with a slash between neighbours
(`Resolved`). Every path becomes one once it is seen from an absolute directory (`absolute_resolved`), and one that
is so already stays as it is, whatever the directory (`absolute_of_resolved`). -/

namespace MediaEngine.Path
variable {cs directory path : List Char} {kept names : List (List Char)}

/-! ## Components -/

theorem components_slash (rest : List Char) : components ('/' :: rest) = [] :: components rest := if_pos rfl

theorem components_eq_splitOn (cs : List Char) : components cs = cs.splitOn '/' := by
  induction cs with
  | nil => rfl
  | cons c rest ih =>
    rw [components, ih, List.splitOn_cons_eq_if_modifyHead]
    by_cases hc : c = '/'
    · rw [if_pos hc, if_pos (beq_iff_eq.mpr hc)]
    · rw [if_neg hc, if_neg (mt beq_iff_eq.mp hc)]
      cases hrest : rest.splitOn '/' with
      | nil => exact absurd hrest (List.splitOn_ne_nil _ _)
      | cons first more => rfl

theorem slash_not_mem_components : ∀ c ∈ components cs, '/' ∉ c := by
  induction cs with
  | nil => simp [components]
  | cons c rest ih =>
    rw [components]
    split
    · exact List.forall_mem_cons.mpr ⟨List.not_mem_nil, ih⟩
    · rename_i hc
      split
      · simpa using Ne.symm hc
      · rename_i first more hrest
        obtain ⟨hfirst, hmore⟩ := List.forall_mem_cons.mp (hrest ▸ ih)
        exact List.forall_mem_cons.mpr ⟨by simp [hfirst, Ne.symm hc], hmore⟩

/-! ## Names -/

/-- A component that stands for something of its own. -/
structure IsName (c : List Char) : Prop where
  ne_nil : c ≠ []
  whole : '/' ∉ c
  ne_here : c ≠ ['.']
  ne_above : c ≠ ['.', '.']

/-- A step from the root keeps names only: `..` never gets on the kept ones, where each one it meets is a name. -/
theorem keep_names {c : List Char} (hkept : ∀ n ∈ kept, IsName n) (hc : '/' ∉ c) : ∀ n ∈ keep true kept c, IsName n := by
  unfold keep
  split
  · exact hkept
  · rename_i hplain
    split
    · cases kept with
      | nil => exact List.forall_mem_nil _
      | cons last before =>
        obtain ⟨hlast, hbefore⟩ := List.forall_mem_cons.mp hkept
        dsimp only
        rw [if_neg hlast.ne_above]
        exact hbefore
    · rename_i habove
      exact List.forall_mem_cons.mpr ⟨⟨fun h => hplain (.inl h), hc, fun h => hplain (.inr h), habove⟩, hkept⟩

theorem foldl_keep_names {components : List (List Char)} (h : ∀ c ∈ components, '/' ∉ c) :
    ∀ n ∈ components.foldl (keep true) [], IsName n :=
  List.foldlRecOn components (keep true) (motive := fun kept => ∀ n ∈ kept, IsName n) (List.forall_mem_nil _)
    fun _ hkept c hc => keep_names hkept (h c hc)

theorem keep_of_isName {c : List Char} (rooted : Bool) (h : IsName c) : keep rooted kept c = c :: kept := by
  unfold keep
  rw [if_neg (not_or.mpr ⟨h.ne_nil, h.ne_here⟩), if_neg h.ne_above]

theorem foldl_keep_of_names (rooted : Bool) (h : ∀ n ∈ names, IsName n) :
    names.foldl (keep rooted) kept = names.reverse ++ kept := by
  induction names generalizing kept with
  | nil => rfl
  | cons n rest ih =>
    obtain ⟨hn, hrest⟩ := List.forall_mem_cons.mp h
    rw [List.foldl_cons, keep_of_isName rooted hn, ih hrest, List.reverse_cons, List.append_assoc]
    rfl

theorem foldl_keep_empty (rooted : Bool) (k : Nat) : (List.replicate k []).foldl (keep rooted) kept = kept := by
  induction k with
  | zero => rfl
  | succ k ih =>
    have hskip : keep rooted kept [] = kept := if_pos (.inl rfl)
    rwa [List.replicate_succ, List.foldl_cons, hskip]

/-! ## Normal forms -/

/-- Slashes, and behind them names with a slash between neighbours. -/
def rootedAt (slashes : Nat) (names : List (List Char)) : List Char :=
  List.replicate slashes '/' ++ ['/'].intercalate names

/-- An absolute path in normal form. -/
def Resolved (cs : List Char) : Prop :=
  ∃ slashes names, (slashes = 1 ∨ slashes = 2) ∧ (∀ n ∈ names, IsName n) ∧ cs = rootedAt slashes names

/-- A path that starts with a slash. -/
def Absolute (cs : List Char) : Prop := cs.head? = some '/'

instance (cs : List Char) : Decidable (Absolute cs) := inferInstanceAs (Decidable (_ = _))

theorem Absolute.eq_cons (h : Absolute cs) : ∃ rest, cs = '/' :: rest := by
  cases cs with
  | nil => cases h
  | cons c rest => exact ⟨rest, congrArg (· :: rest) (Option.some.inj h)⟩

theorem leadingSlashes_of_absolute (h : Absolute cs) : leadingSlashes cs = 1 ∨ leadingSlashes cs = 2 := by
  obtain ⟨rest, rfl⟩ := h.eq_cons
  unfold leadingSlashes
  split
  · exact .inl rfl
  · exact .inr rfl
  · exact .inl rfl
  · rename_i hno
    exact absurd rfl (hno rest)

theorem rootedAt_absolute {slashes : Nat} (h : slashes = 1 ∨ slashes = 2) : Absolute (rootedAt slashes names) := by
  rcases h with rfl | rfl <;> rfl

theorem Resolved.absolute (h : Resolved cs) : Absolute cs := by
  obtain ⟨slashes, names, hslashes, -, rfl⟩ := h
  exact rootedAt_absolute hslashes

/-- What an absolute path is normalized to: its leading slashes, and names. -/
theorem normalized_eq_rootedAt (h : Absolute cs) :
    ∃ names, (∀ n ∈ names, IsName n) ∧ normalized cs = rootedAt (leadingSlashes cs) names := by
  have hslashes := leadingSlashes_of_absolute h
  have hrooted : decide (0 < leadingSlashes cs) = true := decide_eq_true (by omega)
  have hnames := foldl_keep_names fun c (hc : c ∈ components cs) => slash_not_mem_components c hc
  refine ⟨((components cs).foldl (keep true) []).reverse, fun n hn => hnames n (List.mem_reverse.mp hn), ?_⟩
  rw [normalized, hrooted]
  refine if_neg fun hnil => ?_
  have habsolute : Absolute (rootedAt (leadingSlashes cs) ((components cs).foldl (keep true) []).reverse) := rootedAt_absolute hslashes
  rw [rootedAt, hnil] at habsolute
  cases habsolute

theorem normalized_resolved (h : Absolute cs) : Resolved (normalized cs) := by
  obtain ⟨names, hnames, hcs⟩ := normalized_eq_rootedAt h
  exact ⟨leadingSlashes cs, names, leadingSlashes_of_absolute h, hnames, hcs⟩

theorem intercalate_not_absolute (h : ∀ n ∈ names, IsName n) : ¬ Absolute (['/'].intercalate names) := by
  cases names with
  | nil => exact nofun
  | cons n rest =>
    have hn := h n List.mem_cons_self
    obtain ⟨c, more, rfl⟩ := List.exists_cons_of_ne_nil hn.ne_nil
    intro habsolute
    have hc : some c = some '/' := by
      cases rest with
      | nil => rwa [Absolute, List.intercalate_singleton] at habsolute
      | cons m rest => rwa [Absolute, List.intercalate_cons_cons] at habsolute
    exact hn.whole (Option.some.inj hc ▸ List.mem_cons_self)

theorem leadingSlashes_rootedAt {slashes : Nat} (hslashes : slashes = 1 ∨ slashes = 2) (h : ∀ n ∈ names, IsName n) :
    leadingSlashes (rootedAt slashes names) = slashes := by
  have hbody := intercalate_not_absolute h
  unfold rootedAt
  generalize ['/'].intercalate names = body at hbody ⊢
  cases body with
  | nil => rcases hslashes with rfl | rfl <;> rfl
  | cons c more =>
    have hc : c ≠ '/' := fun hc => hbody (congrArg some hc)
    rcases hslashes with rfl | rfl <;> simp [List.replicate, leadingSlashes, hc]

theorem components_rootedAt (slashes : Nat) (h : ∀ n ∈ names, IsName n) :
    ∃ k, components (rootedAt slashes names) = List.replicate k [] ++ names := by
  induction slashes with
  | succ slashes ih =>
    obtain ⟨k, hk⟩ := ih
    exact ⟨k + 1, (components_slash _).trans (congrArg ([] :: ·) hk)⟩
  | zero =>
    cases names with
    | nil => exact ⟨1, rfl⟩
    | cons n rest =>
      refine ⟨0, ?_⟩
      rw [components_eq_splitOn]
      exact List.splitOn_intercalate '/' (fun n hn => (h n hn).whole) (List.cons_ne_nil _ _)

/-- What is in normal form is kept. -/
theorem Resolved.normalized_eq (h : Resolved cs) : normalized cs = cs := by
  obtain ⟨slashes, names, hslashes, hnames, rfl⟩ := h
  obtain ⟨k, hk⟩ := components_rootedAt slashes hnames
  have hbody : rootedAt slashes names ≠ [] := fun hnil => by
    have habsolute : Absolute (rootedAt slashes names) := rootedAt_absolute hslashes
    rw [hnil] at habsolute
    cases habsolute
  rw [normalized, leadingSlashes_rootedAt hslashes hnames, hk, List.foldl_append, foldl_keep_empty,
    foldl_keep_of_names _ hnames, List.append_nil, List.reverse_reverse]
  exact if_neg hbody

/-! ## Paths seen from a directory -/

theorem join_of_absolute (directory : List Char) (h : Absolute path) : join directory path = path := by
  obtain ⟨rest, rfl⟩ := h.eq_cons
  rfl

theorem join_absolute (h : Absolute directory) (path : List Char) : Absolute (join directory path) := by
  obtain ⟨rest, rfl⟩ := h.eq_cons
  unfold join
  split
  · rfl
  · split <;> rfl

section Absolute
variable {cwd source : String}

theorem absolute_resolved (h : Absolute cwd.toList) (source : String) : Resolved (absolute cwd source).toList := by
  rw [absolute, String.toList_ofList]
  exact normalized_resolved (join_absolute h _)

/-- The directory does not matter to an absolute path. -/
theorem absolute_congr (h : Absolute source.toList) (a b : String) : absolute a source = absolute b source := by
  rw [absolute, absolute, join_of_absolute _ h, join_of_absolute _ h]

theorem absolute_of_resolved (h : Resolved source.toList) (cwd : String) : absolute cwd source = source := by
  rw [absolute, join_of_absolute _ h.absolute, h.normalized_eq, String.ofList_toList]

end Absolute

/-- At the root `..` is dropped, and two slashes in front are kept. -/
example : normalized "//a/./..//../b/".toList = "//b".toList := by decide

end MediaEngine.Path
