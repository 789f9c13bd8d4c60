import MediaEngine.Proofs.Compile.Arithmetic
import MediaEngine.Proofs.Json.Grammar

/-! # JSON texts that are read back

A value is read back from the text that is written for it, in every layout, if its whole numbers have no more digits
than are read and no object in it has a key twice (`parse_render`). Every value that is read is of this kind
(`parse_readable`), so what was read once can be written and read again. -/

namespace MediaEngine

namespace Value

mutual

/-- No whole number in the value has more digits than are read, and no object in it has a key twice. -/
def readable : Value → Bool
  | .number (.int n) => decide (n.natAbs < 10 ^ Text.digitLimit)
  | .list items => itemsReadable items
  | .object members => decide (members.map Prod.fst).Nodup && membersReadable members
  | _ => true

/-- Whether every item is readable. -/
def itemsReadable : List Value → Bool
  | [] => true
  | v :: rest => v.readable && itemsReadable rest

/-- Whether every member is readable. -/
def membersReadable : Members → Bool
  | [] => true
  | (_, v) :: rest => v.readable && membersReadable rest

end

end Value

theorem Members.set_new {key : String} {v : Value} {m : Members} (h : key ∉ m.map Prod.fst) : m.set key v = m ++ [(key, v)] := by
  induction m with
  | nil => rfl
  | cons member rest ih =>
    obtain ⟨k, w⟩ := member
    rw [List.map_cons, List.mem_cons, not_or] at h
    rw [Members.set, if_neg (Ne.symm h.1), ih h.2, List.cons_append]

namespace Json
open Text

/-! ## What stands in front and behind -/

section Ends
variable {cs rest : List Char}

theorem skip_blank {b : List Char} (hb : Blank b) (hrest : ∀ c, rest.head? = some c → isSpace c = false) :
    skip (b ++ rest) = rest := by
  rw [skip, List.dropWhile_append_of_pos hb]
  cases rest with
  | nil => rfl
  | cons c rest => simp [hrest c rfl]

theorem closes_cons {c : Char} (h : isSpace c = true ∨ c = ',' ∨ c = ']' ∨ c = '\x7d') : Closes (c :: rest) := by
  intro d hd
  cases hd
  exact h

theorem closes_blank {b : List Char} (hb : Blank b) (hrest : Closes rest) : Closes (b ++ rest) := by
  cases b with
  | nil => exact hrest
  | cons c b => exact closes_cons (.inl (hb c List.mem_cons_self))

/-- A character with which a value may begin. -/
def Opens (c : Char) : Prop := c ∈ ['n', 't', 'f', 'N', 'I', '-', '"', '[', '\x7b'] ∨ c.isDigit = true

theorem Opens.solid {c : Char} (h : Opens c) : isSpace c = false ∧ c ≠ ']' ∧ c ≠ Char.ofNat 0xFEFF := by
  have hsolid : ∀ c ∈ ['n', 't', 'f', 'N', 'I', '-', '"', '[', '\x7b'], isSpace c = false ∧ c ≠ ']' ∧ c ≠ Char.ofNat 0xFEFF := by
    simp [isSpace]
  rcases h with h | h
  · exact hsolid c h
  · refine ⟨?_, ?_, ?_⟩
    · rw [Bool.eq_false_iff]
      intro hspace
      simp only [isSpace, Bool.or_eq_true, beq_iff_eq] at hspace
      rcases hspace with ((rfl | rfl) | rfl) | rfl <;> cases h
    all_goals
      rintro rfl
      cases h

theorem NumberText.opens (t : NumberText) : ∃ c cs, t.chars = c :: cs ∧ Opens c := by
  unfold NumberText.chars
  split
  · exact ⟨'-', t.unsigned, rfl, .inl (by decide)⟩
  · obtain ⟨c, cs, hcs, hc⟩ := unsigned_front t []
    rw [List.append_nil] at hcs
    exact ⟨c, cs, hcs, .inr hc⟩

/-- A number is written as the grammar has it, or by a word. -/
theorem number_cases (n : Number) : (∃ t : NumberText, t.Writes (number n) (.number n) ∧
      ∀ k, n = .int k → t.whole = Decimal.digits k.natAbs) ∨ (number n, Value.number n) ∈ words := by
  cases n with
  | int n =>
    obtain ⟨t, ht, hdigits⟩ := intText_written n
    exact .inl ⟨t, ht, fun k hk => by cases hk; exact hdigits⟩
  | float x =>
    cases x with
    | nan => exact .inr (by simp [number, words, Value.double])
    | infinite s => exact .inr (by cases s <;> simp [number, words, Value.double])
    | finite s units fits =>
      obtain ⟨t, ht⟩ := doubleText_written (x := .finite s units fits) rfl
      exact .inl ⟨t, ht, fun k hk => by cases hk⟩

theorem write_opens (l : Layout) (level : Nat) (v : Value) : ∃ c cs, write l level v = c :: cs ∧ Opens c := by
  cases v with
  | null => exact ⟨'n', _, rfl, .inl (by decide)⟩
  | bool b =>
    cases b with
    | true => exact ⟨'t', _, rfl, .inl (by decide)⟩
    | false => exact ⟨'f', _, rfl, .inl (by decide)⟩
  | number n =>
    rw [write]
    rcases number_cases n with ⟨t, ht, -⟩ | hword
    · rw [← ht.1]
      exact t.opens
    · simp only [words, List.mem_cons, Prod.mk.injEq, List.not_mem_nil, or_false] at hword
      rcases hword with ⟨h, -⟩ | ⟨h, -⟩ | ⟨h, -⟩ | ⟨h, -⟩ | ⟨h, -⟩ | ⟨h, -⟩ <;> rw [h] <;>
        exact ⟨_, _, rfl, .inl (by decide)⟩
  | text s => exact ⟨'"', _, by rw [write, quote, List.cons_append], .inl (by decide)⟩
  | list vs => cases vs <;> rw [write] <;> exact ⟨'[', _, rfl, .inl (by decide)⟩
  | object m => rcases m with _ | ⟨⟨k, v⟩, rest⟩ <;> rw [write] <;> exact ⟨'\x7b', _, rfl, .inl (by decide)⟩

end Ends

/-! ## Single values -/

section Single
variable {fuel depth : Nat} {rest : List Char}

theorem valueFrom_word {w : List Char} {v : Value} (h : (w, v) ∈ words) :
    valueFrom (fuel + 1) depth (w ++ rest) = .ok (v, rest) := by
  simp only [words, List.mem_cons, Prod.mk.injEq, List.not_mem_nil, or_false] at h
  rcases h with ⟨rfl, rfl⟩ | ⟨rfl, rfl⟩ | ⟨rfl, rfl⟩ | ⟨rfl, rfl⟩ | ⟨rfl, rfl⟩ | ⟨rfl, rfl⟩ <;> rfl

/-- A number begins with a digit, or with a minus and a digit. -/
theorem NumberText.front (t : NumberText) (rest : List Char) : ∃ d ds, d.isDigit = true ∧
    (t.chars ++ rest = d :: ds ∨ t.chars ++ rest = '-' :: d :: ds) := by
  obtain ⟨d, ds, hfront, hd⟩ := unsigned_front t rest
  refine ⟨d, ds, hd, ?_⟩
  unfold NumberText.chars
  split
  · exact .inr (by rw [List.cons_append, hfront])
  · exact .inl hfront

/-- No word begins as a number does. -/
theorem find?_words {cs ds : List Char} {d : Char} (hd : d.isDigit = true) (h : cs = d :: ds ∨ cs = '-' :: d :: ds) :
    (words.find? fun w => w.1.isPrefixOf cs) = none := by
  have hletter : ∀ c ∈ ['n', 't', 'f', 'N', 'I', '-'], (c == d) = false := fun c hc => beq_false_of_ne fun hcd => by
    subst hcd
    revert hd
    exact (by simp : ∀ c ∈ ['n', 't', 'f', 'N', 'I', '-'], c.isDigit = true → False) c hc
  rw [List.find?_eq_none]
  simp only [words, List.forall_mem_cons]
  rcases h with rfl | rfl <;> simp [List.isPrefixOf, hletter]

theorem valueFrom_chars (t : NumberText) (hrest : Closes rest) (hlimit : t.isWhole = true → t.whole.length ≤ digitLimit) :
    valueFrom (fuel + 1) depth (t.chars ++ rest) = .ok (t.value, rest) := by
  have hread := numberFrom_chars t hrest hlimit
  obtain ⟨d, ds, hd, hfront⟩ := t.front rest
  have hwords := find?_words hd hfront
  have hplain : ∀ c cs, t.chars ++ rest = c :: cs → c ≠ '"' ∧ c ≠ '[' ∧ c ≠ '\x7b' := by
    intro c cs hcs
    rcases hfront with h | h
    · cases hcs.symm.trans h
      refine ⟨?_, ?_, ?_⟩ <;> rintro rfl <;> cases hd
    · cases hcs.symm.trans h
      decide
  unfold valueFrom
  split
  · rename_i heq
    exact absurd rfl (hplain _ _ heq).1
  · rename_i heq
    exact absurd rfl (hplain _ _ heq).2.1
  · rename_i heq
    exact absurd rfl (hplain _ _ heq).2.2
  · rw [hwords]
    exact hread

theorem valueFrom_number {n : Number} (hn : (Value.number n).readable = true) (hrest : Closes rest) :
    valueFrom (fuel + 1) depth (number n ++ rest) = .ok (.number n, rest) := by
  rcases number_cases n with ⟨t, ht, hdigits⟩ | hword
  · rw [← ht.1, ← ht.2]
    refine valueFrom_chars t hrest fun hwhole => ?_
    obtain ⟨k, rfl⟩ : ∃ k, n = .int k := by
      have hvalue := ht.2
      rw [NumberText.value, hwhole] at hvalue
      cases hvalue
      exact ⟨_, rfl⟩
    have hpos : 0 < digitLimit := by decide
    rw [Value.readable, decide_eq_true_eq] at hn
    rw [hdigits k rfl]
    exact (Nat.length_toDigits_le_iff (by decide) hpos).mpr hn
  · exact valueFrom_word hword

theorem valueFrom_text (s : String) : valueFrom (fuel + 1) depth (quote s ++ rest) = .ok (.text s, rest) := by
  have hquote : quote s ++ rest = '"' :: (s.toList.flatMap escapeChar ++ '"' :: rest) := by
    simp [quote]
  have hread := quotedText_quote s rest
  rw [hquote] at hread ⊢
  rw [valueFrom, hread]
  rfl

end Single

/-! ## Lists and objects -/

section Nested
variable (l : Layout) (level : Nat)

/-- A value is read back from its text, with as much fuel and depth as the text is long. -/
def ReadsBack (v : Value) : Prop := ∀ fuel depth rest, Closes rest → 2 * (write l level v).length ≤ fuel + 1 →
  (write l level v).length ≤ depth → valueFrom fuel depth (write l level v ++ rest) = .ok (v, rest)

/-- So are items, up to the bracket behind them. -/
def ItemsReadBack (v : Value) (vs : List Value) : Prop := ∀ fuel depth b left, Blank b →
  2 * ((write l level v).length + (writeItems l level vs).length) ≤ fuel →
  (write l level v).length + (writeItems l level vs).length ≤ depth →
  itemsFrom fuel depth (write l level v ++ (writeItems l level vs ++ (b ++ ']' :: left))) = .ok (v :: vs, left)

/-- So are members, whose keys are told apart from those before. -/
def MembersReadBack (k : String) (v : Value) (m : Members) : Prop := ∀ fuel depth b left before, Blank b →
  ((before ++ (k, v) :: m).map Prod.fst).Nodup →
  2 * ((write l level v).length + (writeMembers l level m).length) ≤ fuel →
  (write l level v).length + (writeMembers l level m).length ≤ depth →
  membersFrom fuel depth before
    (quote k ++ ':' :: ' ' :: (write l level v ++ (writeMembers l level m ++ (b ++ '\x7d' :: left)))) =
      .ok (before ++ (k, v) :: m, left)

variable {l level} {v : Value} {rest : List Char} {fuel depth : Nat}

theorem skip_blank_write {b : List Char} (hb : Blank b) : skip (b ++ (write l level v ++ rest)) = write l level v ++ rest := by
  obtain ⟨c, cs, hwrite, hopens⟩ := write_opens l level v
  rw [hwrite]
  refine skip_blank hb fun d hd => ?_
  cases hd
  exact hopens.solid.1

theorem skip_blank_cons {b : List Char} {c : Char} (hb : Blank b) (hc : isSpace c = false) :
    skip (b ++ c :: rest) = c :: rest :=
  skip_blank hb fun d hd => by cases hd; exact hc

theorem skip_cons {c : Char} (hc : isSpace c = false) : skip (c :: rest) = c :: rest := skip_blank_cons blank_nil hc

theorem write_length_pos (l : Layout) (level : Nat) (v : Value) : 0 < (write l level v).length := by
  obtain ⟨c, cs, hwrite, -⟩ := write_opens l level v
  rw [hwrite]
  exact Nat.succ_pos _

theorem key_new {before m : Members} {k : String} (h : ((before ++ (k, v) :: m).map Prod.fst).Nodup) :
    k ∉ before.map Prod.fst := by
  rw [List.map_append, List.map_cons] at h
  intro hk
  exact (List.disjoint_of_nodup_append h) hk List.mem_cons_self

/-- The last item is read, and then the bracket. -/
theorem itemsReadBack_last (hv : ReadsBack l level v) : ItemsReadBack l level v [] := by
  intro fuel depth b left hb hfuel hdepth
  have hpos := write_length_pos l level v
  obtain ⟨n, rfl⟩ : ∃ n, fuel = n + 1 := ⟨fuel - 1, by omega⟩
  have hcloses : Closes (b ++ ']' :: left) := closes_blank hb (closes_cons (.inr (.inr (.inl rfl))))
  have hread := hv n depth _ hcloses (by omega) (by omega)
  rw [writeItems, List.nil_append, itemsFrom]
  refine bind_eq_ok.mpr ⟨_, hread, ?_⟩
  dsimp only
  rw [skip_blank_cons hb rfl]
  rfl

/-- An item is read, and then the comma and those behind it. -/
theorem itemsReadBack_more {w : Value} {vs : List Value} (hv : ReadsBack l level v) (hvs : ItemsReadBack l level w vs) :
    ItemsReadBack l level v (w :: vs) := by
  intro fuel depth b left hb hfuel hdepth
  have hpos := write_length_pos l level v
  obtain ⟨a, ha, hbetween⟩ := between_eq l level
  have htext : writeItems l level (w :: vs) ++ (b ++ ']' :: left) =
      ',' :: (a ++ (write l level w ++ (writeItems l level vs ++ (b ++ ']' :: left)))) := by
    rw [writeItems, hbetween]
    simp only [List.append_assoc, List.cons_append]
  have hlength : (writeItems l level (w :: vs)).length =
      1 + a.length + (write l level w).length + (writeItems l level vs).length := by
    rw [writeItems, hbetween, List.length_append, List.length_append, List.length_cons]
    omega
  obtain ⟨n, rfl⟩ : ∃ n, fuel = n + 1 := ⟨fuel - 1, by omega⟩
  rw [htext, itemsFrom]
  refine bind_eq_ok.mpr ⟨_, hv n depth _ (closes_cons (.inr (.inl rfl))) (by omega) (by omega), ?_⟩
  dsimp only
  rw [skip_cons rfl]
  refine bind_eq_ok.mpr ⟨(w :: vs, left), ?_, rfl⟩
  rw [skip_blank_write ha]
  exact hvs n depth b left hb (by omega) (by omega)

/-- A member is read, and then the bracket, or the comma and those behind it. -/
theorem membersFrom_ok {k : String} {before m : Members} {left : List Char}
    (hv : valueFrom fuel depth (write l level v ++ rest) = .ok (v, rest))
    (h : skip rest = '\x7d' :: left ∧ m = Members.set k v before ∨
      ∃ more, skip rest = ',' :: more ∧ membersFrom fuel depth (Members.set k v before) (skip more) = .ok (m, left)) :
    membersFrom (fuel + 1) depth before (quote k ++ ':' :: ' ' :: (write l level v ++ rest)) = .ok (m, left) := by
  have hk := quotedText_quote k (':' :: ' ' :: (write l level v ++ rest))
  rw [quote, List.cons_append, List.cons_append] at hk ⊢
  rw [membersFrom]
  refine bind_eq_ok.mpr ⟨_, hk, ?_⟩
  dsimp only
  rw [skip_cons rfl]
  refine bind_eq_ok.mpr ⟨(v, rest), ?_, ?_⟩
  · have hskip : skip (' ' :: (write l level v ++ rest)) = write l level v ++ rest := skip_blank_write blank_space
    rw [hskip]
    exact hv
  · rcases h with ⟨hskip, rfl⟩ | ⟨more, hskip, hmore⟩
    · dsimp only
      rw [hskip]
      rfl
    · dsimp only
      rw [hskip]
      exact hmore

theorem membersReadBack_last (k : String) (hv : ReadsBack l level v) : MembersReadBack l level k v [] := by
  intro fuel depth b left before hb hnew hfuel hdepth
  have hpos := write_length_pos l level v
  obtain ⟨n, rfl⟩ : ∃ n, fuel = n + 1 := ⟨fuel - 1, by omega⟩
  have hcloses : Closes (b ++ '\x7d' :: left) := closes_blank hb (closes_cons (.inr (.inr (.inr rfl))))
  rw [writeMembers, List.nil_append]
  exact membersFrom_ok (hv n depth _ hcloses (by omega) (by omega))
    (.inl ⟨skip_blank_cons hb rfl, (Members.set_new (key_new hnew)).symm⟩)

theorem membersReadBack_more {k k' : String} {w : Value} {m : Members} (hv : ReadsBack l level v)
    (hm : MembersReadBack l level k' w m) : MembersReadBack l level k v ((k', w) :: m) := by
  intro fuel depth b left before hb hnew hfuel hdepth
  have hpos := write_length_pos l level v
  obtain ⟨a, ha, hbetween⟩ := between_eq l level
  have htext : writeMembers l level ((k', w) :: m) ++ (b ++ '\x7d' :: left) =
      ',' :: (a ++ (quote k' ++ ':' :: ' ' :: (write l level w ++ (writeMembers l level m ++ (b ++ '\x7d' :: left))))) := by
    rw [writeMembers, hbetween]
    simp only [List.append_assoc, List.cons_append, List.nil_append]
  have hlength : (writeMembers l level ((k', w) :: m)).length =
      3 + a.length + (quote k').length + (write l level w).length + (writeMembers l level m).length := by
    rw [writeMembers, hbetween]
    simp only [List.length_append, List.length_cons, List.length_nil]
    omega
  have hset : Members.set k v before = before ++ [(k, v)] := Members.set_new (key_new hnew)
  have hall : before ++ (k, v) :: (k', w) :: m = before ++ [(k, v)] ++ (k', w) :: m := by
    rw [List.append_assoc]
    rfl
  obtain ⟨n, rfl⟩ : ∃ n, fuel = n + 1 := ⟨fuel - 1, by omega⟩
  rw [htext]
  refine membersFrom_ok (hv n depth _ (closes_cons (.inr (.inl rfl))) (by omega) (by omega))
    (.inr ⟨_, skip_cons rfl, ?_⟩)
  rw [skip_blank ha (fun c hc => by cases hc; rfl), hset, hall]
  rw [hall] at hnew
  exact hm n depth b left _ hb hnew (by omega) (by omega)

theorem readsBack_single (h : ∀ fuel depth rest, Closes rest →
    valueFrom (fuel + 1) depth (write l level v ++ rest) = .ok (v, rest)) : ReadsBack l level v := by
  intro fuel depth rest hrest hfuel hdepth
  have hpos := write_length_pos l level v
  obtain ⟨n, rfl⟩ : ∃ n, fuel = n + 1 := ⟨fuel - 1, by omega⟩
  exact h n depth rest hrest

theorem readsBack_emptyList : ReadsBack l level (.list []) := by
  intro fuel depth rest hrest hfuel hdepth
  rw [write] at hfuel hdepth ⊢
  obtain ⟨n, rfl⟩ : ∃ n, fuel = n + 1 := ⟨fuel - 1, by simp at hfuel; omega⟩
  obtain ⟨d, rfl⟩ : ∃ d, depth = d + 1 := ⟨depth - 1, by simp at hdepth; omega⟩
  exact valueFrom.eq_4 _ _ _ _ (skip_cons rfl)

theorem readsBack_list {vs : List Value} (h : ItemsReadBack l (level + 1) v vs) : ReadsBack l level (.list (v :: vs)) := by
  intro fuel depth rest hrest hfuel hdepth
  rw [write] at hfuel hdepth ⊢
  simp only [List.length_append, List.length_cons, List.cons_append] at hfuel hdepth
  obtain ⟨n, rfl⟩ : ∃ n, fuel = n + 1 := ⟨fuel - 1, by omega⟩
  obtain ⟨d, rfl⟩ : ∃ d, depth = d + 1 := ⟨depth - 1, by omega⟩
  simp only [List.append_assoc, List.cons_append, List.nil_append]
  have hskip : skip (l.lineBreak (level + 1) ++
      (write l (level + 1) v ++ (writeItems l (level + 1) vs ++ (l.lineBreak level ++ ']' :: rest)))) =
        write l (level + 1) v ++ (writeItems l (level + 1) vs ++ (l.lineBreak level ++ ']' :: rest)) :=
    skip_blank_write (blank_lineBreak l (level + 1))
  rw [valueFrom.eq_5, hskip]
  · exact bind_eq_ok.mpr ⟨_, h n d (l.lineBreak level) rest (blank_lineBreak l level) (by omega) (by omega), rfl⟩
  · obtain ⟨c, cs, hwrite, hopens⟩ := write_opens l (level + 1) v
    intro left hleft
    rw [hskip, hwrite] at hleft
    cases hleft
    exact hopens.solid.2.1 rfl

theorem readsBack_emptyObject : ReadsBack l level (.object []) := by
  intro fuel depth rest hrest hfuel hdepth
  rw [write] at hfuel hdepth ⊢
  obtain ⟨n, rfl⟩ : ∃ n, fuel = n + 1 := ⟨fuel - 1, by simp at hfuel; omega⟩
  obtain ⟨d, rfl⟩ : ∃ d, depth = d + 1 := ⟨depth - 1, by simp at hdepth; omega⟩
  exact valueFrom.eq_7 _ _ _ _ (skip_cons rfl)

theorem readsBack_object {k : String} {m : Members} (hnew : (((k, v) :: m).map Prod.fst).Nodup)
    (h : MembersReadBack l (level + 1) k v m) : ReadsBack l level (.object ((k, v) :: m)) := by
  intro fuel depth rest hrest hfuel hdepth
  rw [write] at hfuel hdepth ⊢
  simp only [List.length_append, List.length_cons, List.cons_append] at hfuel hdepth
  obtain ⟨n, rfl⟩ : ∃ n, fuel = n + 1 := ⟨fuel - 1, by omega⟩
  obtain ⟨d, rfl⟩ : ∃ d, depth = d + 1 := ⟨depth - 1, by omega⟩
  simp only [List.append_assoc, List.cons_append, List.nil_append]
  have hskip : skip (l.lineBreak (level + 1) ++ (quote k ++ ':' :: ' ' ::
      (write l (level + 1) v ++ (writeMembers l (level + 1) m ++ (l.lineBreak level ++ '\x7d' :: rest))))) =
        quote k ++ ':' :: ' ' ::
          (write l (level + 1) v ++ (writeMembers l (level + 1) m ++ (l.lineBreak level ++ '\x7d' :: rest))) :=
    skip_blank (blank_lineBreak l (level + 1)) fun c hc => by cases hc; rfl
  rw [valueFrom.eq_8, hskip]
  · exact bind_eq_ok.mpr
      ⟨_, h n d (l.lineBreak level) rest [] (blank_lineBreak l level) hnew (by omega) (by omega), rfl⟩
  · intro left hleft
    rw [hskip] at hleft
    cases hleft

end Nested

section Whole
variable (l : Layout)

mutual

/-- A readable value is read back, whatever follows it. -/
theorem write_readsBack : ∀ (v : Value) (level : Nat), v.readable = true → ReadsBack l level v
  | .list [], _, _ => readsBack_emptyList
  | .list (v :: rest), level, h => by
    have ⟨hv, hrest⟩ := Bool.and_eq_true_iff.mp h
    exact readsBack_list (writeItems_readsBack rest (level + 1) hrest (write_readsBack v (level + 1) hv))
  | .object [], _, _ => readsBack_emptyObject
  | .object ((k, v) :: rest), level, h => by
    have ⟨hkeys, hall⟩ := Bool.and_eq_true_iff.mp h
    have ⟨hv, hrest⟩ := Bool.and_eq_true_iff.mp hall
    exact readsBack_object (of_decide_eq_true hkeys)
      (writeMembers_readsBack rest (level + 1) hrest k (write_readsBack v (level + 1) hv))
  | .null, _, _ => readsBack_single fun _ _ _ _ => valueFrom_word (by simp [words, write])
  | .bool true, _, _ => readsBack_single fun _ _ _ _ => valueFrom_word (by simp [words, write])
  | .bool false, _, _ => readsBack_single fun _ _ _ _ => valueFrom_word (by simp [words, write])
  | .number n, _, h => readsBack_single fun _ _ _ hrest => by
    rw [write]
    exact valueFrom_number h hrest
  | .text s, _, _ => readsBack_single fun _ _ _ _ => by
    rw [write]
    exact valueFrom_text s

theorem writeItems_readsBack : ∀ (vs : List Value) (level : Nat), Value.itemsReadable vs = true → ∀ {v : Value},
    ReadsBack l level v → ItemsReadBack l level v vs
  | [], _, _, _, hv => itemsReadBack_last hv
  | w :: rest, level, h, _, hv => by
    have ⟨hw, hrest⟩ := Bool.and_eq_true_iff.mp h
    exact itemsReadBack_more hv (writeItems_readsBack rest level hrest (write_readsBack w level hw))

theorem writeMembers_readsBack : ∀ (m : Members) (level : Nat), Value.membersReadable m = true → ∀ (k : String) {v : Value},
    ReadsBack l level v → MembersReadBack l level k v m
  | [], _, _, k, _, hv => membersReadBack_last k hv
  | (k', w) :: rest, level, h, _, _, hv => by
    have ⟨hw, hrest⟩ := Bool.and_eq_true_iff.mp h
    exact membersReadBack_more hv (writeMembers_readsBack rest level hrest k' (write_readsBack w level hw))

end

/-- A readable value is read back from the text that is written for it, in any layout. -/
theorem parse_render {v : Value} (h : v.readable = true) : parse (render l v) = .ok v := by
  obtain ⟨c, cs, hwrite, hopens⟩ := write_opens l 0 v
  have hread := write_readsBack l v 0 h (2 * (write l 0 v).length + 1) (write l 0 v).length [] (fun _ hc => by cases hc)
    (by omega) (Nat.le_refl _)
  have hskip : skip (write l 0 v) = write l 0 v := by
    rw [hwrite]
    exact skip_cons hopens.solid.1
  have hmark : (write l 0 v).head? ≠ some (Char.ofNat 0xFEFF) := by
    rw [hwrite]
    exact fun hc => hopens.solid.2.2 (Option.some.inj hc)
  have hchars : parseChars (write l 0 v).length (write l 0 v) = .ok v := by
    rw [List.append_nil] at hread
    unfold parseChars
    rw [if_neg hmark, hskip]
    exact bind_eq_ok.mpr ⟨_, hread, rfl⟩
  rw [parse, parseWithin, render, String.length_ofList, String.toList_ofList, hchars]

end Whole

/-! ## What is read -/

section Read

theorem ofDigits_lt {ds : List Nat} (h : ∀ d ∈ ds, d < 10) : ofDigits ds < 10 ^ ds.length := by
  have hfold : ∀ (n : Nat), ds.foldl (fun n d => n * 10 + d) n < (n + 1) * 10 ^ ds.length := by
    induction ds with
    | nil => simp
    | cons d ds ih =>
      intro n
      have hd := h d List.mem_cons_self
      calc List.foldl (fun n d => n * 10 + d) (n * 10 + d) ds < (n * 10 + d + 1) * 10 ^ ds.length :=
            ih (fun d hd => h d (List.mem_cons_of_mem _ hd)) _
        _ ≤ ((n + 1) * 10) * 10 ^ ds.length := Nat.mul_le_mul_right _ (by omega)
        _ = (n + 1) * 10 ^ (d :: ds).length := by rw [List.length_cons, Nat.pow_succ', Nat.mul_assoc]
  simpa [ofDigits] using hfold 0

theorem natOf_lt (cs : List Char) : natOf cs < 10 ^ cs.length := by
  have hdigits : ∀ d ∈ cs.filterMap plainDigit?, d < 10 := by
    intro d hd
    obtain ⟨c, -, hc⟩ := List.mem_filterMap.mp hd
    unfold plainDigit? at hc
    split at hc
    · rename_i hrange
      cases hc
      have hhigh : c.toNat ≤ '9'.toNat := hrange.2
      have hnine : '9'.toNat - '0'.toNat = 9 := rfl
      omega
    · cases hc
  exact Nat.lt_of_lt_of_le (ofDigits_lt hdigits) (Nat.pow_le_pow_right (by decide) (List.length_filterMap_le _ _))

theorem natAbs_signedInt (s : Bool) (n : Nat) : (signedInt s n).natAbs = n := by
  cases s <;> simp [signedInt]

theorem readable_int (n : Int) : (Value.int n).readable = true ↔ n.natAbs < 10 ^ digitLimit := by
  rw [Value.int, Value.readable, decide_eq_true_eq]

theorem numberFrom_readable {cs rest : List Char} {v : Value} (h : numberFrom cs = .ok (v, rest)) : v.readable = true := by
  unfold numberFrom at h
  split at h
  split at h
  · cases h
  · rename_i whole _ _ _
    dsimp only at h
    split at h
    · split at h
      · cases h
      · rename_i hlimit
        cases h
        rw [readable_int, natAbs_signedInt]
        exact Nat.lt_of_lt_of_le (natOf_lt whole) (Nat.pow_le_pow_right (by decide) (Nat.not_lt.mp hlimit))
    · cases h
      rfl

theorem keys_set (key : String) (v : Value) (m : Members) : (Members.set key v m).map Prod.fst =
    if key ∈ m.map Prod.fst then m.map Prod.fst else m.map Prod.fst ++ [key] := by
  induction m with
  | nil => rfl
  | cons member rest ih =>
    obtain ⟨k, w⟩ := member
    by_cases hk : k = key
    · simp [Members.set, hk]
    · rw [Members.set, if_neg hk, List.map_cons, List.map_cons, ih]
      by_cases hrest : key ∈ rest.map Prod.fst <;> simp [hrest, Ne.symm hk]

theorem nodup_set {key : String} {v : Value} {m : Members} (h : (m.map Prod.fst).Nodup) :
    ((Members.set key v m).map Prod.fst).Nodup := by
  rw [keys_set]
  split
  · exact h
  · rename_i hkey
    refine List.nodup_append.mpr ⟨h, List.nodup_singleton _, fun a ha b hb hab => hkey ?_⟩
    rwa [← List.mem_singleton.mp hb, ← hab]

theorem readable_set {key : String} {v : Value} {m : Members} (hv : v.readable = true) (h : Value.membersReadable m = true) :
    Value.membersReadable (Members.set key v m) = true := by
  induction m with
  | nil => exact Bool.and_eq_true_iff.mpr ⟨hv, rfl⟩
  | cons member rest ih =>
    obtain ⟨k, w⟩ := member
    have ⟨hw, hrest⟩ := Bool.and_eq_true_iff.mp h
    rw [Members.set]
    split
    · exact Bool.and_eq_true_iff.mpr ⟨hv, hrest⟩
    · exact Bool.and_eq_true_iff.mpr ⟨hw, ih hrest⟩

/-- What is read with some fuel is readable. -/
structure ReadsReadable (fuel : Nat) : Prop where
  value : ∀ depth cs v rest, valueFrom fuel depth cs = .ok (v, rest) → v.readable = true
  items : ∀ depth cs vs rest, itemsFrom fuel depth cs = .ok (vs, rest) → Value.itemsReadable vs = true
  members : ∀ depth before cs m rest, (before.map Prod.fst).Nodup → Value.membersReadable before = true →
    membersFrom fuel depth before cs = .ok (m, rest) → (m.map Prod.fst).Nodup ∧ Value.membersReadable m = true

theorem readsReadable (fuel : Nat) : ReadsReadable fuel := by
  induction fuel with
  | zero => exact ⟨nofun, nofun, nofun⟩
  | succ fuel ih =>
    refine ⟨fun depth cs v rest h => ?_, fun depth cs vs rest h => ?_, fun depth before cs m rest hkeys hbefore h => ?_⟩
    · unfold valueFrom at h
      split at h
      · obtain ⟨s, -, h⟩ := bind_eq_ok.mp h
        cases h
        rfl
      · split at h
        · cases h
        · cases h
          rfl
        · obtain ⟨items, hitems, h⟩ := bind_eq_ok.mp h
          cases h
          exact ih.items _ _ _ _ hitems
      · split at h
        · cases h
        · cases h
          rfl
        · obtain ⟨members, hmembers, h⟩ := bind_eq_ok.mp h
          cases h
          -- An object begins without members, so none of its keys is there twice.
          have hall := ih.members _ [] _ _ _ List.nodup_nil rfl hmembers
          exact Bool.and_eq_true_iff.mpr ⟨decide_eq_true hall.1, hall.2⟩
      · split at h
        · rename_i word w hfind
          cases h
          have hword := List.mem_of_find?_eq_some hfind
          have hwords : ∀ w ∈ words, w.2.readable = true := by simp [words, Value.readable, Value.double]
          exact hwords _ hword
        · exact numberFrom_readable h
    · rw [itemsFrom] at h
      obtain ⟨⟨v, tail⟩, hv, h⟩ := bind_eq_ok.mp h
      dsimp only at h
      split at h
      · cases h
        exact Bool.and_eq_true_iff.mpr ⟨ih.value _ _ _ _ hv, rfl⟩
      · obtain ⟨others, hothers, h⟩ := bind_eq_ok.mp h
        cases h
        exact Bool.and_eq_true_iff.mpr ⟨ih.value _ _ _ _ hv, ih.items _ _ _ _ hothers⟩
      · cases h
    · unfold membersFrom at h
      split at h
      · obtain ⟨⟨key, tail⟩, -, h⟩ := bind_eq_ok.mp h
        dsimp only at h
        split at h
        · obtain ⟨⟨v, tail⟩, hv, h⟩ := bind_eq_ok.mp h
          -- A key that is there already gets its value replaced, so the keys stay distinct.
          have hset : Value.membersReadable (Members.set key v before) = true :=
            readable_set (ih.value _ _ _ _ hv) hbefore
          dsimp only at h
          split at h
          · cases h
            exact ⟨nodup_set hkeys, hset⟩
          · exact ih.members _ _ _ _ _ (nodup_set hkeys) hset h
          · cases h
        · cases h
      · cases h

/-- Every value that is read is readable: its whole numbers have no more digits than are read, and no object in it has a
    key twice. -/
theorem parse_readable {s : String} {v : Value} (h : parse s = .ok v) : v.readable = true := by
  have hchars : parseChars s.length s.toList = .ok v := by
    unfold parse parseWithin at h
    split at h
    · rename_i w hw
      cases h
      exact hw
    · cases h
  unfold parseChars at hchars
  split at hchars
  · cases hchars
  · obtain ⟨⟨w, tail⟩, hw, hchars⟩ := bind_eq_ok.mp hchars
    dsimp only at hchars
    split at hchars
    · cases hchars
      exact (readsReadable _).value _ _ _ _ hw
    · cases hchars

end Read

end Json

end MediaEngine
