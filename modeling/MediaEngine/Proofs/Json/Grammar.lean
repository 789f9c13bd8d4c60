import MediaEngine.Proofs.Json.Numbers
import MediaEngine.Proofs.Json.Quoting
import MediaEngine.Proofs.Written.Values

/-! # Which texts are JSON

The grammar of JSON texts has no words for the numbers that are not finite (`Standard`). What is written for a value
belongs to it exactly as long as every number in the value is finite (`render_wellFormed_iff`): the other way round,
the words for such numbers have letters that stand outside of quotes in no JSON text. -/

namespace MediaEngine.Json
open Text

/-! ## The grammar -/

/-- Blanks that may stand between tokens. -/
def Blank (cs : List Char) : Prop := ∀ c ∈ cs, isSpace c = true

/-- The pieces that lists and objects are made of. -/
inductive Piece where
  | value
  | items
  | members

/-- What is written as a piece of a JSON text. -/
inductive Standard : Piece → List Char → Prop
  | null : Standard .value ['n', 'u', 'l', 'l']
  | true : Standard .value ['t', 'r', 'u', 'e']
  | false : Standard .value ['f', 'a', 'l', 's', 'e']
  | number (t : NumberText) : Standard .value t.chars
  | text {cs} : Inside cs → Standard .value ('"' :: (cs ++ ['"']))
  | emptyList {b} : Blank b → Standard .value ('[' :: (b ++ [']']))
  | list {cs} : Standard .items cs → Standard .value ('[' :: (cs ++ [']']))
  | emptyObject {b} : Blank b → Standard .value ('\x7b' :: (b ++ ['\x7d']))
  | object {cs} : Standard .members cs → Standard .value ('\x7b' :: (cs ++ ['\x7d']))
  | item {a b cs} : Blank a → Blank b → Standard .value cs → Standard .items (a ++ (cs ++ b))
  | moreItems {cs ds} : Standard .items cs → Standard .items ds → Standard .items (cs ++ ',' :: ds)
  | member {a b c d key cs} : Blank a → Blank b → Blank c → Blank d → Inside key → Standard .value cs →
      Standard .members (a ++ '"' :: (key ++ '"' :: (b ++ ':' :: (c ++ (cs ++ d)))))
  | moreMembers {cs ds} : Standard .members cs → Standard .members ds → Standard .members (cs ++ ',' :: ds)

/-- A JSON text: a value with blanks around it. -/
def WellFormed (s : String) : Prop := ∃ a cs b, Blank a ∧ Standard .value cs ∧ Blank b ∧ s.toList = a ++ (cs ++ b)

theorem blank_nil : Blank [] := fun _ hc => by cases hc

theorem blank_space : Blank [' '] := by
  intro c hc
  rw [List.mem_singleton.mp hc]
  rfl

theorem Blank.append {a b : List Char} (ha : Blank a) (hb : Blank b) : Blank (a ++ b) := List.forall_mem_append.mpr ⟨ha, hb⟩

/-- Blanks may stand behind items and members. -/
theorem Standard.blank {p : Piece} {cs b : List Char} (h : Standard p cs) (hb : Blank b) (hp : p ≠ .value) :
    Standard p (cs ++ b) := by
  induction h with
  | item ha hb' hv _ =>
    simp only [List.append_assoc]
    exact .item ha (hb'.append hb) hv
  | moreItems hcs _ _ ih =>
    rw [List.append_assoc]
    exact .moreItems hcs (ih hp)
  | member ha hb' hc hd hkey hv _ =>
    simp only [List.append_assoc, List.cons_append]
    exact .member ha hb' hc (hd.append hb) hkey hv
  | moreMembers hcs _ _ ih =>
    rw [List.append_assoc]
    exact .moreMembers hcs (ih hp)
  | _ => exact absurd rfl hp

/-! ## What is written -/

section Writing
variable (l : Layout)

theorem blank_lineBreak (level : Nat) : Blank (l.lineBreak level) := by
  intro c hc
  cases l with
  | line => cases hc
  | indented width =>
    rcases List.mem_cons.mp hc with rfl | hc
    · rfl
    · rw [List.eq_of_mem_replicate hc]
      rfl

/-- Between items stands a comma, with blanks behind it. -/
theorem between_eq (level : Nat) : ∃ b, Blank b ∧ l.between level = ',' :: b := by
  cases l with
  | line => exact ⟨[' '], blank_space, rfl⟩
  | indented width => exact ⟨_, blank_lineBreak (.indented width) level, rfl⟩

theorem quote_standard (s : String) : Standard .value (quote s) := by
  rw [quote, List.cons_append]
  exact .text (escaped_inside s.toList)

theorem number_standard {n : Number} (h : (Value.number n).allFinite = true) : Standard .value (number n) := by
  cases n with
  | int n =>
    obtain ⟨t, ht, -⟩ := intText_written n
    rw [number, ← ht.1]
    exact .number t
  | float x =>
    obtain ⟨t, ht⟩ := doubleText_written h
    cases x with
    | nan => cases h
    | infinite s => cases h
    | finite s units fits =>
      rw [number, ← ht.1]
      · exact .number t
      · nofun
      · nofun

theorem member_standard (k : String) {b cs : List Char} (hb : Blank b) (h : Standard .value cs) :
    Standard .members (b ++ (quote k ++ ':' :: ' ' :: cs)) := by
  have hmember := Standard.member (b := []) (c := [' ']) (d := []) hb blank_nil blank_space blank_nil (escaped_inside k.toList) h
  simpa [quote] using hmember

mutual

theorem write_standard : ∀ (v : Value) (level : Nat), v.allFinite = true → Standard .value (write l level v)
  | .null, _, _ => .null
  | .bool true, _, _ => .true
  | .bool false, _, _ => .false
  | .number n, _, h => by
    rw [write]
    exact number_standard h
  | .text s, _, _ => by
    rw [write]
    exact quote_standard s
  | .list [], _, _ => by
    rw [write]
    exact .emptyList blank_nil
  | .list (v :: rest), level, h => by
    have ⟨hv, hrest⟩ := Bool.and_eq_true_iff.mp h
    have hfirst := Standard.item (b := []) (blank_lineBreak l (level + 1)) blank_nil (write_standard v (level + 1) hv)
    have hall := (writeItems_standard rest (level + 1) hrest hfirst).blank (blank_lineBreak l level) nofun
    rw [write]
    simpa only [List.append_nil, List.nil_append, List.append_assoc, List.cons_append] using hall.list
  | .object [], _, _ => by
    rw [write]
    exact .emptyObject blank_nil
  | .object ((k, v) :: rest), level, h => by
    have ⟨hv, hrest⟩ := Bool.and_eq_true_iff.mp h
    have hfirst := member_standard k (blank_lineBreak l (level + 1)) (write_standard v (level + 1) hv)
    have hall := (writeMembers_standard rest (level + 1) hrest hfirst).blank (blank_lineBreak l level) nofun
    rw [write]
    simpa only [List.append_nil, List.nil_append, List.append_assoc, List.cons_append] using hall.object

theorem writeItems_standard : ∀ (vs : List Value) (level : Nat), Value.itemsFinite vs = true → ∀ {cs : List Char},
    Standard .items cs → Standard .items (cs ++ writeItems l level vs)
  | [], _, _, cs, hcs => by
    rw [writeItems, List.append_nil]
    exact hcs
  | v :: rest, level, h, cs, hcs => by
    have ⟨hv, hrest⟩ := Bool.and_eq_true_iff.mp h
    obtain ⟨b, hb, hbetween⟩ := between_eq l level
    have hmore := hcs.moreItems (.item (b := []) hb blank_nil (write_standard v level hv))
    have hall := writeItems_standard rest level hrest hmore
    rw [writeItems, hbetween]
    simpa only [List.append_nil, List.nil_append, List.append_assoc, List.cons_append] using hall

theorem writeMembers_standard : ∀ (m : Members) (level : Nat), Value.membersFinite m = true → ∀ {cs : List Char},
    Standard .members cs → Standard .members (cs ++ writeMembers l level m)
  | [], _, _, cs, hcs => by
    rw [writeMembers, List.append_nil]
    exact hcs
  | (k, v) :: rest, level, h, cs, hcs => by
    have ⟨hv, hrest⟩ := Bool.and_eq_true_iff.mp h
    obtain ⟨b, hb, hbetween⟩ := between_eq l level
    have hmore := hcs.moreMembers (member_standard k hb (write_standard v level hv))
    have hall := writeMembers_standard rest level hrest hmore
    rw [writeMembers, hbetween]
    simpa only [List.append_nil, List.nil_append, List.append_assoc, List.cons_append] using hall

end

end Writing

/-! ## What is not a JSON text -/

/-- Where a character of a text stands. -/
inductive Place where
  | outside
  | inside
  /-- Inside of quotes, behind a backslash. -/
  | escaped
  deriving DecidableEq

/-- Where the character behind this one stands. -/
def Place.next : Place → Char → Place
  | outside, c => if c = '"' then inside else outside
  | inside, c => if c = '"' then outside else if c = '\\' then escaped else inside
  | escaped, _ => inside

/-- What is left of a text without all that is quoted in it, and the quotes. -/
def unquoted (p : Place) : List Char → List Char
  | [] => []
  | c :: cs => if p = .outside ∧ c ≠ '"' then c :: unquoted (p.next c) cs else unquoted (p.next c) cs

/-- The letters that only the words for numbers that are not finite have outside of quotes. -/
def Marked (bare : List Char) : Prop := 'N' ∈ bare ∨ 'I' ∈ bare

/-- Whatever follows it, a piece is something without its quoted texts, and whether this has one of the letters is
    known. -/
def Reveals (cs : List Char) (marked : Prop) : Prop :=
  ∃ bare, (∀ rest, unquoted .outside (cs ++ rest) = bare ++ unquoted .outside rest) ∧ (Marked bare ↔ marked)

section Reveals
variable {cs ds : List Char} {p q : Prop}

theorem Reveals.append (hcs : Reveals cs p) (hds : Reveals ds q) : Reveals (cs ++ ds) (p ∨ q) := by
  obtain ⟨xs, hxs, hp⟩ := hcs
  obtain ⟨ys, hys, hq⟩ := hds
  refine ⟨xs ++ ys, fun rest => by rw [List.append_assoc, hxs, hys, List.append_assoc], ?_⟩
  rw [← hp, ← hq]
  simp only [Marked, List.mem_append]
  exact or_or_or_comm

theorem Reveals.unique (hp : Reveals cs p) (hq : Reveals cs q) : p ↔ q := by
  obtain ⟨xs, hxs, hp⟩ := hp
  obtain ⟨ys, hys, hq⟩ := hq
  have hxy : xs ++ unquoted .outside [] = ys ++ unquoted .outside [] := (hxs []).symm.trans (hys [])
  rw [← hp, ← hq, List.append_cancel_right hxy]

theorem unquoted_plain (h : '"' ∉ cs) (rest : List Char) :
    unquoted .outside (cs ++ rest) = cs ++ unquoted .outside rest := by
  induction cs with
  | nil => rfl
  | cons c cs ih =>
    have hc : c ≠ '"' := fun hc => h (hc ▸ List.mem_cons_self)
    rw [List.cons_append, unquoted, if_pos ⟨rfl, hc⟩, Place.next, if_neg hc, ih fun hcs => h (List.mem_cons_of_mem _ hcs)]
    rfl

theorem unquoted_inside {c : Char} (hquote : c ≠ '"') (hslash : c ≠ '\\') (rest : List Char) :
    unquoted .inside (c :: rest) = unquoted .inside rest := by
  rw [unquoted, if_neg (fun h => nomatch h.1), Place.next, if_neg hquote, if_neg hslash]

theorem unquoted_escape (e : Char) (rest : List Char) :
    unquoted .inside ('\\' :: e :: rest) = unquoted .inside rest := rfl

theorem isHex_plain {c : Char} (h : isHex c = true) : c ≠ '"' ∧ c ≠ '\\' := by
  constructor <;> rintro rfl <;> cases h

theorem reveals_plain (cs : List Char) (h : '"' ∉ cs) : Reveals cs (Marked cs) := ⟨cs, unquoted_plain h, Iff.rfl⟩

/-- Outside of quotes a piece has neither the letters nor a quote. -/
theorem reveals_clean (h : ∀ c ∈ cs, c ≠ '"' ∧ c ≠ 'N' ∧ c ≠ 'I') : Reveals cs False := by
  refine ⟨cs, unquoted_plain fun hc => (h _ hc).1 rfl, iff_of_false ?_ id⟩
  rintro (hc | hc)
  · exact (h _ hc).2.1 rfl
  · exact (h _ hc).2.2 rfl

theorem Inside.unquoted (h : Inside cs) (rest : List Char) :
    unquoted .inside (cs ++ '"' :: rest) = Json.unquoted .outside rest := by
  induction h with
  | nil => rfl
  | plain _ hquote hslash _ ih => rw [List.cons_append, unquoted_inside hquote hslash, ih]
  | short _ _ ih => rw [List.cons_append, List.cons_append, unquoted_escape, ih]
  | code ha hb hc hd _ ih =>
    simp only [List.cons_append]
    rw [unquoted_escape, unquoted_inside (isHex_plain ha).1 (isHex_plain ha).2,
      unquoted_inside (isHex_plain hb).1 (isHex_plain hb).2, unquoted_inside (isHex_plain hc).1 (isHex_plain hc).2,
      unquoted_inside (isHex_plain hd).1 (isHex_plain hd).2, ih]

/-- What is quoted reveals nothing. -/
theorem Inside.reveals (h : Inside cs) : Reveals ('"' :: (cs ++ ['"'])) False := by
  refine ⟨[], fun rest => ?_, by simp [Marked]⟩
  rw [List.cons_append, List.append_assoc]
  exact h.unquoted rest

theorem Blank.reveals (h : Blank cs) : Reveals cs False := by
  refine reveals_clean fun c hc => ?_
  have hblank := h c hc
  simp only [isSpace, Bool.or_eq_true, beq_iff_eq] at hblank
  rcases hblank with ((rfl | rfl) | rfl) | rfl <;> decide

theorem reveals_nil : Reveals [] False := reveals_clean fun _ hc => by cases hc

theorem Reveals.cons {c : Char} (h : Reveals cs p) (hc : c ≠ '"' ∧ c ≠ 'N' ∧ c ≠ 'I') : Reveals (c :: cs) p := by
  have hone : Reveals [c] False := reveals_clean fun d hd => List.mem_singleton.mp hd ▸ hc
  simpa using hone.append h

theorem digit_clean {c : Char} (h : c.isDigit = true) : c ≠ '"' ∧ c ≠ 'N' ∧ c ≠ 'I' := by
  refine ⟨?_, ?_, ?_⟩ <;> rintro rfl <;> cases h

theorem fraction_clean {ds : List Char} (h : ∀ c ∈ ds, c.isDigit = true) :
    ∀ c ∈ fractionChars ds, c ≠ '"' ∧ c ≠ 'N' ∧ c ≠ 'I' := by
  cases ds with
  | nil => nofun
  | cons d ds => exact List.forall_mem_cons.mpr ⟨by decide, fun c hc => digit_clean (h c hc)⟩

theorem sign_clean (sign : Option Bool) : ∀ c ∈ signChars sign, c ≠ '"' ∧ c ≠ 'N' ∧ c ≠ 'I' := by
  rcases sign with _ | _ | _ <;> simp [signChars]

theorem exponent_clean (e : Option ExponentText) :
    ∀ c ∈ (e.map ExponentText.chars).getD [], c ≠ '"' ∧ c ≠ 'N' ∧ c ≠ 'I' := by
  cases e with
  | none => nofun
  | some e =>
    refine List.forall_mem_cons.mpr ⟨?_, List.forall_mem_append.mpr ⟨sign_clean e.sign, fun c hc => digit_clean (e.counts.2 c hc)⟩⟩
    rcases e.marks with h | h <;> rw [h] <;> decide

/-- The characters of a number are no letters but the mark of an exponent. -/
theorem NumberText.reveals (t : NumberText) : Reveals t.chars False := by
  have hunsigned : ∀ c ∈ t.unsigned, c ≠ '"' ∧ c ≠ 'N' ∧ c ≠ 'I' := by
    simp only [NumberText.unsigned, List.forall_mem_append]
    exact ⟨fun c hc => digit_clean (t.counts.2 c hc), fraction_clean t.parts, exponent_clean t.exponent⟩
  refine reveals_clean ?_
  unfold NumberText.chars
  split
  · exact List.forall_mem_cons.mpr ⟨by decide, hunsigned⟩
  · exact hunsigned

/-- No piece of a JSON text has the letters. -/
theorem Standard.reveals {p : Piece} (h : Standard p cs) : Reveals cs False := by
  have hclean : ∀ c ∈ [',', ':', '[', ']', '\x7b', '\x7d'], c ≠ '"' ∧ c ≠ 'N' ∧ c ≠ 'I' := by simp
  have hclose : Reveals [']'] False := reveals_clean (by simp)
  have hshut : Reveals ['\x7d'] False := reveals_clean (by simp)
  induction h with
  | null | true | false => exact reveals_clean (by simp)
  | number t => exact t.reveals
  | text hcs => exact hcs.reveals
  | emptyList hb => simpa using (hb.reveals.append hclose).cons (hclean '[' (by decide))
  | list _ ih => simpa using (ih.append hclose).cons (hclean '[' (by decide))
  | emptyObject hb => simpa using (hb.reveals.append hshut).cons (hclean '\x7b' (by decide))
  | object _ ih => simpa using (ih.append hshut).cons (hclean '\x7b' (by decide))
  | item ha hb _ ih => simpa using ha.reveals.append (ih.append hb.reveals)
  | moreItems _ _ ihs ih => simpa using ihs.append (ih.cons (hclean ',' (by decide)))
  | member ha hb hc hd hkey _ ih =>
    have hvalue := (hc.reveals.append (ih.append hd.reveals)).cons (hclean ':' (by decide))
    have hmember := ha.reveals.append (hkey.reveals.append (hb.reveals.append hvalue))
    simpa using hmember
  | moreMembers _ _ ihs ih => simpa using ihs.append (ih.cons (hclean ',' (by decide)))

theorem WellFormed.reveals {s : String} (h : WellFormed s) : Reveals s.toList False := by
  obtain ⟨a, cs, b, ha, hcs, hb, hs⟩ := h
  rw [hs]
  simpa using ha.reveals.append (hcs.reveals.append hb.reveals)

theorem Reveals.iff (h : Reveals cs p) (hpq : p ↔ q) : Reveals cs q := by
  obtain ⟨bare, hbare, hp⟩ := h
  exact ⟨bare, hbare, hp.trans hpq⟩

end Reveals

/-! ## What is written is a JSON text -/

section Written
variable (l : Layout)

theorem number_reveals (n : Number) : Reveals (number n) ((Value.number n).allFinite = false) := by
  have hfinite : ∀ {n : Number}, (Value.number n).allFinite = true → Standard .value (number n) →
      Reveals (number n) ((Value.number n).allFinite = false) := fun h hs => hs.reveals.iff (by simp [h])
  cases n with
  | int n => exact hfinite rfl (number_standard rfl)
  | float x =>
    cases x with
    | nan => exact (reveals_plain ['N', 'a', 'N'] (by decide)).iff (iff_of_true (.inl (by decide)) rfl)
    | infinite s =>
      cases s with
      | false =>
        exact (reveals_plain ['I', 'n', 'f', 'i', 'n', 'i', 't', 'y'] (by decide)).iff
          (iff_of_true (.inr (by decide)) rfl)
      | true =>
        exact (reveals_plain ['-', 'I', 'n', 'f', 'i', 'n', 'i', 't', 'y'] (by decide)).iff
          (iff_of_true (.inr (by decide)) rfl)
    | finite s units fits => exact hfinite rfl (number_standard rfl)

theorem lineBreak_reveals (level : Nat) : Reveals (l.lineBreak level) False := (blank_lineBreak l level).reveals

theorem between_reveals (level : Nat) : Reveals (l.between level) False := by
  obtain ⟨b, hb, hbetween⟩ := between_eq l level
  rw [hbetween]
  exact hb.reveals.cons (by decide)

theorem key_reveals (k : String) {cs : List Char} {p : Prop} (h : Reveals cs p) : Reveals (quote k ++ ':' :: ' ' :: cs) p := by
  simpa using (quote_standard k).reveals.append ((h.cons (by decide)).cons (by decide))

mutual

theorem write_reveals : ∀ (v : Value) (level : Nat), Reveals (write l level v) (v.allFinite = false)
  | .null, _ => Standard.null.reveals.iff (by simp [Value.allFinite])
  | .bool true, _ => Standard.true.reveals.iff (by simp [Value.allFinite])
  | .bool false, _ => Standard.false.reveals.iff (by simp [Value.allFinite])
  | .number n, _ => by
    rw [write]
    exact number_reveals n
  | .text s, _ => by
    rw [write]
    exact (quote_standard s).reveals.iff (by simp [Value.allFinite])
  | .list [], _ => by
    rw [write]
    exact (reveals_clean (by simp)).iff (by simp [Value.allFinite, Value.itemsFinite])
  | .list (v :: rest), level => by
    have hclose : Reveals [']'] False := reveals_clean (by simp)
    have hall := (lineBreak_reveals l (level + 1)).append ((write_reveals v (level + 1)).append
      ((writeItems_reveals rest (level + 1)).append ((lineBreak_reveals l level).append hclose)))
    rw [write]
    simpa only [Value.allFinite, Value.itemsFinite, Bool.and_eq_false_iff, false_or, or_false, List.append_assoc,
      List.cons_append] using hall.cons (show '[' ≠ '"' ∧ _ by decide)
  | .object [], _ => by
    rw [write]
    exact (reveals_clean (by simp)).iff (by simp [Value.allFinite, Value.membersFinite])
  | .object ((k, v) :: rest), level => by
    have hclose : Reveals ['\x7d'] False := reveals_clean (by simp)
    have hall := (lineBreak_reveals l (level + 1)).append (key_reveals k ((write_reveals v (level + 1)).append
      ((writeMembers_reveals rest (level + 1)).append ((lineBreak_reveals l level).append hclose))))
    rw [write]
    simpa only [Value.allFinite, Value.membersFinite, Bool.and_eq_false_iff, false_or, or_false, List.append_assoc,
      List.cons_append, List.nil_append] using hall.cons (show '\x7b' ≠ '"' ∧ _ by decide)

theorem writeItems_reveals : ∀ (vs : List Value) (level : Nat), Reveals (writeItems l level vs) (Value.itemsFinite vs = false)
  | [], _ => reveals_nil.iff (by simp [Value.itemsFinite])
  | v :: rest, level => by
    have hall := (between_reveals l level).append ((write_reveals v level).append (writeItems_reveals rest level))
    rw [writeItems]
    simpa only [Value.itemsFinite, Bool.and_eq_false_iff, false_or, List.append_assoc] using hall

theorem writeMembers_reveals : ∀ (m : Members) (level : Nat), Reveals (writeMembers l level m) (Value.membersFinite m = false)
  | [], _ => reveals_nil.iff (by simp [Value.membersFinite])
  | (k, v) :: rest, level => by
    have hall := (between_reveals l level).append
      (key_reveals k ((write_reveals v level).append (writeMembers_reveals rest level)))
    rw [writeMembers]
    simpa only [Value.membersFinite, Bool.and_eq_false_iff, false_or, List.append_assoc, List.cons_append,
      List.nil_append] using hall

end

/-- What is written for a value is a JSON text exactly as long as every number in the value is finite. -/
theorem render_wellFormed_iff (v : Value) : WellFormed (render l v) ↔ v.allFinite = true := by
  constructor
  · intro h
    have hclean := h.reveals
    rw [render, String.toList_ofList] at hclean
    by_contra hinfinite
    exact (hclean.unique (write_reveals l v 0)).mpr (Bool.eq_false_iff.mpr hinfinite)
  · intro h
    refine ⟨[], write l 0 v, [], blank_nil, write_standard l v 0 h, blank_nil, ?_⟩
    rw [render, String.toList_ofList, List.nil_append, List.append_nil]

end Written

end MediaEngine.Json
