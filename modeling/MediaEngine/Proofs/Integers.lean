import Mathlib.Data.List.DropRight
import Mathlib.Data.Nat.Digits.Defs
import MediaEngine.Proofs.Json.Numbers
import MediaEngine.Text.Integer

/-! # Whole numbers in texts

A whole number is written by a sign, which may be missing, and digits of any script, between which single underscores may
stand (`WritesWhole`). The reader reads what is written so, and nothing else (`readInt?_iff`). It reads the decimal text of
a number back (`writesWhole_intText`). -/

namespace MediaEngine.Text
open Json (signChars)

/-! ## Texts that are trimmed -/

section Trimming
variable {p q : Char → Bool} {cs : List Char}

theorem trimBy_eq (p : Char → Bool) (cs : List Char) : trimBy p cs = (cs.dropWhile p).rdropWhile p := rfl

theorem trimBy_eq_nil_iff : trimBy p cs = [] ↔ ∀ c ∈ cs, p c = true := by
  rw [trimBy_eq, List.rdropWhile_eq_nil_iff, ← List.dropWhile_eq_nil_iff, ← List.dropWhile_eq_nil_iff,
    List.dropWhile_idempotent]

/-- Neither the first character nor the last one is in a class. -/
structure Trimmed (p : Char → Bool) (cs : List Char) : Prop where
  first : ∀ c, cs.head? = some c → p c = false
  last : ∀ c, cs.getLast? = some c → p c = false

theorem Trimmed.mono (h : Trimmed p cs) (hpq : ∀ c, q c = true → p c = true) : Trimmed q cs := by
  have hnot : ∀ c, p c = false → q c = false := by
    intro c hc
    cases hq : q c with
    | false => rfl
    | true => exact (hpq c hq).symm.trans hc
  exact ⟨fun c hc => hnot c (h.first c hc), fun c hc => hnot c (h.last c hc)⟩

/-- What stands around a trimmed text is trimmed off. -/
theorem Trimmed.trimBy_around {before after : List Char} (h : Trimmed p cs) (hcs : cs ≠ []) (hbefore : ∀ c ∈ before, p c = true)
    (hafter : ∀ c ∈ after, p c = true) : trimBy p (before ++ cs ++ after) = cs := by
  have hfront : (before ++ cs ++ after).dropWhile p = cs ++ after := by
    rw [List.append_assoc, List.dropWhile_append_of_pos hbefore]
    cases cs with
    | nil => exact absurd rfl hcs
    | cons c rest => exact List.dropWhile_cons_of_neg (Bool.eq_false_iff.mp (h.first c rfl))
  have hback : (cs ++ after).reverse.dropWhile p = cs.reverse.dropWhile p := by
    rw [List.reverse_append, List.dropWhile_append_of_pos fun c hc => hafter c (List.mem_reverse.mp hc)]
  rw [trimBy, hfront, hback]
  refine List.rdropWhile_eq_self_iff.mpr fun hne => ?_
  exact Bool.eq_false_iff.mp (h.last _ (List.getLast?_eq_some_getLast hne))

theorem Trimmed.trimBy (h : Trimmed p cs) : trimBy p cs = cs := by
  by_cases hcs : cs = []
  · rw [hcs]
    rfl
  · have haround := h.trimBy_around hcs (List.forall_mem_nil _) (List.forall_mem_nil _)
    rwa [List.nil_append, List.append_nil] at haround

theorem trimBy_trimmed (p : Char → Bool) (cs : List Char) : Trimmed p (Text.trimBy p cs) := by
  rw [trimBy_eq]
  constructor
  case first =>
    intro c hc
    obtain ⟨tail, htail⟩ := List.rdropWhile_prefix p (cs.dropWhile p)
    have hhead : (cs.dropWhile p).head? = some c := by
      rw [← htail, List.head?_append, hc]
      rfl
    have hnot := List.head?_dropWhile_not p cs
    rwa [hhead] at hnot
  case last =>
    intro c hc
    have hne : (cs.dropWhile p).rdropWhile p ≠ [] := fun hnil => by
      rw [hnil] at hc
      cases hc
    rw [List.getLast?_eq_some_getLast hne] at hc
    rw [← Option.some.inj hc]
    exact Bool.eq_false_iff.mpr (List.rdropWhile_last_not p _ hne)

end Trimming

/-! ## Digits -/

/-- Digits of any script, with single underscores between them, and the values of the digits. -/
inductive DigitText : List Char → List Nat → Prop
  | last {c : Char} {d : Nat} (digit : digitValue? c = some d) : DigitText [c] [d]
  | next {c : Char} {d : Nat} {cs : List Char} {ds : List Nat} (digit : digitValue? c = some d) (rest : DigitText cs ds) :
      DigitText (c :: cs) (d :: ds)
  | apart {c : Char} {d : Nat} {cs : List Char} {ds : List Nat} (digit : digitValue? c = some d) (rest : DigitText cs ds) :
      DigitText (c :: '_' :: cs) (d :: ds)

section Digits
variable {cs tail : List Char} {ds : List Nat} {after : Bool}

theorem DigitText.ne_nil (h : DigitText cs ds) : ds ≠ [] := by
  cases h <;> exact List.cons_ne_nil _ _

theorem DigitText.head (h : DigitText cs ds) : ∃ c d rest, cs = c :: rest ∧ digitValue? c = some d := by
  cases h with
  | last digit => exact ⟨_, _, _, rfl, digit⟩
  | next digit _ => exact ⟨_, _, _, rfl, digit⟩
  | apart digit _ => exact ⟨_, _, _, rfl, digit⟩

theorem DigitText.getLast (h : DigitText cs ds) : ∃ c d, cs.getLast? = some c ∧ digitValue? c = some d := by
  induction h with
  | last digit => exact ⟨_, _, rfl, digit⟩
  | next _ _ ih =>
    obtain ⟨c, d, hc, hd⟩ := ih
    exact ⟨c, d, by rw [List.getLast?_cons, hc]; rfl, hd⟩
  | apart _ _ ih =>
    obtain ⟨c, d, hc, hd⟩ := ih
    exact ⟨c, d, by rw [List.getLast?_cons, List.getLast?_cons, hc]; rfl, hd⟩

theorem DigitText.read (h : DigitText cs ds) (after : Bool) : digitsFrom digitValue? after cs = (ds, []) := by
  induction h generalizing after with
  | last digit => simp only [digitsFrom, digit]
  | next digit _ ih => simp only [digitsFrom, digit, ih]
  | @apart c d cs ds digit rest ih =>
    have hunderscore : digitValue? '_' = none := by decide
    simp only [digitsFrom, digit, hunderscore, and_self, if_true, ih]
    cases ds with
    | nil => exact absurd rfl rest.ne_nil
    | cons _ _ => rfl

theorem digitsFrom_nil (h : digitsFrom digitValue? after cs = ([], tail)) : tail = cs := by
  cases cs with
  | nil =>
    cases h
    rfl
  | cons c rest =>
    unfold digitsFrom at h
    split at h
    · cases h
    · split at h
      · split at h <;> cases h
        · rfl
        · rename_i hne _
          exact absurd rfl hne
      · cases h
        rfl

/-- Digits that are read to the end are digits with single underscores between them, after an underscore if the text goes on
after a digit. -/
theorem digitText_of_read (h : digitsFrom digitValue? after cs = (ds, [])) (hds : ds ≠ []) :
    DigitText cs ds ∨ after = true ∧ ∃ rest, cs = '_' :: rest ∧ DigitText rest ds := by
  induction cs generalizing after ds with
  | nil =>
    cases h
    exact absurd rfl hds
  | cons c rest ih =>
    unfold digitsFrom at h
    split at h
    · rename_i d hd
      generalize hrun : digitsFrom digitValue? true rest = run at h
      obtain ⟨others, tail⟩ := run
      cases h
      by_cases hothers : others = []
      · subst hothers
        cases digitsFrom_nil hrun
        exact .inl (.last hd)
      · rcases ih hrun hothers with htext | ⟨-, rest, rfl, htext⟩
        · exact .inl (.next hd htext)
        · exact .inl (.apart hd htext)
    · split at h
      · rename_i hunderscore
        obtain ⟨rfl, rfl⟩ := hunderscore
        split at h
        · cases h
        · rename_i hrun
          cases h
          rcases ih hrun hds with htext | ⟨hfalse, -⟩
          · exact .inr ⟨rfl, rest, rfl, htext⟩
          · cases hfalse
      · cases h

theorem digitRun_eq_iff (hds : ds ≠ []) : digitRun digitValue? cs = (ds, []) ↔ DigitText cs ds := by
  refine ⟨fun h => ?_, fun h => h.read false⟩
  rcases digitText_of_read h hds with htext | ⟨hfalse, -⟩
  · exact htext
  · cases hfalse

theorem ofDigits_eq (ds : List Nat) : ofDigits ds = Nat.ofDigits 10 ds.reverse := by
  induction ds using List.reverseRecOn with
  | nil => rfl
  | append_singleton ds d ih =>
    rw [List.reverse_append, List.reverse_singleton, List.singleton_append, Nat.ofDigits_cons, ← ih, ofDigits, List.foldl_append]
    exact (Nat.add_comm _ _).trans (congrArg _ (Nat.mul_comm _ _))

/-- No digit is blank. -/
theorem isBlank_digit {c : Char} {d : Nat} (h : digitValue? c = some d) : isBlank c = false := by
  have htable : ∀ first ∈ decimalZeros, ∀ k < 10, isBlank (Char.ofNat (first + k)) = false := by decide +kernel
  obtain ⟨first, hfirst, -⟩ := Option.map_eq_some_iff.mp h
  have hmem := List.mem_of_find?_eq_some hfirst
  have hrange := List.find?_some hfirst
  simp only [Bool.and_eq_true, decide_eq_true_eq] at hrange
  have hblank := htable first hmem (c.toNat - first) (by omega)
  rwa [Nat.add_sub_cancel' hrange.1, Char.ofNat_toNat] at hblank

theorem digitValue?_plain {c : Char} (h : c.isDigit = true) : digitValue? c = plainDigit? c := by
  have htable : ∀ k < 10, digitValue? (Char.ofNat (48 + k)) = some k := by decide +kernel
  have hrange : 48 ≤ c.toNat ∧ c.toNat ≤ 57 := by
    simp only [Char.isDigit, Bool.and_eq_true, decide_eq_true_eq] at h
    exact h
  have hvalue := htable (c.toNat - 48) (by omega)
  rw [Nat.add_sub_cancel' hrange.1, Char.ofNat_toNat] at hvalue
  exact hvalue.trans (plainDigit?_eq h).symm

theorem digitText_plain (h : AreDigits cs) : DigitText cs (cs.filterMap plainDigit?) := by
  obtain ⟨hcs, hdigits⟩ := h
  induction cs with
  | nil => exact absurd rfl hcs
  | cons c rest ih =>
    obtain ⟨hc, hrest⟩ := List.forall_mem_cons.mp hdigits
    have hvalue := plainDigit?_eq hc
    have hdigit := (digitValue?_plain hc).trans hvalue
    rw [List.filterMap_cons_some hvalue]
    cases rest with
    | nil => exact .last hdigit
    | cons _ _ => exact .next hdigit (ih (List.cons_ne_nil _ _) hrest)

end Digits

/-! ## Whole numbers -/

/-- An optional sign and digits, no more than are read at all, write their number. -/
inductive WritesWhole : List Char → Int → Prop
  | mk (sign : Option Bool) {cs : List Char} {ds : List Nat} (digits : DigitText cs ds) (fits : ds.length ≤ digitLimit) :
      WritesWhole (signChars sign ++ cs) (signedInt (sign == some true) (Nat.ofDigits 10 ds.reverse))

section Wholes
variable {cs : List Char} {n : Int}

theorem splitSign_digits (sign : Option Bool) {ds : List Nat} (h : DigitText cs ds) :
    splitSign (signChars sign ++ cs) = (sign == some true, cs) := by
  cases sign with
  | some negative => cases negative <;> rfl
  | none =>
    obtain ⟨c, d, rest, rfl, hc⟩ := h.head
    change splitSign (c :: rest) = (false, c :: rest)
    unfold splitSign
    split
    · rename_i heq
      cases heq
      cases hc
    · rename_i heq
      cases heq
      cases hc
    · rfl

theorem splitSign_append (cs : List Char) : ∃ sign, (splitSign cs).1 = (sign == some true) ∧ cs = signChars sign ++ (splitSign cs).2 := by
  unfold splitSign
  split
  · exact ⟨some true, rfl, rfl⟩
  · exact ⟨some false, rfl, rfl⟩
  · exact ⟨none, rfl, rfl⟩

/-- What is read as a number is what writes it. -/
theorem readInt?_iff {s : String} : readInt? s = some n ↔ WritesWhole (trimBy isWhiteSpace s.toList) n := by
  unfold readInt?
  generalize trimBy isWhiteSpace s.toList = cs
  constructor
  · intro h
    -- The sign is split off, and what is left must be digits to its end.
    obtain ⟨sign, hsign, hcs⟩ := splitSign_append cs
    generalize splitSign cs = signed at h hsign hcs
    obtain ⟨negative, digits⟩ := signed
    subst hsign
    subst hcs
    dsimp only at h
    split at h
    · cases h
    · rename_i ds hne hrun
      split at h
      · rename_i hfits
        cases h
        rw [ofDigits_eq]
        exact .mk sign ((digitRun_eq_iff hne).mp hrun) hfits
      · cases h
    · cases h
  · rintro ⟨sign, digits, fits⟩
    rw [splitSign_digits sign digits, ← ofDigits_eq]
    dsimp only
    rw [(digitRun_eq_iff digits.ne_nil).mpr digits]
    split
    · rename_i heq
      exact absurd (Prod.mk.inj heq).1 digits.ne_nil
    · rename_i heq
      cases heq
      exact if_pos fits
    · rename_i hends
      exact absurd rfl (hends _)

theorem WritesWhole.trimmed (h : WritesWhole cs n) : Trimmed isBlank cs := by
  obtain ⟨sign, digits, -⟩ := h
  constructor
  case first =>
    intro c hc
    cases sign with
    | some negative =>
      cases negative <;> cases hc <;> decide
    | none =>
      obtain ⟨d, value, rest, rfl, hd⟩ := digits.head
      cases hc
      exact isBlank_digit hd
  case last =>
    intro c hc
    obtain ⟨d, value, hlast, hd⟩ := digits.getLast
    rw [List.getLast?_append, hlast] at hc
    cases hc
    exact isBlank_digit hd

theorem WritesWhole.ne_nil (h : WritesWhole cs n) : cs ≠ [] := by
  obtain ⟨sign, digits, -⟩ := h
  obtain ⟨c, d, rest, rfl, -⟩ := digits.head
  exact List.append_ne_nil_of_right_ne_nil _ (List.cons_ne_nil _ _)

theorem writesWhole_digits (sign : Option Bool) (n : Nat) (h : (Decimal.digits n).length ≤ digitLimit) :
    WritesWhole (signChars sign ++ Decimal.digits n) (signedInt (sign == some true) n) := by
  have hfits : ((Decimal.digits n).filterMap plainDigit?).length ≤ digitLimit :=
    Nat.le_trans (List.length_filterMap_le _ _) h
  have hwrites := WritesWhole.mk sign (digitText_plain (areDigits_digits n)) hfits
  have hvalue : Nat.ofDigits 10 ((Decimal.digits n).filterMap plainDigit?).reverse = n := by
    rw [← ofDigits_eq]
    exact natOf_digits n
  rwa [hvalue] at hwrites

theorem intText_neg (h : n < 0) : (Number.intText n).toList = '-' :: Decimal.digits n.natAbs := by
  rw [Number.intText, if_pos h, String.toList_ofList]

theorem intText_natural (h : 0 ≤ n) : (Number.intText n).toList = Decimal.digits n.natAbs := by
  rw [Number.intText, if_neg (Int.not_lt.mpr h), String.toList_ofList]

/-- The decimal text of a number writes it, and so does a plus in front of it if it has no sign. -/
theorem writesWhole_intText {plus : List Char} (hplus : plus = [] ∨ plus = ['+'] ∧ 0 ≤ n)
    (h : (Decimal.digits n.natAbs).length ≤ digitLimit) : WritesWhole (plus ++ (Number.intText n).toList) n := by
  rcases Int.lt_or_le n 0 with hn | hn
  · have hnone : plus = [] := hplus.resolve_right fun hplus => Int.not_le.mpr hn hplus.2
    have hvalue : signedInt true n.natAbs = n := by
      rw [signedInt, if_pos rfl]
      omega
    have hwrites : WritesWhole _ (signedInt true n.natAbs) := writesWhole_digits (some true) n.natAbs h
    rw [hvalue] at hwrites
    rw [hnone, intText_neg hn]
    exact hwrites
  · have hvalue : signedInt false n.natAbs = n := by
      rw [signedInt, if_neg Bool.false_ne_true]
      omega
    obtain ⟨sign, hsign, rfl⟩ : ∃ sign : Option Bool, (sign == some true) = false ∧ plus = signChars sign := by
      rcases hplus with rfl | ⟨rfl, -⟩
      · exact ⟨none, rfl, rfl⟩
      · exact ⟨some false, rfl, rfl⟩
    have hwrites := writesWhole_digits sign n.natAbs h
    rw [intText_natural hn]
    rwa [hsign, hvalue] at hwrites

end Wholes

end MediaEngine.Text
