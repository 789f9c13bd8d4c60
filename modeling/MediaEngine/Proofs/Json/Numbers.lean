import Mathlib.Data.List.TakeDrop
import MediaEngine.Json.Parser
import MediaEngine.Json.Printer
import MediaEngine.Proofs.Decimals

/-! # Numbers in JSON texts

A number is written by a sign, whole digits, digits behind a point, and an exponent (`NumberText`). Whatever is
written in this way is read as the number it means, if what follows it can follow a number (`numberFrom_chars`). Whole
numbers and finite doubles are written so, and mean themselves (`intText_written`, `doubleText_written`). -/

namespace MediaEngine
open Decimal Text

/-! ## Digits -/

/-- Digits, at least one. -/
def AreDigits (cs : List Char) : Prop := cs ≠ [] ∧ ∀ c ∈ cs, c.isDigit = true

/-- The number that digits write. -/
def natOf (cs : List Char) : Nat := ofDigits (cs.filterMap plainDigit?)

section Digits
variable {cs rest : List Char}

theorem plainDigit?_eq {c : Char} (h : c.isDigit = true) : plainDigit? c = some (c.toNat - '0'.toNat) := by
  have hrange : '0' ≤ c ∧ c ≤ '9' := by
    simp only [Char.isDigit, Bool.and_eq_true, decide_eq_true_eq] at h
    exact h
  exact if_pos hrange

theorem natOf_eq (h : ∀ c ∈ cs, c.isDigit = true) : natOf cs = Nat.ofDigitChars 10 cs 0 := by
  unfold natOf ofDigits
  generalize 0 = n
  induction cs generalizing n with
  | nil => rfl
  | cons c cs ih =>
    rw [List.filterMap_cons_some (plainDigit?_eq (h c List.mem_cons_self)), List.foldl_cons, Nat.ofDigitChars_cons,
      Nat.mul_comm 10 n]
    exact ih (fun c hc => h c (List.mem_cons_of_mem _ hc)) _

theorem isDigit_digits (n : Nat) : ∀ c ∈ digits n, c.isDigit = true :=
  fun _ hc => Nat.isDigit_of_mem_toDigits (by decide) (by decide) hc

theorem isDigit_zeros (k : Nat) : ∀ c ∈ List.replicate k '0', c.isDigit = true := by
  intro c hc
  rw [List.eq_of_mem_replicate hc]
  rfl

theorem areDigits_digits (n : Nat) : AreDigits (digits n) := ⟨Nat.toDigits_ne_nil, isDigit_digits n⟩

theorem natOf_digits (n : Nat) : natOf (digits n) = n := by
  rw [natOf_eq (isDigit_digits n)]
  exact Nat.ofDigitChars_ten_toDigits

theorem natOf_zeros_append (k : Nat) (h : ∀ c ∈ cs, c.isDigit = true) : natOf (List.replicate k '0' ++ cs) = natOf cs := by
  rw [natOf_eq (List.forall_mem_append.mpr ⟨isDigit_zeros k, h⟩), natOf_eq h, Nat.ofDigitChars_append,
    Nat.ofDigitChars_replicate_zero, Nat.mul_zero]

theorem natOf_append_zeros (k : Nat) (h : ∀ c ∈ cs, c.isDigit = true) :
    natOf (cs ++ List.replicate k '0') = natOf cs * 10 ^ k := by
  rw [natOf_eq (List.forall_mem_append.mpr ⟨h, isDigit_zeros k⟩), natOf_eq h, Nat.ofDigitChars_append,
    Nat.ofDigitChars_replicate_zero, Nat.mul_comm]

theorem head_digits {n : Nat} (h : n ≠ 0) : (digits n).head? ≠ some '0' := by
  unfold digits
  induction n using Nat.base_induction 10 (by decide) with
  | single m hm =>
    rw [Nat.toDigits_of_lt_base hm]
    simpa using h
  | digit m k hk hm ih =>
    rw [← Nat.toDigits_append_toDigits (by decide) hm hk, List.head?_append_of_ne_nil _ Nat.toDigits_ne_nil]
    exact ih (by omega)

/-- Digits are read up to the first character that is none. -/
theorem span_digits (h : ∀ c ∈ cs, c.isDigit = true) (hrest : ∀ c, rest.head? = some c → c.isDigit = false) :
    (cs ++ rest).span Char.isDigit = (cs, rest) := by
  rw [List.span_eq_takeWhile_dropWhile, List.takeWhile_append_of_pos h, List.dropWhile_append_of_pos h]
  cases rest with
  | nil => simp
  | cons c rest => simp [hrest c rfl]

theorem AreDigits.head (h : AreDigits cs) (rest : List Char) : ∃ c ds, cs ++ rest = c :: ds ∧ c.isDigit = true := by
  cases cs with
  | nil => exact absurd rfl h.1
  | cons c cs => exact ⟨c, cs ++ rest, rfl, h.2 c List.mem_cons_self⟩

end Digits

namespace Json

/-! ## How numbers are written -/

/-- The exponent of a number, as it is written. -/
structure ExponentText where
  mark : Char
  /-- The sign, if there is one; true is a minus. -/
  sign : Option Bool
  digits : List Char
  marks : mark = 'e' ∨ mark = 'E'
  counts : AreDigits digits

/-- A number as it is written: an optional minus, whole digits that start with a zero only if they are one, digits
    behind a point if there are any, and an optional exponent. -/
structure NumberText where
  negative : Bool
  whole : List Char
  fraction : List Char
  exponent : Option ExponentText
  counts : AreDigits whole
  leads : whole.head? = some '0' → whole = ['0']
  parts : ∀ c ∈ fraction, c.isDigit = true

/-- A sign. -/
def signChars : Option Bool → List Char
  | none => []
  | some negative => [if negative then '-' else '+']

/-- A point and what is behind it. -/
def fractionChars : List Char → List Char
  | [] => []
  | ds => '.' :: ds

namespace ExponentText

def chars (e : ExponentText) : List Char := e.mark :: (signChars e.sign ++ e.digits)

def value (e : ExponentText) : Int := signedInt (e.sign.getD false) (natOf e.digits)

end ExponentText

namespace NumberText

/-- The number without its sign. -/
def unsigned (t : NumberText) : List Char :=
  t.whole ++ (fractionChars t.fraction ++ (t.exponent.map ExponentText.chars).getD [])

def chars (t : NumberText) : List Char := if t.negative then '-' :: t.unsigned else t.unsigned

/-- Whether there is neither a fraction nor an exponent. -/
def isWhole (t : NumberText) : Bool := t.fraction.isEmpty && t.exponent.isNone

/-- The number that is meant. -/
def value (t : NumberText) : Value :=
  if t.isWhole then .int (signedInt t.negative (natOf t.whole))
  else .double (Binary64.ofDecimal t.negative (natOf (t.whole ++ t.fraction))
    ((t.exponent.map ExponentText.value).getD 0 - t.fraction.length))

end NumberText

/-- What may follow a value: nothing, a blank, a comma or a closing bracket. -/
def Closes (rest : List Char) : Prop :=
  ∀ c, rest.head? = some c → isSpace c = true ∨ c = ',' ∨ c = ']' ∨ c = '\x7d'

/-! ## Numbers that are read -/

section Reading
variable {rest : List Char}

theorem Closes.head (h : Closes rest) {c : Char} (hc : rest.head? = some c) :
    c.isDigit = false ∧ c ≠ '.' ∧ c ≠ 'e' ∧ c ≠ 'E' := by
  rcases h c hc with h | rfl | rfl | rfl
  · simp only [isSpace, Bool.or_eq_true, beq_iff_eq] at h
    rcases h with ((rfl | rfl) | rfl) | rfl <;> decide
  all_goals decide

theorem splitSign_signChars {sign : Option Bool} {ds : List Char} (h : AreDigits ds) :
    splitSign (signChars sign ++ (ds ++ rest)) = (sign.getD false, ds ++ rest) := by
  cases sign with
  | some negative => cases negative <;> rfl
  | none =>
    obtain ⟨c, cs, hcs, hc⟩ := h.head rest
    rw [hcs]
    change splitSign (c :: cs) = (false, c :: cs)
    unfold splitSign
    split
    · rename_i heq
      cases heq
      cases hc
    · rename_i heq
      cases heq
      cases hc
    · rfl

theorem wholeDigits_append {whole : List Char} (h : AreDigits whole) (hzero : whole.head? = some '0' → whole = ['0'])
    (hrest : ∀ c, rest.head? = some c → c.isDigit = false) : wholeDigits (whole ++ rest) = (whole, rest) := by
  by_cases h0 : whole.head? = some '0'
  · rw [hzero h0]
    rfl
  · unfold wholeDigits
    split
    · rename_i zeros heq
      cases whole with
      | nil => exact absurd rfl h.1
      | cons d ds =>
        cases heq
        exact absurd rfl h0
    · exact span_digits h.2 hrest

theorem fractionDigits_append {ds : List Char} (h : ∀ c ∈ ds, c.isDigit = true)
    (hrest : ∀ c, rest.head? = some c → c.isDigit = false ∧ c ≠ '.') :
    fractionDigits (fractionChars ds ++ rest) = (ds, rest) := by
  cases ds with
  | nil =>
    change fractionDigits rest = ([], rest)
    unfold fractionDigits
    split
    · exact absurd rfl (hrest _ rfl).2
    · rfl
  | cons d ds =>
    have hspan := span_digits h fun c hc => (hrest c hc).1
    change fractionDigits ('.' :: ((d :: ds) ++ rest)) = _
    rw [fractionDigits, hspan]

theorem exponentDigits_append (e : ExponentText) (hrest : Closes rest) :
    exponentDigits (e.chars ++ rest) = (some e.value, rest) := by
  have hspan := span_digits e.counts.2 fun c hc => (hrest.head hc).1
  have hsign : splitSign (signChars e.sign ++ e.digits ++ rest) = (e.sign.getD false, e.digits ++ rest) := by
    rw [List.append_assoc]
    exact splitSign_signChars e.counts
  change exponentDigits (e.mark :: (signChars e.sign ++ e.digits ++ rest)) = _
  simp only [exponentDigits, if_pos e.marks, hsign, hspan]
  split
  · rename_i heq
    exact absurd (Prod.mk.inj heq).1 e.counts.1
  · rename_i heq
    cases heq
    rfl

theorem exponentDigits_none (hrest : Closes rest) : exponentDigits rest = (none, rest) := by
  cases rest with
  | nil => rfl
  | cons c rest =>
    have hc := hrest.head rfl
    simp only [exponentDigits, hc.2.2.1, hc.2.2.2, or_self, if_false]

theorem exponent_append (e : Option ExponentText) (hrest : Closes rest) :
    exponentDigits ((e.map ExponentText.chars).getD [] ++ rest) = (e.map ExponentText.value, rest) := by
  cases e with
  | none => exact exponentDigits_none hrest
  | some e => exact exponentDigits_append e hrest

/-- What comes behind the whole digits of a number is not one of them, and is no point either behind the fraction. -/
theorem head_exponent (e : Option ExponentText) (hrest : Closes rest) {c : Char}
    (hc : ((e.map ExponentText.chars).getD [] ++ rest).head? = some c) : c.isDigit = false ∧ c ≠ '.' := by
  cases e with
  | none => exact ⟨(hrest.head hc).1, (hrest.head hc).2.1⟩
  | some e =>
    cases hc
    rcases e.marks with h | h <;> rw [h] <;> decide

theorem head_fraction (ds : List Char) (e : Option ExponentText) (hrest : Closes rest) {c : Char}
    (hc : (fractionChars ds ++ ((e.map ExponentText.chars).getD [] ++ rest)).head? = some c) : c.isDigit = false := by
  cases ds with
  | nil => exact (head_exponent e hrest hc).1
  | cons d ds =>
    cases hc
    rfl

theorem unsigned_front (t : NumberText) (rest : List Char) : ∃ c cs, t.unsigned ++ rest = c :: cs ∧ c.isDigit = true := by
  unfold NumberText.unsigned
  rw [List.append_assoc]
  exact t.counts.head _

theorem chars_minus {t : NumberText} {cs : List Char} (h : t.chars ++ rest = '-' :: cs) :
    t.negative = true ∧ t.unsigned ++ rest = cs := by
  unfold NumberText.chars at h
  cases hneg : t.negative with
  | true =>
    rw [hneg] at h
    exact ⟨rfl, (List.cons.inj h).2⟩
  | false =>
    obtain ⟨c, ds, hfront, hc⟩ := unsigned_front t rest
    rw [hneg, if_neg Bool.false_ne_true, hfront] at h
    cases h
    cases hc

theorem chars_plain {t : NumberText} (h : ∀ cs, t.chars ++ rest ≠ '-' :: cs) :
    t.negative = false ∧ t.unsigned ++ rest = t.chars ++ rest := by
  unfold NumberText.chars at h ⊢
  cases hneg : t.negative with
  | true =>
    rw [hneg] at h
    exact absurd rfl (h (t.unsigned ++ rest))
  | false => exact ⟨rfl, rfl⟩

/-- A number is read as what it means, if it has no more digits than are read. -/
theorem numberFrom_chars (t : NumberText) (hrest : Closes rest) (hlimit : t.isWhole = true → t.whole.length ≤ digitLimit) :
    numberFrom (t.chars ++ rest) = .ok (t.value, rest) := by
  have hwhole := wholeDigits_append t.counts t.leads fun c hc => head_fraction t.fraction t.exponent hrest hc
  have hfraction := fractionDigits_append t.parts fun c hc => head_exponent t.exponent hrest hc
  have hexponent := exponent_append t.exponent hrest
  have hunsigned : t.unsigned ++ rest =
      t.whole ++ (fractionChars t.fraction ++ ((t.exponent.map ExponentText.chars).getD [] ++ rest)) := by
    simp only [NumberText.unsigned, List.append_assoc]
  have hnone : (t.exponent.map ExponentText.value).isNone = t.exponent.isNone := Option.isNone_map
  unfold numberFrom
  split
  rename_i negative unsigned hpair
  obtain ⟨rfl, rfl⟩ : t.negative = negative ∧ t.unsigned ++ rest = unsigned := by
    split at hpair
    · rename_i hminus
      cases hpair
      exact chars_minus hminus
    · rename_i hplain
      cases hpair
      exact chars_plain hplain
  rw [hunsigned, hwhole]
  split
  · rename_i heq
    exact absurd (Prod.mk.inj heq).1 t.counts.1
  · rename_i heq
    cases heq
    simp only [hfraction, hexponent, hnone]
    by_cases hw : (t.fraction.isEmpty && t.exponent.isNone) = true
    · have hwhole : t.isWhole = true := hw
      rw [if_pos hw, if_neg (Nat.not_lt.mpr (hlimit hw)), NumberText.value, if_pos hwhole]
      rfl
    · have hpart : ¬ t.isWhole = true := hw
      rw [if_neg hw, NumberText.value, if_neg hpart]
      rfl

end Reading

/-! ## Numbers that are written -/

section Writing

/-- A number means a value and is written by these characters. -/
def NumberText.Writes (t : NumberText) (cs : List Char) (v : Value) : Prop := t.chars = cs ∧ t.value = v

theorem leads_digits (n : Nat) : (digits n).head? = some '0' → digits n = ['0'] := by
  intro h
  by_cases h0 : n = 0
  · rw [h0]
    rfl
  · exact absurd h (head_digits h0)

/-- A whole number is written by its digits. -/
theorem intText_written (n : Int) : ∃ t : NumberText, t.Writes (Number.intText n).toList (.int n) ∧
    t.whole = digits n.natAbs := by
  refine ⟨⟨decide (n < 0), digits n.natAbs, [], none, areDigits_digits _, leads_digits _, nofun⟩, ⟨?_, ?_⟩, rfl⟩
  · simp only [NumberText.chars, NumberText.unsigned, fractionChars, Number.intText, decide_eq_true_eq]
    split <;> simp
  · simp only [NumberText.value, NumberText.isWhole, List.isEmpty_nil, Option.isNone_none, Bool.and_self, if_true,
      natOf_digits, signedInt, decide_eq_true_eq]
    congr 1
    split <;> omega

/-- A decimal reads as a double, with any number of zeros at its end. -/
def ReadsAs (s : Bool) (d : Positive) (x : Binary64) : Prop :=
  ∀ k : Nat, Binary64.ofDecimal s (d.digits * 10 ^ k) (d.exponent - k) = x

variable {s : Bool} {d : Positive} {x : Binary64}

theorem ReadsAs.plain (h : ReadsAs s d x) : Binary64.ofDecimal s d.digits d.exponent = x := by
  have h0 := h 0
  rwa [Nat.pow_zero, Nat.mul_one, Int.ofNat_zero, Int.sub_zero] at h0

/-- Digits around a point write the decimal that they have in common with it. -/
theorem point_written (whole fraction : List Char) (h : ReadsAs s d x) (k : Nat) (hcounts : AreDigits whole)
    (hleads : whole.head? = some '0' → whole = ['0']) (hparts : AreDigits fraction)
    (hdigits : natOf (whole ++ fraction) = d.digits * 10 ^ k) (hplaces : -(fraction.length : Int) = d.exponent - k) :
    ∃ t : NumberText, t.negative = s ∧ t.unsigned = whole ++ '.' :: fraction ∧ t.value = .double x := by
  obtain ⟨c, cs, rfl⟩ := List.exists_cons_of_ne_nil hparts.1
  refine ⟨⟨s, whole, c :: cs, none, hcounts, hleads, hparts.2⟩, rfl, ?_, ?_⟩
  · simp [NumberText.unsigned, fractionChars]
  · have hexponent : (0 : Int) - ((c :: cs).length : Int) = d.exponent - k := by omega
    change Value.double (Binary64.ofDecimal s (natOf (whole ++ c :: cs)) (0 - ((c :: cs).length : Int))) = _
    rw [hdigits, hexponent, h k]

theorem positional_written (h : ReadsAs s d x) (hd : d.digits ≠ 0) : ∃ t : NumberText, t.negative = s ∧
    t.unsigned = positional (digits d.digits) (d.exponent + (digits d.digits).length) ∧ t.value = .double x := by
  have hcounts := areDigits_digits d.digits
  have hnat := natOf_digits d.digits
  have hhead := head_digits hd
  generalize digits d.digits = ds at hcounts hnat hhead ⊢
  have hpos : 0 < ds.length := List.length_pos_of_ne_nil hcounts.1
  unfold positional
  split
  · -- All digits stand behind the point, with zeros in front of them.
    rename_i hwhole
    generalize hk : (-(d.exponent + ds.length)).toNat = k
    have hparts : ∀ c ∈ List.replicate k '0' ++ ds, c.isDigit = true :=
      List.forall_mem_append.mpr ⟨isDigit_zeros k, hcounts.2⟩
    refine point_written ['0'] (List.replicate k '0' ++ ds) h 0 ⟨nofun, by simp⟩ (fun _ => rfl)
      ⟨List.append_ne_nil_of_right_ne_nil _ hcounts.1, hparts⟩ ?_ ?_
    · have hzeros : ['0'] ++ (List.replicate k '0' ++ ds) = List.replicate (k + 1) '0' ++ ds := by
        rw [List.replicate_succ]
        rfl
      rw [hzeros, natOf_zeros_append _ hcounts.2, hnat, Nat.pow_zero, Nat.mul_one]
    · rw [List.length_append, List.length_replicate]
      omega
  split
  · -- All digits stand in front of the point, with zeros behind them.
    rename_i hwhole hlong
    generalize hk : (d.exponent + ds.length).toNat - ds.length = k
    have hfront : ∀ rest, (ds ++ rest).head? = ds.head? := fun rest => List.head?_append_of_ne_nil _ hcounts.1
    have hzeros := point_written (ds ++ List.replicate k '0') ['0'] h (k + 1)
      ⟨List.append_ne_nil_of_left_ne_nil hcounts.1 _, List.forall_mem_append.mpr ⟨hcounts.2, isDigit_zeros k⟩⟩
      (fun h0 => absurd ((hfront _).symm.trans h0) hhead) ⟨nofun, by simp⟩ ?_ ?_
    · simpa only [List.append_assoc] using hzeros
    · have hmore : ds ++ List.replicate k '0' ++ ['0'] = ds ++ List.replicate (k + 1) '0' := by
        rw [List.replicate_succ', List.append_assoc]
      rw [hmore, natOf_append_zeros _ hcounts.2, hnat]
    · simp only [List.length_singleton]
      omega
  · -- The point stands between digits.
    rename_i hwhole hlong
    generalize hk : (d.exponent + ds.length).toNat = k
    have hfront : (ds.take k).head? = ds.head? := by
      rw [List.head?_take, if_neg (by omega)]
    refine point_written (ds.take k) (ds.drop k) h 0
      ⟨?_, fun c hc => hcounts.2 c (List.mem_of_mem_take hc)⟩ (fun h0 => absurd (hfront.symm.trans h0) hhead)
      ⟨?_, fun c hc => hcounts.2 c (List.mem_of_mem_drop hc)⟩ ?_ ?_
    · exact List.ne_nil_of_length_pos (by rw [List.length_take]; omega)
    · exact List.ne_nil_of_length_pos (by rw [List.length_drop]; omega)
    · rw [List.take_append_drop, hnat, Nat.pow_zero, Nat.mul_one]
    · rw [List.length_drop]
      omega

theorem areDigits_padded (width n : Nat) : AreDigits (padded width n) := by
  have hcounts := areDigits_digits n
  exact ⟨List.append_ne_nil_of_right_ne_nil _ hcounts.1, List.forall_mem_append.mpr ⟨isDigit_zeros _, hcounts.2⟩⟩

theorem natOf_padded (width n : Nat) : natOf (padded width n) = n :=
  (natOf_zeros_append _ (isDigit_digits n)).trans (natOf_digits n)

/-- The exponent of a scientific text. -/
def scientificExponent (e : Int) : ExponentText :=
  ⟨'e', some (decide (e < 0)), padded 2 e.natAbs, .inl rfl, areDigits_padded _ _⟩

theorem scientificExponent_value (e : Int) : (scientificExponent e).value = e := by
  change signedInt (decide (e < 0)) (natOf (padded 2 e.natAbs)) = e
  rw [natOf_padded, signedInt]
  split <;> rename_i h
  · have hneg := of_decide_eq_true h
    omega
  · have hneg := of_decide_eq_false (Bool.eq_false_iff.mpr h)
    omega

theorem scientific_written (h : ReadsAs s d x) (hd : d.digits ≠ 0) : ∃ t : NumberText, t.negative = s ∧
    t.unsigned = scientific (digits d.digits) (d.exponent + (digits d.digits).length - 1) ∧ t.value = .double x := by
  have hcounts := areDigits_digits d.digits
  have hnat := natOf_digits d.digits
  have hhead := head_digits hd
  generalize digits d.digits = ds at hcounts hnat hhead ⊢
  obtain ⟨c, cs, rfl⟩ := List.exists_cons_of_ne_nil hcounts.1
  generalize he : d.exponent + ((c :: cs).length : Int) - 1 = e
  have hc : AreDigits [c] := ⟨nofun, fun a ha => hcounts.2 a (List.mem_singleton.mp ha ▸ List.mem_cons_self)⟩
  refine ⟨⟨s, [c], cs, some (scientificExponent e), hc, fun h0 => absurd h0 hhead,
    fun a ha => hcounts.2 a (List.mem_cons_of_mem _ ha)⟩, rfl, ?_, ?_⟩
  · have hsign : (if decide (e < 0) then '-' else '+') = if e < 0 then '-' else '+' := by
      simp only [decide_eq_true_eq]
    cases cs with
    | nil =>
      change [c] ++ ([] ++ ('e' :: ([if decide (e < 0) then '-' else '+'] ++ padded 2 e.natAbs))) = _
      rw [hsign]
      rfl
    | cons b cs =>
      change [c] ++ ('.' :: b :: cs ++ ('e' :: ([if decide (e < 0) then '-' else '+'] ++ padded 2 e.natAbs))) = _
      rw [hsign]
      rfl
  · have hvalue : (scientificExponent e).value - (cs.length : Int) = d.exponent := by
      rw [scientificExponent_value, ← he, List.length_cons]
      omega
    have hpart : (cs.isEmpty && (some (scientificExponent e)).isNone) = false := Bool.and_false _
    rw [NumberText.value, NumberText.isWhole, hpart, if_neg Bool.false_ne_true]
    change Value.double (Binary64.ofDecimal s (natOf (c :: cs)) ((scientificExponent e).value - (cs.length : Int))) = _
    rw [hvalue, hnat, h.plain]

theorem magnitudeText_written (s : Bool) (units : Nat) (fits : Binary64.Representable units) :
    ∃ t : NumberText, t.negative = s ∧ t.unsigned = magnitudeText units ∧ t.value = .double (.finite s units fits) := by
  unfold magnitudeText
  split
  · rename_i h0
    subst h0
    refine ⟨⟨s, ['0'], ['0'], none, ⟨List.cons_ne_nil _ _, by simp⟩, fun _ => rfl, by simp⟩, rfl, rfl, ?_⟩
    change Value.double (Binary64.ofDecimal s 0 (0 - 1)) = _
    rw [Binary64.ofDecimal, if_pos rfl, Binary64.round_zero s fits]
  · rename_i h0
    have hreads : ReadsAs s (shortest units) (.finite s units fits) := fun k => ofDecimal_shortest s h0 fits k
    have hdigits := shortest_digits fits.2 h0
    generalize shortest units = d at hreads hdigits ⊢
    dsimp only
    split
    · exact positional_written hreads hdigits
    · exact scientific_written hreads hdigits

/-- A finite double is written by a text that means it. -/
theorem doubleText_written (hx : x.isFinite = true) : ∃ t : NumberText, t.Writes x.text.toList (.double x) := by
  cases x with
  | nan => cases hx
  | infinite s => cases hx
  | finite s units fits =>
    obtain ⟨t, hsign, hunsigned, hvalue⟩ := magnitudeText_written s units fits
    refine ⟨t, ?_, hvalue⟩
    rw [NumberText.chars, hsign, hunsigned, Binary64.text, String.toList_ofList]

end Writing

end Json

end MediaEngine
