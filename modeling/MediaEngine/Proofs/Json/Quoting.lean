import MediaEngine.Json.Parser
import MediaEngine.Json.Printer

/-! # Quoted texts in JSON texts

Between the quotes stand plain characters, escapes of one letter, and codes of four hexadecimal digits (`Inside`). Every
text is written so, and what is written for it is read back, character by character (`quotedText_quote`). -/

namespace MediaEngine.Json
open Text

/-! ## Hexadecimal digits -/

/-- A hexadecimal digit in either case. -/
def isHex (c : Char) : Bool := c.isDigit || ('a' ≤ c && c ≤ 'f') || ('A' ≤ c && c ≤ 'F')

theorem isHex_digitChar : ∀ n < 16, isHex n.digitChar = true := by decide

theorem hexDigit?_digitChar : ∀ n < 16, hexDigit? n.digitChar = some n := by decide

theorem hex_succ {width : Nat} (hw : 0 < width) (n : Nat) : hex (width + 1) n = hex width (n / 16) ++ [(n % 16).digitChar] := by
  obtain ⟨w, rfl⟩ : ∃ w, width = w + 1 := ⟨width - 1, by omega⟩
  unfold hex
  rcases Nat.lt_or_ge n 16 with hn | hn
  · rw [Nat.div_eq_of_lt hn, Nat.mod_eq_of_lt hn, Nat.toDigits_of_lt_base hn, Nat.toDigits_zero]
    simp only [List.length_singleton, Nat.add_sub_cancel, List.replicate_succ', List.append_assoc]
  · rw [Nat.toDigits_of_base_le (by decide) hn]
    simp only [List.length_append, List.length_singleton, Nat.add_sub_add_right, List.append_assoc]

/-- The four digits of a code unit. -/
theorem hex_four {u : Nat} (hu : u < 0x10000) : hex 4 u =
    [(u / 4096).digitChar, (u / 256 % 16).digitChar, (u / 16 % 16).digitChar, (u % 16).digitChar] := by
  have hone : hex 1 (u / 16 / 16 / 16) = [(u / 16 / 16 / 16).digitChar] := by
    rw [hex, Nat.toDigits_of_lt_base (by omega)]
    rfl
  rw [hex_succ (by decide), hex_succ (by decide), hex_succ (by decide), hone, Nat.div_div_eq_div_mul u, Nat.div_div_eq_div_mul u]
  rfl

theorem codeUnit?_hex {u : Nat} (hu : u < 0x10000) {rest : List Char} (hrest : rest ≠ []) :
    codeUnit? (hex 4 u ++ rest) = some (u, rest) := by
  obtain ⟨e, rest, rfl⟩ := List.exists_cons_of_ne_nil hrest
  have hvalue : ((u / 4096 * 16 + u / 256 % 16) * 16 + u / 16 % 16) * 16 + u % 16 = u := by omega
  rw [hex_four hu]
  change (do
    let a ← hexDigit? (u / 4096).digitChar
    let b ← hexDigit? (u / 256 % 16).digitChar
    let c ← hexDigit? (u / 16 % 16).digitChar
    let d ← hexDigit? (u % 16).digitChar
    return (((a * 16 + b) * 16 + c) * 16 + d, e :: rest)) = _
  rw [hexDigit?_digitChar _ (by omega), hexDigit?_digitChar _ (by omega), hexDigit?_digitChar _ (by omega),
    hexDigit?_digitChar _ (by omega)]
  change some (((u / 4096 * 16 + u / 256 % 16) * 16 + u / 16 % 16) * 16 + u % 16, e :: rest) = _
  rw [hvalue]

/-! ## What stands between quotes -/

/-- The letters that stand behind a backslash in escapes of one letter. -/
def shortEscapes : List Char := ['"', '\\', '/', 'b', 'f', 'n', 'r', 't']

/-- What may stand between the quotes of a text. -/
inductive Inside : List Char → Prop
  | nil : Inside []
  | plain {c cs} : ' ' ≤ c → c ≠ '"' → c ≠ '\\' → Inside cs → Inside (c :: cs)
  | short {e cs} : e ∈ shortEscapes → Inside cs → Inside ('\\' :: e :: cs)
  | code {a b c d cs} : isHex a = true → isHex b = true → isHex c = true → isHex d = true → Inside cs →
      Inside ('\\' :: 'u' :: a :: b :: c :: d :: cs)

theorem Inside.append {cs ds : List Char} (h : Inside cs) (hds : Inside ds) : Inside (cs ++ ds) := by
  induction h with
  | nil => exact hds
  | plain hc hquote hslash _ ih => exact .plain hc hquote hslash ih
  | short he _ ih => exact .short he ih
  | code ha hb hc hd _ ih => exact .code ha hb hc hd ih

theorem Inside.unit {u : Nat} (hu : u < 0x10000) {cs : List Char} (h : Inside cs) : Inside (unitEscape u ++ cs) := by
  rw [unitEscape, hex_four hu]
  exact .code (isHex_digitChar _ (by omega)) (isHex_digitChar _ (by omega)) (isHex_digitChar _ (by omega))
    (isHex_digitChar _ (by omega)) h

theorem toNat_lt (c : Char) : c.toNat < 0x110000 := by
  rcases c.valid with h | h
  · exact Nat.lt_trans h (by decide)
  · exact h.2

/-- A character has one code unit, or two that are halves of a pair. -/
theorem units16_cases (c : Char) : units16 c = [c.toNat] ∧ c.toNat < 0x10000 ∨
    ∃ u w, units16 c = [u, w] ∧ (0xD800 ≤ u ∧ u < 0xDC00) ∧ (0xDC00 ≤ w ∧ w < 0xE000) ∧
      Char.ofNat (0x10000 + (u - 0xD800) * 0x400 + (w - 0xDC00)) = c := by
  have hc := toNat_lt c
  unfold units16
  dsimp only
  split
  · rename_i hsmall
    exact .inl ⟨rfl, hsmall⟩
  · rename_i hlarge
    have hpair : 0x10000 + (0xD800 + (c.toNat - 0x10000) / 0x400 - 0xD800) * 0x400 +
        (0xDC00 + (c.toNat - 0x10000) % 0x400 - 0xDC00) = c.toNat := by omega
    refine .inr ⟨_, _, rfl, by omega, by omega, ?_⟩
    rw [hpair, Char.ofNat_toNat]

theorem units_inside (c : Char) : Inside ((units16 c).flatMap unitEscape) := by
  rcases units16_cases c with ⟨hunits, hsmall⟩ | ⟨u, w, hunits, hu, hw, -⟩
  · rw [hunits]
    exact Inside.unit hsmall .nil
  · rw [hunits]
    exact Inside.unit (by omega) (Inside.unit (by omega) .nil)

theorem escapeChar_inside (c : Char) : Inside (escapeChar c) := by
  unfold escapeChar
  split
  · exact .short (by decide) .nil
  split
  · exact .short (by decide) .nil
  split
  · exact .short (by decide) .nil
  split
  · exact .short (by decide) .nil
  split
  · exact .short (by decide) .nil
  split
  · exact .short (by decide) .nil
  split
  · exact .short (by decide) .nil
  split
  · rename_i hquote hslash _ _ _ _ _ hplain
    exact .plain hplain.1 hquote hslash .nil
  · exact units_inside c

theorem escaped_inside (cs : List Char) : Inside (cs.flatMap escapeChar) := by
  induction cs with
  | nil => exact .nil
  | cons c cs ih => exact (escapeChar_inside c).append ih

/-! ## Reading back -/

section Reading
variable {start rest : List Char} {fuel : Nat}

theorem not_half (c : Char) : ¬(0xD800 ≤ c.toNat ∧ c.toNat < 0xE000) := by
  rintro ⟨hlow, hhigh⟩
  rcases c.valid with h | h
  · exact Nat.not_lt.mpr hlow h
  · exact Nat.not_lt.mpr (Nat.succ_le_of_lt h.1) hhigh

theorem unitChar_toNat (c : Char) : unitChar c.toNat = c := by
  rw [unitChar, if_neg (not_half c), Char.ofNat_toNat]

theorem codeEscape_single {u : Nat} {cs : List Char} (hcode : codeUnit? cs = some (u, rest))
    (hhalf : ¬(0xD800 ≤ u ∧ u < 0xE000)) : codeEscape ('u' :: cs) = .ok (unitChar u, rest) := by
  rw [codeEscape, List.tail_cons, hcode]
  dsimp only
  split
  · exact if_neg fun h => hhalf ⟨h.1, Nat.lt_trans h.2.1 (by decide)⟩
  · rfl

theorem codeEscape_pair {u w : Nat} {cs more : List Char} (hcode : codeUnit? cs = some (u, '\\' :: 'u' :: more))
    (hmore : codeUnit? more = some (w, rest)) (hlong : 4 < more.length) (hu : 0xD800 ≤ u ∧ u < 0xDC00)
    (hw : 0xDC00 ≤ w ∧ w < 0xE000) :
    codeEscape ('u' :: cs) = .ok (Char.ofNat (0x10000 + (u - 0xD800) * 0x400 + (w - 0xDC00)), rest) := by
  rw [codeEscape, List.tail_cons, hcode]
  dsimp only
  split
  · rename_i heq
    cases heq
    rw [if_pos ⟨hu.1, hu.2, hlong⟩, hmore]
    dsimp only
    rw [if_pos hw]
  · rename_i hother
    exact absurd rfl (hother _)

/-- The codes of a character are read as the character, two halves of a pair together. -/
theorem codeEscape_units (c : Char) (hrest : rest ≠ []) :
    ∃ cs, (units16 c).flatMap unitEscape ++ rest = '\\' :: 'u' :: cs ∧ codeEscape ('u' :: cs) = .ok (c, rest) := by
  rcases units16_cases c with ⟨hunits, hsmall⟩ | ⟨u, w, hunits, hu, hw, hpair⟩
  · refine ⟨hex 4 c.toNat ++ rest, by simp [hunits, unitEscape], ?_⟩
    rw [codeEscape_single (codeUnit?_hex hsmall hrest) (not_half c), unitChar_toNat]
  · have hlong : 4 < (hex 4 w ++ rest).length := by
      have hpos := List.length_pos_iff.mpr hrest
      rw [List.length_append, hex_four (by omega)]
      simp only [List.length_cons, List.length_nil]
      omega
    refine ⟨hex 4 u ++ '\\' :: 'u' :: (hex 4 w ++ rest), by simp [hunits, unitEscape], ?_⟩
    rw [codeEscape_pair (codeUnit?_hex (by omega) nofun) (codeUnit?_hex (by omega) hrest) hlong hu hw, hpair]

theorem quotedFrom_short {e d : Char} (hu : e ≠ 'u') (he : shortEscape? e = some d) :
    quotedFrom start (fuel + 1) ('\\' :: e :: rest) = (do
      let (ds, left) ← quotedFrom start fuel rest
      return (d :: ds, left)) := by
  rw [quotedFrom, if_neg (by decide), if_pos rfl]
  dsimp only
  rw [if_neg hu, he]

/-- What is written for a character is read as the character. -/
theorem quotedFrom_escapeChar (c : Char) (hrest : rest ≠ []) :
    quotedFrom start (fuel + 1) (escapeChar c ++ rest) = (do
      let (ds, left) ← quotedFrom start fuel rest
      return (c :: ds, left)) := by
  -- Seven characters have a short form; the others are written as they are or by their code units.
  unfold escapeChar
  split
  · rename_i h
    subst h
    exact quotedFrom_short (by decide) rfl
  split
  · rename_i h
    subst h
    exact quotedFrom_short (by decide) rfl
  split
  · rename_i h
    subst h
    exact quotedFrom_short (by decide) rfl
  split
  · rename_i h
    subst h
    exact quotedFrom_short (by decide) rfl
  split
  · rename_i h
    subst h
    exact quotedFrom_short (by decide) rfl
  split
  · rename_i h
    obtain rfl : Char.ofNat 8 = c := by rw [← h, Char.ofNat_toNat]
    exact quotedFrom_short (by decide) rfl
  split
  · rename_i h
    obtain rfl : Char.ofNat 12 = c := by rw [← h, Char.ofNat_toNat]
    exact quotedFrom_short (by decide) rfl
  split
  · rename_i hquote hslash _ _ _ _ _ hplain
    change quotedFrom start (fuel + 1) (c :: rest) = _
    rw [quotedFrom.eq_def]
    dsimp only
    rw [if_neg hquote, if_neg hslash, if_neg (Char.not_lt.mpr hplain.1)]
  · obtain ⟨cs, hcs, hcode⟩ := codeEscape_units c hrest
    rw [hcs, quotedFrom, if_neg (by decide), if_pos rfl]
    dsimp only
    rw [if_pos rfl, hcode]
    rfl

theorem quotedFrom_escaped (cs : List Char) (h : cs.length < fuel) :
    quotedFrom start fuel (cs.flatMap escapeChar ++ '"' :: rest) = .ok (cs, rest) := by
  induction cs generalizing fuel with
  | nil =>
    obtain ⟨n, rfl⟩ : ∃ n, fuel = n + 1 := ⟨fuel - 1, by omega⟩
    rw [List.flatMap_nil, List.nil_append]
    unfold quotedFrom
    rw [if_pos rfl]
  | cons c cs ih =>
    obtain ⟨n, rfl⟩ : ∃ n, fuel = n + 1 := ⟨fuel - 1, by omega⟩
    rw [List.flatMap_cons, List.append_assoc, quotedFrom_escapeChar c (by simp), ih (Nat.lt_of_succ_lt_succ h)]
    rfl

theorem escapeChar_ne_nil (c : Char) : escapeChar c ≠ [] := by
  intro h
  -- An empty text would be passed over, and the rest be read with less fuel.
  have hread := @quotedFrom_escapeChar [] ['"'] 1 c nofun
  rw [h] at hread
  cases hread

theorem length_escaped (cs : List Char) : cs.length ≤ (cs.flatMap escapeChar).length := by
  have hone : ∀ c, 1 ≤ (escapeChar c).length := fun c => List.length_pos_iff.mpr (escapeChar_ne_nil c)
  induction cs with
  | nil => exact Nat.le_refl _
  | cons c cs ih =>
    have hc := hone c
    rw [List.flatMap_cons, List.length_append, List.length_cons]
    omega

/-- A text is read back from what is written for it. -/
theorem quotedText_quote (s : String) (rest : List Char) : quotedText (quote s ++ rest) = .ok (s, rest) := by
  have hlength := length_escaped s.toList
  have hquote : quote s ++ rest = '"' :: (s.toList.flatMap escapeChar ++ '"' :: rest) := by
    simp [quote]
  rw [quotedText, hquote, List.tail_cons, quotedFrom_escaped]
  · change Except.ok (String.ofList s.toList, rest) = _
    rw [String.ofList_toList]
  · simp only [List.length_cons, List.length_append]
    omega

end Reading

end MediaEngine.Json
