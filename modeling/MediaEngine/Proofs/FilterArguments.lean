import MediaEngine.FilterText
import Mathlib.Logic.Function.Defs

/-! # Filter arguments

Who reads a filter argument takes it from left to right: a backslash stands with the character behind it for that
character, and a colon without a backslash ends the argument. A text that was escaped is read as itself, whatever it
holds and whatever stands behind it (`pieces_mark_append`, `fields_mark_append`), so that texts joined with colons are
told apart again. -/

namespace MediaEngine.FilterText

/-! ## Reading -/

/-- What a reader meets at one place of an argument. -/
inductive Piece
  /-- A character on its own. -/
  | bare (c : Char)
  /-- A character with a backslash in front. -/
  | pair (c : Char)
  deriving DecidableEq

/-- The character that a piece stands for. -/
def Piece.char : Piece → Char
  | bare c => c
  | pair c => c

/-- The pieces of a text from left to right; none if the text ends inside a pair. -/
def pieces : List Char → Option (List Piece)
  | [] => some []
  | '\\' :: [] => none
  | '\\' :: c :: rest => (pieces rest).map (.pair c :: ·)
  | c :: rest => (pieces rest).map (.bare c :: ·)

/-- A text with each pair replaced by its character; none if it ends inside a pair. -/
def unescape (s : String) : Option String :=
  (pieces s.toList).map fun ps => String.ofList (ps.map Piece.char)

/-- The second text is the first one escaped: it is read as the first one, and in pairs just where that has a backslash or
a colon. -/
def Escapes (s escaped : String) : Prop :=
  ∃ ps, pieces escaped.toList = some ps ∧ ps.map Piece.char = s.toList ∧
    ∀ p ∈ ps, p = .pair p.char ↔ p.char = '\\' ∨ p.char = ':'

/-- The parts between the colons that have no backslash in front, as they stand. -/
def fieldsFrom : List Char → List (List Char)
  | [] => [[]]
  | '\\' :: [] => [['\\']]
  | '\\' :: c :: rest => (fieldsFrom rest).modifyHead ('\\' :: c :: ·)
  | c :: rest => if c = ':' then [] :: fieldsFrom rest else (fieldsFrom rest).modifyHead (c :: ·)

/-- The arguments that a text splits into. -/
def fields (s : String) : List String := (fieldsFrom s.toList).map String.ofList

section
variable {c : Char} (rest cs ds : List Char)

theorem pieces_bare (hc : c ≠ '\\') : pieces (c :: rest) = (pieces rest).map (.bare c :: ·) := by
  rw [pieces.eq_def]
  split <;> simp_all

theorem fieldsFrom_bare (hslash : c ≠ '\\') (hcolon : c ≠ ':') :
    fieldsFrom (c :: rest) = (fieldsFrom rest).modifyHead (c :: ·) := by
  rw [fieldsFrom.eq_def]
  split <;> simp_all

theorem fieldsFrom_colon : fieldsFrom (':' :: rest) = [] :: fieldsFrom rest := by
  simp [fieldsFrom]

/-! ## Escaped texts -/

theorem isSpecial_eq_false : isSpecial c = false ↔ c ≠ '\\' ∧ c ≠ ':' := by
  simp [isSpecial]

/-- The piece that a character is read as once it is escaped. -/
def Piece.of (c : Char) : Piece := if isSpecial c then pair c else bare c

@[simp] theorem Piece.char_of : (Piece.of c).char = c := by
  unfold Piece.of
  split <;> rfl

theorem Piece.of_ne_colon : Piece.of c ≠ .bare ':' := by
  unfold Piece.of
  split
  · exact Piece.noConfusion
  · rename_i hplain
    rintro ⟨⟩
    exact hplain rfl

theorem mark_append : mark (cs ++ ds) = mark cs ++ mark ds := by
  induction cs with
  | nil => rfl
  | cons c cs ih =>
    simp only [List.cons_append, mark, ih]
    split <;> rfl

theorem pieces_mark_append : pieces (mark cs ++ ds) = (pieces ds).map (cs.map Piece.of ++ ·) := by
  induction cs with
  | nil => simp [mark]
  | cons c cs ih =>
    cases hc : isSpecial c with
    | true => simp [mark, pieces, Piece.of, hc, ih, Function.comp_def]
    | false =>
      have hread := pieces_bare (mark cs ++ ds) (isSpecial_eq_false.mp hc).1
      simp [mark, Piece.of, hc, hread, ih, Function.comp_def]

theorem pieces_mark : pieces (mark cs) = some (cs.map Piece.of) := by
  simpa [pieces] using pieces_mark_append cs []

/-- An escaped text goes into the first field whole, and the way on does not depend on it. -/
theorem fieldsFrom_mark_append : fieldsFrom (mark cs ++ ds) = (fieldsFrom ds).modifyHead (mark cs ++ ·) := by
  induction cs with
  | nil => cases h : fieldsFrom ds <;> simp [mark, h]
  | cons c cs ih =>
    cases hc : isSpecial c with
    | true => simp [mark, fieldsFrom, hc, ih, List.modifyHead_modifyHead, Function.comp_def]
    | false =>
      obtain ⟨hslash, hcolon⟩ := isSpecial_eq_false.mp hc
      have hread := fieldsFrom_bare (mark cs ++ ds) hslash hcolon
      simp [mark, hc, hread, ih, List.modifyHead_modifyHead, Function.comp_def]

end

/-! ## Joined texts -/

@[simp] theorem toList_escape (s : String) : (escape s).toList = mark s.toList := by
  simp [escape]

theorem unescape_escape (s : String) : unescape (escape s) = some s := by
  simp [unescape, pieces_mark, Function.comp_def]

theorem Piece.of_eq_pair {c : Char} : Piece.of c = .pair c ↔ c = '\\' ∨ c = ':' := by
  unfold Piece.of isSpecial
  split
  · rename_i h
    simpa using h
  · rename_i h
    simpa using h

/-- Escaping marks each backslash and each colon, and nothing else. -/
theorem escapes_escape (s : String) : Escapes s (escape s) := by
  refine ⟨s.toList.map Piece.of, by rw [toList_escape, pieces_mark], by simp [Function.comp_def], ?_⟩
  intro p hp
  obtain ⟨c, -, rfl⟩ := List.mem_map.mp hp
  rw [Piece.char_of]
  exact Piece.of_eq_pair

theorem mapM_unescape (texts : List String) : (texts.map escape).mapM unescape = some texts := by
  induction texts with
  | nil => rfl
  | cons s texts ih => simp [unescape_escape, ih]

theorem fieldsFrom_joined (s : String) (rest : List String) :
    fieldsFrom (":".intercalate ((s :: rest).map escape)).toList = (s :: rest).map fun t => mark t.toList := by
  induction rest generalizing s with
  | nil => simpa [fieldsFrom] using fieldsFrom_mark_append s.toList []
  | cons t rest ih =>
    have hsplit : (":".intercalate ((s :: t :: rest).map escape)).toList =
        mark s.toList ++ ':' :: (":".intercalate ((t :: rest).map escape)).toList := by
      simp [String.intercalate_cons_cons]
    rw [hsplit, fieldsFrom_mark_append, fieldsFrom_colon, ih]
    simp

/-- Escaping is faithful: an escaped text reads back as itself, without ever ending inside a pair or meeting a colon on
its own; no two texts are escaped alike; a text may be escaped in parts; and texts that were escaped and then joined
with colons are the arguments that a reader finds. -/
theorem escaping_is_faithful :
    (∀ s : String, ∃ ps, pieces (escape s).toList = some ps ∧ ps.map Piece.char = s.toList ∧ .bare ':' ∉ ps) ∧
    Function.Injective escape ∧
    (∀ s t : String, escape (s ++ t) = escape s ++ escape t) ∧
    ∀ (s : String) (rest : List String),
      fields (":".intercalate ((s :: rest).map escape)) = (s :: rest).map escape ∧
      (fields (":".intercalate ((s :: rest).map escape))).mapM unescape = some (s :: rest) := by
  refine ⟨fun s => ⟨s.toList.map Piece.of, ?_, ?_, ?_⟩, ?_, ?_, ?_⟩
  · rw [toList_escape, pieces_mark]
  · simp [Function.comp_def]
  · simp only [List.mem_map, not_exists, not_and]
    exact fun c _ => Piece.of_ne_colon
  · intro s t hst
    have hread : unescape (escape s) = unescape (escape t) := congrArg unescape hst
    simpa only [unescape_escape, Option.some.injEq] using hread
  · intro s t
    rw [← String.toList_inj]
    simp [mark_append]
  · intro s rest
    have hfields : fields (":".intercalate ((s :: rest).map escape)) = (s :: rest).map escape := by
      rw [fields, fieldsFrom_joined, List.map_map]
      rfl
    exact ⟨hfields, by rw [hfields, mapM_unescape]⟩

end MediaEngine.FilterText
