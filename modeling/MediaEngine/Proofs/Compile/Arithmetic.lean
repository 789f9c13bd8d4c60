import MediaEngine.Compile
import MediaEngine.Proofs.Rounding

/-! # Where arithmetic succeeds

A whole number without a double fails wherever it is converted, and it is all that fails there. What lies
between zero and numbers that can be converted can be converted too. -/

namespace MediaEngine
open Binary64

/-- A computation yields something. -/
def Succeeds {ε α : Type} (x : Except ε α) : Prop := ∃ a, x = .ok a

section Succeeds
variable {ε α β : Type} {x : Except ε α} {f : α → Except ε β}

@[simp] theorem succeeds_ok (a : α) : Succeeds (.ok a : Except ε α) := ⟨a, rfl⟩

@[simp] theorem succeeds_pure (a : α) : Succeeds (pure a : Except ε α) := ⟨a, rfl⟩

@[simp] theorem not_succeeds_error (e : ε) : ¬ Succeeds (.error e : Except ε α) := fun ⟨_, h⟩ => by cases h

theorem bind_eq_ok {b : β} : (x >>= f) = .ok b ↔ ∃ a, x = .ok a ∧ f a = .ok b := by
  cases x with
  | error e => exact iff_of_false (fun h => by cases h) fun ⟨_, h, _⟩ => by cases h
  | ok a =>
    refine ⟨fun h => ⟨a, rfl, h⟩, fun ⟨_, h, hb⟩ => ?_⟩
    cases h
    exact hb

theorem bind_eq_error {e : ε} :
    (x >>= f) = .error e ↔ x = .error e ∨ ∃ a, x = .ok a ∧ f a = .error e := by
  cases x with
  | error e' =>
    refine ⟨fun h => ?_, fun h => ?_⟩
    · cases h
      exact .inl rfl
    · rcases h with h | ⟨_, h, _⟩ <;> cases h
      rfl
  | ok a =>
    refine ⟨fun h => .inr ⟨a, rfl, h⟩, fun h => ?_⟩
    rcases h with h | ⟨_, h, he⟩
    · cases h
    · cases h
      exact he

/-- What follows succeeds under a condition of its own. -/
theorem succeeds_bind_iff {p : Prop} (hf : ∀ a, x = .ok a → (Succeeds (f a) ↔ p)) :
    Succeeds (x >>= f) ↔ Succeeds x ∧ p := by
  cases x with
  | error e => exact iff_of_false (fun ⟨_, h⟩ => by cases h) fun h => not_succeeds_error e h.1
  | ok a => exact (hf a rfl).trans (and_iff_right (succeeds_ok a)).symm

/-- What follows always succeeds. -/
theorem succeeds_bind_of (hf : ∀ a, x = .ok a → Succeeds (f a)) : Succeeds (x >>= f) ↔ Succeeds x := by
  rw [succeeds_bind_iff fun a ha => iff_true_intro (hf a ha), and_true]

end Succeeds

/-! ## Numbers -/

namespace Number

/-- A number that is a double or has one. -/
def Covered : Number → Prop
  | .int n => Covers n
  | .float _ => True

theorem succeeds_toDouble (n : Number) : Succeeds n.toDouble ↔ n.Covered := by
  cases n with
  | int n => exact toDouble_int n
  | float x => exact iff_of_true ⟨x, rfl⟩ trivial

theorem succeeds_isFinite (n : Number) : Succeeds n.isFinite ↔ n.Covered := by
  rw [← succeeds_toDouble]
  exact succeeds_bind_of fun _ _ => succeeds_pure _

theorem succeeds_isNaN (n : Number) : Succeeds n.isNaN ↔ n.Covered := by
  rw [← succeeds_toDouble]
  exact succeeds_bind_of fun _ _ => succeeds_pure _

theorem covered_max {x y : Number} (hx : x.Covered) (hy : y.Covered) : (x.max y).Covered := by
  unfold Number.max
  split
  · exact hy
  · exact hx

theorem covered_raised {x : Number} (hx : x.Covered) : (Number.zero.max x).Covered :=
  covered_max (show Number.zero.Covered from trivial) hx

theorem covered_min {x y : Number} (hx : x.Covered) (hy : y.Covered) : (x.min y).Covered := by
  unfold Number.min
  split
  · exact hy
  · exact hx

theorem int_lt {a b : Int} : (Number.int a).lt (.int b) = true ↔ a < b := by
  have hone : (0 : Int) < one := Int.natCast_pos.mpr Binary64.one_pos
  change decide (a * (one : Int) < b * (one : Int)) = true ↔ a < b
  rw [decide_eq_true_eq]
  exact ⟨fun h => lt_of_mul_lt_mul_right h (Int.le_of_lt hone), fun h => Int.mul_lt_mul_of_pos_right h hone⟩

theorem zero_lt_int {d : Int} (h : Number.zero.lt (.int d) = true) : 0 < d := by
  have hone : (0 : Int) < one := Int.natCast_pos.mpr Binary64.one_pos
  change decide ((0 : Int) < d * (one : Int)) = true at h
  refine lt_of_mul_lt_mul_right ?_ (Int.le_of_lt hone)
  rw [Int.zero_mul]
  exact of_decide_eq_true h

/-- A number that is not below zero and can be converted. -/
structure Sound (n : Number) : Prop where
  covered : n.Covered
  natural : n.lt (.int 0) = false

theorem Sound.int_nonneg {n : Int} (h : (Number.int n).Sound) : 0 ≤ n := by
  have hn := h.natural
  rw [← Bool.not_eq_true, int_lt] at hn
  exact Int.not_lt.mp hn

theorem sound_zero : Number.zero.Sound := ⟨trivial, by decide +kernel⟩

theorem converted_sub {x y : Number} (hx : x.Covered) (hy : y.Covered) :
    ∃ d, (do return Number.float ((← x.toDouble).sub (← y.toDouble)) : Except ArithmeticError Number) = .ok (.float d) := by
  obtain ⟨a, ha⟩ := (succeeds_toDouble x).mpr hx
  obtain ⟨b, hb⟩ := (succeeds_toDouble y).mpr hy
  rw [ha, hb]
  exact ⟨_, rfl⟩

theorem float_sub (a : Binary64) {y : Number} (hy : y.Covered) : ∃ d, (Number.float a).sub y = .ok (.float d) := by
  cases y <;> exact converted_sub (show (Number.float a).Covered from trivial) hy

/-- The difference of sound numbers, raised to zero, can be converted. -/
theorem sub_covered {x y : Number} (hx : x.Sound) (hy : y.Sound) :
    ∃ z, x.sub y = .ok z ∧ (Number.zero.max z).Covered := by
  cases x with
  | float a =>
    obtain ⟨d, hd⟩ := float_sub a hy.covered
    exact ⟨.float d, hd, covered_raised trivial⟩
  | int a =>
    cases y with
    | float b =>
      obtain ⟨d, hd⟩ := converted_sub hx.covered hy.covered
      exact ⟨.float d, hd, covered_raised trivial⟩
    | int b =>
      refine ⟨.int (a - b), rfl, ?_⟩
      have ha := hx.int_nonneg
      have hb := hy.int_nonneg
      -- A difference that is not raised to zero lies between zero and the first number.
      unfold Number.max
      split
      · rename_i hpos
        have hd := zero_lt_int hpos
        exact Covers.mono hx.covered (by omega)
      · trivial

end Number

end MediaEngine
