import MediaEngine.Proofs.Magnitudes

/-! # Whole numbers among the numbers

A whole number below `2 ^ 53` is a double, so it is the same number whether it is written as one or not. The difference of
two of them is such a number again (`sub_whole`), except where it falls below their range; raised to zero it is what
the difference of whole numbers is. -/

namespace MediaEngine

namespace Binary64

theorem representable_whole {k : Nat} (hk : k ≤ 2 ^ 53) : Representable (k * one) := by
  have hlimit : 2 ^ 53 * one < limit := by decide +kernel
  refine ⟨Nat.lt_of_le_of_lt (Nat.mul_le_mul_right one hk) hlimit, ?_⟩
  have hspacing : ∀ s, spacing (k * Nat.pow 2 s) ∣ k * Nat.pow 2 s := fun s => spacing_dvd_mul hk
  simpa only [one] using hspacing 1074

theorem roundUnits_whole {k : Nat} (hk : k ≤ 2 ^ 53) : roundUnits (k * one) 1 = k * one := by
  have hexact := roundUnits_exact (representable_whole hk).2 Nat.one_pos
  rwa [Nat.mul_one] at hexact

theorem ofNat_whole {k : Nat} (hk : k ≤ 2 ^ 53) : (ofNat k).IsAmount ∧ (ofNat k).units = k * one :=
  isAmount_ofNat (representable_whole hk)

theorem signed_eq {s : Bool} {u : Nat} {i : Int} (hu : u = i.natAbs) (hpos : s = false → 0 ≤ i) (hneg : s = true → i ≤ 0) :
    signed s u = i := by
  cases s with
  | false =>
    have := hpos rfl
    rw [signed, if_neg Bool.false_ne_true]
    omega
  | true =>
    have := hneg rfl
    rw [signed, if_pos rfl]
    omega

theorem finite_of_place {x : Binary64} {i : Int} (h : x.extent = some (.within i)) :
    ∃ s u fits, x = .finite s u fits ∧ signed s u = i := by
  cases x with
  | nan => cases h
  | infinite s => cases s <;> cases h
  | finite s u fits =>
    cases h
    exact ⟨s, u, fits, rfl, rfl⟩

/-- The difference of two doubles is what lies between them, rounded, on the side on which it lies. -/
theorem sub_place {x y : Binary64} {i j : Int} (hx : x.extent = some (.within i)) (hy : y.extent = some (.within j))
    (hfit : roundUnits (i - j).natAbs 1 < limit) : ∃ l : Int, (x.sub y).extent = some (.within l) ∧
      l.natAbs = roundUnits (i - j).natAbs 1 ∧ (0 ≤ i - j → 0 ≤ l) ∧ (i - j ≤ 0 → l ≤ 0) := by
  obtain ⟨s, a, fa, rfl, rfl⟩ := finite_of_place hx
  obtain ⟨t, b, fb, rfl, rfl⟩ := finite_of_place hy
  have hsum : signed s a + signed (!t) b = signed s a - signed t b := by
    cases t <;> simp [signed, Int.sub_eq_add_neg]
  generalize signed s a - signed t b = gap at hsum hfit ⊢
  have hsub : (Binary64.finite s a fa).sub (.finite t b fb) =
      if gap = 0 then round (s && !t) 0 1 else round (decide (gap < 0)) gap.natAbs 1 := by
    rw [← hsum]
    rfl
  rw [hsub]
  split
  · rename_i hzero
    have hnothing : roundUnits 0 1 = 0 := roundUnits_small (by decide)
    rw [round_zero _ (by decide +kernel), hzero]
    exact ⟨0, by cases (s && !t) <;> rfl, hnothing.symm, fun _ => Int.le_refl 0, fun _ => Int.le_refl 0⟩
  · rename_i hne
    rw [round_eq rfl ⟨hfit, spacing_dvd_roundUnits _ _⟩]
    refine ⟨_, rfl, ?_, fun h => ?_, fun h => ?_⟩
    · unfold signed
      split <;> simp
    · rw [decide_eq_false (Int.not_lt.mpr h), signed, if_neg Bool.false_ne_true]
      exact Int.natCast_nonneg _
    · rw [decide_eq_true (show gap < 0 by omega), signed, if_pos rfl]
      exact Int.neg_nonpos_of_nonneg (Int.natCast_nonneg _)

end Binary64

namespace Number
open Binary64
variable {n m : Number} {i j k : Int}

theorem max_place (hn : n.extent = some (.within i)) (hm : m.extent = some (.within j)) :
    (n.max m).extent = some (.within (Max.max i j)) := by
  unfold Number.max
  split
  · rename_i hlt
    rw [hm, Int.max_eq_right (Int.le_of_lt ((lt_iff hn hm).mp hlt))]
  · rename_i hlt
    rw [hn, Int.max_eq_left (Int.not_lt.mp (mt (lt_iff hn hm).mpr hlt))]

theorem min_place (hn : n.extent = some (.within i)) (hm : m.extent = some (.within j)) :
    (n.min m).extent = some (.within (Min.min i j)) := by
  unfold Number.min
  split
  · rename_i hlt
    rw [hm, Int.min_eq_right (Int.le_of_lt ((lt_iff hm hn).mp hlt))]
  · rename_i hlt
    rw [hn, Int.min_eq_left (Int.not_lt.mp (mt (lt_iff hm hn).mpr hlt))]

/-- The number is this whole number, whose magnitude is below `2 ^ 53`. -/
structure IsWhole (n : Number) (k : Int) : Prop where
  place : n.extent = some (.within (k * (one : Int)))
  small : k.natAbs < 2 ^ 53

theorem isWhole_zero : zero.IsWhole 0 := ⟨by rw [Int.zero_mul]; rfl, by decide⟩

/-- A whole number stands to zero as its units do. -/
theorem IsWhole.sides (h : n.IsWhole k) : ((int 0).lt n = true ↔ 0 < k) ∧ (n.lt (int 0) = true ↔ k < 0) := by
  have hzero : (int 0).extent = some (.within 0) := by rw [Number.extent, Int.zero_mul]
  have hone : (0 : Int) < one := Int.natCast_pos.mpr Binary64.one_pos
  rw [lt_iff hzero h.place, lt_iff h.place hzero]
  refine ⟨mul_pos_iff_of_pos_right hone, fun h => ?_, fun h => Int.mul_neg_of_neg_of_pos h hone⟩
  exact Int.not_le.mp fun hk => Int.not_lt.mpr (Int.mul_nonneg hk (Int.le_of_lt hone)) h

theorem isWhole_ofNat {k : Nat} (hk : k < 2 ^ 53) : (float (ofNat k)).IsWhole k := by
  obtain ⟨hamount, hunits⟩ := ofNat_whole (Nat.le_of_lt hk)
  refine ⟨?_, hk⟩
  rw [Number.extent, hamount.extent_eq, hunits, Int.natCast_mul]

theorem IsWhole.int_eq (h : (int i).IsWhole k) : i = k := by
  have hone : (0 : Int) < one := Int.natCast_pos.mpr Binary64.one_pos
  exact Int.eq_of_mul_eq_mul_right (Int.ne_of_gt hone) (Extent.within.inj (Option.some.inj h.place))

theorem IsWhole.toDouble (h : n.IsWhole k) : ∃ x, n.toDouble = .ok x ∧ x.extent = some (.within (k * (one : Int))) := by
  cases n with
  | float x => exact ⟨x, rfl, h.place⟩
  | int m =>
    obtain rfl := h.int_eq
    have hcovers : Covers m := Nat.lt_trans h.small (by decide +kernel)
    obtain ⟨x, hx⟩ := (toDouble_int m).mpr hcovers
    obtain ⟨s, u, fits, rfl, hu, hpos, hneg⟩ := toDouble_shape h.place hx
    refine ⟨_, hx, ?_⟩
    have hexact : u = (m * (one : Int)).natAbs := by
      rw [hu, Int.natAbs_mul, Int.natAbs_natCast]
      exact roundUnits_whole (Nat.le_of_lt h.small)
    rw [Binary64.extent, signed_eq hexact hpos hneg]

/-- The difference of two numbers is exact where both are whole, and that of their doubles elsewhere. -/
theorem sub_cases {x y : Binary64} (hn : n.toDouble = .ok x) (hm : m.toDouble = .ok y) :
    (∃ a b, n = .int a ∧ m = .int b ∧ n.sub m = .ok (.int (a - b))) ∨ n.sub m = .ok (.float (x.sub y)) := by
  cases n with
  | int a =>
    cases m with
    | int b => exact .inl ⟨a, b, rfl, rfl, rfl⟩
    | float y =>
      cases hm
      rw [sub_float, hn]
      exact .inr rfl
  | float x =>
    cases hn
    refine .inr ?_
    have hsub : (Number.float x).sub m = (Number.float x).toDouble >>= fun a => m.toDouble >>= fun b => .ok (.float (a.sub b)) := by
      cases m <;> rfl
    rw [hsub, hm]
    rfl

/-- Units that are raised to zero are those of the whole number that is. -/
theorem raised_units (k : Int) : Max.max 0 (k * (one : Int)) = Max.max 0 k * (one : Int) := by
  rw [max_mul_of_nonneg 0 k (Int.natCast_nonneg one), Int.zero_mul]

theorem raised_min_units {l : Int} (hl : Max.max 0 l = Max.max 0 i * (one : Int)) (j : Int) :
    Max.max 0 (Min.min l (Max.max 0 j * (one : Int))) = Max.max 0 (Min.min i j) * (one : Int) :=
  calc Max.max 0 (Min.min l (Max.max 0 j * (one : Int)))
      = Min.min (Max.max 0 l) (Max.max 0 (Max.max 0 j * (one : Int))) := max_min_distrib_left ..
    _ = Min.min (Max.max 0 i * (one : Int)) (Max.max 0 j * (one : Int)) := by
      rw [hl, raised_units, max_eq_right (le_max_left 0 j)]
    _ = Max.max 0 (Min.min i j) * (one : Int) := by
      rw [← min_mul_of_nonneg _ _ (Int.natCast_nonneg one), max_min_distrib_left]

/-- The difference of whole numbers, raised to zero, is exact, although below zero it may be rounded. -/
theorem sub_whole (hn : n.IsWhole i) (hm : m.IsWhole j) (hj : 0 ≤ j) :
    ∃ d l, n.sub m = .ok d ∧ d.extent = some (.within l) ∧ Max.max 0 l = Max.max 0 (i - j) * (one : Int) := by
  obtain ⟨x, hx, hxplace⟩ := hn.toDouble
  obtain ⟨y, hy, hyplace⟩ := hm.toDouble
  have hi := hn.small
  have hj' := hm.small
  -- Two integers are subtracted as such; otherwise the difference is one of doubles, and it is rounded.
  rcases sub_cases hx hy with ⟨a, b, rfl, rfl, hsub⟩ | hsub
  · obtain rfl := hn.int_eq
    obtain rfl := hm.int_eq
    exact ⟨_, _, hsub, rfl, raised_units (a - b)⟩
  · have hgap : i * (one : Int) - j * (one : Int) = (i - j) * (one : Int) := (Int.sub_mul i j one).symm
    have hunits : ((i - j) * (one : Int)).natAbs = (i - j).natAbs * one := by
      rw [Int.natAbs_mul, Int.natAbs_natCast]
    have hcovers : Covers (i - j) := by
      have hlarge : 2 ^ 54 ≤ 2 ^ 1024 - 2 ^ 970 := by decide +kernel
      exact Nat.lt_of_lt_of_le (by omega) hlarge
    have hfit : roundUnits ((i - j).natAbs * one) 1 < limit := by
      rw [roundUnits_lt_limit Nat.one_pos, Nat.one_mul]
      exact (covers_iff _).mp hcovers
    obtain ⟨l, hl, habs, hpos, hneg⟩ := Binary64.sub_place hxplace hyplace (by rwa [hgap, hunits])
    refine ⟨_, l, hsub, hl, ?_⟩
    rw [hgap] at habs hpos hneg
    have hone : (0 : Int) ≤ one := Int.natCast_nonneg one
    -- From zero on the difference is small enough to be exact; below zero only its sign matters.
    rcases Int.le_total 0 (i - j) with hle | hle
    · have hexact : l.natAbs = ((i - j) * (one : Int)).natAbs := by
        rw [habs, hunits, roundUnits_whole (by omega)]
      have hl0 := hpos (Int.mul_nonneg hle hone)
      have hd0 := Int.mul_nonneg hle hone
      rw [← raised_units, show l = (i - j) * (one : Int) by omega]
    · have hl0 := hneg (Int.mul_nonpos_of_nonpos_of_nonneg hle hone)
      rw [Int.max_eq_left hl0, Int.max_eq_left hle, Int.zero_mul]

/-- The double of a whole number that is raised to zero. -/
theorem raised_toDouble {k : Nat} (h : (zero.max n).IsWhole k) : (zero.max n).toDouble = .ok (ofNat k) := by
  have hk : k < 2 ^ 53 := h.small
  obtain ⟨hnat, hunits⟩ := ofNat_whole (Nat.le_of_lt hk)
  obtain ⟨x, hx, hplace⟩ := h.toDouble
  have hamount : x.IsAmount := by
    rcases raised_cases n with hraised | ⟨hraised, hpos⟩
    · rw [hraised] at hx
      cases hx
      exact isAmount_zero
    · rw [hraised] at hx
      rcases toDouble_isPositive hpos hx with rfl | ⟨hamount, -⟩
      · cases hplace
      · exact hamount
  rw [hamount.extent_eq] at hplace
  have hplace : ((x.units : Nat) : Int) = (k * one : Nat) := (Extent.within.inj (Option.some.inj hplace)).trans (Int.natCast_mul k one).symm
  rw [hx, hamount.ext hnat ((Int.ofNat.inj hplace).trans hunits.symm)]

/-- Dividing by one leaves the double of a whole number. -/
theorem raised_div_one {k : Nat} (h : (zero.max n).IsWhole k) : (zero.max n).div (.float (ofNat 1)) = .ok (ofNat k) := by
  have hk : k < 2 ^ 53 := h.small
  obtain ⟨hnat, hunits⟩ := ofNat_whole (Nat.le_of_lt hk)
  obtain ⟨hone, hone_units⟩ := isAmount_one
  have hpos : 0 < (ofNat 1).units := hone_units ▸ Binary64.one_pos
  have hsmall : ¬ Outgrows (ofNat k) (ofNat 1) := by
    have hceiling : 2 ^ 53 ≤ ceiling := by decide +kernel
    rw [Outgrows, hunits, hone_units, Nat.mul_comm, Nat.mul_le_mul_right_iff Binary64.one_pos]
    omega
  obtain ⟨hquotient, hquotient_units⟩ := div_isAmount hnat hone hpos hsmall
  have hdiv : (ofNat k).div (ofNat 1) = ofNat k := by
    refine hquotient.ext hnat ?_
    rw [hquotient_units, hunits, hone_units]
    exact roundUnits_exact (representable_whole (Nat.le_of_lt hk)).2 Binary64.one_pos
  have hzero : (ofNat 1).isZero = false := by decide +kernel
  rw [div_eq (raised_toDouble h) rfl fun _ _ _ => Number.noConfusion, hzero, hdiv]
  rfl

end Number

end MediaEngine
