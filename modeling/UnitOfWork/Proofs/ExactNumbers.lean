import Mathlib.Algebra.Order.Field.Power
import Mathlib.Algebra.Order.Field.Rat
import UnitOfWork.Value.Sameness

/-! Rounding to a format leaves the numbers alone that the format has. Every finite single is a double, so widening
and narrowing give it back bit by bit. -/

namespace UnitOfWork

theorem roundDiv_mul (n : Nat) {den : Nat} (positive : 0 < den) : roundDiv (n * den) den = n := by
  simp [roundDiv, Nat.mul_div_cancel _ positive, positive]

theorem shift_div (num den : Nat) (k : Int) :
    ((num * Nat.pow 2 (-k).toNat : Nat) : ℚ) / ((den * Nat.pow 2 k.toNat : Nat) : ℚ) = num / den * 2 ^ (-k) := by
  have power : ((2 : ℚ) ^ (-k).toNat) / 2 ^ k.toNat = 2 ^ (-k) := by
    rw [← zpow_natCast, ← zpow_natCast, ← zpow_sub₀ two_ne_zero]
    congr 1
    omega
  rw [← power]
  push_cast [Nat.pow_eq]
  rw [mul_div_mul_comm]

namespace Format

/-- The order of magnitude of a quotient, as `nearest` finds it. -/
def top (num den : Nat) : Int :=
  let estimate : Int := (num.log2 : Int) - den.log2
  if num * Nat.pow 2 (-estimate).toNat < den * Nat.pow 2 estimate.toNat then estimate - 1 else estimate

/-- The magnitude with a significand in units of a power of two. -/
def pack (format : Format) (significand : Nat) (exponent : Int) : Nat :=
  (exponent - format.leastExponent).toNat * format.binade + significand

variable (format : Format)

theorem nearest_eq {num : Nat} (den : Nat) (positive : 0 < num) : format.nearest num den =
    let exponent := max (top num den - format.fraction) format.leastExponent
    min (format.pack (roundDiv (num * Nat.pow 2 (-exponent).toNat) (den * Nat.pow 2 exponent.toNat)) exponent)
      format.infinity := by
  rw [nearest, if_neg (Nat.pos_iff_ne_zero.mp positive)]
  rfl

theorem log2_bounds {n : Nat} (positive : 0 < n) : (2 : ℚ) ^ (n.log2 : Int) ≤ n ∧ (n : ℚ) < 2 ^ ((n.log2 : Int) + 1) := by
  constructor
  · rw [zpow_natCast]
    exact_mod_cast Nat.log2_self_le (Nat.pos_iff_ne_zero.mp positive)
  · have below := Nat.lt_log2_self (n := n)
    exact_mod_cast below

theorem ratio_bounds {num den : Nat} (positive : 0 < num) (positive' : 0 < den) :
    (2 : ℚ) ^ ((num.log2 : Int) - den.log2 - 1) ≤ num / den ∧
      (num : ℚ) / den < 2 ^ ((num.log2 : Int) - den.log2 + 1) := by
  obtain ⟨low, high⟩ := log2_bounds positive
  obtain ⟨low', high'⟩ := log2_bounds positive'
  have den_pos : (0 : ℚ) < den := by exact_mod_cast positive'
  constructor
  · rw [le_div_iff₀ den_pos]
    calc (2 : ℚ) ^ ((num.log2 : Int) - den.log2 - 1) * den
      _ ≤ 2 ^ ((num.log2 : Int) - den.log2 - 1) * 2 ^ ((den.log2 : Int) + 1) :=
        mul_le_mul_of_nonneg_left (le_of_lt high') (zpow_nonneg two_pos.le _)
      _ = 2 ^ (num.log2 : Int) := by
        rw [← zpow_add₀ two_ne_zero]
        congr 1
        omega
      _ ≤ num := low
  · rw [div_lt_iff₀ den_pos]
    calc (num : ℚ)
      _ < 2 ^ ((num.log2 : Int) + 1) := high
      _ = 2 ^ ((num.log2 : Int) - den.log2 + 1) * 2 ^ (den.log2 : Int) := by
        rw [← zpow_add₀ two_ne_zero]
        congr 1
        omega
      _ ≤ 2 ^ ((num.log2 : Int) - den.log2 + 1) * den :=
        mul_le_mul_of_nonneg_left low' (zpow_nonneg two_pos.le _)

theorem top_bounds {num den : Nat} (positive : 0 < num) (positive' : 0 < den) :
    (2 : ℚ) ^ top num den ≤ num / den ∧ (num : ℚ) / den < 2 ^ (top num den + 1) := by
  obtain ⟨low, high⟩ := ratio_bounds positive positive'
  have estimated (k : Int) : num * Nat.pow 2 (-k).toNat < den * Nat.pow 2 k.toNat ↔ (num : ℚ) / den < 2 ^ k := by
    have units : (0 : ℚ) < ((den * Nat.pow 2 k.toNat : Nat) : ℚ) := by
      exact_mod_cast Nat.mul_pos positive' (Nat.pow_pos two_pos)
    rw [← Nat.cast_lt (α := ℚ), ← div_lt_one₀ units, shift_div, zpow_neg, ← div_eq_mul_inv,
      div_lt_one₀ (zpow_pos two_pos k)]
  unfold top
  dsimp only
  split
  next less => exact ⟨low, by rw [Int.sub_add_cancel]; exact (estimated _).mp less⟩
  next least => exact ⟨le_of_not_gt (mt (estimated _).mpr least), high⟩

theorem num_pos {num den significand : Nat} {exponent : Int} (some : 0 < significand)
    (same : (num : ℚ) / den = significand * 2 ^ exponent) : 0 < num := by
  refine Nat.pos_of_ne_zero fun zero => ?_
  have positive : (0 : ℚ) < significand * 2 ^ exponent := mul_pos (by exact_mod_cast some) (zpow_pos two_pos _)
  rw [← same, zero, Nat.cast_zero, zero_div] at positive
  exact lt_irrefl _ positive

theorem top_eq {num den significand : Nat} {exponent : Int} (positive : 0 < den) (some : 0 < significand)
    (same : (num : ℚ) / den = significand * 2 ^ exponent) : top num den = significand.log2 + exponent := by
  obtain ⟨low, high⟩ := log2_bounds some
  have unit : (0 : ℚ) < 2 ^ exponent := zpow_pos two_pos exponent
  obtain ⟨least, most⟩ := top_bounds (num_pos some same) positive
  rw [same] at least most
  have above : (2 : ℚ) ^ (significand.log2 + exponent) ≤ significand * 2 ^ exponent := by
    rw [zpow_add₀ two_ne_zero]
    exact mul_le_mul_of_nonneg_right low unit.le
  have below : (significand : ℚ) * 2 ^ exponent < 2 ^ (significand.log2 + exponent + 1) := by
    rw [Int.add_right_comm, zpow_add₀ two_ne_zero]
    exact mul_lt_mul_of_pos_right high unit
  have first := (zpow_lt_zpow_iff_right₀ one_lt_two).mp (lt_of_le_of_lt least below)
  have second := (zpow_lt_zpow_iff_right₀ one_lt_two).mp (lt_of_le_of_lt above most)
  omega

/-- A number of the format, in the smallest units in which its significand fits. -/
theorem nearest_exact {num den significand : Nat} {exponent : Int} (positive : 0 < den) (some : 0 < significand)
    (same : (num : ℚ) / den = significand * 2 ^ exponent) (fits : significand.log2 ≤ format.fraction)
    (least : format.leastExponent ≤ exponent) {unit : Int}
    (smallest : unit = max (significand.log2 + exponent - format.fraction) format.leastExponent) :
    format.nearest num den = min (format.pack (significand * 2 ^ (exponent - unit).toNat) unit) format.infinity := by
  have units : 0 < den * Nat.pow 2 unit.toNat := Nat.mul_pos positive (Nat.pow_pos two_pos)
  have below : ((exponent - unit).toNat : Int) = exponent + -unit := by omega
  have exact : num * Nat.pow 2 (-unit).toNat =
      significand * 2 ^ (exponent - unit).toNat * (den * Nat.pow 2 unit.toNat) := by
    have quotient := shift_div num den unit
    rw [same, mul_assoc, ← zpow_add₀ two_ne_zero, ← below, zpow_natCast,
      div_eq_iff (by exact_mod_cast Nat.pos_iff_ne_zero.mp units)] at quotient
    exact_mod_cast quotient
  rw [nearest_eq format den (num_pos some same), top_eq positive some same, ← smallest]
  dsimp only
  rw [exact, roundDiv_mul _ units]

theorem binade_pos : 0 < format.binade := Nat.pow_pos two_pos

/-- Only in the least units is a significand below the least power of two. -/
structure Normal (significand : Nat) (exponent : Int) : Prop where
  least : format.leastExponent ≤ exponent
  fits : significand < 2 * format.binade
  whole : exponent = format.leastExponent ∨ format.binade ≤ significand

theorem normal_unpack (magnitude : Nat) :
    format.Normal (format.unpack magnitude).1 (format.unpack magnitude).2 := by
  have low := Nat.mod_lt magnitude format.binade_pos
  unfold unpack
  dsimp only
  split
  · exact ⟨le_refl _, by omega, .inl rfl⟩
  · exact ⟨by omega, by omega, .inr (Nat.le_add_right _ _)⟩

theorem pack_unpack (magnitude : Nat) :
    format.pack (format.unpack magnitude).1 (format.unpack magnitude).2 = magnitude := by
  have parts := Nat.div_add_mod magnitude format.binade
  unfold unpack pack
  dsimp only
  split
  next zero =>
    rw [zero, Nat.mul_zero] at parts
    simpa using parts
  next field =>
    have binades : (format.leastExponent + ((magnitude / format.binade - 1 : Nat) : Int) - format.leastExponent).toNat =
        magnitude / format.binade - 1 := by omega
    rw [binades, ← Nat.add_assoc, Nat.sub_one_mul, Nat.sub_add_cancel (Nat.le_mul_of_pos_left _ (Nat.pos_of_ne_zero field)),
      Nat.mul_comm]
    exact parts

theorem unpack_pack {significand : Nat} {exponent : Int} (normal : format.Normal significand exponent) :
    format.unpack (format.pack significand exponent) = (significand, exponent) := by
  obtain ⟨least, fits, whole⟩ := normal
  have positive := format.binade_pos
  obtain ⟨binades, rfl⟩ : ∃ binades : Nat, exponent = format.leastExponent + binades :=
    ⟨(exponent - format.leastExponent).toNat, by omega⟩
  have shifted : (format.leastExponent + (binades : Int) - format.leastExponent).toNat = binades := by omega
  unfold unpack pack
  dsimp only
  rw [shifted]
  rcases Nat.lt_or_ge significand format.binade with subnormal | large
  · obtain rfl : binades = 0 := by omega
    rw [Nat.zero_mul, Nat.zero_add, Nat.div_eq_of_lt subnormal, Nat.mod_eq_of_lt subnormal, if_pos rfl, Nat.cast_zero,
      Int.add_zero]
  · obtain ⟨low, rfl⟩ := Nat.exists_eq_add_of_le large
    have field : (binades * format.binade + (format.binade + low)) / format.binade = binades + 1 := by
      rw [← Nat.add_assoc, ← Nat.succ_mul, Nat.mul_comm, Nat.mul_add_div positive, Nat.div_eq_of_lt (by omega)]
    have rest : (binades * format.binade + (format.binade + low)) % format.binade = low := by
      rw [← Nat.add_assoc, ← Nat.succ_mul, Nat.mul_comm, Nat.mul_add_mod, Nat.mod_eq_of_lt (by omega)]
    rw [field, rest, if_neg (Nat.succ_ne_zero _)]
    rfl

/-- The number that a finite magnitude stands for. -/
def value (magnitude : Nat) : ℚ := (format.unpack magnitude).1 * 2 ^ (format.unpack magnitude).2

theorem log2_eq_fraction {n : Nat} (low : format.binade ≤ n) (high : n < 2 * format.binade) :
    n.log2 = format.fraction := by
  have positive : n ≠ 0 := Nat.pos_iff_ne_zero.mp (Nat.lt_of_lt_of_le format.binade_pos low)
  have above := (Nat.le_log2 positive).mpr low
  have below := (Nat.log2_lt positive).mpr (show n < 2 ^ (format.fraction + 1) by rwa [Nat.pow_succ'])
  omega

theorem log2_le_fraction {n : Nat} (high : n < 2 * format.binade) : n.log2 ≤ format.fraction := by
  rcases Nat.eq_zero_or_pos n with rfl | positive
  · simp
  · have below := (Nat.log2_lt (Nat.pos_iff_ne_zero.mp positive)).mpr
      (show n < 2 ^ (format.fraction + 1) by rwa [Nat.pow_succ'])
    omega

theorem nearest_zero {num den : Nat} (positive : 0 < den) (zero : (num : ℚ) / den = 0) : format.nearest num den = 0 := by
  refine if_pos ?_
  rcases div_eq_zero_iff.mp zero with zero | nothing
  · exact_mod_cast zero
  · exact absurd nothing (by exact_mod_cast Nat.pos_iff_ne_zero.mp positive)

/-- Rounding leaves the numbers of the format alone. -/
theorem nearest_value {num den magnitude : Nat} (positive : 0 < den) (finite : magnitude < format.infinity)
    (same : (num : ℚ) / den = format.value magnitude) : format.nearest num den = magnitude := by
  have normal := format.normal_unpack magnitude
  have packed := format.pack_unpack magnitude
  unfold value at same
  generalize format.unpack magnitude = parts at normal packed same
  obtain ⟨significand, exponent⟩ := parts
  dsimp only at normal packed same
  rcases Nat.eq_zero_or_pos significand with rfl | some
  · rw [Nat.cast_zero, zero_mul] at same
    have least : exponent = format.leastExponent :=
      normal.whole.resolve_right (Nat.not_le_of_lt format.binade_pos)
    rw [format.nearest_zero positive same, ← packed, pack, least]
    simp
  · have smallest : exponent = max (significand.log2 + exponent - format.fraction) format.leastExponent := by
      have fits := format.log2_le_fraction normal.fits
      have least := normal.least
      rcases normal.whole with least' | large
      · omega
      · rw [format.log2_eq_fraction large normal.fits]
        omega
    rw [format.nearest_exact positive some same (format.log2_le_fraction normal.fits) normal.least smallest, Int.sub_self,
      Int.toNat_zero, Nat.pow_zero, Nat.mul_one, packed, Nat.min_eq_left (Nat.le_of_lt finite)]

theorem scaled_div (significand : Nat) (exponent : Int) :
    ((scaled 2 significand exponent).1 : ℚ) / (scaled 2 significand exponent).2 = significand * 2 ^ exponent := by
  have quotient := shift_div significand 1 (-exponent)
  rw [Int.neg_neg, Nat.one_mul, Nat.cast_one, div_one] at quotient
  exact quotient

theorem scaled_pos (significand : Nat) (exponent : Int) : 0 < (scaled 2 significand exponent).2 := Nat.pow_pos two_pos

theorem value_pack {significand : Nat} {exponent : Int} (normal : format.Normal significand exponent) :
    format.value (format.pack significand exponent) = significand * 2 ^ exponent := by
  rw [value, format.unpack_pack normal]

theorem exponent_single {magnitude : Nat} (finite : magnitude < single.infinity) : (single.unpack magnitude).2 ≤ 104 := by
  have field : magnitude / single.binade < 255 := (Nat.div_lt_iff_lt_mul single.binade_pos).mpr finite
  have least : single.leastExponent = -149 := by decide
  unfold unpack
  dsimp only
  split <;> omega

theorem nearest_widened {num den magnitude : Nat} (positive : 0 < den) (finite : magnitude < single.infinity)
    (same : (num : ℚ) / den = single.value magnitude) :
    double.nearest num den < double.infinity ∧ double.value (double.nearest num den) = single.value magnitude := by
  obtain ⟨least, fits, -⟩ := single.normal_unpack magnitude
  have most := exponent_single finite
  have stands : single.value magnitude = (single.unpack magnitude).1 * 2 ^ (single.unpack magnitude).2 := rfl
  rw [stands] at same ⊢
  generalize single.unpack magnitude = parts at least most fits same
  obtain ⟨significand, exponent⟩ := parts
  dsimp only at least most fits same ⊢
  rw [show single.leastExponent = -149 by decide] at least
  rcases Nat.eq_zero_or_pos significand with rfl | some
  · rw [Nat.cast_zero, zero_mul] at same ⊢
    rw [double.nearest_zero positive same]
    exact ⟨by decide, by rw [value, show double.unpack 0 = (0, -1074) by decide]; simp⟩
  · have digits : significand.log2 ≤ 23 := single.log2_le_fraction fits
    have lowest : double.leastExponent = -1074 := by decide
    -- The wide format has room for 29 more digits, and 52 are wanted in front of the unit.
    have smallest : exponent - (52 - significand.log2 : Nat) =
        max (significand.log2 + exponent - double.fraction) double.leastExponent := by
      rw [lowest, show double.fraction = 52 by rfl]
      omega
    have binade : double.binade = 2 ^ 52 := rfl
    have enough := Nat.log2_self_le (Nat.pos_iff_ne_zero.mp some)
    have bounded := Nat.lt_log2_self (n := significand)
    have low : 2 ^ 52 ≤ significand * 2 ^ (52 - significand.log2) := by
      calc 2 ^ 52
        _ = 2 ^ significand.log2 * 2 ^ (52 - significand.log2) := by rw [← Nat.pow_add]; congr 1; omega
        _ ≤ significand * 2 ^ (52 - significand.log2) := Nat.mul_le_mul_right _ enough
    have high : significand * 2 ^ (52 - significand.log2) < 2 * 2 ^ 52 := by
      calc significand * 2 ^ (52 - significand.log2)
        _ < 2 ^ (significand.log2 + 1) * 2 ^ (52 - significand.log2) :=
          Nat.mul_lt_mul_of_pos_right bounded (Nat.pow_pos two_pos)
        _ = 2 * 2 ^ 52 := by rw [← Nat.pow_add, ← Nat.pow_succ']; congr 1; omega
    have normal : double.Normal (significand * 2 ^ (52 - significand.log2)) (exponent - (52 - significand.log2 : Nat)) :=
      ⟨by omega, high, .inr low⟩
    have rounded := double.nearest_exact positive some same (Nat.le_trans digits (by decide)) (by omega) smallest
    rw [show (exponent - (exponent - ((52 - significand.log2 : Nat) : Int))).toNat = 52 - significand.log2 by omega] at rounded
    have finite : double.pack (significand * 2 ^ (52 - significand.log2)) (exponent - (52 - significand.log2 : Nat)) <
        double.infinity := by
      rw [pack, lowest, binade, show double.infinity = 2047 * 2 ^ 52 by rfl]
      omega
    rw [rounded, Nat.min_eq_left (Nat.le_of_lt finite), double.value_pack normal]
    refine ⟨finite, ?_⟩
    push_cast
    rw [mul_assoc, ← zpow_natCast, ← zpow_add₀ two_ne_zero]
    congr 2
    omega

end Format

namespace Double

section
variable (negative : Bool) {magnitude : Nat} (small : magnitude < Nat.pow 2 63)
include small

theorem bits_ofMagnitude :
    (ofMagnitude negative magnitude).bits.toNat = (if negative then Nat.pow 2 63 else 0) + magnitude := by
  refine UInt64.toNat_ofNat_of_lt' ?_
  simp only [Nat.pow_eq, UInt64.size] at small ⊢
  split <;> omega

theorem magnitude_ofMagnitude : (ofMagnitude negative magnitude).magnitude = magnitude := by
  rw [Double.magnitude, bits_ofMagnitude negative small]
  simp only [Nat.pow_eq] at small ⊢
  split <;> omega

theorem isNegative_ofMagnitude : (ofMagnitude negative magnitude).isNegative = negative := by
  rw [isNegative, bits_ofMagnitude negative small]
  cases negative with
  | true => exact decide_eq_true (Nat.le_add_right _ _)
  | false =>
    rw [if_neg Bool.false_ne_true, Nat.zero_add]
    exact decide_eq_false (Nat.not_le_of_lt small)

end

theorem ratio_div (x : Double) : (x.ratio.1 : ℚ) / x.ratio.2 = Format.double.value x.magnitude :=
  Format.scaled_div _ _

end Double

namespace Single

theorem ofMagnitude_magnitude (x : Single) : ofMagnitude x.isNegative x.magnitude = x := by
  obtain ⟨bits⟩ := x
  have bound := bits.toNat_lt
  have same : ofMagnitude (isNegative ⟨bits⟩) (magnitude ⟨bits⟩) = ⟨UInt32.ofNat bits.toNat⟩ := by
    unfold ofMagnitude isNegative magnitude
    congr 2
    simp only [Nat.pow_eq, decide_eq_true_eq] at bound ⊢
    split <;> omega
  rw [same, UInt32.ofNat_toNat]

section
variable {x : Single}

theorem isNaN_of_isFinite (finite : x.isFinite = true) : x.isNaN = false := by
  simp only [isFinite, isNaN, decide_eq_true_eq, decide_eq_false_iff_not] at *
  omega

theorem widen_of_isFinite (finite : x.isFinite = true) : ∃ wide, x.widen = .ofMagnitude x.isNegative wide ∧
    wide < Format.double.infinity ∧ Format.double.value wide = Format.single.value x.magnitude := by
  refine ⟨_, ?_, Format.nearest_widened (Format.scaled_pos _ _) (of_decide_eq_true finite) (Format.scaled_div _ _)⟩
  rw [widen, isNaN_of_isFinite finite, finite]
  rfl

theorem isFinite_widen (x : Single) : x.widen.isFinite = x.isFinite := by
  cases finite : x.isFinite with
  | true =>
    obtain ⟨wide, widened, bounded, -⟩ := widen_of_isFinite finite
    rw [widened, Double.isFinite, Double.magnitude_ofMagnitude _ (Nat.lt_trans bounded (by decide))]
    exact decide_eq_true bounded
  | false =>
    rw [widen, finite]
    split
    · rw [Double.isFinite, Double.magnitude_ofMagnitude _ (by decide)]
      decide
    · rw [if_neg Bool.false_ne_true, Double.isFinite, Double.magnitude_ofMagnitude _ (by decide)]
      decide

/-- No bit of a finite number is lost on the way through the wide format. -/
theorem narrow_widen (finite : x.isFinite = true) : x.widen.narrow = x := by
  obtain ⟨wide, widened, bounded, same⟩ := widen_of_isFinite finite
  have small : wide < Nat.pow 2 63 := Nat.lt_trans bounded (by decide)
  have magnitude := Double.magnitude_ofMagnitude x.isNegative small
  have finite' : x.widen.isFinite = true := (isFinite_widen x).trans finite
  have rounded : Format.single.nearest x.widen.ratio.1 x.widen.ratio.2 = x.magnitude := by
    refine Format.nearest_value _ (Format.scaled_pos _ _) (of_decide_eq_true finite) ?_
    rw [Double.ratio_div, widened, magnitude, same]
  rw [Double.narrow, Double.isNaN_of_isFinite finite', finite', if_neg Bool.false_ne_true, if_pos rfl, rounded, widened,
    Double.isNegative_ofMagnitude _ small]
  exact ofMagnitude_magnitude x

end

end Single

end UnitOfWork
