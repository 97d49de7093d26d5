import Mathlib.Algebra.Order.Field.Power
import Mathlib.Data.Int.Log
import Mathlib.Data.Nat.Cast.Field
import Mathlib.Data.Rat.Floor
import Mathlib.Tactic.FieldSimp
import Mathlib.Tactic.Linarith
import Mathlib.Tactic.Positivity
import Mathlib.Tactic.Ring
import MarkupMachine.Number.Binary64

/-! Rounding of ratios. The exponent that a ratio is rounded at is read off its binary logarithm; a
ratio that is a number already is left as it is, and one below `2 ^ 1023` does not overflow. -/

namespace MarkupMachine

theorem roundRatio_mul (n : Nat) {den : Nat} (pos : 0 < den) : roundRatio (n * den) den = n := by
  simp [roundRatio, pos]

theorem roundRatio_bounds (num den : Nat) :
    num / den ≤ roundRatio num den ∧ roundRatio num den ≤ num / den + 1 := by
  unfold roundRatio
  dsimp only
  split_ifs <;> omega

namespace Binary64

variable {num den significand : Nat} {exponent : Int}

section Scaling

def magnitude (significand : Nat) (exponent : Int) : ℚ := significand * 2 ^ exponent

theorem magnitude_eq_zero_iff : magnitude significand exponent = 0 ↔ significand = 0 := by
  have scale : (2 : ℚ) ^ exponent ≠ 0 := by positivity
  simp [magnitude, scale]

theorem cast_pow_toNat (nonneg : 0 ≤ exponent) :
    ((Nat.pow 2 exponent.toNat : Nat) : ℚ) = 2 ^ exponent := by
  rw [Nat.pow_eq, Nat.cast_pow, ← zpow_natCast, Int.toNat_of_nonneg nonneg]
  rfl

theorem pow_toNat_pos (exponent : Int) : 0 < Nat.pow 2 exponent.toNat :=
  Nat.pow_pos (by decide)

theorem scaleDown_eq (num : Nat) (pos : 0 < den) (exponent : Int) :
    0 < (scaleDown num den exponent).2 ∧
      ((scaleDown num den exponent).1 : ℚ) / (scaleDown num den exponent).2 =
        num / den / 2 ^ exponent := by
  unfold scaleDown
  split_ifs with below
  · refine ⟨pos, ?_⟩
    rw [Nat.cast_mul, cast_pow_toNat (by omega), zpow_neg]
    ring
  · refine ⟨Nat.mul_pos pos (pow_toNat_pos exponent), ?_⟩
    rw [Nat.cast_mul, cast_pow_toNat (by omega), div_div]

theorem ratio_eq (significand : Nat) (exponent : Int) :
    0 < (ratio significand exponent).2 ∧
      ((ratio significand exponent).1 : ℚ) / (ratio significand exponent).2 =
        magnitude significand exponent := by
  unfold ratio magnitude
  split_ifs with below
  · refine ⟨pow_toNat_pos (-exponent), ?_⟩
    rw [cast_pow_toNat (by omega), zpow_neg, div_inv_eq_mul]
  · refine ⟨Nat.one_pos, ?_⟩
    rw [Nat.cast_mul, cast_pow_toNat (by omega), Nat.cast_one, div_one]

end Scaling

section Exponents

def logarithm (num den : Nat) : Int := Int.log 2 ((num : ℚ) / den)

variable (pos : 0 < num) (pos' : 0 < den)

include pos pos'

theorem logarithm_lt_iff {k : Int} : logarithm num den < k ↔ (num : ℚ) / den < 2 ^ k := by
  have positive : (0 : ℚ) < num / den := by positivity
  exact_mod_cast (Int.lt_zpow_iff_log_lt (b := 2) (by decide) positive).symm

theorem le_logarithm_iff {k : Int} : k ≤ logarithm num den ↔ (2 : ℚ) ^ k ≤ num / den := by
  have positive : (0 : ℚ) < num / den := by positivity
  exact_mod_cast (Int.zpow_le_iff_le_log (b := 2) (by decide) positive).symm

/-- The logarithms of the parts of a ratio leave two choices for its own. -/
theorem logarithm_bounds :
    (num.log2 : Int) - den.log2 - 1 ≤ logarithm num den ∧
      logarithm num den ≤ (num.log2 : Int) - den.log2 := by
  have low : ((2 ^ num.log2 : Nat) : ℚ) ≤ num := Nat.cast_le.mpr (Nat.log2_self_le (by omega))
  have high : (num : ℚ) < ((2 ^ (num.log2 + 1) : Nat) : ℚ) := Nat.cast_lt.mpr Nat.lt_log2_self
  have low' : ((2 ^ den.log2 : Nat) : ℚ) ≤ den := Nat.cast_le.mpr (Nat.log2_self_le (by omega))
  have high' : (den : ℚ) < ((2 ^ (den.log2 + 1) : Nat) : ℚ) := Nat.cast_lt.mpr Nat.lt_log2_self
  have positive : (0 : ℚ) < den := Nat.cast_pos.mpr pos'
  constructor
  · rw [le_logarithm_iff pos pos', le_div_iff₀ positive]
    calc (2 : ℚ) ^ ((num.log2 : Int) - den.log2 - 1) * den
        ≤ 2 ^ ((num.log2 : Int) - den.log2 - 1) * ((2 ^ (den.log2 + 1) : Nat) : ℚ) := by
          gcongr
      _ = ((2 ^ num.log2 : Nat) : ℚ) := by
          push_cast
          rw [← zpow_natCast, ← zpow_add₀ two_ne_zero, ← zpow_natCast]
          congr 1
          push_cast
          ring
      _ ≤ num := low
  · rw [← Int.lt_add_one_iff, logarithm_lt_iff pos pos', div_lt_iff₀ positive]
    calc (num : ℚ) < ((2 ^ (num.log2 + 1) : Nat) : ℚ) := high
      _ = 2 ^ ((num.log2 : Int) - den.log2 + 1) * ((2 ^ den.log2 : Nat) : ℚ) := by
          push_cast
          rw [← zpow_natCast, ← zpow_natCast, ← zpow_add₀ two_ne_zero]
          congr 1
          push_cast
          ring
      _ ≤ 2 ^ ((num.log2 : Int) - den.log2 + 1) * den := by gcongr

theorem scaled_lt_iff (exponent : Int) (bits : Nat) :
    (scaleDown num den exponent).1 / (scaleDown num den exponent).2 < 2 ^ bits ↔
      logarithm num den < bits + exponent := by
  obtain ⟨positive, value⟩ := scaleDown_eq num pos' exponent
  have positive' : (0 : ℚ) < (scaleDown num den exponent).2 := Nat.cast_pos.mpr positive
  have scale : (0 : ℚ) < 2 ^ exponent := by positivity
  rw [Nat.div_lt_iff_lt_mul positive, ← Nat.cast_lt (α := ℚ), Nat.cast_mul,
    ← div_lt_iff₀ positive', value, div_lt_iff₀ scale, logarithm_lt_iff pos pos',
    zpow_add₀ two_ne_zero, zpow_natCast]
  norm_cast

theorem exponentFor_eq : exponentFor num den = max (-1074) (logarithm num den - 52) := by
  obtain ⟨low, high⟩ := logarithm_bounds pos pos'
  unfold exponentFor
  dsimp only
  split_ifs with below
  · rw [Nat.pow_eq, scaled_lt_iff pos pos'] at below
    push_cast at below
    congr 1
    omega
  · rw [Nat.pow_eq, scaled_lt_iff pos pos'] at below
    push_cast at below
    congr 1
    omega

theorem exponentFor_of_magnitude (canonical : Canonical significand exponent)
    (value : (num : ℚ) / den = magnitude significand exponent) :
    exponentFor num den = exponent := by
  obtain ⟨small, least, -, filled⟩ := canonical
  rw [Nat.pow_eq] at small filled
  have scale : (0 : ℚ) < 2 ^ exponent := by positivity
  have above : logarithm num den < 53 + exponent := by
    rw [logarithm_lt_iff pos pos', value, magnitude, zpow_add₀ two_ne_zero]
    gcongr
    exact_mod_cast small
  rw [exponentFor_eq pos pos']
  rcases filled with filled | rfl
  · have below : 52 + exponent ≤ logarithm num den := by
      rw [le_logarithm_iff pos pos', value, magnitude, zpow_add₀ two_ne_zero]
      gcongr
      exact_mod_cast filled
    omega
  · omega

end Exponents

section Numbers

variable (negative : Bool) (pos : 0 < den)

include pos

theorem ofRatio_of_magnitude (canonical : Canonical significand exponent)
    (value : (num : ℚ) / den = magnitude significand exponent) :
    ofRatio negative num den = .finite negative significand exponent canonical := by
  rcases Nat.eq_zero_or_pos num with rfl | some
  · obtain rfl : significand = 0 := magnitude_eq_zero_iff.mp (value.symm.trans (by simp))
    obtain rfl : exponent = -1074 := canonical.2.2.2.resolve_left (by decide)
    rfl
  · obtain ⟨positive, scaled⟩ := scaleDown_eq num pos exponent
    have whole : (scaleDown num den exponent).1 = significand * (scaleDown num den exponent).2 := by
      have positive' : ((scaleDown num den exponent).2 : ℚ) ≠ 0 := by positivity
      have scale : (2 : ℚ) ^ exponent ≠ 0 := by positivity
      rw [value, magnitude, mul_div_assoc, div_self scale, mul_one, div_eq_iff positive'] at scaled
      exact_mod_cast scaled
    have fits : significand ≠ Nat.pow 2 53 := Nat.ne_of_lt canonical.1
    unfold ofRatio
    rw [if_neg (Nat.pos_iff_ne_zero.mp some)]
    dsimp only
    rw [exponentFor_of_magnitude some pos canonical value, whole, roundRatio_mul _ positive,
      if_neg fits, pack, dif_pos canonical]

theorem ofRatio_isFinite {bits : Nat} (few : bits ≤ 1023) (small : num < den * 2 ^ bits) :
    (ofRatio negative num den).isFinite = true := by
  rcases Nat.eq_zero_or_pos num with rfl | some
  · rfl
  have below : logarithm num den < bits := by
    rw [logarithm_lt_iff some pos, div_lt_iff₀ (Nat.cast_pos.mpr pos), mul_comm]
    exact_mod_cast small
  have grid := exponentFor_eq some pos
  have upper := (scaled_lt_iff some pos (exponentFor num den) 53).mpr (by push_cast; omega)
  have lower := (scaled_lt_iff some pos (exponentFor num den) 52).not
  have rounded := roundRatio_bounds (scaleDown num den (exponentFor num den)).1
    (scaleDown num den (exponentFor num den)).2
  have packs {significand : Nat} {exponent : Int} (canonical : Canonical significand exponent) :
      (pack negative significand exponent).isFinite = true := by
    rw [pack, dif_pos canonical]
    rfl
  unfold ofRatio
  rw [if_neg (Nat.pos_iff_ne_zero.mp some)]
  dsimp only
  split_ifs with carry
  · exact packs ⟨by decide, by omega, by omega, .inl (Nat.le_refl _)⟩
  · refine packs ⟨Nat.lt_of_le_of_ne (by rw [Nat.pow_eq]; omega) carry, by omega, by omega, ?_⟩
    rw [Nat.pow_eq]
    push_cast at lower
    omega

end Numbers

theorem equal_self_of_isFinite {x : Binary64} (finite : x.isFinite = true) : x.equal x = true := by
  cases x with
  | finite => simp [equal]
  | nan => cases finite
  | infinite => cases finite

/-- A number without a fraction is an integer, of its absolute value and its sign. -/
inductive IsInteger : Binary64 → Int → Prop
  | finite {negative significand exponent canonical} {k : Nat} :
    k = magnitude significand exponent →
    IsInteger (.finite negative significand exponent canonical) (if negative then -(k : Int) else k)

theorem toInt?_eq_some_iff {x : Binary64} {n : Int} : x.toInt? = some n ↔ x.IsInteger n := by
  constructor
  · intro whole
    cases x with
    | nan => cases whole
    | infinite => cases whole
    | finite negative significand exponent canonical =>
      obtain ⟨positive, value⟩ := ratio_eq significand exponent
      simp only [toInt?] at whole
      split at whole
      · rename_i divides
        rw [← Option.some.inj whole]
        refine .finite ?_
        rw [← value, Nat.cast_div (Nat.dvd_of_mod_eq_zero divides) (by positivity)]
      · cases whole
  · rintro @⟨negative, significand, exponent, canonical, k, value⟩
    obtain ⟨positive, ratio⟩ := ratio_eq significand exponent
    have whole : (Binary64.ratio significand exponent).1 =
        k * (Binary64.ratio significand exponent).2 := by
      have positive' : ((Binary64.ratio significand exponent).2 : ℚ) ≠ 0 := by positivity
      rw [← value, div_eq_iff positive'] at ratio
      exact_mod_cast ratio
    simp [toInt?, whole, positive]

theorem ofInt_equal {x : Binary64} {n : Int} (whole : x.toInt? = some n) :
    (ofInt n).equal x = true := by
  cases x with
  | nan => cases whole
  | infinite => cases whole
  | finite negative significand exponent canonical =>
    obtain @⟨_, _, _, _, k, value⟩ := toInt?_eq_some_iff.mp whole
    have size : (if negative then -(k : Int) else k).natAbs = k := by
      split <;> simp
    have ratio : (k : ℚ) / (1 : Nat) = magnitude significand exponent := by
      rw [Nat.cast_one, div_one, value]
    rw [ofInt, size, ofRatio_of_magnitude _ Nat.one_pos canonical ratio]
    rcases Nat.eq_zero_or_pos significand with nothing | some
    · simp [equal, nothing]
    · have some' : 0 < k := by
        have positive : 0 < magnitude significand exponent := by
          unfold magnitude
          positivity
        exact_mod_cast value ▸ positive
      have sign : decide ((if negative then -(k : Int) else k) < 0) = negative := by
        cases negative <;> simp [some']
      simp [equal, sign]

end Binary64
end MarkupMachine
