import ScriptLang.Number.Floating
import Mathlib.Algebra.Order.Field.Power
import Mathlib.Algebra.Order.Field.Rat
import Mathlib.Data.Nat.Log
import Mathlib.Tactic.FieldSimp
import Mathlib.Tactic.Positivity

set_option autoImplicit false

/-! # Rounding keeps numbers from zero

A positive number that is not below the least positive number of a format is not rounded to zero
(`Floating.isZero_ofRatio`). So an integer is zero as a float only if it is zero
(`Floating.isZero_ofInt`), and so is a single as a double (`Floating.isZero_convert`). -/

namespace ScriptLang

/-- A power with an integer exponent, as the fractions of numbers have it. -/
theorem natCast_zpow_eq (base : Nat) (e : Int) :
    (base : ℚ) ^ e = (Nat.pow base e.toNat : Nat) / (Nat.pow base (-e).toNat : Nat) := by
  rcases Int.le_total 0 e with h | h
  · obtain ⟨n, rfl⟩ := Int.eq_ofNat_of_zero_le h
    simp
  · obtain ⟨n, hn⟩ := Int.eq_ofNat_of_zero_le (Int.neg_nonneg_of_nonpos h)
    obtain rfl : e = -(n : Int) := by omega
    simp

/-- A power of two with an integer exponent, as the fractions of the formats have it. -/
theorem two_zpow_eq (e : Int) :
    (2 : ℚ) ^ e = (Nat.pow 2 e.toNat : Nat) / (Nat.pow 2 (-e).toNat : Nat) :=
  natCast_zpow_eq 2 e

/-- Whether a fraction reaches a power of two, without fractions. -/
theorem two_zpow_le_div_iff {num den : Nat} (hden : den ≠ 0) (e : Int) :
    (2 : ℚ) ^ e ≤ num / den ↔ den * Nat.pow 2 e.toNat ≤ num * Nat.pow 2 (-e).toNat := by
  have hpos : (0 : ℚ) < den := by exact_mod_cast Nat.pos_of_ne_zero hden
  have hpow : (0 : ℚ) < (Nat.pow 2 (-e).toNat : Nat) := by
    exact_mod_cast Nat.pow_pos (by decide)
  rw [two_zpow_eq, div_le_div_iff₀ hpow hpos, mul_comm (Nat.cast _)]
  exact_mod_cast Iff.rfl

/-- The exponent that `floorLog2` finds is not too large. -/
theorem two_zpow_floorLog2_le {num den : Nat} (hnum : num ≠ 0) (hden : den ≠ 0) :
    (2 : ℚ) ^ floorLog2 num den ≤ num / den := by
  unfold floorLog2
  dsimp only
  split
  · next h => exact (two_zpow_le_div_iff hden _).2 h
  · have hlow : (2 : ℚ) ^ num.log2 ≤ num := by exact_mod_cast Nat.log2_self_le hnum
    have hhigh : (den : ℚ) ≤ 2 ^ (den.log2 + 1) := by exact_mod_cast Nat.lt_log2_self.le
    have hpos : (0 : ℚ) < den := by exact_mod_cast Nat.pos_of_ne_zero hden
    have hexponent : ((num.log2 : Int) - den.log2 - 1) = num.log2 - (den.log2 + 1 : Nat) := by
      omega
    rw [hexponent, zpow_sub₀ (by norm_num), zpow_natCast, zpow_natCast]
    gcongr

theorem roundHalfEven_pos {num den : Nat} (hden : den ≠ 0) (h : den ≤ num) :
    0 < roundHalfEven num den := by
  have hquotient : 0 < num / den := Nat.div_pos h (Nat.pos_of_ne_zero hden)
  unfold roundHalfEven
  dsimp only
  split
  · exact hquotient
  split
  · exact Nat.succ_pos _
  split
  · exact hquotient
  · exact Nat.succ_pos _

namespace Floating

variable {f : Format}

theorem isZero_ofParts {negative : Bool} {significand : Nat} (h : significand ≠ 0)
    (exponent : Int) : (ofParts negative significand exponent : Floating f).isZero = false := by
  unfold ofParts
  split
  · simpa [isZero] using h
  · rfl

/-- A number not below the least positive one is not rounded to zero. -/
theorem isZero_ofRatio {num den : Nat} (hf : 1 ≤ f.precision) (hden : den ≠ 0)
    (h : (2 : ℚ) ^ f.minExponent ≤ num / den) (negative : Bool) :
    (ofRatio negative num den : Floating f).isZero = false := by
  have hnum : num ≠ 0 := by
    rintro rfl
    have : (0 : ℚ) < 2 ^ f.minExponent := by positivity
    simp only [Nat.cast_zero, zero_div] at h
    exact absurd h (not_le.2 this)
  have hreached : (2 : ℚ) ^ max f.minExponent (floorLog2 num den - (f.precision - 1))
      ≤ num / den := by
    rcases max_choice f.minExponent (floorLog2 num den - (f.precision - 1)) with hmax | hmax
    · rwa [hmax]
    · rw [hmax]
      refine le_trans ?_ (two_zpow_floorLog2_le hnum hden)
      exact zpow_le_zpow_right₀ (by norm_num) (by omega)
  have hsignificand := roundHalfEven_pos
    (Nat.mul_ne_zero hden (Nat.pow_pos (by decide)).ne') ((two_zpow_le_div_iff hden _).1 hreached)
  unfold ofRatio
  rw [if_neg hnum]
  dsimp only
  split
  · next hfull =>
    refine isZero_ofParts ?_ _
    rw [hfull]
    obtain ⟨p, hp⟩ := Nat.exists_eq_add_of_le' hf
    rw [hp]
    exact (Nat.div_pos (Nat.le_self_pow (Nat.succ_ne_zero p) 2) (by decide)).ne'
  · exact isZero_ofParts hsignificand.ne' _

theorem scaled_eq (significand : Nat) (exponent : Int) :
    scaled significand exponent = significand * (2 : ℚ) ^ exponent := by
  rw [scaled, Rat.mkRat_eq_div, two_zpow_eq, ← mul_div_assoc]
  push_cast
  rfl

/-- An integer other than zero is not rounded to zero. -/
theorem isZero_ofInt {n : Int} (h : n ≠ 0) : (ofInt n : Single).isZero = false := by
  refine isZero_ofRatio (by decide) Nat.one_ne_zero ?_ _
  rw [two_zpow_le_div_iff Nat.one_ne_zero]
  have hpos : 0 < n.natAbs := Int.natAbs_pos.2 h
  exact Nat.mul_le_mul (Nat.succ_le_of_lt hpos) Nat.one_le_two_pow

/-- A single other than zero is another double than zero. -/
theorem isZero_convert {x : Single} (h : x.isZero = false) :
    (x.convert : Double).isZero = false := by
  match x, h with
  | .nan, _ => rfl
  | .infinite _, _ => rfl
  | .finite negative significand exponent hcanonical, h =>
    have hsignificand : significand ≠ 0 := by simpa [isZero] using h
    have hleast : (2 : ℚ) ^ (-1074 : Int) ≤ scaled significand exponent := by
      have hone : (1 : ℚ) ≤ significand := by exact_mod_cast Nat.pos_of_ne_zero hsignificand
      have hexponent : (2 : ℚ) ^ (-1074 : Int) ≤ 2 ^ exponent :=
        zpow_le_zpow_right₀ (by norm_num) (le_trans (by decide) hcanonical.2.1)
      rw [scaled_eq]
      exact hexponent.trans (le_mul_of_one_le_left (by positivity) hone)
    have hpos : 0 < scaled significand exponent := lt_of_lt_of_le (by positivity) hleast
    refine isZero_ofRatio (by decide) (Rat.den_nz _) ?_ _
    have hnum : ((scaled significand exponent).num.natAbs : ℚ)
        = (scaled significand exponent).num := by
      rw [← Int.cast_natCast, Int.natAbs_of_nonneg (Rat.num_pos.2 hpos).le]
    rw [hnum, Rat.num_div_den]
    exact hleast

end Floating

end ScriptLang
