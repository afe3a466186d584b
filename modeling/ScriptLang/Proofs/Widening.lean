import ScriptLang.Proofs.DoubleRounding
import ScriptLang.Proofs.ShownFloats

set_option autoImplicit false

/-! # Numbers in a wider format

Every number of a format is a number of each format around it (`Format.IsWithin`), so converting it
there keeps its value (`Floating.exists_convert_eq`), and converting it back gives the number again
(`Floating.convert_convert`). Singles are doubles, and so the difference of zero and a single is the
single with the other sign, except for a zero (`Single.zero_sub`). -/

namespace ScriptLang

namespace Format

/-- Whether the numbers of `f` are numbers of `g`: those have as many bits, and exponents that reach
as far on both sides. -/
structure IsWithin (f g : Format) : Prop where
  one_le_precision : 1 ≤ f.precision
  precision_le : f.precision ≤ g.precision
  le_minExponent : g.minExponent ≤ f.minExponent
  min_le_max : f.minExponent ≤ f.maxExponent
  maxExponent_le : f.maxExponent ≤ g.maxExponent

theorem single_isWithin_double : single.IsWithin double := by
  constructor <;> decide

variable {f g : Format} {n : Nat} {e : Int}

/-- A multiple of a unit that has no more bits than the format is nearest to itself. -/
theorem nearest_self (hf : 1 ≤ f.precision) (hn : n ≠ 0) (hle : n ≤ 2 ^ f.precision)
    (he : f.minExponent ≤ e) : f.Nearest (n * 2 ^ e) (n * 2 ^ e) := by
  rcases hle.lt_or_eq with hlt | rfl
  · obtain ⟨num, den, hnum, hden, hq⟩ := exists_div_eq (natCast_mul_two_zpow_pos hn e)
    obtain ⟨e', m, hunit, -⟩ := f.exists_hasUnit_isNearest hnum hden
    rw [← hq] at hunit
    -- the unit of the number is not larger than `2 ^ e`, so that the number is a multiple of it
    have hunits : e' ≤ e := by
      rcases hunit.le_or_min with hstart | rfl
      · have hlt : (n : ℚ) < 2 ^ f.precision := by exact_mod_cast hlt
        have hend : (n : ℚ) * 2 ^ e < 2 ^ (f.precision + e) := by
          rw [zpow_add₀ (by norm_num), zpow_natCast]
          gcongr
        have := (zpow_lt_zpow_iff_right₀ (by norm_num)).1 (hstart.trans_lt hend)
        omega
      · exact he
    obtain ⟨i, hi⟩ := exists_mul_two_zpow n hunits
    rw [hi] at hunit ⊢
    refine ⟨e', i, hunit, ?_, rfl⟩
    rw [mul_div_cancel_right₀ _ (by positivity)]
    exact isNearest_natCast i
  · have hpower : ((2 ^ f.precision : Nat) : ℚ) * 2 ^ e = 2 ^ (f.precision + e) := by
      rw [zpow_add₀ (by norm_num), zpow_natCast]
      push_cast
      rfl
    rw [hpower]
    exact nearest_two_zpow hf (by omega)

theorem Canonical.nearest_of_isWithin (hfg : f.IsWithin g) (h : f.Canonical n e) (hn : n ≠ 0) :
    g.Nearest (n * 2 ^ e) (n * 2 ^ e) :=
  nearest_self (hfg.one_le_precision.trans hfg.precision_le) hn
    (h.1.le.trans (Nat.pow_le_pow_right (by decide) hfg.precision_le))
    (hfg.le_minExponent.trans h.2.1)

/-- A number of the narrower format has a significand and an exponent in the wider one. -/
theorem Canonical.exists_of_isWithin (hfg : f.IsWithin g) (h : f.Canonical n e) (hn : n ≠ 0) :
    ∃ m k, g.Canonical m k ∧ m ≠ 0 ∧ (n : ℚ) * 2 ^ e = m * 2 ^ k := by
  obtain ⟨hone, hprecision, hmin, hrange, hmax⟩ := hfg
  have hlt : (n : ℚ) * 2 ^ e < 2 ^ (g.maxExponent + g.precision) :=
    h.lt.trans_le (zpow_le_zpow_right₀ (by norm_num) (by omega))
  obtain ⟨m, k, hcanonical, hvalue⟩ := Nearest.exists_canonical (by omega) (by omega)
    (h.nearest_of_isWithin ⟨hone, hprecision, hmin, hrange, hmax⟩ hn) hlt
  refine ⟨m, k, hcanonical, ?_, hvalue⟩
  rintro rfl
  have := natCast_mul_two_zpow_pos hn e
  rw [hvalue] at this
  simp at this

end Format

namespace Floating

variable {f g : Format}

theorem canonical_zero (hf : f.minExponent ≤ f.maxExponent) : f.Canonical 0 f.minExponent :=
  ⟨Nat.pow_pos (by decide), le_rfl, hf, .inr rfl⟩

/-- A significand of zero makes a zero. -/
theorem eq_zero_of_canonical {e : Int} (h : f.Canonical 0 e) (negative : Bool) :
    (.finite negative 0 e h : Floating f) = zero negative := by
  obtain rfl : e = f.minExponent := h.2.2.2.resolve_left
    (Nat.not_le.2 (Nat.pow_pos (by decide)))
  exact (ofParts_of_canonical h negative).symm

theorem convert_canonical_zero {e : Int} (h : f.Canonical 0 e) (negative : Bool) :
    (convert (.finite negative 0 e h) : Floating g) = zero negative := by
  have hscaled : scaled 0 e = 0 := by rw [scaled_eq, Nat.cast_zero, zero_mul]
  rw [convert, hscaled]
  exact if_pos rfl

theorem convert_zero (hf : f.minExponent ≤ f.maxExponent) (negative : Bool) :
    ((zero negative : Floating f).convert : Floating g) = zero negative := by
  rw [← eq_zero_of_canonical (canonical_zero hf), convert_canonical_zero]

/-- A number of the narrower format has the same value and the same sign in the wider one. -/
theorem exists_convert_eq (hfg : f.IsWithin g) {n : Nat} {e : Int} (h : f.Canonical n e)
    (hn : n ≠ 0) (negative : Bool) :
    ∃ m k, ∃ h' : g.Canonical m k, m ≠ 0 ∧ (n : ℚ) * 2 ^ e = m * 2 ^ k ∧
      (convert (.finite negative n e h) : Floating g) = .finite negative m k h' := by
  obtain ⟨m, k, h', hm, hvalue⟩ := h.exists_of_isWithin hfg hn
  refine ⟨m, k, h', hm, hvalue, ?_⟩
  rw [convert_eq_finite_iff (hfg.one_le_precision.trans hfg.precision_le) hn, ← hvalue]
  exact h.nearest_of_isWithin hfg hn

/-- Converting to a wider format and back gives the number again. -/
theorem convert_convert (hfg : f.IsWithin g) (x : Floating f) :
    ((x.convert : Floating g).convert : Floating f) = x := by
  cases x with
  | nan => rfl
  | infinite negative => rfl
  | finite negative n e h =>
    by_cases hn : n = 0
    · subst hn
      have hrange : g.minExponent ≤ g.maxExponent :=
        hfg.le_minExponent.trans (hfg.min_le_max.trans hfg.maxExponent_le)
      rw [convert_canonical_zero, convert_zero hrange, eq_zero_of_canonical]
    · obtain ⟨m, k, h', hm, hvalue, hconvert⟩ := exists_convert_eq hfg h hn negative
      rw [hconvert, convert_eq_finite_iff hfg.one_le_precision hm, ← hvalue]
      exact h.nearest hfg.one_le_precision

/-- A number other than zero is the one nearest to its value. -/
theorem ofRat_toRat (hf : 1 ≤ f.precision) {n : Nat} {e : Int} (h : f.Canonical n e) (hn : n ≠ 0)
    (negative : Bool) :
    ofRat (.finite negative n e h : Floating f).toRat = (.finite negative n e h : Floating f) := by
  have hpos : 0 < scaled n e := by
    rw [scaled_eq]
    exact natCast_mul_two_zpow_pos hn e
  have hround (negative : Bool) : (ofRatio negative (scaled n e).num.natAbs (scaled n e).den
      : Floating f) = .finite negative n e h := by
    rw [ofRatio_eq_finite_iff hf (natAbs_num_ne_zero hpos) (Rat.den_nz _) h,
      natAbs_num_div_den hpos, scaled_eq]
    exact h.nearest hf
  cases negative with
  | false =>
    rw [toRat, ofRat, decide_eq_false (not_lt.2 hpos.le)]
    exact hround false
  | true =>
    rw [toRat, ofRat, decide_eq_true (neg_neg_of_pos hpos), Rat.neg_num, Int.natAbs_neg,
      Rat.neg_den]
    exact hround true

/-! ## Zero as an operand -/

theorem isZero_neg (x : Floating f) : x.neg.isZero = x.isZero := by
  cases x <;> rfl

theorem isZero_zero (hf : f.minExponent ≤ f.maxExponent) (negative : Bool) :
    (zero negative : Floating f).isZero = true := by
  rw [← eq_zero_of_canonical (canonical_zero hf)]
  rfl

theorem toRat_eq_zero_iff {n : Nat} {e : Int} (h : f.Canonical n e) (negative : Bool) :
    (.finite negative n e h : Floating f).toRat = 0 ↔ n = 0 := by
  cases negative <;> simp [toRat, scaled_eq, zpow_ne_zero]

/-- Adding zero changes nothing, but a zero becomes the positive one. -/
theorem zero_add (hf : 1 ≤ f.precision) (hrange : f.minExponent ≤ f.maxExponent)
    (x : Floating f) : (zero false).add x = if x.isZero then zero false else x := by
  have hzero := (toRat_eq_zero_iff (canonical_zero hrange) false).2 rfl
  rw [← eq_zero_of_canonical (canonical_zero hrange)]
  cases x with
  | nan => rfl
  | infinite negative => rfl
  | finite negative n e h =>
    have hq := toRat_eq_zero_iff h negative
    simp only [add, hzero, Rat.zero_add, hq, Bool.false_and, isZero, beq_iff_eq]
    by_cases hn : n = 0
    · rw [if_pos hn, if_pos hn, eq_zero_of_canonical]
    · rw [if_neg hn, if_neg hn, ofRat_toRat hf h hn]

end Floating

namespace Single

open Floating

theorem isZero_convert_double (x : Single) : (x.convert : Double).isZero = x.isZero := by
  cases hx : x.isZero with
  | false => exact isZero_convert hx
  | true =>
    cases x with
    | nan => cases hx
    | infinite negative => cases hx
    | finite negative n e h =>
      obtain rfl : n = 0 := by simpa [isZero] using hx
      rw [convert_canonical_zero, isZero_zero (by decide)]

/-- Subtracting from zero changes the sign of a number, unless the number is a zero: then the
difference is the positive one. -/
theorem zero_sub (y : Single) :
    sub (Floating.zero false) y = if y.isZero then Floating.zero false else y.neg := by
  unfold Single.sub Floating.sub
  rw [← convert_neg, convert_zero (by decide), zero_add (by decide) (by decide),
    isZero_convert_double, isZero_neg]
  split
  · exact convert_zero (by decide) false
  · exact convert_convert Format.single_isWithin_double y.neg

end Single

end ScriptLang
