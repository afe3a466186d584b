import ScriptLang.Proofs.Comparison
import ScriptLang.Proofs.InnocuousRounding

set_option autoImplicit false

/-! # Arithmetic of singles

Sums, differences, products and quotients of singles are formed in double precision and rounded to
single then. Since a double has two bits more than twice the bits of a single, the result is the
exact one, rounded once (`Single.rounds_add`, `Single.rounds_mul`, `Single.rounds_div`), and so is
that of an operator on two finite numbers one of which is a float. -/

namespace ScriptLang

/-! ## Finite numbers -/

namespace Floating

variable {f g : Format} {x y : Floating f} {q : ℚ}

/-- `x` is what an operation with the exact result `q` gives: the number nearest to it. A zero can
have either sign. -/
def IsResult (q : ℚ) (x : Floating f) : Prop :=
  x = ofRat q ∨ q = 0 ∧ ∃ negative, x = zero negative

theorem isResult_add (hx : x.isFinite = true) (hy : y.isFinite = true) :
    (x.add y).IsResult (x.toRat + y.toRat) := by
  obtain ⟨s, n, e, h, rfl⟩ := exists_eq_finite hx
  obtain ⟨t, m, k, h', rfl⟩ := exists_eq_finite hy
  simp only [add]
  split
  · next hzero => exact .inr ⟨hzero, _, rfl⟩
  · exact .inl rfl

theorem isNegative_eq (hx : x.isFinite = true) (hzero : x.toRat ≠ 0) :
    x.isNegative = decide (x.toRat < 0) := by
  obtain ⟨negative, n, e, h, rfl⟩ := exists_eq_finite hx
  have hn : (0 : ℚ) < n * 2 ^ e := by
    rw [← abs_toRat_finite negative h]
    exact abs_pos.2 hzero
  rw [toRat_finite]
  cases negative with
  | false => exact (decide_eq_false (not_lt.2 hn.le)).symm
  | true => exact (decide_eq_true (neg_neg_of_pos hn)).symm

/-- What is negative if exactly one of two numbers is. -/
theorem bne_decide_neg {p q r : ℚ} (hp : p ≠ 0) (hq : q ≠ 0)
    (h : r < 0 ↔ 0 < p ∧ q < 0 ∨ p < 0 ∧ 0 < q) :
    (decide (p < 0) != decide (q < 0)) = decide (r < 0) := by
  rcases lt_or_gt_of_ne hp with hp | hp <;> rcases lt_or_gt_of_ne hq with hq | hq <;>
    simp [h, hp, hq, hp.not_gt, hq.not_gt]

/-- A fraction with the sign that the operands give it. -/
theorem isResult_ofRatio {negative : Bool} (h : q ≠ 0 → negative = decide (q < 0)) :
    (ofRatio negative q.num.natAbs q.den : Floating f).IsResult q := by
  by_cases hzero : q = 0
  · subst hzero
    exact .inr ⟨rfl, negative, if_pos rfl⟩
  · rw [h hzero]
    exact .inl rfl

theorem isResult_mul (hx : x.isFinite = true) (hy : y.isFinite = true) :
    (x.mul y).IsResult (x.toRat * y.toRat) := by
  have hresult : x.mul y = ofRatio (x.isNegative != y.isNegative) (x.toRat * y.toRat).num.natAbs
      (x.toRat * y.toRat).den := by
    obtain ⟨s, n, e, h, rfl⟩ := exists_eq_finite hx
    obtain ⟨t, m, k, h', rfl⟩ := exists_eq_finite hy
    rfl
  rw [hresult]
  refine isResult_ofRatio fun hzero => ?_
  obtain ⟨hx', hy'⟩ := mul_ne_zero_iff.1 hzero
  rw [isNegative_eq hx hx', isNegative_eq hy hy']
  exact bne_decide_neg hx' hy' mul_neg_iff

theorem toRat_eq_zero_iff_isZero (hx : x.isFinite = true) : x.toRat = 0 ↔ x.isZero = true := by
  obtain ⟨negative, n, e, h, rfl⟩ := exists_eq_finite hx
  rw [toRat_eq_zero_iff, isZero, beq_iff_eq]

theorem isResult_div (hx : x.isFinite = true) (hy : y.isFinite = true) (hdivisor : y.toRat ≠ 0) :
    (x.div y).IsResult (x.toRat / y.toRat) := by
  have hresult : x.div y = ofRatio (x.isNegative != y.isNegative) (x.toRat / y.toRat).num.natAbs
      (x.toRat / y.toRat).den := by
    obtain ⟨s, n, e, h, rfl⟩ := exists_eq_finite hx
    obtain ⟨t, m, k, h', rfl⟩ := exists_eq_finite hy
    exact if_neg (fun hn => hdivisor ((toRat_eq_zero_iff _ _).2 hn))
  rw [hresult]
  refine isResult_ofRatio fun hzero => ?_
  have hx' := (div_ne_zero_iff.1 hzero).1
  rw [isNegative_eq hx hx', isNegative_eq hy hdivisor]
  exact bne_decide_neg hx' hdivisor div_neg_iff

/-- A finite number keeps its value in a wider format. -/
theorem convert_finite (hfg : f.IsWithin g) (hx : x.isFinite = true) :
    (x.convert : Floating g).isFinite = true ∧ (x.convert : Floating g).toRat = x.toRat := by
  obtain ⟨negative, n, e, h, rfl⟩ := exists_eq_finite hx
  by_cases hn : n = 0
  · subst hn
    have hrange : g.minExponent ≤ g.maxExponent :=
      hfg.le_minExponent.trans (hfg.min_le_max.trans hfg.maxExponent_le)
    have hzero := canonical_zero hrange
    rw [convert_canonical_zero, ← eq_zero_of_canonical hzero,
      (toRat_eq_zero_iff h negative).2 rfl, (toRat_eq_zero_iff hzero negative).2 rfl]
    exact ⟨rfl, rfl⟩
  · obtain ⟨m, k, h', hm, hvalue, hconvert⟩ := exists_convert_eq hfg h hn negative
    rw [hconvert, toRat_finite, toRat_finite, hvalue]
    exact ⟨rfl, rfl⟩

/-- A finite number is a multiple of its unit. -/
theorem exists_hasDigits (hx : x.isFinite = true) :
    ∃ k, k ≤ f.maxExponent ∧ f.HasDigits k x.toRat := by
  obtain ⟨negative, n, e, h, rfl⟩ := exists_eq_finite hx
  refine ⟨e, h.2.2.1, h.2.1, ?_, ?_⟩
  · rw [toRat_finite]
    cases negative with
    | false => exact isMultiple_natCast_mul n e
    | true => exact ⟨-n, by simp⟩
  · have hlt : (n : ℚ) < (2 ^ f.precision : Nat) := by exact_mod_cast h.1
    rw [abs_toRat_finite, two_zpow_natCast_add]
    gcongr

end Floating

/-! ## By way of a double -/

namespace Single

open Floating

variable {x y : Single} {q : ℚ}

/-- A positive fraction that can be rounded to a double first. -/
structure ByDouble (q : ℚ) : Prop where
  innocuous : Format.double.Innocuous Format.single q
  low : (2 : ℚ) ^ (-300 : Int) ≤ q
  high : q < 2 ^ (300 : Int)

theorem two_zpow_le_abs_toRat (hx : x.isFinite = true) (hzero : x.toRat ≠ 0) :
    (2 : ℚ) ^ (-149 : Int) ≤ |x.toRat| := by
  obtain ⟨k, -, hdigits⟩ := exists_hasDigits hx
  exact (hdigits.isMultiple.mono hdigits.min_le).le_abs hzero

theorem abs_toRat_lt (hx : x.isFinite = true) : |x.toRat| < 2 ^ (128 : Int) := by
  obtain ⟨negative, n, e, h, rfl⟩ := exists_eq_finite hx
  rw [abs_toRat_finite]
  exact h.lt

theorem byDouble_add (hx : x.isFinite = true) (hy : y.isFinite = true)
    (hzero : x.toRat + y.toRat ≠ 0) : ByDouble |x.toRat + y.toRat| := by
  obtain ⟨i, -, hi⟩ := exists_hasDigits hx
  obtain ⟨j, -, hj⟩ := exists_hasDigits hy
  have hsafe {p q : ℚ} (hp : Format.single.HasDigits i p) (hq : Format.single.HasDigits j q) :
      Format.double.Innocuous Format.single (p + q) :=
    Format.innocuous_add (s := 29) (by decide) (by decide) (by decide) (by decide) hp hq
  refine ⟨?_, ?_, ?_⟩
  · rcases abs_choice (x.toRat + y.toRat) with habs | habs
    · rw [habs]
      exact hsafe hi hj
    · rw [habs, neg_add]
      exact hsafe hi.neg hj.neg
  · have hmultiple := (hi.isMultiple.mono hi.min_le).add (hj.isMultiple.mono hj.min_le)
    exact (zpow_le_zpow_right₀ (by norm_num) (by decide)).trans (hmultiple.le_abs hzero)
  · calc |x.toRat + y.toRat| ≤ |x.toRat| + |y.toRat| := abs_add_le _ _
      _ < 2 ^ (128 : Int) + 2 ^ (128 : Int) := add_lt_add (abs_toRat_lt hx) (abs_toRat_lt hy)
      _ = 2 ^ (129 : Int) := by norm_num
      _ < 2 ^ (300 : Int) := zpow_lt_zpow_right₀ (by norm_num) (by decide)

theorem byDouble_mul (hx : x.isFinite = true) (hy : y.isFinite = true)
    (hzero : x.toRat * y.toRat ≠ 0) : ByDouble |x.toRat * y.toRat| := by
  obtain ⟨hx', hy'⟩ := mul_ne_zero_iff.1 hzero
  have hlow := mul_le_mul (two_zpow_le_abs_toRat hx hx') (two_zpow_le_abs_toRat hy hy')
    (by positivity) (abs_nonneg _)
  have hhigh := mul_lt_mul'' (abs_toRat_lt hx) (abs_toRat_lt hy) (abs_nonneg _) (abs_nonneg _)
  rw [← abs_mul, ← zpow_add₀ (by norm_num)] at hlow hhigh
  refine ⟨?_, (zpow_le_zpow_right₀ (by norm_num) (by decide)).trans hlow,
    hhigh.trans (zpow_lt_zpow_right₀ (by norm_num) (by decide))⟩
  obtain ⟨s, n, e, h, rfl⟩ := exists_eq_finite hx
  obtain ⟨t, m, k, h', rfl⟩ := exists_eq_finite hy
  rw [abs_mul, abs_toRat_finite, abs_toRat_finite]
  refine Format.innocuous_mul (by decide) (by decide) h.1 h'.1
    (hx' ∘ (toRat_eq_zero_iff h s).2) (hy' ∘ (toRat_eq_zero_iff h' t).2) ?_
  have hmin : (-149 : Int) ≤ e ∧ (-149 : Int) ≤ k := ⟨h.2.1, h'.2.1⟩
  change (-1074 : Int) ≤ e + k
  omega

theorem byDouble_div (hx : x.isFinite = true) (hy : y.isFinite = true)
    (hzero : x.toRat / y.toRat ≠ 0) : ByDouble |x.toRat / y.toRat| := by
  obtain ⟨hx', hy'⟩ := div_ne_zero_iff.1 hzero
  have hpos : 0 < |y.toRat| := abs_pos.2 hy'
  have hlow : (2 : ℚ) ^ (-300 : Int) ≤ |x.toRat / y.toRat| := by
    rw [abs_div, le_div_iff₀ hpos]
    calc (2 : ℚ) ^ (-300 : Int) * |y.toRat| ≤ 2 ^ (-300 : Int) * 2 ^ (128 : Int) := by
          gcongr
          exact (abs_toRat_lt hy).le
      _ = 2 ^ (-172 : Int) := by rw [← zpow_add₀ (by norm_num)]; norm_num
      _ ≤ 2 ^ (-149 : Int) := zpow_le_zpow_right₀ (by norm_num) (by decide)
      _ ≤ |x.toRat| := two_zpow_le_abs_toRat hx hx'
  refine ⟨?_, hlow, ?_⟩
  · obtain ⟨s, n, e, h, rfl⟩ := exists_eq_finite hx
    obtain ⟨t, m, k, h', rfl⟩ := exists_eq_finite hy
    rw [abs_div, abs_toRat_finite, abs_toRat_finite] at hlow ⊢
    exact Format.innocuous_div (s := 29) (by decide) (by decide) (by decide) (by decide)
      (by decide) h.1 h'.1 (hy' ∘ (toRat_eq_zero_iff h' t).2)
      ((zpow_le_zpow_right₀ (by norm_num) (by decide)).trans hlow)
  · rw [abs_div, div_lt_iff₀ hpos]
    calc |x.toRat| < 2 ^ (128 : Int) := abs_toRat_lt hx
      _ ≤ 2 ^ (151 : Int) := zpow_le_zpow_right₀ (by norm_num) (by decide)
      _ = 2 ^ (300 : Int) * 2 ^ (-149 : Int) := by rw [← zpow_add₀ (by norm_num)]; norm_num
      _ ≤ 2 ^ (300 : Int) * |y.toRat| := by
          gcongr
          exact two_zpow_le_abs_toRat hy hy'

/-- Then the double that an operation gives is rounded to the single nearest to the exact result. -/
theorem ByDouble.convert_ofRat (h : ByDouble |q|) :
    ((ofRat q : Double).convert : Single) = ofRat q := by
  have hpositive {q : ℚ} (hq : 0 < q) (h : ByDouble q) :
      ((ofRat q : Double).convert : Single) = ofRat q := by
    obtain ⟨hsafe, hlow, hhigh⟩ := h
    have hratio := natAbs_num_div_den hq
    rw [ofRat_of_pos hq, ofRat_of_pos hq]
    refine convert_ofRatio Format.double_isProper (by decide) (natAbs_num_ne_zero hq) q.den_nz ?_ ?_
      ?_ false
    · rwa [hratio]
    · rw [hratio]
      exact (zpow_le_zpow_right₀ (by norm_num) (by decide)).trans hlow
    · have hpower : Format.double.Nearest (2 ^ (300 : Int)) (2 ^ (300 : Int)) :=
        Format.nearest_two_zpow (by decide) (by decide)
      rw [hratio]
      exact hhigh.trans ((hpower.lt_iff Format.double_isProper).1
        (zpow_lt_zpow_right₀ (by norm_num) (by decide)))
  have hne : q ≠ 0 := by
    rintro rfl
    have : (0 : ℚ) < 2 ^ (-300 : Int) := by positivity
    have := h.low
    rw [abs_zero] at this
    linarith
  rcases lt_or_gt_of_ne hne with hneg | hpos
  · rw [abs_of_neg hneg] at h
    have := hpositive (neg_pos.2 hneg) h
    rw [← Rat.neg_neg q, ofRat_neg (neg_pos.2 hneg), ofRat_neg (neg_pos.2 hneg), convert_neg, this]
  · rw [abs_of_pos hpos] at h
    exact hpositive hpos h

theorem rounds_convert {z : Double} (hz : z.IsResult q) (h : q ≠ 0 → ByDouble |q|) :
    (z.convert : Single).Rounds q := by
  rcases hz with rfl | ⟨rfl, negative, rfl⟩
  · by_cases hq : q = 0
    · subst hq
      have hzero : ((ofRat 0 : Double).convert : Single) = zero false :=
        convert_zero (by decide) false
      rw [hzero]
      exact rounds_zero Format.single_isProper false
    · rw [(h hq).convert_ofRat]
      exact rounds_ofRat Format.single_isProper q
  · rw [convert_zero (by decide)]
    exact rounds_zero Format.single_isProper negative

/-! ## The operations -/

/-- A sum of singles is the exact sum, rounded once. -/
theorem rounds_add (hx : x.isFinite = true) (hy : y.isFinite = true) :
    (Single.add x y).Rounds (x.toRat + y.toRat) := by
  obtain ⟨hxd, hxv⟩ := convert_finite Format.single_isWithin_double hx
  obtain ⟨hyd, hyv⟩ := convert_finite Format.single_isWithin_double hy
  have hresult := isResult_add hxd hyd
  rw [hxv, hyv] at hresult
  exact rounds_convert hresult (byDouble_add hx hy)

theorem sub_eq_add_neg (x y : Single) : Single.sub x y = Single.add x y.neg := by
  rw [Single.sub, Single.add, Floating.sub, convert_neg]

/-- A difference of singles is the exact difference, rounded once. -/
theorem rounds_sub (hx : x.isFinite = true) (hy : y.isFinite = true) :
    (Single.sub x y).Rounds (x.toRat - y.toRat) := by
  have h := rounds_add hx (y := y.neg) (by rwa [isFinite_neg])
  rwa [toRat_neg, ← sub_eq_add_neg, ← Rat.sub_eq_add_neg] at h

/-- A product of singles is the exact product, rounded once. -/
theorem rounds_mul (hx : x.isFinite = true) (hy : y.isFinite = true) :
    (Single.mul x y).Rounds (x.toRat * y.toRat) := by
  obtain ⟨hxd, hxv⟩ := convert_finite Format.single_isWithin_double hx
  obtain ⟨hyd, hyv⟩ := convert_finite Format.single_isWithin_double hy
  have hresult := isResult_mul hxd hyd
  rw [hxv, hyv] at hresult
  exact rounds_convert hresult (byDouble_mul hx hy)

/-- A quotient of singles is the exact quotient, rounded once. -/
theorem rounds_div (hx : x.isFinite = true) (hy : y.isFinite = true) (hdivisor : y.toRat ≠ 0) :
    (Single.div x y).Rounds (x.toRat / y.toRat) := by
  obtain ⟨hxd, hxv⟩ := convert_finite Format.single_isWithin_double hx
  obtain ⟨hyd, hyv⟩ := convert_finite Format.single_isWithin_double hy
  have hresult := isResult_div hxd hyd (by rwa [hyv])
  rw [hxv, hyv] at hresult
  exact rounds_convert hresult (byDouble_div hx hy)

end Single

/-! ## Values -/

/-- An operation on fractions. -/
def Arithmetic.onRationals (operation : Arithmetic) (p q : ℚ) : ℚ :=
  match operation with
  | .sum => p + q
  | .sub => p - q
  | .mult => p * q
  | .div => p / q

theorem Arithmetic.rounds_onFloats (operation : Arithmetic) {x y : Single}
    (hx : x.isFinite = true) (hy : y.isFinite = true)
    (hdivisor : operation = .div → y.toRat ≠ 0) :
    ∃ z : Single, operation.onFloats x y = .ok (.float z) ∧
      z.Rounds (operation.onRationals x.toRat y.toRat) := by
  cases operation with
  | sum => exact ⟨_, rfl, Single.rounds_add hx hy⟩
  | sub => exact ⟨_, rfl, Single.rounds_sub hx hy⟩
  | mult => exact ⟨_, rfl, Single.rounds_mul hx hy⟩
  | div =>
    have hy' := hdivisor rfl
    refine ⟨_, if_neg ?_, Single.rounds_div hx hy hy'⟩
    rwa [← Floating.toRat_eq_zero_iff_isZero hy]

namespace Value

variable {a b : Value} {x y : Single}

/-- The exact value of a finite number, and zero for other values. -/
def toRat : Value → ℚ
  | .integer n => n.toInt
  | .float x => x.toRat
  | _ => 0

/-- Whether a value is an integer or a finite float. -/
def isFinite : Value → Bool
  | .integer _ => true
  | .float x => x.isFinite
  | _ => false

theorem isFinite_ofInt (n : Int32) : (Floating.ofInt n.toInt : Single).isFinite = true := by
  have hround := rounds_ofInt n.toInt
  generalize (Floating.ofInt n.toInt : Single) = x at hround
  cases x with
  | nan => exact hround.elim
  | finite negative m e h => rfl
  | infinite negative =>
    -- no integer of 32 bits is as large as the infinite numbers begin
    have hpower : Format.single.Nearest (2 ^ (31 : Int)) (2 ^ (31 : Int)) :=
      Format.nearest_two_zpow (by decide) (by decide)
    have hlarge := (hpower.lt_iff Format.single_isProper).1
      (zpow_lt_zpow_right₀ (by norm_num) (by decide))
    have hsmall : |n.toInt| ≤ 2147483648 := by
      have hlow := n.le_toInt
      have hhigh := n.toInt_lt
      rw [abs_le]
      omega
    have hsmall : |(n.toInt : ℚ)| ≤ 2 ^ (31 : Int) := by
      norm_num
      exact_mod_cast hsmall
    exact absurd hround.1 (not_le.2 (hsmall.trans_lt hlarge))

/-- A finite number is narrowed to the single nearest to it, and to zero only if it is zero. -/
theorem exists_narrow_rounds (h : a.isFinite = true) :
    ∃ x, a.narrow? = some x ∧ x.isFinite = true ∧ x.Rounds a.toRat ∧
      (a.toRat ≠ 0 → x.toRat ≠ 0) := by
  cases a with
  | integer n =>
    refine ⟨_, rfl, isFinite_ofInt n, rounds_ofInt n.toInt, fun hn => ?_⟩
    have hn : n.toInt ≠ 0 := Int.cast_ne_zero.1 hn
    rw [Ne, Floating.toRat_eq_zero_iff_isZero (isFinite_ofInt n), Floating.isZero_ofInt hn]
    exact Bool.false_ne_true
  | float x => exact ⟨x, rfl, h, Floating.rounds_toRat Format.single_isProper h, id⟩
  | void | string _ | bool _ => cases h

theorem arithmetic_narrow (ha : a.narrow? = some x) (hb : b.narrow? = some y)
    (hfloat : a.kind = .float ∨ b.kind = .float) (operation : Arithmetic) :
    operation.apply a b = operation.onFloats x y := by
  rcases narrow?_eq_some ha with ⟨m, rfl, rfl⟩ | rfl <;>
    rcases narrow?_eq_some hb with ⟨n, rfl, rfl⟩ | rfl
  · simp [kind] at hfloat
  · rfl
  · rfl
  · rfl

end Value

namespace Operator

/-- Float arithmetic is that of single precision. On two finite numbers, one of them a float, the
operands are narrowed to the nearest singles, and the result is the exact one on these, rounded once
to the nearest single. -/
theorem arithmetic_rounds_once (operation : Arithmetic) {a b : Value} (ha : a.isFinite = true)
    (hb : b.isFinite = true) (hfloat : a.kind = .float ∨ b.kind = .float)
    (hdivisor : operation = .div → b.toRat ≠ 0) :
    ∃ x y z : Single, a.narrow? = some x ∧ b.narrow? = some y ∧
      x.isFinite = true ∧ y.isFinite = true ∧ x.Rounds a.toRat ∧ y.Rounds b.toRat ∧
      (arithmetic operation).apply a b = .ok (.float z) ∧
      z.Rounds (operation.onRationals x.toRat y.toRat) := by
  obtain ⟨x, hx, hxfinite, hxrounds, -⟩ := Value.exists_narrow_rounds ha
  obtain ⟨y, hy, hyfinite, hyrounds, hyzero⟩ := Value.exists_narrow_rounds hb
  obtain ⟨z, hz, hzrounds⟩ := operation.rounds_onFloats hxfinite hyfinite
    fun hoperation => hyzero (hdivisor hoperation)
  refine ⟨x, y, z, hx, hy, hxfinite, hyfinite, hxrounds, hyrounds, ?_, hzrounds⟩
  rw [apply, Value.arithmetic_narrow hx hy hfloat, hz]
  rfl

/-- Three times the least single, divided by two: the exact quotient is the middle of two numbers
below the normal ones. -/
theorem arithmetic_rounds_once_subnormal :
    let small : Single := .finite false 3 (-149) (by decide)
    Value.isFinite (.float small) = true ∧ Value.isFinite (.integer 2) = true
      ∧ Value.toRat (.integer 2) ≠ 0
      ∧ ∃ x y z : Single, Value.narrow? (.float small) = some x ∧
        Value.narrow? (.integer 2) = some y ∧ x.isFinite = true ∧ y.isFinite = true ∧
        x.Rounds (Value.toRat (.float small)) ∧ y.Rounds (Value.toRat (.integer 2)) ∧
        (arithmetic .div).apply (.float small) (.integer 2) = .ok (.float z) ∧
        z.Rounds (x.toRat / y.toRat) := by
  intro small
  have htwo : Value.toRat (.integer 2) ≠ 0 := by decide
  exact ⟨rfl, rfl, htwo,
    arithmetic_rounds_once .div (a := .float small) (b := .integer 2) rfl rfl (.inl rfl)
      fun _ => htwo⟩

end Operator

end ScriptLang
