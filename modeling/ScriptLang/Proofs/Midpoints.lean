import ScriptLang.Proofs.Rounding
import Mathlib.Tactic.Linarith
import Mathlib.Tactic.LinearCombination
import Mathlib.Tactic.Ring

set_option autoImplicit false

/-! # Decimals next to the midpoint of two singles

A multiple `coefficient * 10 ^ k` of a power of ten can lie very close to a multiple
`significand * 2 ^ e` of a power of two only if `significand / coefficient` is a good approximation
of `10 ^ k / 2 ^ e`. Two neighbouring fractions around that ratio bound how good it can be
(`Bracket.Holds.eq_high_of_close`). For the powers of two at which singles round, with significands
of 25 bits, only two pairs come as close as half a unit of a double (`Midpoint.mem_closePairs`). -/

namespace ScriptLang

/-! ## Neighbouring fractions -/

/-- Two fractions, the one meant to lie below a number and the other above it. -/
structure Bracket where
  lowNum : Nat
  lowDen : Nat
  highNum : Nat
  highDen : Nat

namespace Bracket

variable {b : Bracket} {n m : Nat}

/-- How far the lower fraction lies below `n / m`, by numerators over the common denominator. -/
def lowGap (b : Bracket) (n m : Nat) : Nat :=
  n * b.lowDen - b.lowNum * m

/-- How far the higher fraction lies above `n / m`, by numerators over the common denominator. -/
def highGap (b : Bracket) (n m : Nat) : Nat :=
  b.highNum * m - n * b.highDen

/-- The fractions are neighbours, the lower one not above `n / m` and the higher one above it. -/
structure Holds (b : Bracket) (n m : Nat) : Prop where
  adjacent : b.lowDen * b.highNum = b.lowNum * b.highDen + 1
  low_le : b.lowNum * m ≤ n * b.lowDen
  lt_high : n * b.highDen < b.highNum * m

instance (b : Bracket) (n m : Nat) : Decidable (b.Holds n m) :=
  decidable_of_iff (b.lowDen * b.highNum = b.lowNum * b.highDen + 1 ∧
    b.lowNum * m ≤ n * b.lowDen ∧ n * b.highDen < b.highNum * m)
    ⟨fun h => ⟨h.1, h.2.1, h.2.2⟩, fun h => ⟨h.adjacent, h.low_le, h.lt_high⟩⟩

theorem Holds.cast_lowGap (h : b.Holds n m) :
    (b.lowGap n m : Int) = n * b.lowDen - b.lowNum * m := by
  rw [lowGap, Nat.cast_sub h.low_le]
  push_cast
  rfl

theorem Holds.cast_highGap (h : b.Holds n m) :
    (b.highGap n m : Int) = b.highNum * m - n * b.highDen := by
  rw [highGap, Nat.cast_sub h.lt_high.le]
  push_cast
  rfl

/-- A fraction `y / x` with a smaller numerator than both together lies outside the bracket. So its
distance from `n / m` is made up of the two gaps, and of the upper one alone only for multiples of
the higher fraction. -/
theorem Holds.exists_distance (h : b.Holds n m) {x y : Nat} (hx : x ≠ 0)
    (hy : y < b.lowNum + b.highNum) :
    ∃ i j : Nat, ((x : Int) * n - y * m).natAbs = i * b.lowGap n m + j * b.highGap n m ∧
      (i = 0 → x = j * b.highDen ∧ y = j * b.highNum) := by
  have hadjacent : (b.lowDen : Int) * b.highNum = b.lowNum * b.highDen + 1 := by
    exact_mod_cast h.adjacent
  -- The coordinates of the fraction with respect to the two neighbours.
  obtain ⟨p, hp⟩ : ∃ p : Int, p = b.highNum * x - b.highDen * y := ⟨_, rfl⟩
  obtain ⟨q, hq⟩ : ∃ q : Int, q = b.lowDen * y - b.lowNum * x := ⟨_, rfl⟩
  have hxeq : (x : Int) = p * b.lowDen + q * b.highDen := by
    rw [hp, hq]
    linear_combination -(x : Int) * hadjacent
  have hyeq : (y : Int) = p * b.lowNum + q * b.highNum := by
    rw [hp, hq]
    linear_combination -(y : Int) * hadjacent
  have hdistance : (x : Int) * n - y * m = p * b.lowGap n m - q * b.highGap n m := by
    rw [h.cast_lowGap, h.cast_highGap, hxeq, hyeq]
    ring
  have hhighDen : (0 : Int) ≤ b.highDen := Int.natCast_nonneg _
  have hlowDen : (0 : Int) ≤ b.lowDen := Int.natCast_nonneg _
  by_cases hqpos : 0 < q
  · have hple : p ≤ 0 := by
      by_contra hpos
      have hlowNum : (0 : Int) ≤ b.lowNum := Int.natCast_nonneg _
      have hhighNum : (0 : Int) ≤ b.highNum := Int.natCast_nonneg _
      have hsum : (y : Int) < b.lowNum + b.highNum := by exact_mod_cast hy
      nlinarith
    obtain ⟨i, rfl⟩ : ∃ i : Nat, p = -i := ⟨p.natAbs, by omega⟩
    obtain ⟨j, rfl⟩ := Int.eq_ofNat_of_zero_le hqpos.le
    refine ⟨i, j, ?_, ?_⟩
    · have hneg : (x : Int) * n - y * m = -(i * b.lowGap n m + j * b.highGap n m : Nat) := by
        rw [hdistance]
        push_cast
        ring
      rw [hneg, Int.natAbs_neg, Int.natAbs_natCast]
    · rintro rfl
      simp only [Nat.cast_zero, neg_zero, zero_mul, zero_add] at hxeq hyeq
      exact ⟨by exact_mod_cast hxeq, by exact_mod_cast hyeq⟩
  · have hppos : 0 < p := by
      by_contra hle
      have hxpos : (0 : Int) < x := by exact_mod_cast Nat.pos_of_ne_zero hx
      nlinarith
    obtain ⟨i, rfl⟩ := Int.eq_ofNat_of_zero_le hppos.le
    obtain ⟨j, rfl⟩ : ∃ j : Nat, q = -j := ⟨q.natAbs, by omega⟩
    refine ⟨i, j, ?_, fun hzero => by omega⟩
    have hpos : (x : Int) * n - y * m = (i * b.lowGap n m + j * b.highGap n m : Nat) := by
      rw [hdistance]
      push_cast
      ring
    rw [hpos, Int.natAbs_natCast]

/-- A fraction that is too close to `n / m` is the higher neighbour, if the lower gap is wide and
the fraction is no proper multiple. -/
theorem Holds.eq_high_of_close (h : b.Holds n m) {x y bound scale : Nat}
    (hscale : 1 < scale) (hbound : bound ≤ b.lowNum + b.highNum)
    (hlow : b.lowGap n m = 0 ∨ m < b.lowGap n m * scale)
    (hhigh : m < b.highGap n m * scale ∨ b.lowGap n m ≠ 0 ∧ bound ≤ 2 * b.highNum)
    (hy : y < bound) (hne : x * n ≠ y * m)
    (hclose : ((x : Int) * n - y * m).natAbs * scale ≤ m) :
    b.highGap n m * scale ≤ m ∧ x = b.highDen ∧ y = b.highNum := by
  have hx : x ≠ 0 := by
    rintro rfl
    rw [Nat.zero_mul] at hne
    have hpos : 0 < y * m := Nat.pos_of_ne_zero hne.symm
    have hle : m ≤ y * m := Nat.le_mul_of_pos_left _ (Nat.pos_of_mul_pos_right hpos)
    have hlt : y * m < y * m * scale := lt_mul_of_one_lt_right hpos hscale
    have hzero : (((0 : Nat) : Int) * n - y * m).natAbs = y * m := by
      rw [Nat.cast_zero, zero_mul, zero_sub, Int.natAbs_neg]
      exact_mod_cast Int.natAbs_natCast _
    rw [hzero] at hclose
    omega
  obtain ⟨i, j, hdistance, hmultiple⟩ := h.exists_distance hx (hy.trans_le hbound)
  have hnonzero : i * b.lowGap n m + j * b.highGap n m ≠ 0 := by
    rw [← hdistance, Int.natAbs_ne_zero, sub_ne_zero]
    exact_mod_cast hne
  rw [hdistance, Nat.add_mul] at hclose
  by_cases hi : i = 0
  · obtain ⟨rfl, rfl⟩ := hmultiple hi
    rw [hi, Nat.zero_mul, Nat.zero_add] at hnonzero
    have hj : j ≠ 0 := left_ne_zero_of_mul hnonzero
    have hgap : b.highGap n m * scale ≤ j * b.highGap n m * scale :=
      Nat.mul_le_mul_right _ (Nat.le_mul_of_pos_left _ (Nat.pos_of_ne_zero hj))
    obtain hwide | ⟨_, hmultiples⟩ := hhigh
    · omega
    · have hone : j = 1 := by
        by_contra hmany
        have : 2 * b.highNum ≤ j * b.highNum := Nat.mul_le_mul_right _ (by omega)
        omega
      subst hone
      exact ⟨by omega, Nat.one_mul _, Nat.one_mul _⟩
  · have hlowgap : b.lowGap n m * scale ≤ i * b.lowGap n m * scale :=
      Nat.mul_le_mul_right _ (Nat.le_mul_of_pos_left _ (Nat.pos_of_ne_zero hi))
    obtain hzero | hwide := hlow
    · -- The lower fraction is `n / m` itself, so the distance comes from the upper gap alone.
      rw [hzero, Nat.mul_zero, Nat.zero_add] at hnonzero
      have hj : j ≠ 0 := left_ne_zero_of_mul hnonzero
      have hgap : b.highGap n m * scale ≤ j * b.highGap n m * scale :=
        Nat.mul_le_mul_right _ (Nat.le_mul_of_pos_left _ (Nat.pos_of_ne_zero hj))
      obtain hwide | ⟨hpos, _⟩ := hhigh
      · omega
      · exact absurd hzero hpos
    · omega

/-! ## The search -/

/-- Moves the lower fraction towards the higher one, as long as it stays below `n / m` and until the
numerators add up to `bound`. -/
def raise (n m bound : Nat) (b : Bracket) : Bracket :=
  let missing := (bound - b.lowNum - b.highNum + b.highNum - 1) / b.highNum
  let count := min (b.lowGap n m / b.highGap n m) missing
  ⟨b.lowNum + count * b.highNum, b.lowDen + count * b.highDen, b.highNum, b.highDen⟩

/-- Moves the higher fraction towards the lower one, as long as it stays above `n / m` and until the
numerators add up to `bound`. -/
def lower (n m bound : Nat) (b : Bracket) : Bracket :=
  let missing := (bound - b.lowNum - b.highNum + b.lowNum - 1) / b.lowNum
  let count := if b.lowGap n m = 0 then missing
    else min ((b.highGap n m - 1) / b.lowGap n m) missing
  ⟨b.lowNum, b.lowDen, b.highNum + count * b.lowNum, b.highDen + count * b.lowDen⟩

/-- Narrows the bracket around `n / m`. What is found is checked, so nothing is proved of the
search. -/
def narrow (n m bound : Nat) : Nat → Bracket → Bracket
  | 0, b => b
  | steps + 1, b => narrow n m bound steps ((b.raise n m bound).lower n m bound)

end Bracket

/-! ## Midpoints of singles -/

namespace Midpoint

/-- The exponent of the least power of ten that is not below `2 ^ e`. -/
def tenExponent (e : Int) : Int :=
  -(-(e * 30103) / 100000)

/-- The numerator of the ratio of that power of ten to `2 ^ e`. -/
def num (e : Int) : Nat :=
  Nat.pow 10 (tenExponent e).toNat * Nat.pow 2 (-e).toNat

/-- The denominator of the ratio of that power of ten to `2 ^ e`. -/
def den (e : Int) : Nat :=
  Nat.pow 10 (-tenExponent e).toNat * Nat.pow 2 e.toNat

/-- No significand of a midpoint reaches this: it has a bit more than those of singles. -/
def bound : Nat := 33554432

/-- Next to a midpoint `n * 2 ^ e` of singles, half a unit of a double is `2 ^ e` over this. -/
def scale : Nat := 536870912

/-- Neighbouring fractions around the ratio of the powers. -/
def bracket (e : Int) : Bracket :=
  let whole := num e / den e
  Bracket.narrow (num e) (den e) bound 12 ⟨whole, 1, whole + 1, 1⟩

/-- The exponents, coefficients and significands of the decimals that come too close. -/
def closePairs : List (Int × Nat × Nat) :=
  [(-108, 7038531, 22841339), (-107, 14077062, 22841339)]

/-- The bracket shows that no decimal comes close to a midpoint but those that are listed. -/
def IsApart (e : Int) (b : Bracket) : Prop :=
  b.Holds (num e) (den e) ∧ bound ≤ b.lowNum + b.highNum ∧
    (b.lowGap (num e) (den e) = 0 ∨ den e < b.lowGap (num e) (den e) * scale) ∧
    (den e < b.highGap (num e) (den e) * scale ∨
      b.lowGap (num e) (den e) ≠ 0 ∧ bound ≤ 2 * b.highNum ∧
        (e, b.highDen, b.highNum) ∈ closePairs)

instance (e : Int) (b : Bracket) : Decidable (IsApart e b) :=
  inferInstanceAs (Decidable (_ ∧ _ ∧ _ ∧ _))

/-- Half a unit of a double below `2 ^ e` there is no power of ten. -/
def IsLeast (e : Int) : Prop :=
  num e * scale < 10 * den e * (scale - 1)

instance (e : Int) : Decidable (IsLeast e) :=
  inferInstanceAs (Decidable (_ < _))

theorem isApart_and_isLeast_range :
    ∀ i ∈ List.range 254, IsApart (i - 150) (bracket (i - 150)) ∧ IsLeast (i - 150) := by
  decide +kernel

theorem isApart_and_isLeast {e : Int} (hlow : -150 ≤ e) (hhigh : e ≤ 103) :
    (∃ b, IsApart e b) ∧ IsLeast e := by
  have h := isApart_and_isLeast_range (e + 150).toNat (List.mem_range.2 (by omega))
  have he : ((e + 150).toNat : Int) - 150 = e := by omega
  rw [he] at h
  exact ⟨⟨bracket e, h.1⟩, h.2⟩

theorem one_lt_scale : 1 < scale := by decide

theorem den_pos (e : Int) : 0 < den e :=
  Nat.mul_pos (Nat.pow_pos (by decide)) (Nat.pow_pos (by decide))

theorem num_div_den (e : Int) : (num e : ℚ) / den e = 10 ^ tenExponent e / 2 ^ e := by
  have hten := natCast_zpow_eq 10 (tenExponent e)
  have htwo := natCast_zpow_eq 2 e
  push_cast at hten htwo
  rw [hten, htwo, num, den]
  push_cast
  field_simp

/-- The distance of a decimal from a midpoint, as a difference of integers. -/
theorem sub_eq (e : Int) (coefficient significand : Nat) :
    (coefficient : ℚ) * 10 ^ tenExponent e - significand * 2 ^ e
      = 2 ^ e / den e * ((coefficient : Int) * num e - significand * den e : Int) := by
  have hden : (den e : ℚ) ≠ 0 := by exact_mod_cast (den_pos e).ne'
  have hratio : (num e : ℚ) * 2 ^ e = den e * 10 ^ tenExponent e := by
    have := num_div_den e
    field_simp at this
    exact this
  push_cast
  field_simp
  linear_combination -(coefficient : ℚ) * hratio

/-- A power of ten that reaches `2 ^ e` up to half a unit of a double is `10 ^ tenExponent e` or
above. -/
theorem tenExponent_le {e k : Int} (hlow : -150 ≤ e) (hhigh : e ≤ 103)
    (h : (2 : ℚ) ^ e - 2 ^ e / scale ≤ 10 ^ k) : tenExponent e ≤ k := by
  by_contra hlt
  have hleast : num e * scale < 10 * den e * (scale - 1) := (isApart_and_isLeast hlow hhigh).2
  have hone := one_lt_scale
  generalize scale = s at h hleast hone
  have hden : (0 : ℚ) < den e := by exact_mod_cast den_pos e
  have hs : (0 : ℚ) < s := by exact_mod_cast Nat.zero_lt_of_lt hone
  have hpow : (0 : ℚ) < 2 ^ e := by positivity
  have hratio : (num e : ℚ) / den e < 10 * (1 - 1 / s) := by
    have hcast : (num e : ℚ) * s < 10 * den e * (s - 1) := by
      have : ((s - 1 : Nat) : ℚ) = s - 1 := by
        rw [Nat.cast_sub hone.le, Nat.cast_one]
      rw [← this]
      exact_mod_cast hleast
    rw [div_lt_iff₀ hden]
    have hexpand : 10 * (1 - 1 / (s : ℚ)) * den e * s = 10 * den e * (s - 1) := by
      field_simp
    exact lt_of_mul_lt_mul_right (hcast.trans_eq hexpand.symm) hs.le
  have hsmaller : (10 : ℚ) ^ k ≤ 10 ^ tenExponent e / 10 := by
    rw [div_eq_mul_inv, ← zpow_sub_one₀ (by norm_num)]
    exact zpow_le_zpow_right₀ (by norm_num) (by omega)
  have hten : (10 : ℚ) ^ tenExponent e / 10 < 2 ^ e - 2 ^ e / s := by
    have hreach : (10 : ℚ) ^ tenExponent e = num e / den e * 2 ^ e := by
      rw [num_div_den, div_mul_cancel₀ _ hpow.ne']
    have hscaled := mul_lt_mul_of_pos_right hratio hpow
    rw [hreach, div_lt_iff₀ (by norm_num)]
    refine hscaled.trans_eq ?_
    ring
  exact absurd (h.trans hsmaller) (not_le.2 hten)

theorem natAbs_mul_le_den {e : Int} {coefficient significand s : Nat} (hs : 0 < s)
    (h : |(coefficient : ℚ) * 10 ^ tenExponent e - significand * 2 ^ e| ≤ 2 ^ e / s) :
    ((coefficient : Int) * num e - significand * den e).natAbs * s ≤ den e := by
  have hden : (0 : ℚ) < den e := by exact_mod_cast den_pos e
  have hs : (0 : ℚ) < s := by exact_mod_cast hs
  have hpow : (0 : ℚ) < 2 ^ e := by positivity
  rw [sub_eq, abs_mul, abs_of_pos (div_pos hpow hden), div_mul_eq_mul_div,
    div_le_div_iff₀ hden hs, mul_assoc, mul_le_mul_iff_right₀ hpow, ← Int.cast_abs,
    Int.abs_eq_natAbs] at h
  exact_mod_cast h

/-- A decimal that lies within half a unit of a double from a midpoint is that midpoint, or one of
the listed decimals. -/
theorem mem_closePairs {e : Int} {coefficient significand : Nat} (hlow : -150 ≤ e) (hhigh : e ≤ 103)
    (hsignificand : significand < bound)
    (hne : (coefficient : ℚ) * 10 ^ tenExponent e ≠ significand * 2 ^ e)
    (hclose : |(coefficient : ℚ) * 10 ^ tenExponent e - significand * 2 ^ e| ≤ 2 ^ e / scale) :
    (e, coefficient, significand) ∈ closePairs := by
  obtain ⟨⟨b, hholds, hbound, hwide, hapart⟩, _⟩ := isApart_and_isLeast hlow hhigh
  have hne' : coefficient * num e ≠ significand * den e := by
    intro heq
    refine hne (sub_eq_zero.1 ?_)
    have hzero : (coefficient : Int) * num e - significand * den e = 0 :=
      sub_eq_zero.2 (by exact_mod_cast heq)
    rw [sub_eq, hzero, Int.cast_zero, mul_zero]
  obtain ⟨hgap, rfl, rfl⟩ := hholds.eq_high_of_close one_lt_scale hbound hwide
    (hapart.imp_right fun h => ⟨h.1, h.2.1⟩) hsignificand hne'
    (natAbs_mul_le_den (Nat.zero_lt_of_lt one_lt_scale) hclose)
  exact (hapart.resolve_left (Nat.not_lt.2 hgap)).2.2

end Midpoint

end ScriptLang
