import ScriptLang.Number.Decimal
import ScriptLang.Proofs.Nearest
import Mathlib.Algebra.Order.Floor.Semifield
import Mathlib.Data.Rat.Floor

set_option autoImplicit false

/-! # The shortest decimal of a single

A positive single has a decimal of 17 digits or less that is rounded to it. The decimal that
`Floating.shortest` picks is rounded to the single (`Single.round_shortest`), lies within one unit
of its last digit from it (`Single.abs_toRat_shortest_sub_le`), and no decimal with fewer digits is
rounded to it (`Single.digitCount_shortest_le`). -/

namespace ScriptLang

/-! ## Digits -/

namespace Text

theorem digitCount_le_iff {n k : Nat} (hk : 0 < k) : digitCount n ≤ k ↔ n < 10 ^ k :=
  Nat.length_toDigits_le_iff (by decide) hk

theorem digitCount_pos (n : Nat) : 0 < digitCount n :=
  List.length_pos_iff.2 Nat.toDigits_ne_nil

theorem lt_pow_digitCount (n : Nat) : n < 10 ^ digitCount n :=
  (digitCount_le_iff (digitCount_pos n)).1 le_rfl

theorem pow_digitCount_le {n : Nat} (hn : n ≠ 0) : 10 ^ (digitCount n - 1) ≤ n := by
  rcases Nat.eq_zero_or_pos (digitCount n - 1) with hzero | hpos
  · rw [hzero]
    exact Nat.pos_of_ne_zero hn
  · by_contra hlt
    have := (digitCount_le_iff hpos).2 (Nat.lt_of_not_le hlt)
    omega

end Text

/-! ## Decimals as numbers -/

/-- What is rounded to a positive single is neither very large nor very small. -/
theorem Format.Nearest.moderate {q : ℚ} {n : Nat} {e : Int}
    (hnearest : Format.single.Nearest q (n * 2 ^ e)) (h : Format.single.Canonical n e)
    (hn : n ≠ 0) : (2 : ℚ) ^ (-400 : Int) ≤ q ∧ q < 2 ^ (400 : Int) := by
  have hpos := natCast_mul_two_zpow_pos hn e
  constructor
  · exact le_trans (zpow_le_zpow_right₀ (by norm_num) (by decide)) (hnearest.le hpos)
  · exact (hnearest.lt (by decide) (by decide) h.lt).trans_le
      (zpow_le_zpow_right₀ (by norm_num) (by decide))

namespace Decimal

variable {f : Format} {d : Decimal}

/-- The exact value of a decimal. -/
def toRat (d : Decimal) : ℚ :=
  d.coefficient * 10 ^ d.exponent

theorem den_ne_zero (d : Decimal) : d.den ≠ 0 :=
  (Nat.pow_pos (by decide)).ne'

theorem num_ne_zero (h : d.coefficient ≠ 0) : d.num ≠ 0 :=
  Nat.mul_ne_zero h (Nat.pow_pos (by decide)).ne'

theorem num_div_den (d : Decimal) : (d.num : ℚ) / d.den = d.toRat := by
  have hten := natCast_zpow_eq 10 d.exponent
  push_cast at hten
  rw [num, den, toRat, hten]
  push_cast
  ring

theorem coefficient_ne_zero (h : 0 < d.toRat) : d.coefficient ≠ 0 := by
  intro hzero
  simp [toRat, hzero] at h

theorem toRat_lt (d : Decimal) : d.toRat < 10 ^ d.pointPosition := by
  have hlt : (d.coefficient : ℚ) < 10 ^ Text.digitCount d.coefficient := by
    exact_mod_cast Text.lt_pow_digitCount d.coefficient
  rw [toRat, pointPosition, zpow_add₀ (by norm_num), zpow_natCast]
  gcongr

theorem le_toRat (h : d.coefficient ≠ 0) : (10 : ℚ) ^ (d.pointPosition - 1) ≤ d.toRat := by
  have hle : (10 : ℚ) ^ (Text.digitCount d.coefficient - 1) ≤ d.coefficient := by
    exact_mod_cast Text.pow_digitCount_le h
  have hpos := Text.digitCount_pos d.coefficient
  have hexponent : d.pointPosition - 1
      = (Text.digitCount d.coefficient - 1 : Nat) + d.exponent := by
    rw [pointPosition]
    omega
  rw [toRat, hexponent, zpow_add₀ (by norm_num), zpow_natCast]
  gcongr

/-- A decimal is a multiple of every smaller power of ten. -/
theorem exists_toRat_eq {k : Int} (h : k ≤ d.exponent) : ∃ j : Nat, d.toRat = j * 10 ^ k := by
  refine ⟨d.coefficient * 10 ^ (d.exponent - k).toNat, ?_⟩
  have hexponent : d.exponent = (d.exponent - k).toNat + k := by omega
  rw [toRat]
  push_cast
  rw [mul_assoc, ← zpow_natCast, ← zpow_add₀ (by norm_num), ← hexponent]

theorem toRat_lt_of_coefficient_lt {count : Nat} {k : Int} (hdigits : d.coefficient < 10 ^ count)
    (h : d.exponent < k) : d.toRat < 10 ^ (k + count - 1) := by
  have hdigits : (d.coefficient : ℚ) < 10 ^ count := by exact_mod_cast hdigits
  calc d.toRat < 10 ^ count * 10 ^ d.exponent := by rw [toRat]; gcongr
    _ = 10 ^ (count + d.exponent) := by rw [zpow_add₀ (by norm_num), zpow_natCast]
    _ ≤ 10 ^ (k + count - 1) := zpow_le_zpow_right₀ (by norm_num) (by omega)

/-- Decimals of moderate size are rounded by their value. -/
theorem round_eq_ofRatio (hlow : (2 : ℚ) ^ (-400 : Int) ≤ d.toRat)
    (hhigh : d.toRat < 2 ^ (400 : Int)) (negative : Bool) :
    (d.round negative : Floating f) = Floating.ofRatio negative d.num d.den := by
  have hcoefficient : d.coefficient ≠ 0 :=
    coefficient_ne_zero (lt_of_lt_of_le (by positivity) hlow)
  have hlarge : (2 : ℚ) ^ (400 : Int) ≤ 10 ^ (400 : Int) :=
    zpow_le_zpow_left₀ (by norm_num) (by norm_num) (by norm_num)
  have hsmall : (10 : ℚ) ^ (-400 : Int) ≤ 2 ^ (-400 : Int) := by
    rw [zpow_neg, zpow_neg]
    exact inv_anti₀ (by positivity) hlarge
  have hposition : -magnitudeBound ≤ d.pointPosition := by
    have hlt := (hsmall.trans hlow).trans_lt d.toRat_lt
    have := (zpow_lt_zpow_iff_right₀ (by norm_num)).1 hlt
    rw [magnitudeBound]
    omega
  have hposition' : d.pointPosition ≤ magnitudeBound := by
    have hlt : (10 : ℚ) ^ (d.pointPosition - 1) < 10 ^ (400 : Int) :=
      ((le_toRat hcoefficient).trans_lt hhigh).trans_le hlarge
    have := (zpow_lt_zpow_iff_right₀ (by norm_num)).1 hlt
    rw [magnitudeBound]
    omega
  rw [round, if_neg, if_neg]
  · omega
  · simp only [Bool.or_eq_true, decide_eq_true_eq, not_or]
    exact ⟨hcoefficient, by omega⟩

/-- A decimal is rounded to a positive single exactly if this is the nearest one. -/
theorem round_eq_finite_iff {n : Nat} {e : Int} (h : Format.single.Canonical n e) (hn : n ≠ 0)
    (negative : Bool) :
    (d.round negative : Single) = .finite negative n e h ↔
      Format.single.Nearest d.toRat (n * 2 ^ e) := by
  constructor
  · intro hround
    unfold round at hround
    split at hround
    · exact absurd (Floating.canonical_of_ofParts hround).1.symm hn
    next hmoderate =>
    split at hround
    · cases hround
    · simp only [Bool.or_eq_true, decide_eq_true_eq, not_or] at hmoderate
      rwa [Floating.ofRatio_eq_finite_iff (by decide) (num_ne_zero hmoderate.1) d.den_ne_zero,
        num_div_den] at hround
  · intro hnearest
    obtain ⟨hlow, hhigh⟩ := hnearest.moderate h hn
    have hcoefficient := coefficient_ne_zero (lt_of_lt_of_le (by positivity) hlow)
    rwa [round_eq_ofRatio hlow hhigh, Floating.ofRatio_eq_finite_iff (by decide)
      (num_ne_zero hcoefficient) d.den_ne_zero, num_div_den]

end Decimal

/-! ## The neighbours with a number of digits -/

namespace Floating

variable {f : Format} {num den count : Nat}

/-- The magnitude is the exponent of the power of ten next above a number. -/
theorem decimalMagnitude_spec (hnum : num ≠ 0) (hden : den ≠ 0) :
    (10 : ℚ) ^ (decimalMagnitude num den - 1) ≤ num / den ∧
      (num : ℚ) / den < 10 ^ decimalMagnitude num den := by
  have hnumpos : (0 : ℚ) < num := by exact_mod_cast Nat.pos_of_ne_zero hnum
  have hdenpos : (0 : ℚ) < den := by exact_mod_cast Nat.pos_of_ne_zero hden
  unfold decimalMagnitude
  split
  · next hle =>
    have hwhole : num / den ≠ 0 := (Nat.div_pos hle (Nat.pos_of_ne_zero hden)).ne'
    have hlow := Text.pow_digitCount_le hwhole
    have hhigh := Text.lt_pow_digitCount (num / den)
    have hpos := Text.digitCount_pos (num / den)
    generalize Text.digitCount (num / den) = k at hlow hhigh hpos
    have hexponent : (k : Int) - 1 = (k - 1 : Nat) := by omega
    rw [hexponent, zpow_natCast, zpow_natCast, le_div_iff₀ hdenpos, div_lt_iff₀ hdenpos]
    rw [Nat.le_div_iff_mul_le (Nat.pos_of_ne_zero hden)] at hlow
    rw [Nat.div_lt_iff_lt_mul (Nat.pos_of_ne_zero hden)] at hhigh
    exact ⟨by exact_mod_cast hlow, by exact_mod_cast hhigh⟩
  · next hlt =>
    have hwhole : (den - 1) / num ≠ 0 :=
      (Nat.div_pos (by omega) (Nat.pos_of_ne_zero hnum)).ne'
    have hlow := Text.pow_digitCount_le hwhole
    have hhigh := Text.lt_pow_digitCount ((den - 1) / num)
    have hpos := Text.digitCount_pos ((den - 1) / num)
    generalize Text.digitCount ((den - 1) / num) = k at hlow hhigh hpos
    have hexponent : (1 : Int) - k - 1 = -(k : Nat) := by omega
    have hexponent' : (1 : Int) - k = -(k - 1 : Nat) := by omega
    rw [Nat.le_div_iff_mul_le (Nat.pos_of_ne_zero hnum)] at hlow
    rw [Nat.div_lt_iff_lt_mul (Nat.pos_of_ne_zero hnum)] at hhigh
    have hlow' : 10 ^ (k - 1) * num < den := by omega
    have hhigh' : den ≤ 10 ^ k * num := by omega
    rw [hexponent, hexponent', zpow_neg, zpow_neg, zpow_natCast, zpow_natCast,
      inv_eq_one_div, inv_eq_one_div, div_le_div_iff₀ (by positivity) hdenpos,
      div_lt_div_iff₀ hdenpos (by positivity), one_mul, mul_comm (num : ℚ),
      mul_comm (num : ℚ)]
    exact ⟨by exact_mod_cast hhigh', by exact_mod_cast hlow'⟩

/-- The greatest decimal with `count` digits that does not exceed `num / den`. -/
def lower (num den count : Nat) : Decimal :=
  let exponent := decimalMagnitude num den - count
  ⟨num * Nat.pow 10 (-exponent).toNat / (den * Nat.pow 10 exponent.toNat), exponent⟩

/-- The next decimal with `count` digits. -/
def upper (num den count : Nat) : Decimal :=
  if (lower num den count).coefficient + 1 = Nat.pow 10 count
  then ⟨1, decimalMagnitude num den⟩
  else ⟨(lower num den count).coefficient + 1, decimalMagnitude num den - count⟩

/-- A neighbour is picked exactly if one reads back. -/
theorem neighbour?_cases (x : Floating f) (num den count : Nat) :
    (neighbour? x num den count = none ∧ (lower num den count).round false ≠ x ∧
      (upper num den count).round false ≠ x) ∨
    (neighbour? x num den count = some (lower num den count) ∧
      (lower num den count).round false = x) ∨
    (neighbour? x num den count = some (upper num den count) ∧
      (upper num den count).round false = x) := by
  unfold neighbour?
  dsimp only
  split
  · next hlower hupper => exact .inl ⟨rfl, of_decide_eq_false hlower, of_decide_eq_false hupper⟩
  · next hlower _ => exact .inr (.inl ⟨rfl, of_decide_eq_true hlower⟩)
  · next _ hupper => exact .inr (.inr ⟨rfl, of_decide_eq_true hupper⟩)
  · next hlower hupper =>
    split
    · exact .inr (.inl ⟨rfl, of_decide_eq_true hlower⟩)
    · exact .inr (.inr ⟨rfl, of_decide_eq_true hupper⟩)

theorem isSome_neighbour? {x : Floating f} (h : (lower num den count).round false = x ∨
    (upper num den count).round false = x) : (neighbour? x num den count).isSome = true := by
  rcases neighbour?_cases x num den count with ⟨_, hlower, hupper⟩ | ⟨hsome, _⟩ | ⟨hsome, _⟩
  · exact absurd h (not_or.2 ⟨hlower, hupper⟩)
  · rw [hsome, Option.isSome_some]
  · rw [hsome, Option.isSome_some]

theorem of_neighbour?_eq_some {x : Floating f} {d : Decimal}
    (h : neighbour? x num den count = some d) :
    (d = lower num den count ∨ d = upper num den count) ∧ d.round false = x := by
  rcases neighbour?_cases x num den count with ⟨hnone, _⟩ | ⟨hsome, hround⟩ | ⟨hsome, hround⟩
  · rw [hnone] at h
    cases h
  · obtain rfl := Option.some.inj (h.symm.trans hsome)
    exact ⟨.inl rfl, hround⟩
  · obtain rfl := Option.some.inj (h.symm.trans hsome)
    exact ⟨.inr rfl, hround⟩

theorem of_neighbour?_eq_none {x : Floating f} (h : neighbour? x num den count = none) :
    (lower num den count).round false ≠ x ∧ (upper num den count).round false ≠ x :=
  not_or.1 fun heither => Option.isSome_iff_ne_none.1 (isSome_neighbour? heither) h

theorem coefficient_lower (num den count : Nat) :
    (lower num den count).coefficient
      = ⌊(num / den : ℚ) / 10 ^ (decimalMagnitude num den - count)⌋₊ := by
  have hten : 0 < 10 := by decide
  have hscaled := div_zpow_eq num den hten (decimalMagnitude num den - count)
  rw [Nat.cast_ofNat] at hscaled
  rw [← hscaled, Nat.floor_div_eq_div]
  rfl

theorem toRat_lower_le (num den count : Nat) : (lower num den count).toRat ≤ num / den := by
  rw [Decimal.toRat, coefficient_lower, ← le_div_iff₀ (by positivity)]
  exact Nat.floor_le (by positivity)

theorem lt_toRat_lower (num den count : Nat) :
    (num : ℚ) / den
      < (lower num den count).toRat + 10 ^ (decimalMagnitude num den - count : Int) := by
  have hlt := Nat.lt_floor_add_one ((num / den : ℚ) / 10 ^ (decimalMagnitude num den - count : Int))
  rw [div_lt_iff₀ (by positivity), ← coefficient_lower] at hlt
  rw [Decimal.toRat]
  change _ < _ * 10 ^ (decimalMagnitude num den - count : Int) + _
  linarith

theorem le_toRat_lower {j : Nat}
    (hj : (j : ℚ) * 10 ^ (decimalMagnitude num den - count : Int) ≤ num / den) :
    (j : ℚ) * 10 ^ (decimalMagnitude num den - count : Int) ≤ (lower num den count).toRat := by
  have hle : j ≤ (lower num den count).coefficient := by
    rw [coefficient_lower]
    exact Nat.le_floor ((le_div_iff₀ (by positivity)).2 hj)
  have hle : (j : ℚ) ≤ (lower num den count).coefficient := by exact_mod_cast hle
  rw [Decimal.toRat]
  change _ ≤ _ * (10 : ℚ) ^ (decimalMagnitude num den - count : Int)
  gcongr

/-- The magnitude of the lower neighbour is that of the number. -/
theorem pow_le_toRat_lower (hnum : num ≠ 0) (hden : den ≠ 0) (hcount : count ≠ 0) :
    (10 : ℚ) ^ (decimalMagnitude num den - 1) ≤ (lower num den count).toRat := by
  have hmagnitude := (decimalMagnitude_spec hnum hden).1
  have hpower : (10 : ℚ) ^ (decimalMagnitude num den - 1)
      = (10 ^ (count - 1) : Nat) * 10 ^ (decimalMagnitude num den - count : Int) := by
    push_cast
    rw [← zpow_natCast, ← zpow_add₀ (by norm_num)]
    congr 1
    omega
  rw [hpower] at hmagnitude ⊢
  exact le_toRat_lower hmagnitude

theorem coefficient_lower_lt (hnum : num ≠ 0) (hden : den ≠ 0) :
    (lower num den count).coefficient < 10 ^ count := by
  have hlt := (decimalMagnitude_spec hnum hden).2
  rw [coefficient_lower, Nat.floor_lt (by positivity), div_lt_iff₀ (by positivity)]
  push_cast
  rwa [← zpow_natCast, ← zpow_add₀ (by norm_num), add_sub_cancel]

theorem toRat_upper (num den count : Nat) :
    (upper num den count).toRat
      = (lower num den count).toRat + 10 ^ (decimalMagnitude num den - count : Int) := by
  have hnext : (lower num den count).toRat + 10 ^ (decimalMagnitude num den - count : Int)
      = ((lower num den count).coefficient + 1 : Nat)
        * 10 ^ (decimalMagnitude num den - count : Int) := by
    rw [Decimal.toRat]
    push_cast
    rw [add_mul, one_mul]
    rfl
  rw [hnext]
  unfold upper
  split
  · next hfull =>
    rw [hfull, Decimal.toRat]
    change ((1 : Nat) : ℚ) * 10 ^ decimalMagnitude num den = (10 ^ count : Nat) * _
    push_cast
    rw [← zpow_natCast, ← zpow_add₀ (by norm_num), add_sub_cancel, one_mul]
  · rfl

/-- A multiple of the last digit's unit above a number is not below its upper neighbour. -/
theorem toRat_upper_le {j : Nat}
    (hj : (num : ℚ) / den < j * 10 ^ (decimalMagnitude num den - count : Int)) :
    (upper num den count).toRat ≤ j * 10 ^ (decimalMagnitude num den - count : Int) := by
  have hlt : (lower num den count).coefficient + 1 ≤ j := by
    rw [Nat.succ_le_iff, coefficient_lower, Nat.floor_lt (by positivity)]
    exact (div_lt_iff₀ (by positivity)).2 hj
  have hlt : ((lower num den count).coefficient : ℚ) + 1 ≤ j := by exact_mod_cast hlt
  have hnext : (upper num den count).toRat = ((lower num den count).coefficient + 1)
      * 10 ^ (decimalMagnitude num den - count : Int) := by
    rw [toRat_upper, Decimal.toRat, add_mul, one_mul]
    rfl
  rw [hnext]
  gcongr

theorem le_exponent_upper (num den count : Nat) :
    decimalMagnitude num den - count ≤ (upper num den count).exponent := by
  unfold upper
  split
  · simp
  · exact le_rfl

theorem coefficient_upper_lt (hnum : num ≠ 0) (hden : den ≠ 0) (hcount : count ≠ 0) :
    (upper num den count).coefficient < 10 ^ count := by
  unfold upper
  split
  · exact Nat.one_lt_pow hcount (by decide)
  · next hfull => exact Nat.lt_of_le_of_ne (coefficient_lower_lt hnum hden) hfull

end Floating

/-! ## The search -/

/-- The first entry of a range that gives a result. -/
theorem exists_of_findSome?_range {β : Type} {g : Nat → Option β} {n : Nat} {b : β}
    (h : (List.range n).findSome? g = some b) :
    ∃ k < n, g k = some b ∧ ∀ j < k, g j = none := by
  induction n with
  | zero => cases h
  | succ n ih =>
    rw [List.range_succ, List.findSome?_append] at h
    cases hfirst : (List.range n).findSome? g with
    | some b' =>
      rw [hfirst, Option.some_or] at h
      obtain ⟨k, hk, hkey⟩ := ih (hfirst.trans h)
      exact ⟨k, Nat.lt_succ_of_lt hk, hkey⟩
    | none =>
      rw [hfirst, Option.none_or] at h
      refine ⟨n, Nat.lt_succ_self n, by simpa using h, fun j hj => ?_⟩
      exact List.findSome?_eq_none_iff.1 hfirst j (List.mem_range.2 hj)

theorem Floating.shortest_eq {f : Format} {x : Floating f} {d : Decimal}
    (h : (List.range maxDigits).findSome?
      (fun k => neighbour? x x.toRat.num.natAbs x.toRat.den (k + 1)) = some d) :
    x.shortest = d := by
  unfold shortest
  dsimp only
  rw [h]

namespace Single

open Floating

variable {n num den count : Nat} {e : Int} {h : Format.single.Canonical n e}

/-- Seventeen digits are enough. -/
theorem round_lower_seventeen (hn : n ≠ 0) (hnum : num ≠ 0) (hden : den ≠ 0)
    (hvalue : (num : ℚ) / den = n * 2 ^ e) :
    (lower num den 17).round false = (.finite false n e h : Single) := by
  rw [Decimal.round_eq_finite_iff h hn]
  have hlower := toRat_lower_le num den 17
  have hclose := lt_toRat_lower num den 17
  have hmagnitude := (decimalMagnitude_spec hnum hden).1
  rw [hvalue] at hlower hclose hmagnitude
  refine h.nearest_of_close (by decide) hlower ?_
  have hunit : (10 : ℚ) ^ (decimalMagnitude num den - (17 : Nat) : Int)
      = 10 ^ (decimalMagnitude num den - 1) / 10 ^ 16 := by
    have hexponent : decimalMagnitude num den - (17 : Nat) = decimalMagnitude num den - 1 - 16 := by
      omega
    rw [hexponent, zpow_sub₀ (by norm_num)]
    norm_num
  have hbits : (n : ℚ) ≤ 16777216 := by exact_mod_cast h.1.le
  have hpow : (0 : ℚ) < 2 ^ e := by positivity
  have hquarter : (2 : ℚ) ^ (e - 2) = 2 ^ e / 4 := by
    rw [zpow_sub₀ (by norm_num)]
    norm_num
  rw [hquarter]
  rw [hunit] at hclose
  nlinarith

/-- If a decimal with some number of digits reads back, one of the neighbours with as many digits
does. -/
theorem round_lower_or_upper {d : Decimal} (hn : n ≠ 0) (hnum : num ≠ 0) (hden : den ≠ 0)
    (hvalue : (num : ℚ) / den = n * 2 ^ e) (hcount : count ≠ 0)
    (hdigits : d.coefficient < 10 ^ count)
    (hround : d.round false = (.finite false n e h : Single)) :
    (lower num den count).round false = (.finite false n e h : Single) ∨
      (upper num den count).round false = (.finite false n e h : Single) := by
  have hpos := natCast_mul_two_zpow_pos hn e
  have hself := h.nearest (by decide)
  have hstart := pow_le_toRat_lower hnum hden hcount
  have hlower := toRat_lower_le num den count
  have hlowerpos : 0 < (lower num den count).toRat := lt_of_lt_of_le (by positivity) hstart
  rw [Decimal.round_eq_finite_iff h hn, Decimal.round_eq_finite_iff h hn]
  rw [Decimal.round_eq_finite_iff h hn] at hround
  rw [hvalue] at hlower
  by_cases hexponent : decimalMagnitude num den - count ≤ d.exponent
  · -- The decimal stands on the grid of the neighbours.
    obtain ⟨j, hj⟩ := Decimal.exists_toRat_eq hexponent
    by_cases hle : d.toRat ≤ n * 2 ^ e
    · have hdlower : d.toRat ≤ (lower num den count).toRat := by
        rw [hj]
        exact le_toRat_lower (by rw [hvalue, ← hj]; exact hle)
      exact .inl (hround.between (by decide) hself hlowerpos hdlower hlower)
    · have hupperd : (upper num den count).toRat ≤ d.toRat := by
        rw [hj]
        exact toRat_upper_le (by rw [hvalue, ← hj]; exact not_le.1 hle)
      have hupper : (n : ℚ) * 2 ^ e ≤ (upper num den count).toRat := by
        rw [toRat_upper, ← hvalue]
        exact (lt_toRat_lower num den count).le
      exact .inr (hself.between (by decide) hround (hpos.trans_le hupper) hupper hupperd)
  · -- It is so small that the lower neighbour lies between it and the number.
    have hsmall := Decimal.toRat_lt_of_coefficient_lt hdigits (not_le.1 hexponent)
    rw [sub_add_cancel] at hsmall
    exact .inl (hround.between (by decide) hself hlowerpos (hsmall.le.trans hstart) hlower)

/-- The decimal that is found is one of the two neighbours with some number of digits, reads back,
and no neighbour with fewer digits does. -/
theorem exists_shortest_eq (h : Format.single.Canonical n e) (hn : n ≠ 0) :
    ∃ num den count : Nat, num ≠ 0 ∧ den ≠ 0 ∧ (num : ℚ) / den = n * 2 ^ e ∧ count ≠ 0 ∧
      ((.finite false n e h : Single).shortest = lower num den count ∨
        (.finite false n e h : Single).shortest = upper num den count) ∧
      (.finite false n e h : Single).shortest.round false = (.finite false n e h : Single) ∧
      ∀ k ≠ 0, k < count → (lower num den k).round false ≠ (.finite false n e h : Single) ∧
        (upper num den k).round false ≠ (.finite false n e h : Single) := by
  have hpos : 0 < scaled n e := by
    rw [scaled_eq]
    exact natCast_mul_two_zpow_pos hn e
  have hnum := natAbs_num_ne_zero hpos
  have hden := (scaled n e).den_nz
  have hvalue := (natAbs_num_div_den hpos).trans (scaled_eq n e)
  obtain ⟨d, hfound⟩ : ∃ d, (List.range maxDigits).findSome? (fun k =>
      neighbour? (.finite false n e h : Single) (scaled n e).num.natAbs (scaled n e).den (k + 1))
        = some d := by
    rw [← Option.isSome_iff_exists, List.findSome?_isSome_iff]
    exact ⟨16, List.mem_range.2 (by decide),
      isSome_neighbour? (.inl (round_lower_seventeen hn hnum hden hvalue))⟩
  have hshortest : (.finite false n e h : Single).shortest = d := shortest_eq hfound
  obtain ⟨k, _, hsome, hbefore⟩ := exists_of_findSome?_range hfound
  obtain ⟨hneighbour, hround⟩ := of_neighbour?_eq_some hsome
  rw [hshortest]
  refine ⟨_, _, k + 1, hnum, hden, hvalue, k.succ_ne_zero, hneighbour, hround, fun j hj hlt => ?_⟩
  obtain ⟨i, rfl⟩ := Nat.exists_eq_succ_of_ne_zero hj
  exact of_neighbour?_eq_none (hbefore i (by omega))

/-- The shortest decimal reads back. -/
theorem round_shortest (h : Format.single.Canonical n e) (hn : n ≠ 0) :
    (.finite false n e h : Single).shortest.round false = (.finite false n e h : Single) := by
  obtain ⟨_, _, _, _, _, _, _, _, hround, _⟩ := exists_shortest_eq h hn
  exact hround

/-- The shortest decimal lies within one unit of its last digit from the number. -/
theorem abs_toRat_shortest_sub_le (h : Format.single.Canonical n e) (hn : n ≠ 0) :
    |(.finite false n e h : Single).shortest.toRat - n * 2 ^ e|
      ≤ 10 ^ (.finite false n e h : Single).shortest.exponent := by
  obtain ⟨num, den, count, _, _, hvalue, _, heither, _, _⟩ := exists_shortest_eq h hn
  have hlow := toRat_lower_le num den count
  have hhigh := lt_toRat_lower num den count
  rw [hvalue] at hlow hhigh
  rcases heither with heq | heq
  · rw [heq, abs_sub_comm, abs_of_nonneg (by linarith)]
    change _ ≤ (10 : ℚ) ^ (decimalMagnitude num den - count : Int)
    linarith
  · have hexponent : (10 : ℚ) ^ (decimalMagnitude num den - count : Int)
        ≤ 10 ^ (upper num den count).exponent :=
      zpow_le_zpow_right₀ (by norm_num) (le_exponent_upper num den count)
    rw [heq, toRat_upper, abs_of_nonneg (by linarith)]
    linarith

/-- No decimal with fewer digits reads back. -/
theorem digitCount_shortest_le (h : Format.single.Canonical n e) (hn : n ≠ 0) {d : Decimal}
    (hround : d.round false = (.finite false n e h : Single)) :
    Text.digitCount (.finite false n e h : Single).shortest.coefficient
      ≤ Text.digitCount d.coefficient := by
  obtain ⟨num, den, count, hnum, hden, hvalue, hcount, heither, _, hfewer⟩ :=
    exists_shortest_eq h hn
  have hdigits : Text.digitCount (.finite false n e h : Single).shortest.coefficient ≤ count := by
    rw [Text.digitCount_le_iff (Nat.pos_of_ne_zero hcount)]
    rcases heither with heq | heq
    · rw [heq]
      exact coefficient_lower_lt hnum hden
    · rw [heq]
      exact coefficient_upper_lt hnum hden hcount
  refine hdigits.trans (not_lt.1 fun hlt => ?_)
  have hne := (Text.digitCount_pos d.coefficient).ne'
  obtain ⟨hlower, hupper⟩ := hfewer _ hne hlt
  rcases round_lower_or_upper hn hnum hden hvalue hne (Text.lt_pow_digitCount _) hround with h | h
  · exact hlower h
  · exact hupper h

end Single

end ScriptLang
