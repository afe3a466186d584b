import ScriptLang.Proofs.Widening

set_option autoImplicit false

/-! # Correct rounding

A fraction is rounded to the number of a format that is nearest to it, to the one with an even
significand if two are nearest, and to an infinite number from a threshold on (`Floating.Rounds`).
This says nothing about how the number is found. `Floating.ofRat` finds it
(`Floating.rounds_ofRat`), it is the only one up to the sign of zero (`Floating.Rounds.equal`), and
a larger fraction is never rounded to a smaller number (`Floating.Rounds.mono`). -/

namespace ScriptLang

/-! ## Distances -/

/-- No integer is nearer than the nearest one. If another is as near, the nearest one is even and
the other odd. -/
theorem IsNearest.closest {q : ℚ} {n : Nat} (hn : IsNearest q n) (i : Nat) :
    |q - n| ≤ |q - i| ∧ (|q - n| = |q - i| → i = n ∨ n % 2 = 0 ∧ i % 2 = 1) := by
  by_cases heq : i = n
  · subst heq
    exact ⟨le_rfl, fun _ => .inl rfl⟩
  have hapart : (1 : ℚ) ≤ |(n : ℚ) - i| := by
    have hint : (1 : Int) ≤ |(n : Int) - i| := Int.one_le_abs (by omega)
    exact_mod_cast hint
  have htriangle : |(n : ℚ) - i| ≤ |q - n| + |q - i| := by
    have := abs_add_le ((n : ℚ) - q) (q - i)
    rwa [sub_add_sub_cancel, abs_sub_comm (n : ℚ) q] at this
  have hhalf := hn.1
  refine ⟨by linarith, fun htie => .inr ?_⟩
  have heven := hn.2 (by linarith)
  -- both lie within a half of `q`, so they are neighbours
  have hclose : |(n : ℚ) - i| ≤ 1 := by linarith
  have hclose : |(n : Int) - i| ≤ 1 := by exact_mod_cast hclose
  rw [abs_le] at hclose
  exact ⟨heven, by omega⟩

namespace Format

/-- The formats in which a power of two has an even significand. -/
structure IsProper (f : Format) : Prop where
  two_le_precision : 2 ≤ f.precision
  min_le_max : f.minExponent ≤ f.maxExponent

theorem single_isProper : single.IsProper := by
  constructor <;> decide

theorem double_isProper : double.IsProper := by
  constructor <;> decide

variable {f : Format} {q v : ℚ} {e k : Int} {m n : Nat}

theorem IsProper.one_le (hf : f.IsProper) : 1 ≤ f.precision :=
  (by decide : 1 ≤ 2).trans hf.two_le_precision

/-- No number of the format is nearer than the nearest multiple of the unit. If this is even, one as
near is odd. -/
theorem HasUnit.closest (hf : 1 ≤ f.precision) (hunit : f.HasUnit q e)
    (hn : IsNearest (q / 2 ^ e) n) (h : f.Canonical m k) :
    |q - n * 2 ^ e| ≤ |q - m * 2 ^ k| ∧
      (|q - n * 2 ^ e| = |q - m * 2 ^ k| →
        (m : ℚ) * 2 ^ k = n * 2 ^ e ∨ n % 2 = 0 ∧ m % 2 = 1) := by
  have hpow : (0 : ℚ) < 2 ^ e := by positivity
  have hdistance (j : Nat) : |q - j * 2 ^ e| = |q / 2 ^ e - j| * 2 ^ e := by
    rw [← abs_of_pos hpow, ← abs_mul, sub_mul, abs_of_pos hpow, div_mul_cancel₀ _ hpow.ne']
  rcases le_or_gt e k with hle | hlt
  · rw [natCast_mul_two_zpow m hle, hdistance, hdistance]
    obtain ⟨hnear, htie⟩ := hn.closest (m * 2 ^ (k - e).toNat)
    refine ⟨by gcongr, fun heq => ?_⟩
    refine (htie (mul_right_cancel₀ hpow.ne' heq)).imp (fun heq => by rw [heq]) ?_
    rintro ⟨heven, hodd⟩
    exact ⟨heven, (Nat.odd_mul.1 (Nat.odd_iff.2 hodd)).1 |> Nat.odd_iff.1⟩
  · -- the other number lies below the binade of `q`, whose first number is nearer
    have hstart : (2 : ℚ) ^ (e + f.precision - 1) ≤ q :=
      hunit.le_or_min.resolve_right (by have := h.2.1; omega)
    have hbelow : (m : ℚ) * 2 ^ k < 2 ^ (e + f.precision - 1) :=
      (h.hasUnit hf).lt.trans_le (zpow_le_zpow_right₀ (by norm_num) (by omega))
    have hfirst : (2 : ℚ) ^ (e + f.precision - 1) = (2 ^ (f.precision - 1) : Nat) * 2 ^ e := by
      have hexponent : e + f.precision - 1 = (f.precision - 1 : Nat) + e := by omega
      rw [hexponent, two_zpow_natCast_add]
    have hnear : |q - n * 2 ^ e| ≤ |q - 2 ^ (e + f.precision - 1)| := by
      rw [hfirst, hdistance, hdistance]
      exact mul_le_mul_of_nonneg_right (hn.closest _).1 hpow.le
    have hcloser : |q - 2 ^ (e + f.precision - 1)| < |q - m * 2 ^ k| := by
      rw [abs_of_nonneg (by linarith), abs_of_pos (by linarith)]
      linarith
    exact ⟨(hnear.trans_lt hcloser).le, fun heq => absurd heq (hnear.trans_lt hcloser).ne⟩

/-- An even number of units is a number with an even significand. -/
theorem Canonical.even (hf : f.IsProper) (h : f.Canonical m k) (hmin : f.minExponent ≤ e)
    (hn : n ≤ 2 ^ f.precision) (heven : n % 2 = 0) (hvalue : (m : ℚ) * 2 ^ k = n * 2 ^ e) :
    m % 2 = 0 := by
  have hpow (i : Int) : (2 : ℚ) ^ i ≠ 0 := zpow_ne_zero _ (by norm_num)
  rcases le_or_gt k e with hle | hlt
  · rw [natCast_mul_two_zpow n hle] at hvalue
    have hm : m = n * 2 ^ (e - k).toNat := by
      exact_mod_cast mul_right_cancel₀ (hpow k) hvalue
    rw [hm, Nat.mul_mod, heven, Nat.zero_mul, Nat.zero_mod]
  · rw [natCast_mul_two_zpow m hlt.le] at hvalue
    have hm : m * 2 ^ (k - e).toNat = n := by
      exact_mod_cast mul_right_cancel₀ (hpow e) hvalue
    -- only the first number of a binade reaches a unit below its own
    have hfull : 2 ^ (f.precision - 1) ≤ m := h.2.2.2.resolve_right (by omega)
    have hdouble : m * 2 ≤ m * 2 ^ (k - e).toNat :=
      Nat.mul_le_mul_left m (Nat.le_self_pow (by omega) 2)
    obtain ⟨p, hp⟩ := Nat.exists_eq_add_of_le' hf.two_le_precision
    have hprevious : f.precision - 1 = p + 1 := by omega
    rw [hprevious, Nat.pow_succ] at hfull
    rw [hp, Nat.pow_succ, Nat.pow_succ] at hn
    omega

/-! ## The threshold -/

/-- The least size that is rounded beyond the greatest number of the format. It lies half a unit
above that number. -/
def overflow (f : Format) : ℚ :=
  2 ^ (f.maxExponent + f.precision) - 2 ^ (f.maxExponent - 1)

theorem overflow_pos (f : Format) : 0 < f.overflow := by
  have hlt : (2 : ℚ) ^ (f.maxExponent - 1) < 2 ^ (f.maxExponent + f.precision) :=
    zpow_lt_zpow_right₀ (by norm_num) (by omega)
  exact sub_pos.2 hlt

theorem nearest_overflow (hf : f.IsProper) :
    f.Nearest f.overflow (2 ^ (f.maxExponent + f.precision)) := by
  have hpow : (0 : ℚ) < 2 ^ f.maxExponent := by positivity
  have hpower : (2 : ℚ) ^ (f.maxExponent + f.precision)
      = (2 ^ f.precision : Nat) * 2 ^ f.maxExponent := by
    rw [add_comm, two_zpow_natCast_add]
  have hhalf : (2 : ℚ) ^ (f.maxExponent - 1) = 1 / 2 * 2 ^ f.maxExponent := by
    rw [zpow_sub_one₀ (by norm_num)]
    ring
  have hunits : f.overflow / 2 ^ f.maxExponent - (2 ^ f.precision : Nat) = -(1 / 2) := by
    rw [overflow, hpower, hhalf, ← sub_mul, mul_div_cancel_right₀ _ hpow.ne']
    ring
  refine ⟨f.maxExponent, 2 ^ f.precision, ⟨hf.min_le_max, ?_, .inl ?_⟩, ?_, hpower⟩
  · have : (0 : ℚ) < 2 ^ (f.maxExponent - 1) := by positivity
    rw [overflow]
    linarith
  · have hbinade : (2 : ℚ) ^ (f.maxExponent + f.precision)
        = 2 * 2 ^ (f.maxExponent + f.precision - 1) := by
      rw [zpow_sub_one₀ (by norm_num)]
      ring
    have hsmall : (2 : ℚ) ^ (f.maxExponent - 1) ≤ 2 ^ (f.maxExponent + f.precision - 1) :=
      zpow_le_zpow_right₀ (by norm_num) (by omega)
    rw [overflow]
    linarith
  · rw [IsNearest, hunits, abs_neg, abs_of_pos (by norm_num)]
    exact ⟨le_rfl, fun _ => Nat.two_pow_mod_two_eq_zero.2 hf.one_le⟩

/-- What is below the threshold is rounded to a number of the format, and nothing else is. -/
theorem Nearest.lt_iff (hf : f.IsProper) (h : f.Nearest q v) :
    v < 2 ^ (f.maxExponent + f.precision) ↔ q < f.overflow := by
  constructor
  · intro hv
    by_contra hq
    exact absurd hv (not_lt.2 ((nearest_overflow hf).mono hf.one_le h (not_lt.1 hq)))
  · intro hq
    by_contra hv
    rw [not_lt] at hv
    obtain ⟨e, n, hunit, hn, rfl⟩ := h
    have hpow : (0 : ℚ) < 2 ^ e := by positivity
    have hle : e ≤ f.maxExponent := by
      rcases hunit.le_or_min with hstart | rfl
      · have hend : q < 2 ^ (f.maxExponent + f.precision) :=
          hq.trans (sub_lt_self _ (by positivity))
        have := (zpow_lt_zpow_iff_right₀ (by norm_num)).1 (hstart.trans_lt hend)
        omega
      · exact hf.min_le_max
    -- rounding moved `q` by no more than half the greatest unit
    have hmoved := (abs_le.1 hn.abs_sub_le).1
    have hunits : (2 : ℚ) ^ (e - 1) ≤ 2 ^ (f.maxExponent - 1) :=
      zpow_le_zpow_right₀ (by norm_num) (by omega)
    rw [overflow] at hq
    linarith

theorem Nearest.exists_canonical_of_lt (hf : f.IsProper) (h : f.Nearest q v)
    (hq : q < f.overflow) : ∃ m k, f.Canonical m k ∧ v = m * 2 ^ k :=
  h.exists_canonical hf.one_le hf.min_le_max ((h.lt_iff hf).2 hq)

end Format

/-! ## Rounded numbers -/

namespace Floating

variable {f : Format} {q r : ℚ} {x y : Floating f}

/-- Whether a number has a value. -/
def isFinite : Floating f → Bool
  | .finite .. => true
  | _ => false

theorem exists_eq_finite (hx : x.isFinite = true) :
    ∃ negative n e h, x = .finite negative n e h := by
  cases x with
  | nan => cases hx
  | infinite negative => cases hx
  | finite negative n e h => exact ⟨negative, n, e, h, rfl⟩

/-- The significand of a finite number, and zero for the others. -/
def significand : Floating f → Nat
  | .finite _ n _ _ => n
  | _ => 0

/-- No number of the format is nearer to `q` than `x`, and the significand of `x` is even if another
number is as near. -/
structure Closest (q : ℚ) (x : Floating f) : Prop where
  le (y : Floating f) : y.isFinite = true → |q - x.toRat| ≤ |q - y.toRat|
  even (y : Floating f) : y.isFinite = true → |q - x.toRat| = |q - y.toRat| →
    y.toRat = x.toRat ∨ x.significand % 2 = 0

/-- `x` is `q`, rounded to the format. The zeros of both signs are not told apart. -/
def Rounds (q : ℚ) (x : Floating f) : Prop :=
  match x with
  | .nan => False
  | .infinite negative => f.overflow ≤ |q| ∧ negative = decide (q < 0)
  | .finite .. => |q| < f.overflow ∧ x.Closest q

theorem toRat_finite (negative : Bool) {n : Nat} {e : Int} (h : f.Canonical n e) :
    (.finite negative n e h : Floating f).toRat
      = if negative then -(n * (2 : ℚ) ^ e) else n * 2 ^ e := by
  cases negative <;> simp [toRat, scaled_eq]

theorem abs_toRat_finite (negative : Bool) {n : Nat} {e : Int} (h : f.Canonical n e) :
    |(.finite negative n e h : Floating f).toRat| = n * 2 ^ e := by
  have hnonneg : (0 : ℚ) ≤ n * 2 ^ e := by positivity
  rw [toRat_finite]
  cases negative with
  | false => exact abs_of_nonneg hnonneg
  | true => rw [if_pos rfl, abs_neg, abs_of_nonneg hnonneg]

theorem toRat_neg (x : Floating f) : x.neg.toRat = -x.toRat := by
  cases x with
  | nan => simp [neg, toRat]
  | infinite negative => simp [neg, toRat]
  | finite negative n e h => cases negative <;> simp [neg, toRat]

theorem isFinite_neg (x : Floating f) : x.neg.isFinite = x.isFinite := by
  cases x <;> rfl

theorem significand_neg (x : Floating f) : x.neg.significand = x.significand := by
  cases x <;> rfl

theorem Closest.neg (h : x.Closest q) : x.neg.Closest (-q) := by
  have hdistance (y : Floating f) : |-q - y.neg.toRat| = |q - y.toRat| := by
    rw [toRat_neg, ← neg_sub', abs_neg]
  have hmirror (y : Floating f) : |-q - y.toRat| = |q - y.neg.toRat| := by
    rw [← hdistance, neg_neg]
  constructor
  · intro y hy
    rw [hdistance, hmirror]
    exact h.le y.neg (by rwa [isFinite_neg])
  · intro y hy htie
    rw [hdistance, hmirror] at htie
    rw [significand_neg, toRat_neg]
    refine (h.even y.neg (by rwa [isFinite_neg]) htie).imp_left fun heq => ?_
    rw [toRat_neg] at heq
    rw [← heq, Rat.neg_neg]

/-! ## The only one -/

section

variable {e : Int} {n : Nat}

/-- Of the numbers of the format, those with the sign of `q` are the nearer ones. -/
theorem closest_of_hasUnit (hf : f.IsProper) (hq : 0 < q) (hunit : f.HasUnit q e)
    (hn : IsNearest (q / 2 ^ e) n) (hy : y.isFinite = true) :
    |q - n * 2 ^ e| ≤ |q - y.toRat| ∧ (|q - n * 2 ^ e| = |q - y.toRat| →
      y.toRat = n * 2 ^ e ∨ n % 2 = 0 ∧ y.significand % 2 = 1) := by
  obtain ⟨negative, m, k, h, rfl⟩ := exists_eq_finite hy
  obtain ⟨hle, htie⟩ := hunit.closest hf.one_le hn h
  rw [toRat_finite]
  cases negative with
  | false => exact ⟨hle, htie⟩
  | true =>
    have hm : (0 : ℚ) ≤ m * 2 ^ k := by positivity
    have hfar : |q - -(m * 2 ^ k)| = q + m * 2 ^ k := by
      rw [sub_neg_eq_add, abs_of_pos (by linarith)]
    have hfarther : |q - m * 2 ^ k| ≤ q + m * 2 ^ k := abs_le.2 ⟨by linarith, by linarith⟩
    rw [if_pos rfl, hfar]
    refine ⟨hle.trans hfarther, fun heq => ?_⟩
    -- then both signs are as near, so that the number is zero
    have hboth : |q - m * 2 ^ k| = q + m * 2 ^ k := le_antisymm hfarther (heq ▸ hle)
    have hzero : (m : ℚ) * 2 ^ k = 0 := by
      rcases abs_choice (q - m * 2 ^ k) with habs | habs <;> linarith
    rw [hzero, neg_zero, ← hzero]
    exact htie (heq.trans hboth.symm)

theorem closest_finite (hf : f.IsProper) (hq : 0 < q) (hunit : f.HasUnit q e)
    (hn : IsNearest (q / 2 ^ e) n) {m : Nat} {k : Int} (h : f.Canonical m k)
    (hvalue : (m : ℚ) * 2 ^ k = n * 2 ^ e) : (.finite false m k h : Floating f).Closest q := by
  have htoRat : (.finite false m k h : Floating f).toRat = n * 2 ^ e :=
    (toRat_finite ..).trans hvalue
  constructor
  · intro y hy
    rw [htoRat]
    exact (closest_of_hasUnit hf hq hunit hn hy).1
  · intro y hy htie
    rw [htoRat] at htie ⊢
    refine ((closest_of_hasUnit hf hq hunit hn hy).2 htie).imp_right fun ⟨heven, _⟩ => ?_
    exact h.even hf hunit.min_le (hunit.nearest_le hn) heven hvalue

theorem Closest.toRat_eq (hf : f.IsProper) (hq : 0 < q) (hunit : f.HasUnit q e)
    (hn : IsNearest (q / 2 ^ e) n) (hy : y.isFinite = true) (hvalue : y.toRat = n * 2 ^ e)
    (hfinite : x.isFinite = true) (hx : x.Closest q) : x.toRat = n * 2 ^ e := by
  obtain ⟨hle, htie⟩ := closest_of_hasUnit hf hq hunit hn hfinite
  have heq : |q - n * 2 ^ e| = |q - x.toRat| := le_antisymm hle (hvalue ▸ hx.le y hy)
  -- if both were nearest, one would be odd, and the even one is taken
  rcases htie heq with hsame | ⟨_, hodd⟩
  · exact hsame
  · rcases hx.even y hy (by rw [hvalue, heq]) with hsame | heven
    · rw [← hsame, hvalue]
    · omega

end

/-- The numbers nearest to `q` have one value. -/
theorem Closest.unique (hf : f.IsProper) (hq : |q| < f.overflow) (hx : x.Closest q)
    (hy : y.Closest q) (hxf : x.isFinite = true) (hyf : y.isFinite = true) :
    x.toRat = y.toRat := by
  have hpositive {r : ℚ} {x y : Floating f} (hr : 0 < r) (hlt : r < f.overflow) (hx : x.Closest r)
      (hy : y.Closest r) (hxf : x.isFinite = true) (hyf : y.isFinite = true) :
      x.toRat = y.toRat := by
    obtain ⟨num, den, hnum, hden, rfl⟩ := exists_div_eq hr
    obtain ⟨e, n, hunit, hn⟩ := f.exists_hasUnit_isNearest hnum hden
    have hnearest : f.Nearest (num / den) (n * 2 ^ e) := ⟨e, n, hunit, hn, rfl⟩
    obtain ⟨m, k, h, hvalue⟩ := hnearest.exists_canonical_of_lt hf hlt
    have hfound : (.finite false m k h : Floating f).toRat = n * 2 ^ e :=
      (toRat_finite ..).trans hvalue.symm
    rw [hx.toRat_eq hf hr hunit hn rfl hfound hxf, hy.toRat_eq hf hr hunit hn rfl hfound hyf]
  rcases lt_trichotomy q 0 with hneg | rfl | hpos
  · rw [abs_of_neg hneg] at hq
    have := hpositive (neg_pos.2 hneg) hq hx.neg hy.neg (by rwa [isFinite_neg])
      (by rwa [isFinite_neg])
    rwa [toRat_neg, toRat_neg, neg_inj] at this
  · have hzero {x : Floating f} (hx : x.Closest 0) : x.toRat = 0 := by
      have hle := hx.le (.finite false 0 _ (canonical_zero hf.min_le_max)) rfl
      rw [toRat_finite] at hle
      simpa using hle
    rw [hzero hx, hzero hy]
  · exact hpositive hpos ((le_abs_self q).trans_lt hq) hx hy hxf hyf

/-- A fraction is rounded to one number, up to the sign of zero. -/
theorem Rounds.equal (hf : f.IsProper) (hx : x.Rounds q) (hy : y.Rounds q) :
    x.equal y = true := by
  cases x with
  | nan => exact hx.elim
  | infinite negative =>
    cases y with
    | nan => exact hy.elim
    | infinite negative' => rw [hx.2, hy.2, Floating.equal, beq_self_eq_true]
    | finite negative' n e h => exact absurd hy.1 (not_lt.2 hx.1)
  | finite negative n e h =>
    cases y with
    | nan => exact hy.elim
    | infinite negative' => exact absurd hx.1 (not_lt.2 hy.1)
    | finite negative' m k h' =>
      rw [Floating.equal, beq_iff_eq]
      exact hx.2.unique hf hx.1 hy.2 rfl rfl

/-- The value of a number determines its significand. -/
theorem significand_eq_of_toRat_eq (hf : f.IsProper) {negative negative' : Bool} {n m : Nat}
    {e k : Int} (h : f.Canonical n e) (h' : f.Canonical m k)
    (heq : (.finite negative n e h : Floating f).toRat
      = (.finite negative' m k h' : Floating f).toRat) :
    n = m := by
  have hvalue : (n : ℚ) * 2 ^ e = m * 2 ^ k := by
    rw [← abs_toRat_finite negative h, heq, abs_toRat_finite]
  have hunit := h.hasUnit hf.one_le
  rw [hvalue] at hunit
  obtain rfl := hunit.unique (h'.hasUnit hf.one_le)
  exact_mod_cast mul_right_cancel₀ (zpow_ne_zero _ (by norm_num)) hvalue

/-- A number of the format is rounded to itself. -/
theorem rounds_toRat (hf : f.IsProper) (hx : x.isFinite = true) : x.Rounds x.toRat := by
  obtain ⟨negative, n, e, h, rfl⟩ := exists_eq_finite hx
  refine ⟨?_, fun y _ => ?_, fun y _ htie => .inl ?_⟩
  · rw [abs_toRat_finite]
    exact ((h.nearest hf.one_le).lt_iff hf).1 h.lt
  · rw [sub_self, abs_zero]
    exact abs_nonneg _
  · rw [sub_self, abs_zero, eq_comm, abs_eq_zero, sub_eq_zero] at htie
    exact htie.symm

/-- A number that equals the rounded one is the rounded one as well. -/
theorem Rounds.congr (hf : f.IsProper) (hx : x.Rounds q) (heq : x.equal y = true) :
    y.Rounds q := by
  cases x with
  | nan => exact hx.elim
  | infinite negative =>
    cases y with
    | nan => cases heq
    | infinite negative' =>
      rw [Floating.equal, beq_iff_eq] at heq
      exact heq ▸ hx
    | finite negative' m k h' => cases heq
  | finite negative n e h =>
    cases y with
    | nan => cases heq
    | infinite negative' => cases heq
    | finite negative' m k h' =>
      rw [Floating.equal, beq_iff_eq] at heq
      refine ⟨hx.1, fun z hz => ?_, fun z hz htie => ?_⟩
      · rw [← heq]
        exact hx.2.le z hz
      · rw [← heq] at htie ⊢
        refine (hx.2.even z hz htie).imp_right fun (heven : n % 2 = 0) => ?_
        exact (significand_eq_of_toRat_eq hf h h' heq) ▸ heven

/-- Two fractions that straddle the middle of two numbers. -/
theorem add_le_two_mul_of_closer {a b : ℚ} (hlt : b < a) (h : |q - a| ≤ |q - b|) :
    a + b ≤ 2 * q := by
  have hsquares := sq_le_sq.2 h
  nlinarith

/-- A larger fraction is not rounded to a smaller number. -/
theorem Rounds.mono (hf : f.IsProper) (hx : x.Rounds q) (hy : y.Rounds r) (h : q ≤ r) :
    y.less x = false := by
  cases x with
  | nan => exact hx.elim
  | infinite negative =>
    cases y with
    | nan => exact hy.elim
    | infinite negative' =>
      rw [hx.2, hy.2, less]
      by_cases hq : q < 0
      · simp [hq]
      · have hr : ¬ r < 0 := fun hr => hq (h.trans_lt hr)
        simp [hr]
    | finite negative' n e h' =>
      rw [hx.2, less, Bool.not_eq_false', decide_eq_true_iff]
      by_contra hq
      have hlarge := hx.1
      rw [abs_of_nonneg (not_lt.1 hq)] at hlarge
      exact absurd hy.1 (not_lt.2 (hlarge.trans (h.trans (le_abs_self r))))
  | finite negative n e h' =>
    cases y with
    | nan => exact hy.elim
    | infinite negative' =>
      rw [hy.2, less, decide_eq_false_iff_not]
      intro hr
      have hlarge := hy.1
      rw [abs_of_neg hr] at hlarge
      exact absurd hx.1 (not_lt.2 (hlarge.trans ((neg_le_neg h).trans (neg_le_abs q))))
    | finite negative' m k h'' =>
      rw [less, decide_eq_false_iff_not]
      intro hlt
      -- both fractions would be the middle of the two numbers, which is rounded to one of them
      have hq := add_le_two_mul_of_closer hlt (hx.2.le _ rfl)
      have hr := add_le_two_mul_of_closer (neg_lt_neg hlt) (q := -r) (by
        rw [← neg_sub', ← neg_sub', abs_neg, abs_neg]
        exact hy.2.le _ rfl)
      obtain rfl : q = r := by linarith
      exact absurd (hx.2.unique hf hx.1 hy.2 rfl rfl) hlt.ne'

/-! ## What is computed -/

theorem ofParts_cases (negative : Bool) (n : Nat) (e : Int) :
    (ofParts negative n e : Floating f) = .infinite negative ∨
      ∃ h, (ofParts negative n e : Floating f) = .finite negative n e h := by
  unfold ofParts
  split
  · next h => exact .inr ⟨h, rfl⟩
  · exact .inl rfl

/-- What is rounded keeps its sign, and becomes a number or infinite. -/
theorem ofRatio_cases (negative : Bool) (num den : Nat) :
    (ofRatio negative num den : Floating f) = .infinite negative ∨
      ∃ n e h, (ofRatio negative num den : Floating f) = .finite negative n e h := by
  have hparts (n : Nat) (e : Int) : (ofParts negative n e : Floating f) = .infinite negative ∨
      ∃ n' e' h, (ofParts negative n e : Floating f) = .finite negative n' e' h :=
    (ofParts_cases negative n e).imp_right fun ⟨h, heq⟩ => ⟨n, e, h, heq⟩
  unfold ofRatio
  split
  · exact hparts ..
  dsimp only
  split <;> exact hparts ..

theorem ofRatio_eq_infinite (hf : f.IsProper) {num den : Nat} (hnum : num ≠ 0) (hden : den ≠ 0)
    (hlarge : f.overflow ≤ num / den) (negative : Bool) :
    (ofRatio negative num den : Floating f) = .infinite negative := by
  refine (ofRatio_cases negative num den).resolve_right ?_
  rintro ⟨n, e, h, heq⟩
  have hnearest := (ofRatio_eq_finite_iff hf.one_le hnum hden h negative).1 heq
  exact absurd hlarge (not_le.2 ((hnearest.lt_iff hf).1 h.lt))

theorem rounds_ofRatio (hf : f.IsProper) {num den : Nat} (hnum : num ≠ 0) (hden : den ≠ 0) :
    (ofRatio false num den : Floating f).Rounds (num / den) := by
  obtain ⟨e, n, hunit, hn⟩ := f.exists_hasUnit_isNearest hnum hden
  have hpos : (0 : ℚ) < num / den :=
    div_pos (by exact_mod_cast Nat.pos_of_ne_zero hnum) (by exact_mod_cast Nat.pos_of_ne_zero hden)
  have hnearest : f.Nearest (num / den) (n * 2 ^ e) := ⟨e, n, hunit, hn, rfl⟩
  rcases lt_or_ge ((num : ℚ) / den) f.overflow with hlt | hge
  · obtain ⟨m, k, h, hvalue⟩ := hnearest.exists_canonical_of_lt hf hlt
    rw [(ofRatio_eq_finite_iff hf.one_le hnum hden h false).2 (hvalue ▸ hnearest)]
    exact ⟨by rwa [abs_of_pos hpos], closest_finite hf hpos hunit hn h hvalue.symm⟩
  · rw [ofRatio_eq_infinite hf hnum hden hge]
    exact ⟨by rwa [abs_of_pos hpos], (decide_eq_false (not_lt.2 hpos.le)).symm⟩

theorem Rounds.neg (hx : x.Rounds q) : x.neg.Rounds (-q) := by
  cases x with
  | nan => exact hx
  | infinite negative =>
    refine ⟨by rw [abs_neg]; exact hx.1, ?_⟩
    have hq : q ≠ 0 := by
      rintro rfl
      have := hx.1
      rw [abs_zero] at this
      exact absurd f.overflow_pos (not_lt.2 this)
    rw [hx.2]
    rcases lt_or_gt_of_ne hq with hneg | hpos
    · simp [hneg, hneg.le]
    · simp [hpos, hpos.le]
  | finite negative n e h => exact ⟨by rw [abs_neg]; exact hx.1, hx.2.neg⟩

theorem rounds_zero (hf : f.IsProper) (negative : Bool) :
    (zero negative : Floating f).Rounds 0 := by
  have h := canonical_zero hf.min_le_max
  have hround := rounds_toRat hf (x := .finite negative 0 _ h) rfl
  rwa [(toRat_eq_zero_iff h negative).2 rfl, eq_zero_of_canonical] at hround

theorem ofRat_of_pos (hq : 0 < q) : (ofRat q : Floating f) = ofRatio false q.num.natAbs q.den := by
  rw [ofRat, decide_eq_false (not_lt.2 hq.le)]

theorem ofRat_neg (hq : 0 < q) : (ofRat (-q) : Floating f) = (ofRat q).neg := by
  rw [ofRat_of_pos hq, ← ofRatio_true, ofRat, decide_eq_true (neg_neg_of_pos hq), Rat.neg_num,
    Int.natAbs_neg, Rat.neg_den]

/-- The number that is computed is the correct one. -/
theorem rounds_ofRat (hf : f.IsProper) (q : ℚ) : (ofRat q : Floating f).Rounds q := by
  have hpositive {q : ℚ} (hq : 0 < q) : (ofRat q : Floating f).Rounds q := by
    have h := rounds_ofRatio hf (natAbs_num_ne_zero hq) q.den_nz
    rwa [natAbs_num_div_den hq, ← ofRat_of_pos hq] at h
  rcases lt_trichotomy q 0 with hneg | rfl | hpos
  · have h := (hpositive (neg_pos.2 hneg)).neg
    rwa [← ofRat_neg (neg_pos.2 hneg), Rat.neg_neg] at h
  · exact rounds_zero hf false
  · exact hpositive hpos

theorem ofInt_eq_ofRat (n : Int) : (ofInt n : Floating f) = ofRat n := by
  rw [ofInt, ofRat, Rat.num_intCast, Rat.den_intCast]
  simp only [Int.cast_lt_zero]

/-- Of all numbers, those that equal the computed one are the correct ones. -/
theorem equal_ofRat_iff (hf : f.IsProper) : (ofRat q).equal x = true ↔ x.Rounds q :=
  ⟨(rounds_ofRat hf q).congr hf, (rounds_ofRat hf q).equal hf⟩

end Floating

end ScriptLang
