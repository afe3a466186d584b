import ScriptLang.Proofs.Rounding
import Mathlib.Tactic.Linarith
import Mathlib.Tactic.Ring

set_option autoImplicit false

/-! # Rounding to the nearest number

The number of a format nearest to a fraction is a multiple of the unit in the last place of the
fraction. Rounding to it is monotone (`Format.Nearest.mono`) and keeps the numbers of the format
(`Format.Canonical.nearest`), and it is what `Floating.ofRatio` computes
(`Floating.ofRatio_eq_finite_iff`). -/

namespace ScriptLang

/-! ## The nearest integer -/

/-- `n` is the integer nearest to `q`, and the even one if another integer is as near. -/
def IsNearest (q : ℚ) (n : Nat) : Prop :=
  |q - n| ≤ 1 / 2 ∧ (|q - n| = 1 / 2 → n % 2 = 0)

theorem isNearest_natCast (n : Nat) : IsNearest n n := by
  simp [IsNearest]

theorem isNearest_of_lt {q : ℚ} {n : Nat} (h : |q - n| < 1 / 2) : IsNearest q n :=
  ⟨h.le, fun heq => absurd heq h.ne⟩

theorem IsNearest.le {q : ℚ} {n : Nat} (h : IsNearest q n) : q ≤ n + 1 / 2 := by
  have := (abs_le.1 h.1).2
  linarith

theorem IsNearest.ge {q : ℚ} {n : Nat} (h : IsNearest q n) : (n : ℚ) - 1 / 2 ≤ q := by
  have := (abs_le.1 h.1).1
  linarith

/-- A half lies between two numbers whose nearest integers differ. -/
theorem IsNearest.half_between {q r : ℚ} {m n : Nat} (hq : IsNearest q m) (hr : IsNearest r n)
    (h : m < n) : q ≤ m + 1 / 2 ∧ (m : ℚ) + 1 / 2 ≤ r := by
  have hn : (m : ℚ) + 1 ≤ n := by exact_mod_cast h
  have := hr.ge
  exact ⟨hq.le, by linarith⟩

theorem IsNearest.mono {q r : ℚ} {m n : Nat} (hq : IsNearest q m) (hr : IsNearest r n)
    (h : q ≤ r) : m ≤ n := by
  by_contra hlt
  have hlt : n < m := Nat.lt_of_not_le hlt
  obtain ⟨hr', hq'⟩ := hr.half_between hq hlt
  -- Both numbers are the half between the two integers, and only one of these is even.
  have hsucc : m = n + 1 := by
    have hm := hq.ge
    have : (m : ℚ) ≤ n + 1 := by linarith
    have : m ≤ n + 1 := by exact_mod_cast this
    omega
  subst hsucc
  have hrhalf : r - n = 1 / 2 := by linarith
  have hqhalf : q - (n + 1 : Nat) = -(1 / 2) := by push_cast; linarith
  have hn := hr.2 (by rw [hrhalf, abs_of_pos (by norm_num)])
  have hm := hq.2 (by rw [hqhalf, abs_neg, abs_of_pos (by norm_num)])
  omega

theorem IsNearest.unique {q : ℚ} {m n : Nat} (hm : IsNearest q m) (hn : IsNearest q n) : m = n :=
  le_antisymm (hm.mono hn le_rfl) (hn.mono hm le_rfl)

theorem isNearest_roundHalfEven (num : Nat) {den : Nat} (hden : den ≠ 0) :
    IsNearest (num / den) (roundHalfEven num den) := by
  have hpos : (0 : ℚ) < den := by exact_mod_cast Nat.pos_of_ne_zero hden
  have hnum : (num : ℚ) = den * (num / den : Nat) + (num % den : Nat) := by
    exact_mod_cast (Nat.div_add_mod num den).symm
  -- The fraction exceeds its whole part by `part`.
  generalize hpart : ((num % den : Nat) : ℚ) / den = part
  have hq : (num : ℚ) / den = (num / den : Nat) + part := by
    rw [← hpart, hnum]
    field_simp
  have hnonneg : 0 ≤ part := by rw [← hpart]; positivity
  have hlt : part < 1 := by
    rw [← hpart, div_lt_one hpos]
    exact_mod_cast Nat.mod_lt num (Nat.pos_of_ne_zero hden)
  have htwice : 2 * part = (2 * (num % den) : Nat) / den := by
    rw [← hpart]
    push_cast
    ring
  have hbelow : |((num / den : Nat) : ℚ) + part - (num / den : Nat)| = part := by
    rw [add_sub_cancel_left, abs_of_nonneg hnonneg]
  have habove : |((num / den : Nat) : ℚ) + part - (num / den + 1 : Nat)| = 1 - part := by
    have hsub : ((num / den : Nat) : ℚ) + part - (num / den + 1 : Nat) = -(1 - part) := by
      push_cast
      ring
    rw [hsub, abs_neg, abs_of_pos (by linarith)]
  rw [hq]
  unfold roundHalfEven
  dsimp only
  split
  · next h =>
    have hsmall : 2 * part < 1 := by
      rw [htwice, div_lt_one hpos]
      exact_mod_cast h
    rw [IsNearest, hbelow]
    exact ⟨by linarith, fun heq => by linarith⟩
  next hge =>
  split
  · next h =>
    have hlarge : 1 < 2 * part := by
      rw [htwice, one_lt_div hpos]
      exact_mod_cast h
    rw [IsNearest, habove]
    exact ⟨by linarith, fun heq => by linarith⟩
  next hle =>
  have hhalf : part = 1 / 2 := by
    have heq : 2 * (num % den) = den := by omega
    have : 2 * part = 1 := by rw [htwice, heq, div_self hpos.ne']
    linarith
  split
  · next heven =>
    rw [IsNearest, hbelow]
    exact ⟨hhalf.le, fun _ => heven⟩
  · next hodd =>
    rw [IsNearest, habove]
    exact ⟨by linarith, fun _ => by omega⟩

theorem natCast_mul_two_zpow_pos {n : Nat} (hn : n ≠ 0) (e : Int) : (0 : ℚ) < n * 2 ^ e :=
  mul_pos (by exact_mod_cast Nat.pos_of_ne_zero hn) (by positivity)

theorem natAbs_num_div_den {q : ℚ} (h : 0 < q) : (q.num.natAbs : ℚ) / q.den = q := by
  rw [← Int.cast_natCast, Int.natAbs_of_nonneg (Rat.num_pos.2 h).le, Rat.num_div_den]

theorem natAbs_num_ne_zero {q : ℚ} (h : 0 < q) : q.num.natAbs ≠ 0 :=
  Int.natAbs_ne_zero.2 (Rat.num_pos.2 h).ne'

/-- A fraction in units of a power, without fractions. -/
theorem div_zpow_eq (num den : Nat) {base : Nat} (hbase : 0 < base) (e : Int) :
    ((num * Nat.pow base (-e).toNat : Nat) : ℚ) / (den * Nat.pow base e.toNat : Nat)
      = num / den / (base : ℚ) ^ e := by
  have hpow : ((Nat.pow base (-e).toNat : Nat) : ℚ) ≠ 0 := by
    exact_mod_cast (Nat.pow_pos hbase).ne'
  rw [natCast_zpow_eq, Nat.cast_mul, Nat.cast_mul]
  field_simp

/-- A positive number as a fraction of naturals. -/
theorem exists_div_eq {q : ℚ} (h : 0 < q) :
    ∃ num den : Nat, num ≠ 0 ∧ den ≠ 0 ∧ q = num / den :=
  ⟨q.num.natAbs, q.den, natAbs_num_ne_zero h, q.den_nz, (natAbs_num_div_den h).symm⟩

theorem exists_isNearest {q : ℚ} (h : 0 ≤ q) : ∃ n, IsNearest q n := by
  rcases h.lt_or_eq with hpos | rfl
  · obtain ⟨num, den, _, hden, rfl⟩ := exists_div_eq hpos
    exact ⟨_, isNearest_roundHalfEven num hden⟩
  · exact ⟨0, isNearest_natCast 0⟩

/-! ## The unit in the last place -/

theorem two_pow_div_two {p : Nat} (hp : 1 ≤ p) : Nat.pow 2 p / 2 = 2 ^ (p - 1) := by
  obtain ⟨k, rfl⟩ := Nat.exists_eq_add_of_le' hp
  simp [Nat.pow_succ]

/-- An even number of units is half as many of the next units. -/
theorem half_mul_two_zpow {n : Nat} (hn : n % 2 = 0) (e : Int) :
    ((n / 2 : Nat) : ℚ) * 2 ^ (e + 1) = n * 2 ^ e := by
  have hhalf : ((n / 2 : Nat) : ℚ) * 2 = n := by exact_mod_cast Nat.div_mul_cancel (by omega)
  rw [zpow_add_one₀ (by norm_num), ← hhalf]
  ring

/-- The exponent that `floorLog2` finds is not too small. -/
theorem lt_two_zpow_floorLog2 (num : Nat) {den : Nat} (hden : den ≠ 0) :
    (num : ℚ) / den < 2 ^ (floorLog2 num den + 1) := by
  unfold floorLog2
  dsimp only
  split
  · have hhigh : (num : ℚ) < 2 ^ (num.log2 + 1) := by exact_mod_cast Nat.lt_log2_self
    have hlow : (2 : ℚ) ^ den.log2 ≤ den := by exact_mod_cast Nat.log2_self_le hden
    have hpos : (0 : ℚ) < den := by exact_mod_cast Nat.pos_of_ne_zero hden
    have hexponent : (num.log2 : Int) - den.log2 + 1 = (num.log2 + 1 : Nat) - den.log2 := by
      omega
    rw [hexponent, zpow_sub₀ (by norm_num), zpow_natCast, zpow_natCast,
      div_lt_div_iff₀ hpos (by positivity)]
    exact mul_lt_mul hhigh hlow (by positivity) (by positivity)
  · next h =>
    rw [← two_zpow_le_div_iff hden] at h
    rw [Int.sub_add_cancel]
    exact not_le.1 h

namespace Format

variable {f : Format} {q r v w : ℚ} {e e' : Int}

/-- The last place of `q` in the format stands for `2 ^ e`. -/
structure HasUnit (f : Format) (q : ℚ) (e : Int) : Prop where
  min_le : f.minExponent ≤ e
  lt : q < 2 ^ (e + f.precision)
  le_or_min : (2 : ℚ) ^ (e + f.precision - 1) ≤ q ∨ e = f.minExponent

theorem HasUnit.mono (hq : f.HasUnit q e) (hr : f.HasUnit r e') (h : q ≤ r) : e ≤ e' := by
  by_contra hlt
  rcases hq.le_or_min with hlow | hmin
  · have hexponent : (2 : ℚ) ^ (e' + f.precision) ≤ 2 ^ (e + f.precision - 1) :=
      zpow_le_zpow_right₀ (by norm_num) (by omega)
    exact absurd (hlow.trans h) (not_le.2 (hr.lt.trans_le hexponent))
  · have := hr.min_le
    omega

theorem HasUnit.unique (h : f.HasUnit q e) (h' : f.HasUnit q e') : e = e' :=
  le_antisymm (h.mono h' le_rfl) (h'.mono h le_rfl)

/-- The exponent at which `Floating.ofRatio` rounds. -/
theorem hasUnit_div {num den : Nat} (hnum : num ≠ 0) (hden : den ≠ 0) :
    f.HasUnit (num / den) (max f.minExponent (floorLog2 num den - (f.precision - 1))) := by
  have hlog := two_zpow_floorLog2_le hnum hden
  have hlt := lt_two_zpow_floorLog2 num hden
  refine ⟨le_max_left _ _, hlt.trans_le (zpow_le_zpow_right₀ (by norm_num) (by omega)), ?_⟩
  rcases max_choice f.minExponent (floorLog2 num den - (f.precision - 1)) with hmax | hmax
  · exact .inr hmax
  · refine .inl (le_trans (zpow_le_zpow_right₀ (by norm_num) ?_) hlog)
    rw [hmax]
    omega

/-- Counted in units, a number has no more bits than the format. -/
theorem HasUnit.div_lt (h : f.HasUnit q e) : q / 2 ^ e < (2 ^ f.precision : Nat) := by
  have hlt := h.lt
  rw [zpow_add₀ (by norm_num), zpow_natCast] at hlt
  rw [div_lt_iff₀ (by positivity), mul_comm]
  exact_mod_cast hlt

/-- Counted in units, a number uses all bits of the format unless the unit is the least one. -/
theorem HasUnit.le_div_or_min (hf : 1 ≤ f.precision) (h : f.HasUnit q e) :
    ((2 ^ (f.precision - 1) : Nat) : ℚ) ≤ q / 2 ^ e ∨ e = f.minExponent := by
  refine h.le_or_min.imp_left fun hle => ?_
  have hexponent : e + f.precision - 1 = e + (f.precision - 1 : Nat) := by omega
  rw [hexponent, zpow_add₀ (by norm_num), zpow_natCast] at hle
  rw [le_div_iff₀ (by positivity), mul_comm]
  exact_mod_cast hle

theorem HasUnit.of_mul {n : Nat} (hf : 1 ≤ f.precision) (hmin : f.minExponent ≤ e)
    (hlt : n < 2 ^ f.precision) (hle : 2 ^ (f.precision - 1) ≤ n ∨ e = f.minExponent) :
    f.HasUnit (n * 2 ^ e) e := by
  have hlt : (n : ℚ) < 2 ^ f.precision := by exact_mod_cast hlt
  refine ⟨hmin, ?_, hle.imp_left fun hle => ?_⟩
  · rw [zpow_add₀ (by norm_num), zpow_natCast, mul_comm]
    gcongr
  · have hle : (2 : ℚ) ^ (f.precision - 1) ≤ n := by exact_mod_cast hle
    have hexponent : e + f.precision - 1 = e + (f.precision - 1 : Nat) := by omega
    rw [hexponent, zpow_add₀ (by norm_num), zpow_natCast, mul_comm]
    gcongr

theorem Canonical.hasUnit {n : Nat} (hf : 1 ≤ f.precision) (h : f.Canonical n e) :
    f.HasUnit (n * 2 ^ e) e :=
  .of_mul hf h.2.1 h.1 h.2.2.2

theorem Canonical.lt {n : Nat} (h : f.Canonical n e) :
    (n : ℚ) * 2 ^ e < 2 ^ (f.maxExponent + f.precision) := by
  have hlt : (n : ℚ) < 2 ^ f.precision := by exact_mod_cast h.1
  have hle : (2 : ℚ) ^ e ≤ 2 ^ f.maxExponent := zpow_le_zpow_right₀ (by norm_num) h.2.2.1
  rw [zpow_add₀ (by norm_num), zpow_natCast, mul_comm (2 ^ f.maxExponent)]
  exact mul_lt_mul hlt hle (by positivity) (by positivity)

/-! ## The nearest number -/

/-- `v` is the multiple of the unit of `q` that is nearest to `q`. The greatest number of the format
is no bound for it. -/
def Nearest (f : Format) (q v : ℚ) : Prop :=
  ∃ (e : Int) (n : Nat), f.HasUnit q e ∧ IsNearest (q / 2 ^ e) n ∧ v = n * 2 ^ e

theorem exists_hasUnit_isNearest (f : Format) {num den : Nat} (hnum : num ≠ 0) (hden : den ≠ 0) :
    ∃ (e : Int) (n : Nat), f.HasUnit (num / den) e ∧ IsNearest (num / den / 2 ^ e) n := by
  obtain ⟨n, hn⟩ := exists_isNearest
    (q := num / den / 2 ^ max f.minExponent (floorLog2 num den - (f.precision - 1)))
    (by positivity)
  exact ⟨_, n, hasUnit_div hnum hden, hn⟩

theorem exists_nearest (f : Format) (h : 0 < q) : ∃ v, f.Nearest q v := by
  obtain ⟨num, den, hnum, hden, rfl⟩ := exists_div_eq h
  obtain ⟨e, n, hunit, hn⟩ := f.exists_hasUnit_isNearest hnum hden
  exact ⟨_, e, n, hunit, hn, rfl⟩

theorem HasUnit.nearest_le {n : Nat} (h : f.HasUnit q e) (hn : IsNearest (q / 2 ^ e) n) :
    n ≤ 2 ^ f.precision :=
  hn.mono (isNearest_natCast _) h.div_lt.le

theorem HasUnit.le_nearest_or_min {n : Nat} (hf : 1 ≤ f.precision) (h : f.HasUnit q e)
    (hn : IsNearest (q / 2 ^ e) n) : 2 ^ (f.precision - 1) ≤ n ∨ e = f.minExponent :=
  (h.le_div_or_min hf).imp_left fun hle => (isNearest_natCast _).mono hn hle

/-- Rounding is monotone. -/
theorem Nearest.mono (hf : 1 ≤ f.precision) (hq : f.Nearest q v) (hr : f.Nearest r w)
    (h : q ≤ r) : v ≤ w := by
  obtain ⟨e, m, hunit, hm, rfl⟩ := hq
  obtain ⟨e', n, hunit', hn, rfl⟩ := hr
  rcases (hunit.mono hunit' h).lt_or_eq with hlt | rfl
  · -- The power of two between the two binades lies between the two numbers.
    have hle : (m : ℚ) ≤ 2 ^ f.precision := by exact_mod_cast hunit.nearest_le hm
    have hge : (2 : ℚ) ^ (f.precision - 1) ≤ n := by
      have := hunit.min_le
      exact_mod_cast (hunit'.le_nearest_or_min hf hn).resolve_right (by omega)
    calc (m : ℚ) * 2 ^ e ≤ 2 ^ f.precision * 2 ^ e := by gcongr
      _ = 2 ^ (f.precision + e) := by rw [zpow_add₀ (by norm_num), zpow_natCast]
      _ ≤ 2 ^ ((f.precision - 1 : Nat) + e') := zpow_le_zpow_right₀ (by norm_num) (by omega)
      _ = 2 ^ (f.precision - 1) * 2 ^ e' := by rw [zpow_add₀ (by norm_num), zpow_natCast]
      _ ≤ n * 2 ^ e' := by gcongr
  · have : (m : ℚ) ≤ n := by
      exact_mod_cast hm.mono hn (by gcongr)
    gcongr

theorem Nearest.unique (hf : 1 ≤ f.precision) (hv : f.Nearest q v) (hw : f.Nearest q w) : v = w :=
  le_antisymm (hv.mono hf hw le_rfl) (hw.mono hf hv le_rfl)

/-- What is rounded to the same number on both sides of a number is so at the number itself. -/
theorem Nearest.between (hf : 1 ≤ f.precision) (hq : f.Nearest q v) (hr : f.Nearest r v)
    {z : ℚ} (hz : 0 < z) (hqz : q ≤ z) (hzr : z ≤ r) : f.Nearest z v := by
  obtain ⟨w, hw⟩ := f.exists_nearest hz
  rwa [le_antisymm (hw.mono hf hr hzr) (hq.mono hf hw hqz)] at hw

/-- A number that is rounded to a positive number is not below half the least one. -/
theorem Nearest.le (h : f.Nearest q v) (hv : 0 < v) : (2 : ℚ) ^ (f.minExponent - 1) ≤ q := by
  obtain ⟨e, n, hunit, hn, rfl⟩ := h
  have hpow : (0 : ℚ) < 2 ^ e := by positivity
  have hone : (1 : ℚ) ≤ n := by
    have : (0 : ℚ) < n := pos_of_mul_pos_left hv hpow.le
    exact_mod_cast this
  have hhalf : 1 / 2 ≤ q / 2 ^ e := le_trans (by linarith) hn.ge
  rw [le_div_iff₀ hpow] at hhalf
  calc (2 : ℚ) ^ (f.minExponent - 1) ≤ 2 ^ (e - 1) :=
        zpow_le_zpow_right₀ (by norm_num) (by have := hunit.min_le; omega)
    _ = 1 / 2 * 2 ^ e := by rw [zpow_sub_one₀ (by norm_num)]; ring
    _ ≤ q := hhalf

/-- The unit of a number that is not rounded beyond the format is one of the format. -/
theorem HasUnit.le_max {n : Nat} (hf : 1 ≤ f.precision) (hmax : f.minExponent ≤ f.maxExponent)
    (h : f.HasUnit q e) (hn : IsNearest (q / 2 ^ e) n)
    (hlt : (n : ℚ) * 2 ^ e < 2 ^ (f.maxExponent + f.precision)) : e ≤ f.maxExponent := by
  rcases h.le_nearest_or_min hf hn with hle | rfl
  · have hle : (2 : ℚ) ^ (f.precision - 1) ≤ n := by exact_mod_cast hle
    have hreach : (2 : ℚ) ^ ((f.precision - 1 : Nat) + e) ≤ n * 2 ^ e := by
      rw [zpow_add₀ (by norm_num), zpow_natCast]
      gcongr
    have := (zpow_lt_zpow_iff_right₀ (by norm_num)).1 (hreach.trans_lt hlt)
    omega
  · exact hmax

theorem Nearest.lt (hf : 1 ≤ f.precision) (hmax : f.minExponent ≤ f.maxExponent)
    (h : f.Nearest q v) (hv : v < 2 ^ (f.maxExponent + f.precision)) :
    q < 2 ^ (f.maxExponent + f.precision) := by
  obtain ⟨e, n, hunit, hn, rfl⟩ := h
  have := hunit.le_max hf hmax hn hv
  exact hunit.lt.trans_le (zpow_le_zpow_right₀ (by norm_num) (by omega))

/-- The nearest number is one of the format, unless it is too large. -/
theorem Nearest.exists_canonical (hf : 1 ≤ f.precision) (hmax : f.minExponent ≤ f.maxExponent)
    (h : f.Nearest q v) (hv : v < 2 ^ (f.maxExponent + f.precision)) :
    ∃ n e, f.Canonical n e ∧ v = n * 2 ^ e := by
  obtain ⟨e, n, hunit, hn, rfl⟩ := h
  have he := hunit.le_max hf hmax hn hv
  rcases (hunit.nearest_le hn).lt_or_eq with hlt | rfl
  · exact ⟨n, e, ⟨hlt, hunit.min_le, he, hunit.le_nearest_or_min hf hn⟩, rfl⟩
  · have hsmaller : e < f.maxExponent := by
      push_cast at hv
      rw [← zpow_natCast, ← zpow_add₀ (by norm_num)] at hv
      have := (zpow_lt_zpow_iff_right₀ (by norm_num)).1 hv
      omega
    refine ⟨2 ^ f.precision / 2, e + 1, ⟨?_, ?_, by omega, .inl (two_pow_div_two hf).ge⟩,
      (half_mul_two_zpow (Nat.two_pow_mod_two_eq_zero.2 hf) e).symm⟩
    · exact Nat.div_lt_self (Nat.pow_pos (by decide)) (by decide)
    · have := hunit.min_le
      omega

/-- The end of a binade can be rounded as if it belonged to the binade. -/
theorem nearest_of_le {n : Nat} (hf : 1 ≤ f.precision) (hmin : f.minExponent ≤ e)
    (hle : (2 : ℚ) ^ (e + f.precision - 1) ≤ q ∨ e = f.minExponent)
    (hge : q ≤ 2 ^ (e + f.precision)) (hn : IsNearest (q / 2 ^ e) n) :
    f.Nearest q (n * 2 ^ e) := by
  rcases hge.lt_or_eq with hlt | rfl
  · exact ⟨e, n, ⟨hmin, hlt, hle⟩, hn, rfl⟩
  · have hfull : n = 2 ^ f.precision := by
      refine hn.unique ?_
      have : (2 : ℚ) ^ (e + f.precision) / 2 ^ e = (2 ^ f.precision : Nat) := by
        rw [zpow_add₀ (by norm_num), zpow_natCast, mul_div_cancel_left₀ _ (by positivity)]
        push_cast
        rfl
      rw [this]
      exact isNearest_natCast _
    have hhalf : (2 : ℚ) ^ (e + f.precision) = (2 ^ (f.precision - 1) : Nat) * 2 ^ (e + 1) := by
      have : e + f.precision = (f.precision - 1 : Nat) + (e + 1) := by omega
      rw [this, zpow_add₀ (by norm_num), zpow_natCast]
      push_cast
      rfl
    refine ⟨e + 1, 2 ^ (f.precision - 1), ?_, ?_, ?_⟩
    · rw [hhalf]
      exact .of_mul hf (by omega) (Nat.pow_lt_pow_right (by decide) (by omega)) (.inl le_rfl)
    · rw [hhalf, mul_div_cancel_right₀ _ (by positivity)]
      exact isNearest_natCast _
    · rw [← hhalf, hfull, zpow_add₀ (by norm_num), zpow_natCast, mul_comm]
      push_cast
      rfl

theorem isNearest_div_of_close {n : Nat} (hq : q ≤ n * 2 ^ e)
    (hclose : n * 2 ^ e - q < 2 ^ (e - 1)) : IsNearest (q / 2 ^ e) n := by
  have hpow : (0 : ℚ) < 2 ^ e := by positivity
  have hsub : q / 2 ^ e - n = -((n * 2 ^ e - q) / 2 ^ e) := by
    field_simp
    ring
  refine isNearest_of_lt ?_
  rw [hsub, abs_neg, abs_of_nonneg (div_nonneg (by linarith) hpow.le), div_lt_iff₀ hpow]
  rw [zpow_sub_one₀ (by norm_num)] at hclose
  linarith

/-- What lies below a number of the format by less than half the gap to the next one is rounded to
it. The gap below a power of two is half the unit. -/
theorem Canonical.nearest_of_close {n : Nat} (hf : 1 ≤ f.precision) (h : f.Canonical n e)
    (hq : q ≤ n * 2 ^ e) (hclose : n * 2 ^ e - q < 2 ^ (e - 2)) : f.Nearest q (n * 2 ^ e) := by
  by_cases hpower : n = 2 ^ (f.precision - 1) ∧ e ≠ f.minExponent
  · obtain ⟨hn, hmin⟩ := hpower
    have hvalue : (n : ℚ) * 2 ^ e = (2 * n : Nat) * 2 ^ (e - 1) := by
      rw [zpow_sub_one₀ (by norm_num)]
      push_cast
      ring
    have hstart : (n : ℚ) * 2 ^ e = 2 * 2 ^ (e - 1 + f.precision - 1) := by
      have hexponent : e - 1 + f.precision - 1 = (f.precision - 1 : Nat) + (e - 1) := by omega
      rw [hexponent, zpow_add₀ (by norm_num), zpow_natCast, zpow_sub_one₀ (by norm_num), hn]
      push_cast
      ring
    have hsmall : (2 : ℚ) ^ (e - 2) ≤ 2 ^ (e - 1 + f.precision - 1) :=
      zpow_le_zpow_right₀ (by norm_num) (by omega)
    have hend : (n : ℚ) * 2 ^ e = 2 ^ (e - 1 + f.precision) := by
      rw [hstart, zpow_sub_one₀ (by norm_num)]
      ring
    rw [hvalue] at hclose ⊢
    refine nearest_of_le hf (by have := h.2.1; omega) (.inl ?_) (hend ▸ hq)
      (isNearest_div_of_close (hvalue ▸ hq) ?_)
    · linarith
    · have hexponent : e - 1 - 1 = e - 2 := by ring
      rwa [hexponent]
  · have hsmall : (2 : ℚ) ^ (e - 2) ≤ 2 ^ (e - 1) := zpow_le_zpow_right₀ (by norm_num) (by omega)
    refine nearest_of_le hf h.2.1 ?_ (hq.trans (h.hasUnit hf).lt.le)
      (isNearest_div_of_close hq (hclose.trans_le hsmall))
    by_cases hmin : e = f.minExponent
    · exact .inr hmin
    · left
      have hle : 2 ^ (f.precision - 1) + 1 ≤ n := by
        have := h.2.2.2.resolve_right hmin
        exact Nat.lt_of_le_of_ne this fun heq => hpower ⟨heq.symm, hmin⟩
      have hle : (2 : ℚ) ^ (f.precision - 1) + 1 ≤ n := by exact_mod_cast hle
      have hexponent : e + f.precision - 1 = (f.precision - 1 : Nat) + e := by omega
      have hunit : (2 : ℚ) ^ (e - 2) ≤ 2 ^ e := zpow_le_zpow_right₀ (by norm_num) (by omega)
      rw [hexponent, zpow_add₀ (by norm_num), zpow_natCast]
      have : ((2 : ℚ) ^ (f.precision - 1) + 1) * 2 ^ e ≤ n * 2 ^ e := by gcongr
      linarith

/-- A number of the format is nearest to itself. -/
theorem Canonical.nearest {n : Nat} (hf : 1 ≤ f.precision) (h : f.Canonical n e) :
    f.Nearest (n * 2 ^ e) (n * 2 ^ e) := by
  refine ⟨e, n, h.hasUnit hf, ?_, rfl⟩
  rw [mul_div_cancel_right₀ _ (by positivity)]
  exact isNearest_natCast n

/-- A power of two whose unit is not below the least one is nearest to itself. -/
theorem nearest_two_zpow {k : Int} (hf : 1 ≤ f.precision)
    (hk : f.minExponent + (f.precision - 1) ≤ k) : f.Nearest (2 ^ k) (2 ^ k) := by
  have hpower : (2 : ℚ) ^ k = (2 ^ (f.precision - 1) : Nat) * 2 ^ (k - (f.precision - 1)) := by
    push_cast
    rw [← zpow_natCast, ← zpow_add₀ (by norm_num)]
    congr 1
    omega
  refine ⟨k - (f.precision - 1), 2 ^ (f.precision - 1), ?_, ?_, hpower⟩
  · rw [hpower]
    exact .of_mul hf (by omega) (Nat.pow_lt_pow_right (by decide) (by omega)) (.inl le_rfl)
  · rw [hpower, mul_div_cancel_right₀ _ (by positivity)]
    exact isNearest_natCast _

end Format

/-! ## What is computed -/

namespace Floating

variable {f : Format} {num den n : Nat} {e : Int}

/-- Rounding gives the nearest multiple of the unit. If it needs one bit more than the format has,
it is a power of two, and a multiple of the next unit as well. -/
theorem ofRatio_eq (hnum : num ≠ 0) (hden : den ≠ 0) (hunit : f.HasUnit (num / den) e)
    (hn : IsNearest (num / den / 2 ^ e) n) (negative : Bool) :
    (ofRatio negative num den : Floating f) =
      if n = Nat.pow 2 f.precision then ofParts negative (n / 2) (e + 1)
      else ofParts negative n e := by
  have hscaled : den * Nat.pow 2 e.toNat ≠ 0 := Nat.mul_ne_zero hden (Nat.pow_pos (by decide)).ne'
  have hrounded := isNearest_roundHalfEven (num * Nat.pow 2 (-e).toNat) hscaled
  rw [div_zpow_eq num den (by decide)] at hrounded
  rw [ofRatio, if_neg hnum, (Format.hasUnit_div hnum hden).unique hunit, ← hrounded.unique hn]

theorem ofParts_of_canonical (h : f.Canonical n e) (negative : Bool) :
    (ofParts negative n e : Floating f) = .finite negative n e h :=
  dif_pos h

theorem canonical_of_ofParts {negative : Bool} {m : Nat} {e' : Int} {h : f.Canonical n e}
    (hparts : ofParts negative m e' = .finite negative n e h) : m = n ∧ e' = e := by
  unfold ofParts at hparts
  split at hparts
  · simpa using hparts
  · cases hparts

/-- A fraction is rounded to a number of the format exactly if this is the nearest one. -/
theorem ofRatio_eq_finite_iff (hf : 1 ≤ f.precision) (hnum : num ≠ 0) (hden : den ≠ 0)
    (h : f.Canonical n e) (negative : Bool) :
    (ofRatio negative num den : Floating f) = .finite negative n e h ↔
      f.Nearest (num / den) (n * 2 ^ e) := by
  obtain ⟨e', m, hunit, hm⟩ := f.exists_hasUnit_isNearest hnum hden
  rw [ofRatio_eq hnum hden hunit hm]
  have hunits := hunit.nearest_le hm
  have heven : Nat.pow 2 f.precision % 2 = 0 := Nat.two_pow_mod_two_eq_zero.2 hf
  constructor
  · intro heq
    refine ⟨e', m, hunit, hm, ?_⟩
    split at heq
    · next hfull =>
      obtain ⟨rfl, rfl⟩ := canonical_of_ofParts heq
      exact half_mul_two_zpow (hfull ▸ heven) e'
    · obtain ⟨rfl, rfl⟩ := canonical_of_ofParts heq
      rfl
  · intro hnearest
    have hvalue : (n : ℚ) * 2 ^ e = m * 2 ^ e' := hnearest.unique hf ⟨e', m, hunit, hm, rfl⟩
    have hnunit := h.hasUnit hf
    split
    · next hfull =>
      have hhalfunit : f.HasUnit ((m / 2 : Nat) * 2 ^ (e' + 1)) (e' + 1) := by
        rw [hfull, two_pow_div_two hf]
        refine .of_mul hf (by have := hunit.min_le; omega) ?_ (.inl le_rfl)
        exact Nat.pow_lt_pow_right (by decide) (by omega)
      rw [← half_mul_two_zpow (n := m) (hfull ▸ heven)] at hvalue
      rw [← hvalue] at hhalfunit
      obtain rfl := hhalfunit.unique hnunit
      obtain rfl : n = m / 2 := by
        exact_mod_cast mul_right_cancel₀ (by positivity) hvalue
      exact ofParts_of_canonical h negative
    · next hfull =>
      have hlt : m < 2 ^ f.precision := lt_of_le_of_ne hunits hfull
      have hmunit := Format.HasUnit.of_mul hf hunit.min_le hlt (hunit.le_nearest_or_min hf hm)
      rw [← hvalue] at hmunit
      obtain rfl := hmunit.unique hnunit
      obtain rfl : n = m := by
        exact_mod_cast mul_right_cancel₀ (by positivity) hvalue
      exact ofParts_of_canonical h negative

/-- A number is converted to the nearest number of the other format. -/
theorem convert_eq_finite_iff {g : Format} {m : Nat} {k : Int} (hg : 1 ≤ g.precision) (hn : n ≠ 0)
    (h : f.Canonical n e) (h' : g.Canonical m k) (negative : Bool) :
    (convert (.finite negative n e h) : Floating g) = .finite negative m k h' ↔
      g.Nearest (n * 2 ^ e) (m * 2 ^ k) := by
  have hpos : 0 < scaled n e := by
    rw [scaled_eq]
    exact natCast_mul_two_zpow_pos hn e
  rw [← scaled_eq, ← natAbs_num_div_den hpos]
  exact ofRatio_eq_finite_iff hg (natAbs_num_ne_zero hpos) (Rat.den_nz _) h' negative

end Floating

end ScriptLang
