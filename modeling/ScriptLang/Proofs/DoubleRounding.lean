import ScriptLang.Proofs.Nearest

set_option autoImplicit false

/-! # Rounding twice

Rounding a number to a fine format and then to a coarse one can give another result than rounding it
to the coarse format at once. It does so only if the first step leads to the midpoint of two numbers
of the coarse format, from a number that is not this midpoint (`Format.Nearest.twice`). -/

namespace ScriptLang

/-! ## Larger units -/

section

variable {q : ℚ} {n : Nat} {e k : Int}

/-- A multiple of a unit is a multiple of each smaller one. -/
theorem intCast_mul_two_zpow (c : Int) (h : e ≤ k) :
    (c : ℚ) * 2 ^ k = (c * 2 ^ (k - e).toNat : Int) * 2 ^ e := by
  obtain ⟨d, rfl⟩ := Int.le.dest h
  rw [add_sub_cancel_left, Int.toNat_natCast, Int.add_comm, zpow_add₀ (by norm_num),
    zpow_natCast]
  push_cast
  ring

theorem natCast_mul_two_zpow (j : Nat) (h : e ≤ k) :
    (j : ℚ) * 2 ^ k = (j * 2 ^ (k - e).toNat : Nat) * 2 ^ e := by
  exact_mod_cast intCast_mul_two_zpow j h

theorem two_zpow_natCast_add (p : Nat) (e : Int) :
    (2 : ℚ) ^ (p + e) = (2 ^ p : Nat) * 2 ^ e := by
  rw [zpow_add₀ (by norm_num), zpow_natCast]
  push_cast
  rfl

theorem exists_mul_two_zpow (j : Nat) (h : e ≤ k) : ∃ i : Nat, (j : ℚ) * 2 ^ k = i * 2 ^ e :=
  ⟨_, natCast_mul_two_zpow j h⟩

/-- Rounding at a unit does not pass a multiple of a larger unit. -/
theorem IsNearest.mul_le {j : Nat} (hn : IsNearest (q / 2 ^ e) n) (he : e ≤ k)
    (h : q ≤ j * 2 ^ k) : (n : ℚ) * 2 ^ e ≤ j * 2 ^ k := by
  obtain ⟨i, hi⟩ := exists_mul_two_zpow j he
  rw [hi] at h ⊢
  have : (n : ℚ) ≤ i := by
    exact_mod_cast hn.mono (isNearest_natCast i) ((div_le_iff₀ (by positivity)).2 h)
  gcongr

theorem IsNearest.le_mul {j : Nat} (hn : IsNearest (q / 2 ^ e) n) (he : e ≤ k)
    (h : j * 2 ^ k ≤ q) : (j : ℚ) * 2 ^ k ≤ n * 2 ^ e := by
  obtain ⟨i, hi⟩ := exists_mul_two_zpow j he
  rw [hi] at h ⊢
  have : (i : ℚ) ≤ n := by
    exact_mod_cast (isNearest_natCast i).mono hn ((le_div_iff₀ (by positivity)).2 h)
  gcongr

/-- Rounding at a unit moves a number by half the unit or less. -/
theorem IsNearest.abs_sub_le (hn : IsNearest (q / 2 ^ e) n) : |q - n * 2 ^ e| ≤ 2 ^ (e - 1) := by
  have hpow : (0 : ℚ) < 2 ^ e := by positivity
  have hsub : q - n * 2 ^ e = (q / 2 ^ e - n) * 2 ^ e := by
    rw [sub_mul, div_mul_cancel₀ _ hpow.ne']
  rw [hsub, abs_mul, abs_of_pos hpow, zpow_sub_one₀ (by norm_num), mul_comm, ← one_div]
  gcongr
  exact hn.1

end

namespace Format

variable {f g : Format} {q v w u : ℚ} {e : Int} {n s : Nat}

/-- The unit of the fine format is smaller by all the bits that it has more. -/
theorem HasUnit.add_le {e' : Int} (hprecision : g.precision + s ≤ f.precision)
    (hmin : f.minExponent + s ≤ g.minExponent) (hf : f.HasUnit q e') (hg : g.HasUnit q e) :
    e' + s ≤ e := by
  rcases hf.le_or_min with hle | rfl
  · have hlt := (zpow_lt_zpow_iff_right₀ (by norm_num)).1 (hle.trans_lt hg.lt)
    omega
  · have := hg.min_le
    omega

/-- The midpoint of two consecutive multiples of a unit. -/
theorem midpoint_eq (m : Nat) (e : Int) :
    ((m : ℚ) + 1 / 2) * 2 ^ e = (2 * m + 1 : Nat) * 2 ^ (e - 1) := by
  rw [zpow_sub_one₀ (by norm_num)]
  push_cast
  ring

theorem lt_of_midpoint_le {m p : Nat} (h : ((2 * m + 1 : Nat) : ℚ) * 2 ^ (e - 1) ≤ 2 ^ (e + p)) :
    m < 2 ^ p := by
  have hexponent : e + p = (p + 1 : Nat) + (e - 1) := by omega
  rw [hexponent, zpow_add₀ (by norm_num), zpow_natCast,
    mul_le_mul_iff_left₀ (by positivity)] at h
  have : 2 * m + 1 ≤ 2 ^ (p + 1) := by exact_mod_cast h
  rw [Nat.pow_succ] at this
  omega

/-- Rounding twice differs from rounding at once only by way of a midpoint `w` of the coarse format.
The number is not `w`, but it lies within half a unit of the fine format from `w`. -/
theorem Nearest.twice (hg : 1 ≤ g.precision) (hs : 1 ≤ s)
    (hprecision : g.precision + s ≤ f.precision) (hmin : f.minExponent + s ≤ g.minExponent)
    (hv : g.Nearest q v) (hw : f.Nearest q w) (hu : g.Nearest w u) :
    u = v ∨ ∃ (e : Int) (m : Nat), g.HasUnit q e ∧ m < 2 ^ g.precision ∧
      w = (2 * m + 1 : Nat) * 2 ^ (e - 1) ∧ q ≠ w ∧ |q - w| ≤ 2 ^ (e - 1 - s) ∧
      |v - w| = 2 ^ (e - 1) := by
  obtain ⟨e, n, hunit, hn, rfl⟩ := hv
  obtain ⟨e', n', hunit', hn', hweq⟩ := hw
  have hunits := hunit'.add_le hprecision hmin hunit
  have hpow : (0 : ℚ) < 2 ^ e := by positivity
  -- The first rounding stays in the binade of the number, up to its end.
  have hle : w ≤ 2 ^ (e + g.precision) := by
    have := hn'.mul_le (j := 1) (k := e + g.precision) (by omega) (by simpa using hunit.lt.le)
    simpa [hweq] using this
  have hge : (2 : ℚ) ^ (e + g.precision - 1) ≤ w ∨ e = g.minExponent := by
    refine hunit.le_or_min.imp_left fun hlow => ?_
    have := hn'.le_mul (j := 1) (k := e + g.precision - 1) (by omega) (by simpa using hlow)
    simpa [hweq] using this
  have hdistance : |q - w| ≤ 2 ^ (e - 1 - s) := by
    rw [hweq]
    exact hn'.abs_sub_le.trans (zpow_le_zpow_right₀ (by norm_num) (by omega))
  obtain ⟨m, hm⟩ : ∃ m, IsNearest (w / 2 ^ e) m :=
    exists_isNearest (by rw [hweq]; positivity)
  obtain rfl := hu.unique hg (nearest_of_le hg hunit.min_le hge hle hm)
  have hmoved (hnm : n ≠ m) : q ≠ w := by
    rintro rfl
    exact hnm (hn.unique hm)
  rcases lt_trichotomy n m with hlt | rfl | hlt
  · -- The number lies below the midpoint above `n`, and the first rounding reaches that midpoint.
    obtain ⟨hbelow, habove⟩ := hn.half_between hm hlt
    rw [div_le_iff₀ hpow, midpoint_eq] at hbelow
    rw [le_div_iff₀ hpow, midpoint_eq] at habove
    have hmid : w = (2 * n + 1 : Nat) * 2 ^ (e - 1) := by
      refine le_antisymm ?_ habove
      rw [hweq]
      exact hn'.mul_le (by omega) hbelow
    refine .inr ⟨e, n, hunit, lt_of_midpoint_le (hmid ▸ hle), hmid, hmoved hlt.ne, hdistance, ?_⟩
    have hsub : (n : ℚ) * 2 ^ e - w = -2 ^ (e - 1) := by
      rw [hmid, ← midpoint_eq, zpow_sub_one₀ (by norm_num)]
      ring
    rw [hsub, abs_neg, abs_of_pos (by positivity)]
  · exact .inl rfl
  · obtain ⟨hbelow, habove⟩ := hm.half_between hn hlt
    rw [div_le_iff₀ hpow, midpoint_eq] at hbelow
    rw [le_div_iff₀ hpow, midpoint_eq] at habove
    have hmid : w = (2 * m + 1 : Nat) * 2 ^ (e - 1) := by
      refine le_antisymm hbelow ?_
      rw [hweq]
      exact hn'.le_mul (by omega) habove
    refine .inr ⟨e, m, hunit, lt_of_midpoint_le (hmid ▸ hle), hmid, hmoved hlt.ne', hdistance, ?_⟩
    have hnext : n = m + 1 := by
      have hhalf : (2 : ℚ) ^ (e - 1 - s) ≤ 2 ^ (e - 1) :=
        zpow_le_zpow_right₀ (by norm_num) (by omega)
      have hend : w + 2 ^ (e - 1) = (m + 1 : Nat) * 2 ^ e := by
        rw [hmid, ← midpoint_eq, zpow_sub_one₀ (by norm_num)]
        push_cast
        ring
      have hq : q ≤ (m + 1 : Nat) * 2 ^ e := by
        have := (abs_le.1 hdistance).2
        linarith
      have := (mul_le_mul_iff_left₀ hpow).1 (hn.mul_le le_rfl hq)
      have : n ≤ m + 1 := by exact_mod_cast this
      omega
    have hsub : (n : ℚ) * 2 ^ e - w = 2 ^ (e - 1) := by
      rw [hmid, ← midpoint_eq, zpow_sub_one₀ (by norm_num), hnext]
      push_cast
      ring
    rw [hsub, abs_of_pos (by positivity)]

end Format

end ScriptLang
