import ScriptLang.Proofs.CorrectRounding

set_option autoImplicit false

/-! # Results that can be rounded twice

A sum, a product or a quotient of two numbers of a format can be rounded to a finer format first,
and the result is the same (`Format.Innocuous`), if the finer one has at least two bits more than
twice as many. Rounding twice goes wrong only next to a midpoint of the coarse format
(`Format.Nearest.twice`). A product is exact in the fine format. If a sum is not exact there, it has
a small term, and the large one lies next to the midpoint, where no number of the coarse format is.
A quotient keeps away from each midpoint, since its denominator is small. -/

namespace ScriptLang

/-! ## Multiples of a unit -/

/-- `x` is an integer multiple of `2 ^ k`. -/
def IsMultiple (k : Int) (x : ℚ) : Prop :=
  ∃ c : Int, x = c * 2 ^ k

namespace IsMultiple

variable {k l : Int} {x y : ℚ}

theorem mono (h : IsMultiple l x) (hk : k ≤ l) : IsMultiple k x := by
  obtain ⟨c, rfl⟩ := h
  exact ⟨_, intCast_mul_two_zpow c hk⟩

theorem add (hx : IsMultiple k x) (hy : IsMultiple k y) : IsMultiple k (x + y) := by
  obtain ⟨c, rfl⟩ := hx
  obtain ⟨d, rfl⟩ := hy
  exact ⟨c + d, by push_cast; ring⟩

theorem sub (hx : IsMultiple k x) (hy : IsMultiple k y) : IsMultiple k (x - y) := by
  obtain ⟨c, rfl⟩ := hx
  obtain ⟨d, rfl⟩ := hy
  exact ⟨c - d, by push_cast; ring⟩

/-- Other than zero it reaches the unit. -/
theorem le_abs (h : IsMultiple k x) (hx : x ≠ 0) : (2 : ℚ) ^ k ≤ |x| := by
  obtain ⟨c, rfl⟩ := h
  have hc : c ≠ 0 := by
    rintro rfl
    simp at hx
  have hone : (1 : ℚ) ≤ |(c : ℚ)| := by exact_mod_cast Int.one_le_abs hc
  rw [abs_mul, abs_of_pos (by positivity : (0 : ℚ) < 2 ^ k)]
  exact le_mul_of_one_le_left (by positivity) hone

end IsMultiple

theorem isMultiple_natCast_mul (n : Nat) (k : Int) : IsMultiple k (n * 2 ^ k) :=
  ⟨n, by push_cast; rfl⟩

/-- A midpoint keeps half a unit away from each multiple of the unit. -/
theorem IsMultiple.midpoint_ne {e : Int} {x : ℚ} (h : IsMultiple e x) (m : Nat) :
    x - (2 * m + 1 : Nat) * 2 ^ (e - 1) ≠ 0 := by
  obtain ⟨c, rfl⟩ := h
  rw [intCast_mul_two_zpow c (show e - 1 ≤ e by omega), sub_ne_zero]
  intro heq
  have hvalue : c * 2 ^ (e - (e - 1)).toNat = (2 * m + 1 : Nat) := by
    exact_mod_cast mul_right_cancel₀ (zpow_ne_zero _ (by norm_num)) heq
  have hone : (e - (e - 1)).toNat = 1 := by omega
  rw [hone] at hvalue
  push_cast at hvalue
  omega

namespace Format

variable {f g : Format} {q w x y : ℚ} {s : Nat} {i j : Int}

/-- Rounding `q` to the format `f` first makes no difference for the format `g`. -/
def Innocuous (f g : Format) (q : ℚ) : Prop :=
  ∀ v w u, g.Nearest q v → f.Nearest q w → g.Nearest w u → u = v

/-! ## Products -/

theorem innocuous_of_nearest_self (hf : 1 ≤ f.precision) (hg : 1 ≤ g.precision)
    (h : f.Nearest q q) : f.Innocuous g q := by
  intro v w u hv hw hu
  obtain rfl := hw.unique hf h
  exact hu.unique hg hv

/-- A product has the bits of both factors. -/
theorem innocuous_mul (hg : 1 ≤ g.precision) (hprecision : 2 * g.precision ≤ f.precision)
    {m n : Nat} (hm : m < 2 ^ g.precision) (hn : n < 2 ^ g.precision) (hm' : m ≠ 0) (hn' : n ≠ 0)
    (hmin : f.minExponent ≤ i + j) : f.Innocuous g (m * 2 ^ i * (n * 2 ^ j)) := by
  have hproduct : (m : ℚ) * 2 ^ i * (n * 2 ^ j) = (m * n : Nat) * 2 ^ (i + j) := by
    rw [zpow_add₀ (by norm_num)]
    push_cast
    ring
  have hbits : m * n ≤ 2 ^ f.precision :=
    calc m * n ≤ 2 ^ g.precision * 2 ^ g.precision := Nat.mul_le_mul hm.le hn.le
      _ = 2 ^ (2 * g.precision) := by rw [← Nat.pow_add, Nat.two_mul]
      _ ≤ 2 ^ f.precision := Nat.pow_le_pow_right (by decide) hprecision
  rw [hproduct]
  have hf : 1 ≤ f.precision := by omega
  exact innocuous_of_nearest_self hf hg (nearest_self hf (Nat.mul_ne_zero hm' hn') hbits hmin)

/-! ## Sums -/

/-- `x` is a multiple of the unit `2 ^ k` by less than `2 ^ precision`. -/
structure HasDigits (f : Format) (k : Int) (x : ℚ) : Prop where
  min_le : f.minExponent ≤ k
  isMultiple : IsMultiple k x
  lt : |x| < 2 ^ (f.precision + k)

theorem HasDigits.neg (h : g.HasDigits i x) : g.HasDigits i (-x) := by
  obtain ⟨hmin, ⟨c, hc⟩, hlt⟩ := h
  exact ⟨hmin, ⟨-c, by rw [hc]; push_cast; ring⟩, by rwa [abs_neg]⟩

/-- A midpoint that is not far below a binade lies half a unit above its first number. -/
theorem add_le_midpoint {e : Int} {m : Nat} (hg : 1 ≤ g.precision)
    (h : (2 : ℚ) ^ (e + g.precision - 1) < (2 * m + 1 : Nat) * 2 ^ (e - 1) + 2 ^ (e - 1)) :
    (2 : ℚ) ^ (e + g.precision - 1) + 2 ^ (e - 1) ≤ (2 * m + 1 : Nat) * 2 ^ (e - 1) := by
  have hpow : (0 : ℚ) < 2 ^ (e - 1) := by positivity
  have hexponent : e + g.precision - 1 = g.precision + (e - 1) := by ring
  rw [hexponent, two_zpow_natCast_add, ← add_one_mul] at h
  have hreach : 2 ^ g.precision < 2 * m + 1 + 1 := by
    exact_mod_cast lt_of_mul_lt_mul_right h hpow.le
  -- in halves of the unit, the first number of a binade is even
  have heven : 2 ^ g.precision % 2 = 0 := Nat.two_pow_mod_two_eq_zero.2 hg
  have hhalves : 2 ^ g.precision + 1 ≤ 2 * m + 1 := by omega
  have hhalves : ((2 ^ g.precision : Nat) : ℚ) + 1 ≤ (2 * m + 1 : Nat) := by
    exact_mod_cast hhalves
  rw [hexponent, two_zpow_natCast_add, ← add_one_mul]
  gcongr

theorem innocuous_add_of_le (hg : 1 ≤ g.precision) (hs : g.precision + 2 ≤ s)
    (hprecision : g.precision + s ≤ f.precision) (hmin : f.minExponent + s ≤ g.minExponent)
    (hx : g.HasDigits i x) (hy : g.HasDigits j y) (hij : j ≤ i) : f.Innocuous g (x + y) := by
  intro v w u hv hw hu
  refine (hv.twice hg (by omega) hprecision hmin hw hu).resolve_right ?_
  rintro ⟨e, m, hunit, -, rfl, hne, hclose, -⟩
  have hodd := isMultiple_natCast_mul (2 * m + 1) (e - 1)
  rcases le_or_gt (e - s) j with hlarge | hsmall
  · -- the sum and the midpoint are multiples of `2 ^ (e - s)`, and too close to differ
    have hsum : IsMultiple (e - s) (x + y) :=
      (hx.isMultiple.mono (hlarge.trans hij)).add (hy.isMultiple.mono hlarge)
    have hapart := (hsum.sub (hodd.mono (by omega))).le_abs (sub_ne_zero.2 hne)
    have hunits : (2 : ℚ) ^ (e - 1 - s) < 2 ^ (e - s) :=
      zpow_lt_zpow_right₀ (by norm_num) (by omega)
    linarith
  · -- the smaller term is so small that the larger one lies next to the midpoint as well
    have hstart : (2 : ℚ) ^ (e + g.precision - 1) ≤ x + y :=
      hunit.le_or_min.resolve_right (by have := hy.min_le; omega)
    have hthird : (2 : ℚ) ^ (e - 3) = 2 ^ (e - 1) / 4 := by
      have hexponent : e - 3 = e - 1 - 2 := by ring
      rw [hexponent, zpow_sub₀ (by norm_num)]
      norm_num
    have hterm : |y| ≤ 2 ^ (e - 1) / 4 :=
      hthird ▸ hy.lt.le.trans (zpow_le_zpow_right₀ (by norm_num) (by omega))
    have hclose : |x + y - (2 * m + 1 : Nat) * 2 ^ (e - 1)| ≤ 2 ^ (e - 1) / 4 :=
      hthird ▸ hclose.trans (zpow_le_zpow_right₀ (by norm_num) (by omega))
    rw [abs_le] at hterm hclose
    have hpow : (0 : ℚ) < 2 ^ (e - 1) := by positivity
    rcases le_or_gt e i with hle | hlt
    · -- the larger term is a multiple of the unit, and half a unit away from the midpoint
      have hapart := ((hx.isMultiple.mono (by omega)).sub hodd).le_abs
        ((hx.isMultiple.mono hle).midpoint_ne m)
      rcases le_abs.1 hapart with habove | hbelow
      · linarith
      · linarith
    · -- the larger term lies below the binade of the sum, and the midpoint inside
      have hbelow : x < 2 ^ (e + g.precision - 1) :=
        ((le_abs_self x).trans_lt hx.lt).trans_le (zpow_le_zpow_right₀ (by norm_num) (by omega))
      have hinside := add_le_midpoint (e := e) (m := m) hg (by linarith)
      linarith

/-- The sum of two numbers of the coarse format. -/
theorem innocuous_add (hg : 1 ≤ g.precision) (hs : g.precision + 2 ≤ s)
    (hprecision : g.precision + s ≤ f.precision) (hmin : f.minExponent + s ≤ g.minExponent)
    (hx : g.HasDigits i x) (hy : g.HasDigits j y) : f.Innocuous g (x + y) := by
  rcases le_total j i with hle | hle
  · exact innocuous_add_of_le hg hs hprecision hmin hx hy hle
  · rw [add_comm]
    exact innocuous_add_of_le hg hs hprecision hmin hy hx hle

/-! ## Quotients -/

/-- Above its least numbers, a format keeps all its bits of a number. -/
theorem Nearest.mul_abs_sub_le (h : f.Nearest q w)
    (hnormal : (2 : ℚ) ^ (f.minExponent + f.precision - 1) ≤ q) :
    2 ^ f.precision * |q - w| ≤ q := by
  obtain ⟨e, n, hunit, hn, rfl⟩ := h
  have hstart : (2 : ℚ) ^ (e + f.precision - 1) ≤ q := by
    rcases hunit.le_or_min with hle | rfl
    · exact hle
    · exact hnormal
  calc 2 ^ f.precision * |q - n * 2 ^ e|
      ≤ 2 ^ f.precision * (2 : ℚ) ^ (e - 1) := by gcongr; exact hn.abs_sub_le
    _ = 2 ^ (e + f.precision - 1) := by
        have hexponent : e + f.precision - 1 = f.precision + (e - 1) := by ring
        rw [hexponent, zpow_add₀ (by norm_num), zpow_natCast]
    _ ≤ q := hstart

/-- A quotient keeps away from a number that it is not: times the divisor, their difference is one
of two multiples of a unit. -/
theorem two_zpow_le_abs_sub_mul {m n c : Nat} {k l : Int} (hn : n ≠ 0)
    (hq : q * (n * 2 ^ j) = m * 2 ^ i) (hne : q ≠ c * 2 ^ k) (hi : l ≤ i) (hk : l ≤ k + j) :
    (2 : ℚ) ^ l ≤ |q - c * 2 ^ k| * (n * 2 ^ j) := by
  have hdivisor := natCast_mul_two_zpow_pos hn j
  have hdifference : (q - c * 2 ^ k) * (n * 2 ^ j)
      = m * 2 ^ i - (c * n : Nat) * 2 ^ (k + j) := by
    rw [sub_mul, hq, zpow_add₀ (by norm_num)]
    push_cast
    ring
  have hmultiple := ((isMultiple_natCast_mul m i).mono hi).sub
    ((isMultiple_natCast_mul (c * n) (k + j)).mono hk)
  rw [← hdifference] at hmultiple
  have hapart := hmultiple.le_abs (mul_ne_zero (sub_ne_zero.2 hne) hdivisor.ne')
  rwa [abs_mul, abs_of_pos hdivisor] at hapart

/-- The quotient of two numbers of the coarse format, if it is a normal number of the fine one. -/
theorem innocuous_div (hg : 1 ≤ g.precision) (hs : g.precision ≤ s) (hs' : 1 ≤ s)
    (hprecision : g.precision + s ≤ f.precision) (hmin : f.minExponent + s ≤ g.minExponent)
    {m n : Nat} (hm : m < 2 ^ g.precision) (hn : n < 2 ^ g.precision) (hn' : n ≠ 0)
    (hnormal : (2 : ℚ) ^ (f.minExponent + f.precision - 1) ≤ m * 2 ^ i / (n * 2 ^ j)) :
    f.Innocuous g (m * 2 ^ i / (n * 2 ^ j)) := by
  intro v w u hv hw hu
  refine (hv.twice hg hs' hprecision hmin hw hu).resolve_right ?_
  rintro ⟨e, k, -, -, rfl, hne, hclose, -⟩
  have hrelative := hw.mul_abs_sub_le hnormal
  have hdivisor := natCast_mul_two_zpow_pos hn' j
  generalize hq : (m : ℚ) * 2 ^ i / (n * 2 ^ j) = q at hne hclose hrelative
  have hproduct : q * (n * 2 ^ j) = m * 2 ^ i := by rw [← hq, div_mul_cancel₀ _ hdivisor.ne']
  have hbits {a : Nat} (ha : a < 2 ^ g.precision) {t : Nat} (ht : g.precision ≤ t) :
      (a : ℚ) < 2 ^ t := by
    exact_mod_cast ha.trans_le (Nat.pow_le_pow_right (by decide) ht)
  rcases le_or_gt (e - 1 + j) i with hle | hlt
  · -- they differ by a unit of the midpoint or more, and the divisor is below `2 ^ s`
    have hfar := two_zpow_le_abs_sub_mul hn' hproduct hne hle le_rfl
    have hnear : |q - (2 * k + 1 : Nat) * 2 ^ (e - 1)| * (n * 2 ^ j) < 2 ^ (e - 1 + j) := by
      have hn : (n : ℚ) < 2 ^ s := hbits hn hs
      calc |q - (2 * k + 1 : Nat) * 2 ^ (e - 1)| * (n * 2 ^ j)
          ≤ 2 ^ (e - 1 - s) * (n * 2 ^ j) := by gcongr
        _ < 2 ^ (e - 1 - s) * (2 ^ s * 2 ^ j) := by gcongr
        _ = 2 ^ (e - 1 + j) := by
            rw [← zpow_natCast, ← zpow_add₀ (by norm_num), ← zpow_add₀ (by norm_num)]
            congr 1
            ring
    linarith
  · -- they differ by a unit of the dividend or more, which is below `2 ^ precision`
    have hfar := two_zpow_le_abs_sub_mul hn' hproduct hne le_rfl hlt.le
    have hnear : 2 ^ f.precision * (|q - (2 * k + 1 : Nat) * 2 ^ (e - 1)| * (n * 2 ^ j))
        < 2 ^ f.precision * 2 ^ i := by
      have hm : (m : ℚ) < 2 ^ f.precision := hbits hm (by omega)
      calc 2 ^ f.precision * (|q - (2 * k + 1 : Nat) * 2 ^ (e - 1)| * (n * 2 ^ j))
          = 2 ^ f.precision * |q - (2 * k + 1 : Nat) * 2 ^ (e - 1)| * (n * 2 ^ j) := by ring
        _ ≤ q * (n * 2 ^ j) := by gcongr
        _ = m * 2 ^ i := hproduct
        _ < 2 ^ f.precision * 2 ^ i := by gcongr
    have := lt_of_mul_lt_mul_left hnear (by positivity)
    linarith

end Format

/-! ## By way of the fine format -/

namespace Floating

variable {f g : Format} {num den : Nat}

/-- Fractions with one nearest number are rounded alike. -/
theorem ofRatio_congr (hf : 1 ≤ f.precision) {num' den' : Nat} {v : ℚ} (hnum : num ≠ 0)
    (hden : den ≠ 0) (hnum' : num' ≠ 0) (hden' : den' ≠ 0) (h : f.Nearest (num / den) v)
    (h' : f.Nearest (num' / den') v) (negative : Bool) :
    (ofRatio negative num den : Floating f) = ofRatio negative num' den' := by
  rcases ofRatio_cases (f := f) negative num den with hinfinite | ⟨n, e, hcanonical, hfinite⟩
  · rcases ofRatio_cases (f := f) negative num' den' with hinfinite' | ⟨n, e, hcanonical, hfinite⟩
    · rw [hinfinite, hinfinite']
    · have hnearest := (ofRatio_eq_finite_iff hf hnum' hden' hcanonical negative).1 hfinite
      rw [hfinite, ofRatio_eq_finite_iff hf hnum hden]
      rwa [h'.unique hf hnearest] at h
  · have hnearest := (ofRatio_eq_finite_iff hf hnum hden hcanonical negative).1 hfinite
    rw [hfinite, eq_comm, ofRatio_eq_finite_iff hf hnum' hden']
    rwa [h.unique hf hnearest] at h'

/-- A result within the range of the fine format that can be rounded twice. -/
theorem convert_ofRatio (hf : f.IsProper) (hg : 1 ≤ g.precision) (hnum : num ≠ 0) (hden : den ≠ 0)
    (h : f.Innocuous g (num / den)) (hlow : (2 : ℚ) ^ f.minExponent ≤ num / den)
    (hhigh : (num : ℚ) / den < f.overflow) (negative : Bool) :
    ((ofRatio negative num den : Floating f).convert : Floating g) = ofRatio negative num den := by
  have hpos : (0 : ℚ) < num / den := lt_of_lt_of_le (by positivity) hlow
  obtain ⟨w, hw⟩ := f.exists_nearest hpos
  obtain ⟨m, k, hcanonical, rfl⟩ := hw.exists_canonical_of_lt hf hhigh
  have hleast : f.Nearest (2 ^ f.minExponent) (2 ^ f.minExponent) := by
    have := Format.nearest_self hf.one_le Nat.one_ne_zero Nat.one_le_two_pow (le_refl f.minExponent)
    simpa using this
  have hm : m ≠ 0 := by
    rintro rfl
    have hle := hleast.mono hf.one_le hw hlow
    have : (0 : ℚ) < 2 ^ f.minExponent := by positivity
    simp only [Nat.cast_zero, zero_mul] at hle
    linarith
  have hscaled : 0 < scaled m k := by
    rw [scaled_eq]
    exact natCast_mul_two_zpow_pos hm k
  obtain ⟨v, hv⟩ := g.exists_nearest hpos
  obtain ⟨u, hu⟩ := g.exists_nearest (natCast_mul_two_zpow_pos hm k)
  obtain rfl := h v _ u hv hw hu
  rw [(ofRatio_eq_finite_iff hf.one_le hnum hden hcanonical negative).2 hw, convert]
  rw [← scaled_eq, ← natAbs_num_div_den hscaled] at hu
  exact ofRatio_congr hg (natAbs_num_ne_zero hscaled) (Rat.den_nz _) hnum hden hu hv negative

end Floating

end ScriptLang
