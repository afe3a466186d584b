import ScriptLang.Proofs.DoubleRounding
import ScriptLang.Proofs.Midpoints
import ScriptLang.Proofs.ShortestDecimal

set_option autoImplicit false

/-! # Reading back the shortest decimal

A number is read as the double nearest to its text and becomes the single nearest to that double.
Rounding twice can go wrong only if the double is the midpoint of two singles and the text is not
(`Format.Nearest.twice`). The shortest decimal of a single would then lie within half a unit of a
double from a midpoint, which happens for one positive single only (`Single.eq_or_eq_elusive`). All
others are read back (`Single.convert_round_shortest`). -/

namespace ScriptLang

namespace Single

variable {n : Nat} {e : Int}

/-- The only positive single whose shortest decimal is read as another single. -/
def elusive : Single :=
  .finite false 11420669 (-107) (by decide)

/-- The single that the shortest decimal of the elusive one is read as, which is the next one. -/
def elusiveNext : Single :=
  .finite false 11420670 (-107) (by decide)

/-! ## The decimals next to a midpoint -/

/-- The values of decimals that come too close to a midpoint. -/
theorem toRat_of_close {d : Decimal} {k : Int} {m : Nat} (hlow : -150 ≤ k) (hhigh : k ≤ 103)
    (hm : m < Midpoint.bound) (hne : d.toRat ≠ m * 2 ^ k)
    (hclose : |d.toRat - m * 2 ^ k| ≤ 2 ^ k / Midpoint.scale)
    (hexponent : (2 : ℚ) ^ k - 2 ^ k / Midpoint.scale ≤ 10 ^ d.exponent) :
    d.toRat = (⟨7038531, -32⟩ : Decimal).toRat ∨ d.toRat = (⟨14077062, -32⟩ : Decimal).toRat := by
  obtain ⟨j, hj⟩ := Decimal.exists_toRat_eq (Midpoint.tenExponent_le hlow hhigh hexponent)
  rw [hj] at hne hclose ⊢
  have hmem := Midpoint.mem_closePairs hlow hhigh hm hne hclose
  simp only [Midpoint.closePairs, List.mem_cons, Prod.mk.injEq, List.not_mem_nil, or_false] at hmem
  rcases hmem with ⟨rfl, rfl, _⟩ | ⟨rfl, rfl, _⟩
  · exact .inl rfl
  · exact .inr rfl

/-- A decimal with the value of one that is rounded to a single is rounded to it as well. -/
theorem round_eq_of_toRat_eq {d d' : Decimal} {h : Format.single.Canonical n e} (hn : n ≠ 0)
    (heq : d.toRat = d'.toRat) (hround : d.round false = (.finite false n e h : Single)) :
    d'.round false = (.finite false n e h : Single) := by
  rw [Decimal.round_eq_finite_iff h hn] at hround ⊢
  rwa [← heq]

/-- Of the two decimals only the first is the shortest one of a single. -/
theorem eq_elusive_of_toRat_shortest (h : Format.single.Canonical n e) (hn : n ≠ 0)
    (hclose : (.finite false n e h : Single).shortest.toRat = (⟨7038531, -32⟩ : Decimal).toRat ∨
      (.finite false n e h : Single).shortest.toRat = (⟨14077062, -32⟩ : Decimal).toRat) :
    (.finite false n e h : Single) = elusive := by
  have hround := round_shortest h hn
  rcases hclose with heq | heq
  · have helusive : (⟨7038531, -32⟩ : Decimal).round false = elusive := by decide +kernel
    rw [← round_eq_of_toRat_eq hn heq hround, helusive]
  · have hother : (⟨14077062, -32⟩ : Decimal).round false
        = (.finite false 11420669 (-106) (by decide) : Single) := by decide +kernel
    have hshortest : (.finite false 11420669 (-106) (by decide) : Single).shortest
        = ⟨14077061, -32⟩ := by decide +kernel
    have hsame := (round_eq_of_toRat_eq hn heq hround).symm.trans hother
    rw [hsame, hshortest] at heq
    norm_num [Decimal.toRat] at heq

/-! ## By way of a double -/

/-- Half a unit of a double next to a midpoint of singles. -/
theorem two_zpow_sub_eq (k : Int) : (2 : ℚ) ^ (k - (29 : Nat)) = 2 ^ k / Midpoint.scale := by
  rw [zpow_sub₀ (by norm_num), zpow_natCast, Midpoint.scale]
  norm_num

/-- Rounding the shortest decimal to a double first goes wrong for the elusive single only. -/
theorem eq_or_eq_elusive (h : Format.single.Canonical n e) (hn : n ≠ 0) {w u : ℚ}
    (hw : Format.double.Nearest (.finite false n e h : Single).shortest.toRat w)
    (hu : Format.single.Nearest w u) :
    u = n * 2 ^ e ∨ (.finite false n e h : Single) = elusive := by
  have hnearest := (Decimal.round_eq_finite_iff h hn false).1 (round_shortest h hn)
  have hdigit := abs_toRat_shortest_sub_le h hn
  refine (hnearest.twice (s := 29) (by decide) (by decide) (by decide) (by decide) hw
    hu).imp_right ?_
  rintro ⟨k, m, hunit, hm, rfl, hne, hclose, hhalf⟩
  rw [two_zpow_sub_eq] at hclose
  have hlow : -149 ≤ k := hunit.min_le
  have hhigh : k ≤ 104 := by
    rcases hunit.le_or_min with hle | rfl
    · have hlt := hnearest.lt (by decide) (by decide) h.lt
      have := (zpow_lt_zpow_iff_right₀ (by norm_num)).1 (hle.trans_lt hlt)
      simp only [Format.single] at this
      omega
    · decide
  have hbound : 2 * m + 1 < Midpoint.bound := by
    have : m < 16777216 := hm
    rw [Midpoint.bound]
    omega
  refine eq_elusive_of_toRat_shortest h hn
    (toRat_of_close (by omega) (by omega) hbound hne hclose ?_)
  -- The number is half a unit off the midpoint, and the decimal is not closer than its last digit.
  have htriangle := abs_sub_le (n * 2 ^ e : ℚ) (.finite false n e h : Single).shortest.toRat
    ((2 * m + 1 : Nat) * 2 ^ (k - 1))
  rw [hhalf, abs_sub_comm] at htriangle
  linarith

/-- Decimals of moderate size are rounded to positive doubles. -/
theorem exists_round_double {d : Decimal} (hlow : (2 : ℚ) ^ (-400 : Int) ≤ d.toRat)
    (hhigh : d.toRat < 2 ^ (400 : Int)) (negative : Bool) :
    ∃ m k, ∃ h : Format.double.Canonical m k, m ≠ 0 ∧
      Format.double.Nearest d.toRat (m * 2 ^ k) ∧
      (d.round negative : Double) = .finite negative m k h := by
  have hpos : 0 < d.toRat := lt_of_lt_of_le (by positivity) hlow
  obtain ⟨w, hw⟩ := Format.double.exists_nearest hpos
  have hwlow : (2 : ℚ) ^ (-400 : Int) ≤ w :=
    (Format.nearest_two_zpow (by decide) (by decide)).mono (by decide) hw hlow
  have hwhigh : w < 2 ^ (Format.double.maxExponent + Format.double.precision) := by
    have hpower : Format.double.Nearest (2 ^ (400 : Int)) (2 ^ (400 : Int)) :=
      Format.nearest_two_zpow (by decide) (by decide)
    exact (hw.mono (by decide) hpower hhigh.le).trans_lt
      (zpow_lt_zpow_right₀ (by norm_num) (by decide))
  obtain ⟨m, k, h, rfl⟩ := hw.exists_canonical (by decide) (by decide) hwhigh
  refine ⟨m, k, h, ?_, hw, ?_⟩
  · rintro rfl
    have : (0 : ℚ) < 2 ^ (-400 : Int) := by positivity
    simp only [Nat.cast_zero, zero_mul] at hwlow
    linarith
  · rwa [Decimal.round_eq_ofRatio hlow hhigh, Floating.ofRatio_eq_finite_iff (by decide)
      (Decimal.num_ne_zero (Decimal.coefficient_ne_zero hpos)) d.den_ne_zero, Decimal.num_div_den]

/-- What the shortest decimal of a single is read as. -/
def reread (x : Single) : Single :=
  if x = elusive then elusiveNext
  else if x = elusive.neg then elusiveNext.neg
  else x

/-- The shortest decimal is read as the number, except for the elusive one. -/
theorem convert_round_shortest (h : Format.single.Canonical n e) (hn : n ≠ 0) :
    (((.finite false n e h : Single).shortest.round false : Double).convert : Single)
      = reread (.finite false n e h) := by
  by_cases helusive : (.finite false n e h : Single) = elusive
  · rw [helusive]
    decide +kernel
  · have hnearest := (Decimal.round_eq_finite_iff h hn false).1 (round_shortest h hn)
    obtain ⟨hlow, hhigh⟩ := hnearest.moderate h hn
    obtain ⟨m, k, hcanonical, hm, hw, hround⟩ := exists_round_double hlow hhigh false
    obtain ⟨u, hu⟩ := Format.single.exists_nearest (natCast_mul_two_zpow_pos hm k)
    have hneg : (.finite false n e h : Single) ≠ elusive.neg := by simp [elusive, Floating.neg]
    rw [hround, reread, if_neg helusive, if_neg hneg, Floating.convert_eq_finite_iff (by decide) hm]
    rwa [(eq_or_eq_elusive h hn hw hu).resolve_right helusive] at hu

end Single

end ScriptLang
