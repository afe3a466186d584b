import ScriptLang.Value
import ScriptLang.Proofs.Lexemes
import ScriptLang.Proofs.ShortestDecimal

set_option autoImplicit false

/-! # The texts of decimals

A decimal that is shown without an exponent is a run of digits, or two with a point between them
(`Decimal.shown_cases`). The text is read as a decimal that is rounded like the shown one
(`Decimal.exists_read?_shown`). -/

namespace ScriptLang

/-! ## Zeros -/

theorem isDigit_replicate_zero (n : Nat) : ∀ c ∈ List.replicate n '0', Text.isDigit c = true := by
  intro c hc
  rw [List.eq_of_mem_replicate hc]
  decide

/-- Zeros before a number do not count. -/
theorem numeral_replicate_zero_append (n : Nat) (cs : List Char) :
    numeral (List.replicate n '0' ++ cs) = numeral cs := by
  induction n with
  | zero => rfl
  | succ n ih => rw [List.replicate_succ, List.cons_append, ← ih]; rfl

/-- Zeros after a number multiply it by powers of ten. -/
theorem numeral_append_replicate_zero (cs : List Char) (n : Nat) :
    numeral (cs ++ List.replicate n '0') = numeral cs * 10 ^ n := by
  induction n with
  | zero => simp
  | succ n ih =>
    have hlast (ds : List Char) : numeral (ds ++ ['0']) = 10 * numeral ds := by
      simp [numeral, Text.ofDigits, Text.digitValue?, Text.digitZeros]
    rw [List.replicate_succ', ← List.append_assoc, hlast, ih, Nat.pow_succ]
    ring

namespace Text

theorem digitCount_mul_pow {n : Nat} (hn : n ≠ 0) (k : Nat) :
    digitCount (n * 10 ^ k) = digitCount n + k := by
  have hpos := digitCount_pos n
  refine le_antisymm ((digitCount_le_iff (by omega)).2 ?_) (not_lt.1 fun hlt => ?_)
  · rw [Nat.pow_add]
    exact Nat.mul_lt_mul_of_pos_right (lt_pow_digitCount n) (Nat.pow_pos (by decide))
  · have hpos' := digitCount_pos (n * 10 ^ k)
    have hfewer : digitCount (n * 10 ^ k) ≤ digitCount n - 1 + k := by omega
    rw [digitCount_le_iff (by omega), Nat.pow_add] at hfewer
    exact absurd (pow_digitCount_le hn) (not_le.2 (Nat.lt_of_mul_lt_mul_right hfewer))

end Text

/-! ## Shown decimals -/

namespace Decimal

/-- The text of a decimal without an exponent. -/
def shown (d : Decimal) : List Char :=
  (Value.shownFloat.decimal d).toList

theorem shown_eq (d : Decimal) :
    d.shown = (Value.shownFloat.positional d.digits d.pointPosition).toList :=
  rfl

/-- A shown decimal is a whole number with zeros at its end, or has a point before as many digits as
it has places. -/
theorem shown_cases (d : Decimal) :
    (IsNumeral d.shown ∧ ∃ k : Nat, d.exponent = k ∧ numeral d.shown = d.coefficient * 10 ^ k) ∨
      ∃ whole fraction, IsNumeral whole ∧ IsNumeral fraction ∧ d.shown = whole ++ '.' :: fraction ∧
        d.exponent = -fraction.length ∧ numeral (whole ++ fraction) = d.coefficient := by
  have hdigits := Integer.isNumeral_toDigits d.coefficient
  have hvalue := Integer.numeral_toDigits d.coefficient
  have hposition : d.pointPosition = d.digits.length + d.exponent := rfl
  change IsNumeral d.digits at hdigits
  change numeral d.digits = _ at hvalue
  rw [shown_eq]
  unfold FloatLayout.positional
  split
  · next hbelow =>
    right
    refine ⟨['0'], List.replicate (-d.pointPosition).toNat '0' ++ d.digits, ?_, ?_, ?_, ?_, ?_⟩
    · exact ⟨by simp, isDigit_replicate_zero 1⟩
    · exact ⟨by simp [hdigits.1], List.forall_mem_append.2 ⟨isDigit_replicate_zero _, hdigits.2⟩⟩
    · simp [String.toList_append]
    · rw [List.length_append, List.length_replicate]
      omega
    · rw [← List.append_assoc]
      exact (numeral_replicate_zero_append (_ + 1) d.digits).trans hvalue
  split
  · next hwhole =>
    left
    have hshown : (String.ofList (d.digits ++ List.replicate
        (d.pointPosition.toNat - d.digits.length) '0') ++ Value.shownFloat.afterWhole).toList
        = d.digits ++ List.replicate (d.pointPosition.toNat - d.digits.length) '0' := by
      simp [String.toList_append, Value.shownFloat]
    rw [hshown]
    refine ⟨?_, d.pointPosition.toNat - d.digits.length, by omega, ?_⟩
    · exact ⟨by simp [hdigits.1], List.forall_mem_append.2 ⟨hdigits.2, isDigit_replicate_zero _⟩⟩
    · rw [numeral_append_replicate_zero, hvalue]
  · next hbelow hwhole =>
    right
    refine ⟨d.digits.take d.pointPosition.toNat, d.digits.drop d.pointPosition.toNat,
      ?_, ?_, ?_, ?_, ?_⟩
    · refine ⟨?_, fun c hc => hdigits.2 c (List.mem_of_mem_take hc)⟩
      rw [Ne, List.take_eq_nil_iff]
      exact not_or.2 ⟨by omega, hdigits.1⟩
    · refine ⟨?_, fun c hc => hdigits.2 c (List.mem_of_mem_drop hc)⟩
      rw [Ne, List.drop_eq_nil_iff]
      omega
    · simp [String.toList_append]
    · rw [List.length_drop]
      omega
    · rw [List.take_append_drop, hvalue]

/-- Zeros written out are rounded like an exponent. -/
theorem round_mul_pow {f : Format} {d : Decimal} {k : Nat} (h : d.exponent = k) (negative : Bool) :
    ((⟨d.coefficient * 10 ^ k, 0⟩ : Decimal).round negative : Floating f) = d.round negative := by
  by_cases hzero : d.coefficient = 0
  · simp [round, hzero]
  · have hne : d.coefficient * 10 ^ k ≠ 0 := Nat.mul_ne_zero hzero (Nat.pow_pos (by decide)).ne'
    have hposition : (⟨d.coefficient * 10 ^ k, 0⟩ : Decimal).pointPosition = d.pointPosition := by
      simp [pointPosition, Text.digitCount_mul_pow hzero, h]
    have hnum : (⟨d.coefficient * 10 ^ k, 0⟩ : Decimal).num = d.num := by simp [num, h]
    have hden : (⟨d.coefficient * 10 ^ k, 0⟩ : Decimal).den = d.den := by simp [den, h]
    rw [round, round, hposition, hnum, hden]
    simp only [hne, hzero]

/-- The shown text is read as a decimal that is rounded like the shown one. -/
theorem exists_read?_shown (d : Decimal) :
    ∃ d', read? d.shown = some d' ∧
      ∀ (f : Format) (negative : Bool), (d'.round negative : Floating f) = d.round negative := by
  rcases d.shown_cases with ⟨hnumeral, k, hexponent, hvalue⟩ |
    ⟨whole, fraction, hwhole, hfraction, hshown, hexponent, hvalue⟩
  · refine ⟨_, read?_whole hnumeral, fun f negative => ?_⟩
    rw [hvalue]
    exact round_mul_pow hexponent negative
  · refine ⟨d, ?_, fun f negative => rfl⟩
    rw [hshown, read?_point hwhole hfraction, hvalue, ← hexponent]

end Decimal

end ScriptLang
