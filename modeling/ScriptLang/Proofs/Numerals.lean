import ScriptLang.Proofs.Grammar
import Mathlib.Data.List.TakeWhile

set_option autoImplicit false

/-! # Reading numerals

A run of digits denotes an integer, unless it is too long (`Integer.read?_numeral`), and two runs
with a point between them always denote a number (`Double.isSome_readGrouped?_decimal`). -/

namespace ScriptLang

namespace Text

/-! ## Digits -/

/-- A digit lies in one of the runs of ten. -/
theorem isDigit_iff (c : Char) :
    isDigit c = true ↔ ∃ first ∈ digitZeros, first ≤ c.toNat ∧ c.toNat < first + 10 := by
  simp [isDigit, digitValue?]

theorem isBlank_of_isDigit {c : Char} (h : isDigit c = true) : isBlank c = false := by
  obtain ⟨first, hfirst, hle, hlt⟩ := (isDigit_iff c).1 h
  have hapart : ∀ first ∈ digitZeros, ∀ range ∈ blankRanges,
      first + 10 ≤ range.1 ∨ range.2 < first := by decide
  rw [isBlank, CodeRanges.contains, List.any_eq_false]
  intro range hrange
  have := hapart first hfirst range hrange
  simp only [Bool.and_eq_true, decide_eq_true_eq, not_and]
  omega

theorem ne_of_isDigit {c d : Char} (h : isDigit c = true) (hd : isDigit d = false) : c ≠ d := by
  rintro rfl
  rw [h] at hd
  exact absurd hd (by decide)

/-- No digit is a letter. -/
theorem toLower_of_isDigit {c : Char} (h : isDigit c = true) : c.toLower = c := by
  obtain ⟨first, hfirst, hle, hlt⟩ := (isDigit_iff c).1 h
  have hruns : ∀ first ∈ digitZeros, first + 10 ≤ 65 ∨ 90 < first := by decide
  have hapart := hruns first hfirst
  unfold Char.toLower
  split
  · next hupper =>
    have hlow : 65 ≤ c.toNat := hupper.1
    have hhigh : c.toNat ≤ 90 := hupper.2
    omega
  · rfl

/-- Every digit of a numeral has a value. -/
theorem length_filterMap_digitValue? {cs : List Char} (h : ∀ c ∈ cs, isDigit c = true) :
    (cs.filterMap digitValue?).length = cs.length := by
  induction cs with
  | nil => rfl
  | cons c cs ih =>
    obtain ⟨digit, hdigit⟩ := Option.isSome_iff_exists.1 (h c (List.mem_cons_self ..))
    rw [List.filterMap_cons, hdigit]
    simp [ih fun d hd => h d (List.mem_cons_of_mem _ hd)]

theorem takeWhile_isDigit_append {whole rest : List Char} (hwhole : ∀ c ∈ whole, isDigit c = true)
    (hrest : rest.head?.any isDigit = false) : (whole ++ rest).takeWhile isDigit = whole := by
  rw [List.takeWhile_append_of_pos hwhole]
  cases rest with
  | nil => simp
  | cons c rest =>
    have hc : isDigit c = false := hrest
    simp [hc]

theorem dropWhile_isDigit_append {whole rest : List Char} (hwhole : ∀ c ∈ whole, isDigit c = true)
    (hrest : rest.head?.any isDigit = false) : (whole ++ rest).dropWhile isDigit = rest := by
  rw [List.dropWhile_append_of_pos hwhole]
  cases rest with
  | nil => rfl
  | cons c rest =>
    have hc : isDigit c = false := hrest
    simp [hc]

/-- Nothing is trimmed off a text without white space. -/
theorem trim_of_forall {cs : List Char} (h : ∀ c ∈ cs, isBlank c = false) : trim cs = cs := by
  have hdrop (ds : List Char) (hds : ∀ c ∈ ds, isBlank c = false) : ds.dropWhile isBlank = ds := by
    cases ds with
    | nil => rfl
    | cons d ds =>
      have := hds d (List.mem_cons_self ..)
      simp [this]
  rw [trim, hdrop cs h, hdrop cs.reverse (fun c hc => h c (List.mem_reverse.1 hc)),
    List.reverse_reverse]

end Text

/-! ## Integers -/

/-- The number that a run of digits denotes. -/
def numeral (cs : List Char) : Nat :=
  Text.ofDigits (cs.filterMap Text.digitValue?)

namespace Integer

theorem groupedDigits?_numeral {cs : List Char} (h : IsNumeral cs) :
    groupedDigits? cs = some (cs.filterMap Text.digitValue?) := by
  obtain ⟨hne, hdigits⟩ := h
  induction cs with
  | nil => exact absurd rfl hne
  | cons c rest ih =>
    obtain ⟨digit, hdigit⟩ := Option.isSome_iff_exists.1 (hdigits c (List.mem_cons_self ..))
    cases rest with
    | nil => simp [groupedDigits?, hdigit]
    | cons d rest =>
      have hd : Text.isDigit d = true := hdigits d (by simp)
      have hunderscore : d ≠ '_' := Text.ne_of_isDigit hd (by decide)
      have hrest := ih (by simp) fun x hx => hdigits x (List.mem_cons_of_mem _ hx)
      rw [groupedDigits?]
      · rw [hrest]
        simp [List.filterMap_cons, hdigit]
      · simp
      · rintro rest' heq
        cases heq
        exact hunderscore rfl

/-- A run of digits that is not too long is read as the number that it denotes. -/
theorem read?_numeral {text : String} (h : IsNumeral text.toList) :
    read? text = if text.length ≤ maxDigits then some (numeral text.toList : Int) else none := by
  have htrim : Text.trim text.toList = text.toList :=
    Text.trim_of_forall fun c hc => Text.isBlank_of_isDigit (h.2 c hc)
  have hlength : (text.toList.filterMap Text.digitValue?).length = text.length :=
    Text.length_filterMap_digitValue? h.2
  have hnatural : natural? text.toList
      = if text.length ≤ maxDigits then some (numeral text.toList) else none := by
    rw [natural?, groupedDigits?_numeral h]
    show (if _ then _ else _) = _
    rw [hlength, numeral]
  unfold read?
  rw [htrim]
  split
  · next digits hcs =>
    have := h.2 '-' (by simp [hcs])
    exact absurd this (by decide)
  · next digits hcs =>
    have := h.2 '+' (by simp [hcs])
    exact absurd this (by decide)
  · rw [hnatural]
    split <;> rfl

end Integer

/-! ## Decimals -/

namespace Text

theorem spanDigits_append {whole rest : List Char} (hwhole : ∀ c ∈ whole, isDigit c = true)
    (hrest : (rest.head?.any isDigit) = false) :
    spanDigits (whole ++ rest) = (whole.filterMap digitValue?, rest) := by
  rw [spanDigits, takeWhile_isDigit_append hwhole hrest, dropWhile_isDigit_append hwhole hrest]

end Text

namespace Double

theorem dropUnderscores?_of_notMem {cs : List Char} (h : '_' ∉ cs) (afterDigit : Bool) :
    dropUnderscores? afterDigit cs = some cs := by
  induction cs generalizing afterDigit with
  | nil => rfl
  | cons c rest ih =>
    simp only [List.mem_cons, not_or] at h
    rw [dropUnderscores?, ih h.2]
    · rfl
    · rintro rfl
      exact absurd rfl h.1
    · rintro d rest' rfl
      exact absurd rfl h.1

end Double

namespace Decimal

theorem isEmpty_digits {cs : List Char} (h : IsNumeral cs) :
    (cs.filterMap Text.digitValue?).isEmpty = false := by
  have hlength := Text.length_filterMap_digitValue? h.2
  have hpos := List.length_pos_iff.2 h.1
  rw [List.isEmpty_eq_false_iff]
  exact List.ne_nil_of_length_pos (by omega)

theorem spanDigits_numeral {cs : List Char} (h : ∀ c ∈ cs, Text.isDigit c = true) :
    Text.spanDigits cs = (cs.filterMap Text.digitValue?, []) := by
  have hspan : Text.spanDigits (cs ++ []) = _ := Text.spanDigits_append h rfl
  rwa [List.append_nil] at hspan

theorem isDigit_or_point {whole fraction : List Char} (hwhole : IsNumeral whole)
    (hfraction : IsNumeral fraction) :
    ∀ c ∈ whole ++ '.' :: fraction, Text.isDigit c = true ∨ c = '.' := by
  intro c hc
  simp only [List.mem_append, List.mem_cons] at hc
  rcases hc with hc | rfl | hc
  · exact .inl (hwhole.2 c hc)
  · exact .inr rfl
  · exact .inl (hfraction.2 c hc)

theorem isBlank_point {whole fraction : List Char} (hwhole : IsNumeral whole)
    (hfraction : IsNumeral fraction) :
    ∀ c ∈ whole ++ '.' :: fraction, Text.isBlank c = false := by
  intro c hc
  rcases isDigit_or_point hwhole hfraction c hc with hdigit | rfl
  · exact Text.isBlank_of_isDigit hdigit
  · decide

/-- Digits make a decimal without places. -/
theorem read?_whole {whole : List Char} (h : IsNumeral whole) :
    read? whole = some ⟨numeral whole, 0⟩ := by
  simp [read?, spanDigits_numeral h.2, readScale?, isEmpty_digits h, numeral]

/-- Digits, a point and digits make a decimal with as many places as the last digits. -/
theorem read?_point {whole fraction : List Char} (hwhole : IsNumeral whole)
    (hfraction : IsNumeral fraction) :
    read? (whole ++ '.' :: fraction) = some ⟨numeral (whole ++ fraction), -fraction.length⟩ := by
  have hspan : Text.spanDigits (whole ++ '.' :: fraction)
      = (whole.filterMap Text.digitValue?, '.' :: fraction) :=
    Text.spanDigits_append hwhole.2 rfl
  simp [read?, hspan, spanDigits_numeral hfraction.2, readScale?, isEmpty_digits hwhole, numeral,
    Text.length_filterMap_digitValue? hfraction.2]

end Decimal

namespace Double

/-- A text that starts with a digit is no word for a number. -/
theorem readUnsigned?_of_isDigit {c : Char} (h : Text.isDigit c = true) (cs : List Char)
    (negative : Bool) :
    readUnsigned? negative (c :: cs) = (Decimal.read? (c :: cs)).map (Decimal.round negative) := by
  have hword (text : String) (htext : text.toList.head?.any Text.isDigit = false) :
      String.ofList ((c :: cs).map Char.toLower) ≠ text := by
    rintro rfl
    simp [Text.toLower_of_isDigit h, h] at htext
  rw [readUnsigned?]
  simp only [hword "inf" (by decide), hword "infinity" (by decide), hword "nan" (by decide),
    decide_false, Bool.or_self, Bool.false_eq_true, if_false]

/-- A text without white space that starts with a digit, after a sign or not, is read as a
decimal. -/
theorem read?_signed (negative : Bool) {text : String} {cs : List Char}
    (htext : text.toList = (if negative then ['-'] else []) ++ cs)
    (hdigit : cs.head?.any Text.isDigit = true) (hblank : ∀ d ∈ cs, Text.isBlank d = false) :
    read? text = (Decimal.read? cs).map (Decimal.round negative) := by
  have hall : ∀ d ∈ text.toList, Text.isBlank d = false := by
    intro d hd
    rw [htext, List.mem_append] at hd
    rcases hd with hsign | hd
    · cases negative with
      | false => cases hsign
      | true => rw [List.mem_singleton.1 hsign]; decide
    · exact hblank d hd
  obtain ⟨c, rest, rfl⟩ : ∃ c rest, cs = c :: rest := by
    refine List.exists_cons_of_ne_nil ?_
    rintro rfl
    cases hdigit
  have h : Text.isDigit c = true := hdigit
  unfold read?
  rw [Text.trim_of_forall hall, htext]
  cases negative with
  | true => exact readUnsigned?_of_isDigit h rest true
  | false =>
    simp only [Bool.false_eq_true, if_false, List.nil_append]
    split
    · next heq =>
      obtain ⟨rfl, rfl⟩ := List.cons.inj heq
      exact absurd h (by decide)
    · next heq =>
      obtain ⟨rfl, rfl⟩ := List.cons.inj heq
      exact absurd h (by decide)
    · exact readUnsigned?_of_isDigit h rest false

/-- Digits, a point and digits denote the number nearest to the decimal. -/
theorem readGrouped?_decimal {text : String} {whole fraction : List Char}
    (htext : text.toList = whole ++ '.' :: fraction) (hwhole : IsNumeral whole)
    (hfraction : IsNumeral fraction) :
    readGrouped? text
      = some (Decimal.round false ⟨numeral (whole ++ fraction), -fraction.length⟩) := by
  have hunderscore : '_' ∉ text.toList := by
    rw [htext]
    exact fun h => absurd (Decimal.isDigit_or_point hwhole hfraction _ h) (by decide)
  have hdigit : (whole ++ '.' :: fraction).head?.any Text.isDigit = true := by
    obtain ⟨c, cs, rfl⟩ := List.exists_cons_of_ne_nil hwhole.1
    exact hwhole.2 c (List.mem_cons_self ..)
  have hread : read? text = (Decimal.read? (whole ++ '.' :: fraction)).map (Decimal.round false) :=
    read?_signed false htext hdigit (Decimal.isBlank_point hwhole hfraction)
  rw [readGrouped?, dropUnderscores?_of_notMem hunderscore, Option.bind_some, String.ofList_toList,
    hread, Decimal.read?_point hwhole hfraction, Option.map_some]

/-- Digits, a point and digits denote a number. -/
theorem isSome_readGrouped?_decimal {text : String} {whole fraction : List Char}
    (htext : text.toList = whole ++ '.' :: fraction) (hwhole : IsNumeral whole)
    (hfraction : IsNumeral fraction) : (readGrouped? text).isSome := by
  rw [readGrouped?_decimal htext hwhole hfraction, Option.isSome_some]

end Double

end ScriptLang
