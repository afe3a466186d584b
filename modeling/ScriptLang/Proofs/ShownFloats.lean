import ScriptLang.Proofs.DecimalText
import ScriptLang.Proofs.Progress
import ScriptLang.Proofs.Rereading
import ScriptLang.Proofs.StatementLines

set_option autoImplicit false

/-! # Reading shown floats

The text that a float is shown as is read back as the float, with one exception up to the sign
(`Single.display_reread`). The text is a decimal that is rounded to the float; but reading rounds it
to a double first, and the decimal of the elusive single is so close to the midpoint of two singles
that the double is this midpoint. -/

namespace ScriptLang

/-! ## Decimal literals -/

theorem Lexer.match?_decimal {accepts : Terminal → Bool} {whole fraction rest : List Char}
    (hwhole : IsNumeral whole) (hfraction : IsNumeral fraction)
    (haccepts : accepts .decimal = true) (hrest : endsToken rest = true) :
    match? accepts ((whole ++ '.' :: fraction) ++ rest)
      = some (.decimal, (whole ++ '.' :: fraction).length) := by
  have hnodigit : rest.head?.any Text.isDigit = false := by
    cases rest with
    | nil => rfl
    | cons c rest => simp_all [endsToken]
  have hpos := List.length_pos_iff.2 hfraction.1
  have hlength : decimalLength? (whole ++ '.' :: (fraction ++ rest))
      = some (whole ++ '.' :: fraction).length := by
    have htake : (whole ++ '.' :: (fraction ++ rest)).takeWhile Text.isDigit = whole :=
      Text.takeWhile_isDigit_append hwhole.2 rfl
    rw [decimalLength?, Text.dropWhile_isDigit_append hwhole.2 rfl]
    simp only [wholeLength, Text.takeWhile_isDigit_append hfraction.2 hnodigit, htake,
      if_neg hpos.ne', List.length_append, List.length_cons, Option.some.injEq]
    omega
  rw [List.append_assoc, List.cons_append]
  obtain ⟨c, cs, rfl⟩ := List.exists_cons_of_ne_nil hwhole.1
  rw [List.cons_append, match?, if_pos (hwhole.2 c (List.mem_cons_self ..)), ← List.cons_append,
    matchNumber?, hlength]
  simp only [haccepts, if_true]

theorem Tree.denotes_decimal {text : String} {x : Double} (hx : Double.readGrouped? text = some x)
    (start : Position) :
    (Tree.ofToken .decimalLiteral ⟨.decimal, text, start⟩).Denotes
      (.node (.literal (Value.ofDouble x))) := by
  refine ((Tree.denotes_leaf _).cons Tree.denoteAll_nil).branch fun names place => ?_
  rw [Rule.meaning, Rule.decimalMeaning, Part.text, hx]

theorem Reader.readsOperand_decimal {whole fraction : List Char} {x : Double}
    (hwhole : IsNumeral whole) (hfraction : IsNumeral fraction)
    (hx : Double.readGrouped? (String.ofList (whole ++ '.' :: fraction)) = some x) :
    ReadsOperand (whole ++ '.' :: fraction) (.literal (Value.ofDouble x)) := by
  intro least state frames rest hopens hends
  refine .lexeme (by simp) (Lexer.match?_decimal hwhole hfraction (hopens.accepts rfl) hends)
    fun start => ?_
  exact ⟨_, hopens.step rfl (by simp),
    .here ⟨_, Tree.denotes_decimal hx start, Holds.operator.completes⟩⟩

theorem Source.passes_decimal {whole fraction : List Char} (hwhole : IsNumeral whole)
    (hfraction : IsNumeral fraction) : Passes (whole ++ '.' :: fraction) := by
  refine passes_of_forall (by simp) (List.forall_mem_append.2
    ⟨isOrdinary_of_isNumeral hwhole, List.forall_mem_cons.2 ⟨by decide, ?_⟩⟩)
  exact isOrdinary_of_isNumeral hfraction

/-- A program that is a decimal is a statement with its literal. -/
theorem Program.parse_decimal {names : Text.Names} {whole fraction : List Char} {x : Double}
    (hwhole : IsNumeral whole) (hfraction : IsNumeral fraction)
    (hx : Double.readGrouped? (String.ofList (whole ++ '.' :: fraction)) = some x) :
    Program.parse names (String.ofList (whole ++ '.' :: fraction))
      = .ok [.expressionStatement (.literal (Value.ofDouble x))] := by
  have hpasses := Source.passes_decimal hwhole hfraction
  have hreads := (Reader.readsOperand_decimal hwhole hfraction hx).alone
  rw [← String.toList_ofList (l := whole ++ '.' :: fraction)] at hpasses hreads
  exact Program.parse_line hpasses (Reader.readsLine_literal hreads)

/-! ## Signs -/

namespace Floating

variable {f : Format}

/-- The number without its sign. -/
def size : Floating f → Floating f
  | .nan => .nan
  | .infinite _ => .infinite false
  | .finite _ significand exponent h => .finite false significand exponent h

theorem neg_neg (x : Floating f) : x.neg.neg = x := by
  cases x <;> simp [neg]

theorem ofParts_true (n : Nat) (e : Int) :
    (ofParts true n e : Floating f) = (ofParts false n e).neg := by
  unfold ofParts
  split <;> rfl

theorem ofRatio_true (num den : Nat) :
    (ofRatio true num den : Floating f) = (ofRatio false num den).neg := by
  unfold ofRatio
  split
  · exact ofParts_true ..
  dsimp only
  split <;> exact ofParts_true ..

theorem convert_neg {g : Format} (x : Floating f) :
    (x.neg.convert : Floating g) = x.convert.neg := by
  cases x with
  | nan => rfl
  | infinite negative => rfl
  | finite negative n e h =>
    cases negative with
    | false => exact ofRatio_true ..
    | true =>
      change ofRatio false _ _ = (ofRatio true _ _).neg
      rw [ofRatio_true, neg_neg]

end Floating

theorem Decimal.round_true {f : Format} (d : Decimal) :
    (d.round true : Floating f) = (d.round false).neg := by
  unfold round
  split
  · exact Floating.ofParts_true ..
  split
  · rfl
  · exact Floating.ofRatio_true ..

/-! ## Shown floats -/

namespace Decimal

theorem any_head_shown (d : Decimal) : d.shown.head?.any Text.isDigit = true := by
  rcases d.shown_cases with ⟨hnumeral, _⟩ | ⟨whole, fraction, hwhole, _, hshown, _⟩
  · obtain ⟨c, cs, heq⟩ := List.exists_cons_of_ne_nil hnumeral.1
    rw [heq]
    exact hnumeral.2 c (by simp [heq])
  · obtain ⟨c, cs, rfl⟩ := List.exists_cons_of_ne_nil hwhole.1
    rw [hshown]
    exact hwhole.2 c (List.mem_cons_self ..)

theorem isBlank_shown (d : Decimal) : ∀ c ∈ d.shown, Text.isBlank c = false := by
  rcases d.shown_cases with ⟨hnumeral, _⟩ | ⟨whole, fraction, hwhole, hfraction, hshown, _⟩
  · exact fun c hc => Text.isBlank_of_isDigit (hnumeral.2 c hc)
  · rw [hshown]
    exact isBlank_point hwhole hfraction

end Decimal

namespace Single

theorem reread_neg (x : Single) : reread x.neg = (reread x).neg := by
  by_cases helusive : x = elusive
  · rw [helusive]
    decide +kernel
  by_cases hneg : x = elusive.neg
  · rw [hneg]
    decide +kernel
  have helusive' : x.neg ≠ elusive := fun h => hneg (by rw [← h, Floating.neg_neg])
  have hneg' : x.neg ≠ elusive.neg := fun h =>
    helusive (by rw [← Floating.neg_neg x, h, Floating.neg_neg])
  simp only [reread, helusive, hneg, helusive', hneg', if_false]

/-- The decimal that a finite number is shown as, up to its sign. -/
def shownDecimal (n : Nat) (e : Int) (h : Format.single.Canonical n e) : Decimal :=
  if n = 0 then ⟨0, 0⟩ else (.finite false n e h : Single).shortest

theorem toList_display_finite (negative : Bool) {n : Nat} {e : Int}
    (h : Format.single.Canonical n e) :
    (Value.float (.finite negative n e h)).display.toList
      = (if negative then ['-'] else []) ++ (shownDecimal n e h).shown := by
  change ((if negative then "-" else "") ++ Value.shownFloat.decimal _).toList = _
  rw [String.toList_append]
  cases negative <;> rfl

theorem isBlank_display (x : Single) :
    ∀ c ∈ (Value.float x).display.toList, Text.isBlank c = false := by
  have hany {cs : List Char} (h : cs.any Text.isBlank = false) :
      ∀ c ∈ cs, Text.isBlank c = false :=
    fun c hc => eq_false_of_ne_true (List.any_eq_false.1 h c hc)
  cases x with
  | nan => exact hany (by decide)
  | infinite negative => cases negative <;> exact hany (by decide)
  | finite negative n e h =>
    rw [toList_display_finite]
    refine List.forall_mem_append.2 ⟨?_, Decimal.isBlank_shown _⟩
    cases negative <;> exact hany (by decide)

theorem convert_round_shownDecimal (negative : Bool) {n : Nat} {e : Int}
    (h : Format.single.Canonical n e) :
    (((shownDecimal n e h).round negative : Double).convert : Single)
      = reread (.finite negative n e h) := by
  by_cases hn : n = 0
  · subst hn
    have hzero : (.finite negative 0 e h : Single) = Floating.zero negative := by
      obtain rfl : e = Format.single.minExponent := h.2.2.2.resolve_left (by decide)
      exact (Floating.ofParts_of_canonical h negative).symm
    have hread : ∀ negative, (((⟨0, 0⟩ : Decimal).round negative : Double).convert : Single)
        = reread (Floating.zero negative) := by decide +kernel
    rw [hzero, shownDecimal, if_pos rfl, hread]
  · rw [shownDecimal, if_neg hn]
    cases negative with
    | false => exact convert_round_shortest h hn
    | true =>
      rw [Decimal.round_true, Floating.convert_neg, convert_round_shortest h hn, ← reread_neg]
      rfl

/-- The shown text is read as a double whose nearest single is the float, or the one next to the
elusive single. -/
theorem exists_read?_display (x : Single) :
    ∃ y : Double, Double.read? (Value.float x).display = some y ∧
      (y.convert : Single) = x.reread := by
  cases x with
  | nan => exact ⟨.nan, by decide +kernel, rfl⟩
  | infinite negative =>
    refine ⟨.infinite negative, ?_, rfl⟩
    cases negative <;> decide +kernel
  | finite negative n e h =>
    obtain ⟨d, hread, hround⟩ := Decimal.exists_read?_shown (shownDecimal n e h)
    refine ⟨(shownDecimal n e h).round negative, ?_, convert_round_shownDecimal negative h⟩
    rw [Double.read?_signed negative (toList_display_finite negative h) (Decimal.any_head_shown _)
      (Decimal.isBlank_shown _), hread, Option.map_some, hround]

/-- The value that a line with the shown text is read as. -/
theorem read_display (x : Single) :
    InputKind.number.read (Value.float x).display.toList = .ok (.float x.reread) := by
  obtain ⟨y, hread, hconvert⟩ := exists_read?_display x
  rw [InputKind.read, Text.trim_of_forall (isBlank_display x), String.ofList_toList, hread]
  simp only [Value.ofDouble, hconvert]

/-- A shown text with a point, without its sign, is a program: the literal of what the text is read
as. -/
theorem parse_display_size {names : Text.Names} {x : Single}
    (h : '.' ∈ (Value.float x).display.toList) :
    Program.parse names (Value.float x.size).display
      = .ok [.expressionStatement (.literal (.float (reread x.size)))] := by
  cases x with
  | nan => exact absurd h (by decide)
  | infinite negative => cases negative <;> exact absurd h (by decide)
  | finite negative n e hcanonical =>
    have hpoint : '.' ∈ (shownDecimal n e hcanonical).shown := by
      rw [toList_display_finite, List.mem_append] at h
      refine h.resolve_left ?_
      cases negative <;> decide
    rcases (shownDecimal n e hcanonical).shown_cases with ⟨hnumeral, _⟩ |
      ⟨whole, fraction, hwhole, hfraction, hshown, hexponent, hvalue⟩
    · exact absurd (hnumeral.2 '.' hpoint) (by decide)
    · have htext : (Value.float (.finite false n e hcanonical)).display
          = String.ofList (whole ++ '.' :: fraction) := by
        rw [← String.toList_inj, toList_display_finite, hshown, String.toList_ofList]
        rfl
      have hread : Double.readGrouped? (String.ofList (whole ++ '.' :: fraction))
          = some ((shownDecimal n e hcanonical).round false) := by
        rw [Double.readGrouped?_decimal String.toList_ofList hwhole hfraction, hvalue, ← hexponent]
      change Program.parse names (Value.float (.finite false n e hcanonical)).display = _
      rw [htext, Program.parse_decimal hwhole hfraction hread, Value.ofDouble,
        convert_round_shownDecimal]
      rfl

/-- Only the elusive single and its negative are not read back. -/
theorem reread_eq_iff (x : Single) : x.reread = x ↔ x.size ≠ elusive := by
  constructor
  · intro hreread hsize
    have helusive : x = elusive ∨ x = elusive.neg := by
      cases x with
      | nan => cases hsize
      | infinite negative => cases hsize
      | finite negative n e h =>
        cases negative with
        | false => exact .inl hsize
        | true => exact .inr (congrArg Floating.neg hsize)
    rcases helusive with rfl | rfl
    · exact absurd hreread (by decide +kernel)
    · exact absurd hreread (by decide +kernel)
  · intro hsize
    have helusive : x ≠ elusive := by
      rintro rfl
      exact hsize rfl
    have hneg : x ≠ elusive.neg := by
      rintro rfl
      exact hsize rfl
    rw [reread, if_neg helusive, if_neg hneg]

/-- A finite number other than zero is shown as the shortest decimal that is rounded to it. -/
theorem exists_shown_shortest (negative : Bool) {n : Nat} {e : Int}
    (h : Format.single.Canonical n e) (hn : n ≠ 0) :
    ∃ d : Decimal, (Value.float (.finite false n e h)).display = Value.shownFloat.decimal d ∧
      (d.round negative : Single) = .finite negative n e h ∧
      ∀ d' : Decimal, (d'.round negative : Single) = .finite negative n e h →
        Text.digitCount d.coefficient ≤ Text.digitCount d'.coefficient := by
  refine ⟨(.finite false n e h : Single).shortest, ?_, ?_, fun d' hround => ?_⟩
  · change "" ++ Value.shownFloat.decimal (if n = 0 then _ else _) = _
    rw [if_neg hn, String.empty_append]
  · cases negative with
    | false => exact round_shortest h hn
    | true => rw [Decimal.round_true, round_shortest h hn]; rfl
  · cases negative with
    | false => exact digitCount_shortest_le h hn hround
    | true =>
      rw [Decimal.round_true] at hround
      refine digitCount_shortest_le h hn ?_
      rw [← Floating.neg_neg (d'.round false), hround]
      rfl

/-- **Shown floats are read back, all but one.** If the next line of the input is the text that a
float is shown as, the number read from it is the float; and if that text has a point, then without
its sign it is the literal of the float without its sign. The exception is the elusive single, with
either sign: it is read as the single next to it. The text of a finite number is nevertheless the
shortest decimal that is rounded to the number, the elusive one included; what goes wrong is that
reading rounds to a double first. -/
theorem display_reread (names : Text.Names) (x : Single) :
    (∀ (m : Machine) (text : List Char), m.input = some text →
      text.takeWhile (· ≠ '\n') = (Value.float x).display.toList →
        Exec.readInput .number m = (.ok (.float x.reread),
          { m with input := some (text.drop ((Value.float x).display.length + 1)) })) ∧
      ('.' ∈ (Value.float x).display.toList →
        Program.parse names (Value.float x.size).display
          = .ok [.expressionStatement (.literal (.float (reread x.size)))]) ∧
      (x.reread = x ↔ x.size ≠ elusive) ∧
      ∀ negative n e h, x = .finite negative n e h → n ≠ 0 →
        ∃ d : Decimal, (Value.float x.size).display = Value.shownFloat.decimal d ∧
          (d.round negative : Single) = x ∧
          ∀ d' : Decimal, (d'.round negative : Single) = x →
            Text.digitCount d.coefficient ≤ Text.digitCount d'.coefficient := by
  refine ⟨?_, parse_display_size, reread_eq_iff x, ?_⟩
  · intro m text hinput hline
    rw [Exec.readInput_apply, hinput]
    dsimp only
    rw [hline, read_display, String.length_toList]
  · rintro negative n e h rfl hn
    exact exists_shown_shortest negative h hn

/-- The elusive single, from a line of the input and as a literal. Rounded at once, its text is the
single. -/
theorem display_reread_elusive :
    let text := "0.00000000000000000000000007038531"
    let m : Machine := { Machine.new {} with input := some (text.toList ++ ['\n', '1']) }
    (Value.float elusive).display = text ∧ elusive.reread = elusiveNext ∧ elusiveNext ≠ elusive ∧
      Exec.readInput .number m = (.ok (.float elusiveNext), { m with input := some ['1'] }) ∧
      Program.parse Text.unnamed text = .ok [.expressionStatement (.literal (.float elusiveNext))] ∧
      ∃ d : Decimal, text = Value.shownFloat.decimal d ∧ (d.round false : Single) = elusive := by
  intro text m
  have hdisplay : (Value.float elusive).display = text := by decide +kernel
  have hreread : elusive.reread = elusiveNext := by decide +kernel
  obtain ⟨hline, hliteral, _, hshortest⟩ := display_reread Text.unnamed elusive
  rw [hdisplay, hreread] at hline
  rw [hdisplay] at hliteral
  refine ⟨hdisplay, hreread, by decide, ?_, ?_, ?_⟩
  · have hrest : (text.toList ++ ['\n', '1']).drop (text.length + 1) = ['1'] := by decide +kernel
    have hread := hline m _ rfl (by decide +kernel)
    rwa [hrest] at hread
  · have hparse := hliteral (by decide +kernel)
    rw [show elusive.size = elusive from rfl, hdisplay, hreread] at hparse
    exact hparse
  · obtain ⟨d, hd, hround, _⟩ := hshortest false 11420669 (-107) (by decide) rfl (by decide)
    exact ⟨d, hdisplay.symm.trans hd, hround⟩

end Single

end ScriptLang
