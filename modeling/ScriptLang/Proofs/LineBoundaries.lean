import ScriptLang.Proofs.Scanning

set_option autoImplicit false

/-! # Line boundaries

Two texts with a line feed between them get their statement ends as each of them gets them alone,
whatever the second text is, exactly if the scan of the first one ends at rest: outside brackets,
text literals and block comments (`Source.atRest_iff_terminate_apart`). At rest, a line feed calls
for the same semicolon as the end of the text, and the scan goes on as it starts, though it looks
back at what the first text has left (`Scan.AtRest.restarts`). In every other case there is a second
text that tells the difference (`Scan.Restarts.atRest`). -/

namespace ScriptLang.Source

/-- Whether the scan is inside of nothing that goes on after a line feed. A comment up to the end of
the line does not. -/
structure Scan.AtRest (scan : Scan) : Prop where
  depth : scan.depth = 0
  literal? : scan.mode.literal? = none
  blockComment : scan.mode ≠ .blockComment

instance (scan : Scan) : Decidable scan.AtRest :=
  decidable_of_iff (scan.depth = 0 ∧ scan.mode.literal? = none ∧ scan.mode ≠ .blockComment)
    ⟨fun ⟨hdepth, hliteral, hblock⟩ => ⟨hdepth, hliteral, hblock⟩,
      fun h => ⟨h.depth, h.literal?, h.blockComment⟩⟩

/-- Whether the scan writes a line feed and what follows as if one text ended before it and another
one started after it. -/
def Scan.Restarts (scan : Scan) : Prop :=
  ∀ rest, terminateFrom scan ('\n' :: rest) = scan.terminator ++ '\n' :: terminateFrom {} rest

variable {scan : Scan}

/-! ## At a line feed -/

/-- A line feed in code, or at the end of a comment that it ends. -/
theorem terminateFrom_feed (hliteral : scan.mode.literal? = none)
    (hblock : scan.mode ≠ .blockComment) (rest : List Char) :
    terminateFrom scan ('\n' :: rest)
      = scan.lineTerminator ++ '\n' :: terminateFrom (scan.within .code).lineTerminated rest := by
  cases hmode : scan.mode with
  | text escaped =>
    rw [hmode] at hliteral
    cases hliteral
  | blockComment => exact absurd hmode hblock
  | lineComment => rw [terminateFrom_endsLine hmode, List.append_assoc, List.singleton_append]
  | code =>
    have hstep : codeStep scan '\n' = (scan.lineTerminator ++ ['\n'], scan.lineTerminated) := by
      simp [codeStep]
    have hwithin : scan.within .code = scan := by
      rw [Scan.within, ← hmode]
    rw [terminateFrom_code hmode (by decide) (by decide), hstep, hwithin, List.append_assoc,
      List.singleton_append]

/-- A line feed inside brackets ends no statement. -/
theorem terminateFrom_feed_inner (hliteral : scan.mode.literal? = none)
    (hblock : scan.mode ≠ .blockComment) (hdepth : scan.depth ≠ 0) (rest : List Char) :
    terminateFrom scan ('\n' :: rest) = '\n' :: terminateFrom (scan.within .code) rest := by
  have hnone : scan.lineTerminator = [] := if_neg hdepth
  have hsame : (scan.within .code).lineTerminated = scan.within .code := if_neg hdepth
  rw [terminateFrom_feed hliteral hblock, hnone, hsame, List.nil_append]

/-- No statement is open after a line feed outside brackets, so the scan is as at the start but for
the last character, which it will not use. -/
theorem Scan.agrees_lineTerminated (hmode : scan.mode = .code) (hdepth : scan.depth = 0) :
    scan.lineTerminated.Agrees {} := by
  unfold Scan.lineTerminated Scan.terminated
  rw [if_pos hdepth]
  split
  · exact ⟨hmode, hdepth, rfl⟩
  · next hopen => exact ⟨hmode, hdepth, (Bool.not_eq_true _).mp hopen⟩

theorem Scan.AtRest.restarts (h : scan.AtRest) : scan.Restarts := by
  intro rest
  have hends : scan.lineTerminator = scan.terminator := if_pos h.depth
  have hstart : (scan.within .code).lineTerminated.Agrees {} :=
    Scan.agrees_lineTerminated rfl h.depth
  rw [terminateFrom_feed h.literal? h.blockComment, hends, terminateFrom_congr hstart]

/-! ## Texts that tell the difference -/

namespace Scan.Restarts

variable (h : scan.Restarts)
include h

/-- A hash starts a comment at the start of a text, but is copied inside a literal. -/
theorem literal?_eq_none : scan.mode.literal? = none := by
  cases hmode : scan.mode with
  | code | lineComment | blockComment => rfl
  | text escaped =>
    have hfeed : textMode escaped '\n' = .text false := by
      cases escaped <;> rfl
    have hhash := h ['#']
    rw [terminateFrom_text hmode, hfeed, terminateFrom_text rfl,
      show terminateFrom {} ['#'] = [] from rfl] at hhash
    have hmem : '#' ∈ scan.terminator ++ ['\n'] := by
      rw [← hhash]
      simp
    rcases List.mem_append.1 hmem with hmem | hmem
    · exact absurd (eq_of_mem_terminator hmem) (by decide)
    · exact absurd (List.mem_singleton.1 hmem) (by decide)

/-- A letter is copied at the start of a text, but not inside a block comment. -/
theorem mode_ne_blockComment : scan.mode ≠ .blockComment := by
  intro hmode
  have hmode' : scan.lineTerminated.mode = .blockComment := (mode_lineTerminated scan).trans hmode
  have hletter := h ['x']
  rw [terminateFrom_lineInBlock hmode, terminateFrom_blockComment hmode' (by decide) (by simp),
    show terminateFrom {} ['x'] = ['x', ';'] from rfl] at hletter
  have hmem : 'x' ∈ (scan.lineTerminator ++ ['\n']) ++ scan.lineTerminated.terminator := by
    refine hletter ▸ ?_
    simp
  simp only [List.mem_append, List.mem_singleton] at hmem
  rcases hmem with (hmem | hmem) | hmem
  · exact absurd (eq_of_mem_lineTerminator hmem) (by decide)
  · exact absurd hmem (by decide)
  · exact absurd (eq_of_mem_terminator hmem) (by decide)

/-- The first of two lines gets a semicolon at the start of a text, but not inside brackets. -/
theorem depth_eq_zero : scan.depth = 0 := by
  by_cases hdepth : scan.depth = 0
  · exact hdepth
  have hletter : Passes ['x'] := passes_ordinary (by decide)
  obtain ⟨scan₁, hturns₁, hmode₁, hdepth₁, -⟩ := hletter (scan.within .code) rfl
  obtain ⟨scan₂, hturns₂, -, -, hopen⟩ := hletter (scan₁.within .code) rfl
  have hsecond : terminateFrom (scan₁.within .code) ['x'] = ['x', ';'] := by
    have hall := hturns₂ []
    rwa [terminateFrom_nil_of_isOpen hopen] at hall
  have hinner : scan₁.depth ≠ 0 := by
    rw [hdepth₁]
    exact hdepth
  have hlines := h ['x', '\n', 'x']
  rw [terminateFrom_feed_inner h.literal?_eq_none h.mode_ne_blockComment hdepth,
    show ['x', '\n', 'x'] = ['x'] ++ ['\n', 'x'] from rfl, hturns₁,
    terminateFrom_feed_inner (by rw [hmode₁]; rfl) (by rw [hmode₁]; decide) hinner, hsecond,
    show terminateFrom {} (['x'] ++ ['\n', 'x']) = ['x', ';', '\n', 'x', ';'] from rfl] at hlines
  have hlength := congrArg List.length hlines
  simp only [List.length_append, List.length_cons, List.length_nil] at hlength
  omega

theorem atRest : scan.AtRest :=
  ⟨h.depth_eq_zero, h.literal?_eq_none, h.mode_ne_blockComment⟩

end Scan.Restarts

/-! ## Two texts -/

/-- Up to the end of the first text, the scan of both texts writes what it writes for the first. -/
theorem terminate_lineFeed_iff {first second : String} :
    terminate (first ++ "\n" ++ second) = terminate first ++ "\n" ++ terminate second ↔
      terminateFrom (scanFrom {} first.toList) ('\n' :: second.toList)
        = (scanFrom {} first.toList).terminator ++ '\n' :: terminateFrom {} second.toList := by
  obtain ⟨out, h⟩ := writes_scanFrom {} first.toList
  rw [← String.toList_inj]
  simp [terminate, h.goesOn, h.ends]

/-- **Line boundaries.** If the scan of a text ends outside brackets, literals and block comments,
then the statements of that text and of any second one behind a line feed are ended apart; and only
then. -/
theorem atRest_iff_terminate_apart (first : String) :
    (scanFrom {} first.toList).AtRest ↔
      ∀ second, terminate (first ++ "\n" ++ second)
        = terminate first ++ "\n" ++ terminate second := by
  constructor
  · intro h second
    exact terminate_lineFeed_iff.2 (h.restarts second.toList)
  · intro h
    refine Scan.Restarts.atRest fun rest => ?_
    have hrest := terminate_lineFeed_iff.1 (h (String.ofList rest))
    rwa [String.toList_ofList] at hrest

-- a bracket and a quote in a comment are not open, and a line end in brackets is not a boundary
example : (scanFrom {} "print f(1) // (\"".toList).AtRest := by decide
example : ¬ (scanFrom {} "print f(1,".toList).AtRest := by decide

end ScriptLang.Source
