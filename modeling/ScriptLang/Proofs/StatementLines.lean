import ScriptLang.Proofs.RoundTrip

set_option autoImplicit false

/-! # One statement a line

A text with one statement on each line, and no more than that, is parsed as these statements
(`Program.parse_lines`). The last line needs no end: the end of the text ends its statement as well.
So a definition of a name by a literal is a program. Every text is the value of a literal
(`Program.parse_escaped`), and every integer is the value of the text that it is shown as, except
for the least one (`Program.parse_shown`). -/

namespace ScriptLang

/-- Statements on lines of their own, with `stop` after each. -/
def onLines (stop : List Char) : List (List Char) → List Char
  | [] => []
  | [line] => line ++ stop
  | line :: lines => line ++ stop ++ '\n' :: onLines stop lines

theorem onLines_cons {lines : List (List Char)} (hne : lines ≠ []) (stop line : List Char) :
    onLines stop (line :: lines) = line ++ stop ++ '\n' :: onLines stop lines := by
  cases lines with
  | nil => exact absurd rfl hne
  | cons next lines => rfl

/-! ## The ends of lines -/

namespace Source

theorem passes_definition {name : String} {code : List Char} (hname : isName name = true)
    (h : Passes code) : Passes (name.toList ++ " := ".toList ++ code) := by
  have hsign : Passes ":=".toList := passes_of_forall (by decide) (List.all_eq_true.1 (by decide))
  simpa using (passes_name hname).append
    (passes_space_cons (hsign.append (passes_space_cons h)))

theorem passes_returning {code : List Char} (h : Passes code) :
    Passes ("return ".toList ++ code) := by
  have hword : Passes "return".toList :=
    passes_of_forall (by decide) (List.all_eq_true.1 (by decide))
  simpa using hword.append (passes_space_cons h)

/-- The scan ends the statement on every line but the last, which stays open. -/
theorem exists_turns_onLines {lines : List (List Char)} (hne : lines ≠ [])
    (h : ∀ line ∈ lines, Passes line) {scan : Scan} (hmode : scan.mode = .code)
    (hdepth : scan.depth = 0) :
    ∃ out scan', Turns scan (onLines [] lines) out scan' ∧ scan'.isOpen = true ∧
      out ++ [';'] = onLines [';'] lines := by
  induction lines generalizing scan with
  | nil => exact absurd rfl hne
  | cons line lines ih =>
    obtain ⟨hline, hlines⟩ := List.forall_mem_cons.1 h
    by_cases hlast : lines = []
    · obtain ⟨scan', hturns, -, -, hopen⟩ := hline scan hmode
      rw [hlast, onLines, List.append_nil]
      exact ⟨line, scan', hturns, hopen, rfl⟩
    · obtain ⟨scan', hturns, hclosed⟩ := closes_line hline {} 0 scan hmode hdepth
      obtain ⟨out, scan'', hturns', hopen, hout⟩ := ih hlast hlines hclosed.mode hclosed.depth
      refine ⟨line ++ [';', '\n'] ++ out, scan'', ?_, hopen, ?_⟩
      · have hboth := hturns.append hturns'
        simpa [onLines_cons hlast, Layout.indent] using hboth
      · simp [onLines_cons hlast, ← hout]

/-- The end of every line, and of the text, ends the statement on it. -/
theorem terminate_onLines {lines : List (List Char)} (hne : lines ≠ [])
    (h : ∀ line ∈ lines, Passes line) :
    terminate (String.ofList (onLines [] lines)) = String.ofList (onLines [';'] lines) := by
  obtain ⟨out, scan, hturns, hopen, hout⟩ := @exists_turns_onLines lines hne h {} rfl rfl
  have hall := hturns []
  rw [List.append_nil, terminateFrom_nil_of_isOpen hopen, hout] at hall
  rw [terminate, String.toList_ofList, hall]

end Source

/-! ## Reading lines -/

namespace Reader

/-- Whether a text with a semicolon behind it is read as a statement, wherever one may stand. -/
def ReadsLine (line : List Char) (s : Node) : Prop :=
  ∀ ⦃state : State⦄ ⦃body : List Tree → Frame⦄ ⦃trees : List Tree⦄ ⦃frames : List Frame⦄
    ⦃rest : List Char⦄, IsBody body → Begins state (body trees :: frames) →
    Leads (Adds s body trees frames) rest state (line ++ ';' :: rest)

variable {code : List Char} {e : Node}

theorem readsLine_definition {name : String} (hname : isName name = true)
    (he : e.isExpression = true) (hcode : ReadsAlone code e) :
    ReadsLine (name.toList ++ " := ".toList ++ code) (.definition name e) := by
  intro state body trees frames rest hbody hbegins
  simpa [Symbol.text] using leads_definition hname he hcode hbody hbegins

theorem readsLine_returning (he : e.isExpression = true) (hcode : ReadsAlone code e) :
    ReadsLine ("return ".toList ++ code) (.returning e) := by
  intro state body trees frames rest hbody hbegins
  simpa [Keyword.text] using leads_returning he hcode hbody hbegins

theorem readsLine_literal {value : Value} (hcode : ReadsAlone code (.literal value)) :
    ReadsLine code (.expressionStatement (.literal value)) :=
  fun _ _ _ _ _ hbody hbegins => leads_expression hcode (fun _ _ => rfl) hbody hbegins

variable {state : State} {body : List Tree → Frame} {trees : List Tree} {frames : List Frame}

theorem reads_onLines {statements : List (List Char × Node)}
    (h : ∀ s ∈ statements, ReadsLine s.1 s.2) (hbody : IsBody body)
    (hbegins : Begins state (body trees :: frames)) :
    Leads (fun state' => ∃ all, Tree.DenoteAll all ((statements.map Prod.snd).map .node) ∧
        Begins state' (body (all.reverse ++ trees) :: frames))
      [] state (onLines [';'] (statements.map Prod.fst)) := by
  induction statements generalizing state trees with
  | nil => exact .here ⟨[], Tree.denoteAll_nil, hbegins⟩
  | cons s statements ih =>
    obtain ⟨hs, hstatements⟩ := List.forall_mem_cons.1 h
    simp only [List.map_cons]
    by_cases hlast : statements = []
    · subst hlast
      refine (hs hbody hbegins).trans ?_
      rintro state' ⟨tree, hdenotes, hbegins'⟩
      exact .here ⟨[tree], hdenotes.cons Tree.denoteAll_nil, hbegins'⟩
    · rw [onLines_cons (by simpa using hlast), List.append_assoc]
      refine (hs hbody hbegins).lineEnd.trans ?_
      rintro state' ⟨tree, hdenotes, hbegins'⟩
      refine (ih hstatements hbegins').trans ?_
      rintro state'' ⟨all, hall, hbegins''⟩
      refine .here ⟨tree :: all, hdenotes.cons hall, ?_⟩
      simpa using hbegins''

end Reader

namespace Program

open Reader

variable {names : Text.Names}

/-- A text with one statement on each line is parsed as these statements. -/
theorem parse_lines {source : String} {statements : List (List Char × Node)}
    (hsource : source.toList = onLines [] (statements.map Prod.fst)) (hne : statements ≠ [])
    (hpasses : ∀ s ∈ statements, Source.Passes s.1)
    (hreads : ∀ s ∈ statements, ReadsLine s.1 s.2) :
    parse names source = .ok (statements.map Prod.snd) := by
  have htext : Source.terminate source
      = String.ofList (onLines [';'] (statements.map Prod.fst)) := by
    rw [← String.ofList_toList (s := source), hsource]
    exact Source.terminate_onLines (by simpa using hne) (by simpa using hpasses)
  obtain ⟨tree, hread, hdenotes⟩ := Tree.read_of_leads
    (reads_onLines hreads .program (IsBody.program.begins false [] []))
  exact parse_of_meaning htext hread (hdenotes _ _)

/-- A statement that is all of a text. -/
theorem parse_line {source : String} {s : Node} (hpasses : Source.Passes source.toList)
    (hreads : ReadsLine source.toList s) : parse names source = .ok [s] := by
  have hlines : source.toList = onLines [] ([(source.toList, s)].map Prod.fst) := by
    simp [onLines]
  exact parse_lines hlines (by simp) (List.forall_mem_singleton.2 hpasses)
    (List.forall_mem_singleton.2 hreads)

/-- A definition that is all of a text. -/
theorem parse_definition {source name : String} {code : List Char} {e : Node}
    (hsource : source.toList = name.toList ++ " := ".toList ++ code) (hname : isName name = true)
    (he : e.isExpression = true) (hpasses : Source.Passes code) (hcode : ReadsAlone code e) :
    parse names source = .ok [.definition name e] := by
  have hline := Source.passes_definition hname hpasses
  rw [← hsource] at hline
  exact parse_line hline (hsource ▸ readsLine_definition hname he hcode)

/-! ## Definitions by literals -/

theorem parse_definition_literal {source : String} {value : Value} (h : value.isWritable = true)
    (hsource : source.toList = "x := ".toList ++ value.write) :
    parse names source = .ok [.definition "x" (.literal value)] :=
  parse_definition (by simpa using hsource) (by decide) rfl (Source.passes_literal h)
    (readsOperand_literal h).alone

end Program

/-- The text between the quotes of a literal. -/
def Text.escaped (text : String) : String :=
  String.ofList (text.toList.flatMap Text.escape)

/-- **Every text has a literal.** The text is written between quotes, with a backslash, a quote, a
line feed, a carriage return and a null character escaped and all other characters as they are. -/
theorem Program.parse_escaped (names : Text.Names) (text : String) :
    Program.parse names ("x := \"" ++ Text.escaped text ++ "\"")
      = .ok [.definition "x" (.literal (.string text))] := by
  apply parse_definition_literal rfl
  simp [Value.write, Text.escaped]

/-- An integer is shown as it is written in programs. -/
theorem Value.toList_display_integer (n : Int32) :
    (Value.integer n).display.toList = (Value.integer n).write := by
  rw [display, write, Int.toString_eq_repr, Int.repr_eq_if]
  by_cases hneg : n.toInt < 0
  · have hsize : (-n.toInt).toNat = n.toInt.natAbs := by omega
    rw [if_neg (by omega), if_pos hneg, hsize]
    simp [Nat.repr_eq_ofList_toDigits]
  · have hsize : n.toInt.toNat = n.toInt.natAbs := by omega
    rw [if_pos (by omega), if_neg hneg, hsize]
    simp [Nat.repr_eq_ofList_toDigits]

/-- The least integer is written as a sign before a number that is no integer. -/
theorem Program.parse_least (names : Text.Names) :
    Program.parse names "x := -2147483648"
      = .error (.script (.unreadableNumber "2147483648" .integer)) := by
  have htext : Source.terminate "x := -2147483648" = "x := -2147483648;" := by decide +kernel
  have hread : Tree.read (Source.terminate "x := -2147483648")
      = .ok (.branch .program (some ⟨0, 17⟩)
        [.branch .definition (some ⟨0, 17⟩)
          [.leaf "x", .branch .negation (some ⟨5, 16⟩)
            [.branch .wholeLiteral (some ⟨6, 16⟩) [.leaf "2147483648"]]]]) := by
    rw [htext]
    rfl
  exact Program.parse_of_meaning_error hread rfl

/-- **Every integer but the least is the value of the text that it is shown as.** The text of the
least one is refused, because the number after its sign is too large for an integer. -/
theorem Program.parse_shown (names : Text.Names) (n : Int32) :
    Program.parse names ("x := " ++ (Value.integer n).display)
      = if n = Int32.minValue then .error (.script (.unreadableNumber "2147483648" .integer))
        else .ok [.definition "x" (.literal (.integer n))] := by
  by_cases hleast : n = Int32.minValue
  · rw [if_pos hleast, hleast]
    exact parse_least names
  · have hlow : -2147483647 ≤ n.toInt := by
      have hmin := n.le_toInt
      have hne : n.toInt ≠ Int32.minValue.toInt := fun heq => hleast (Int32.toInt_inj.1 heq)
      have hvalue : Int32.minValue.toInt = -2147483648 := rfl
      omega
    have hwritable : (Value.integer n).isWritable = true := decide_eq_true hlow
    rw [if_neg hleast]
    apply parse_definition_literal hwritable
    rw [String.toList_append, Value.toList_display_integer]

/-- The least integer is not the value of the text that it is shown as. -/
theorem Program.parse_shown_least :
    Program.parse Text.unnamed ("x := " ++ (Value.integer Int32.minValue).display)
      ≠ .ok [.definition "x" (.literal (.integer Int32.minValue))] := by
  have hshown : "x := " ++ (Value.integer Int32.minValue).display = "x := -2147483648" := rfl
  rw [hshown, parse_least]
  intro h
  cases h

end ScriptLang
