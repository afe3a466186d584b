import ScriptLang.Proofs.Command
import ScriptLang.Proofs.Meaning
import ScriptLang.Proofs.RoundTrip

set_option autoImplicit false

/-! # Program texts that are refused

A program text that cannot be parsed is refused with an error of the script, with one exception: a
whole number can have too many digits to be read at all, and then reading the program breaks off. So
a text that the grammar derives is a program exactly if all its tokens are sound, and reading breaks
off if the only tokens that are not sound are such numbers (`Program.parse_refuses`). -/

namespace ScriptLang

/-! ## Sound tokens -/

namespace Token

/-- Whether the token is a whole number with more digits than can be read. -/
def isOverlong (t : Token) : Bool :=
  t.terminal = .whole && Integer.maxDigits < t.text.length

/-- Whether the token can be given a meaning. Of tokens that the grammar has a place for, only text
literals, comparison signs and whole numbers may have none. -/
def isSound (names : Text.Names) (t : Token) : Bool :=
  match t.terminal with
  | .text => (Text.decodeLiteral? names t.text).isSome
  | .comparison => t.text ≠ "<>"
  | .whole => t.text.length ≤ Integer.maxDigits && numeral t.text.toList ≤ 2147483647
  | _ => true

theorem isSound_of_isOverlong (names : Text.Names) {t : Token} (h : t.isOverlong = true) :
    t.isSound names = false := by
  simp only [isOverlong, Bool.and_eq_true, decide_eq_true_eq] at h
  simp only [isSound, h.1]
  simp [Nat.not_le.2 h.2]

end Token

namespace Grammar

open Form

/-- Whether tokens of the terminal may be unsound. -/
def needsCheck : Terminal → Bool
  | .whole | .text | .comparison => true
  | _ => false

theorem isSound_of_needsCheck (names : Text.Names) {t : Token} (h : needsCheck t.terminal = false) :
    t.isSound names = true := by
  unfold Token.isSound
  split
  · next ht => simp [needsCheck, ht] at h
  · next ht => simp [needsCheck, ht] at h
  · next ht => simp [needsCheck, ht] at h
  · rfl

/-- Whether the rule takes a single token of the terminal, and has a meaning only if it is sound. -/
def checks (rule : Rule) (terminal : Terminal) : Bool :=
  (rule = .wholeLiteral && terminal = .whole) || (rule = .textLiteral && terminal = .text)

/-- Whether every token of a form that may be unsound is checked where it stands. -/
def Form.isChecked : Form → Bool
  | token terminal => !needsCheck terminal
  | phrase _ | empty => true
  | seq f g | either f g => f.isChecked && g.isChecked
  | many f => f.isChecked
  | branch rule (token terminal) => !needsCheck terminal || checks rule terminal
  | branch _ f => f.isChecked

theorem isChecked_branch {rule : Rule} {f : Form} (h : (branch rule f).isChecked = true) :
    f.isChecked = true ∨ ∃ terminal, f = token terminal ∧ checks rule terminal = true := by
  cases f with
  | token terminal =>
    simp only [isChecked, Bool.or_eq_true] at h ⊢
    exact h.imp_right fun hchecks => ⟨terminal, rfl, hchecks⟩
  | _ => exact Or.inl h

/-- How many trees a form leaves, if that is the same each time. -/
def Form.trees? : Form → Option Nat
  | token terminal => some (if terminal.isKept then 1 else 0)
  | phrase _ | branch _ _ => some 1
  | empty => some 0
  | seq f g => do return (← f.trees?) + (← g.trees?)
  | either f g => if f.trees? = g.trees? then f.trees? else none
  | many _ => none

/-- Whether a phrase leaves one tree, which has a meaning only if the tokens are sound. -/
def Vouches (names : Text.Names) (_ : Phrase) (ts : List Token) (trees : List Tree) : Prop :=
  trees.length = 1 ∧ ((∀ t ∈ ts, t.IsProper) → ∀ source parts,
    Tree.meanings names source trees = .ok parts → ∀ t ∈ ts, t.isSound names = true)

variable {names : Text.Names} {f : Form} {ts : List Token} {trees : List Tree}

theorem length_of_yields {n : Nat} (h : f.Yields (Vouches names) ts trees)
    (hn : f.trees? = some n) : trees.length = n := by
  induction f generalizing ts trees n with
  | token terminal =>
    obtain ⟨t, rfl, rfl, rfl⟩ := h
    simp only [trees?, Option.some.injEq] at hn
    rw [← hn, Token.leaves]
    split <;> rfl
  | phrase p =>
    cases hn
    exact h.1
  | empty =>
    cases hn
    exact congrArg List.length h.2
  | seq f g ihf ihg =>
    obtain ⟨_, _, _, _, hf, hg, rfl, rfl⟩ := h
    simp only [trees?, Option.bind_eq_bind, Option.bind_eq_some_iff, Option.pure_def] at hn
    obtain ⟨nf, hnf, ng, hng, heq⟩ := hn
    cases heq
    rw [List.length_append, ihf hf hnf, ihg hg hng]
  | either f g ihf ihg =>
    simp only [trees?] at hn
    split at hn
    · next hsame => exact h.elim (fun h => ihf h hn) fun h => ihg h (hsame ▸ hn)
    · cases hn
  | many f => cases hn
  | branch rule f =>
    obtain ⟨_, _, rfl, _⟩ := h
    cases hn
    rfl

/-- Trees side by side have a meaning if each has one. -/
theorem meanings_append_ok {source : List Char} {trees trees' : List Tree} {parts : List Part}
    (h : Tree.meanings names source (trees ++ trees') = .ok parts) :
    ∃ left right, Tree.meanings names source trees = .ok left ∧
      Tree.meanings names source trees' = .ok right ∧ parts = left ++ right := by
  rw [Tree.meanings_append] at h
  obtain ⟨left, hleft, h⟩ := exists_of_bind_eq_ok h
  obtain ⟨right, hright, h⟩ := exists_of_bind_eq_ok h
  cases h
  exact ⟨left, right, hleft, hright, rfl⟩

/-- A branch has a meaning if its parts have, and its rule then has one for them. -/
theorem meanings_branch_ok {source : List Char} {rule : Rule} {span : Option Span}
    {children : List Tree} {parts : List Part}
    (h : Tree.meanings names source [.branch rule span children] = .ok parts) :
    ∃ inner part, Tree.meanings names source children = .ok inner ∧
      rule.meaning names ⟨source, span⟩ inner = .ok part := by
  rw [Tree.meanings, Tree.meaning] at h
  obtain ⟨part, hpart, _⟩ := exists_of_bind_eq_ok h
  obtain ⟨inner, hinner, hpart⟩ := exists_of_bind_eq_ok hpart
  exact ⟨inner, part, hinner, hpart⟩

theorem isSound_of_wholeMeaning {t : Token} {part : Part} (hterminal : t.terminal = .whole)
    (hproper : t.IsProper) (h : Rule.wholeMeaning .wholeLiteral t.text = .ok part) :
    t.isSound names = true := by
  have hmax : Int32.maxValue.toInt = 2147483647 := rfl
  rw [Rule.wholeMeaning, Integer.read?_numeral (hproper.isNumeral hterminal)] at h
  simp only [Token.isSound, hterminal, Bool.and_eq_true, decide_eq_true_eq]
  by_cases hlength : t.text.length ≤ Integer.maxDigits
  · simp only [hlength, if_true] at h
    split at h
    · cases h
    · exact ⟨hlength, by omega⟩
  · rw [if_neg hlength] at h
    cases h

theorem isSound_of_textMeaning {t : Token} {place : Place} {part : Part}
    (hterminal : t.terminal = .text) (h : Rule.textMeaning names place t.text = .ok part) :
    t.isSound names = true := by
  simp only [Token.isSound, hterminal]
  unfold Rule.textMeaning at h
  split at h
  · cases h
  · next hdecoded => rw [hdecoded]; rfl

theorem isKept_of_checks {rule : Rule} {terminal : Terminal} (h : checks rule terminal = true) :
    terminal.isKept = true := by
  simp only [checks, Bool.or_eq_true, Bool.and_eq_true, decide_eq_true_eq] at h
  rcases h with ⟨_, rfl⟩ | ⟨_, rfl⟩ <;> rfl

/-- A literal has a meaning only if its token is sound. -/
theorem isSound_of_checks {t : Token} {rule : Rule} {place : Place} {part : Part}
    (hchecks : checks rule t.terminal = true) (hproper : t.IsProper)
    (h : rule.meaning names place [.token t.text] = .ok part) : t.isSound names = true := by
  simp only [checks, Bool.or_eq_true, Bool.and_eq_true, decide_eq_true_eq] at hchecks
  rcases hchecks with ⟨rfl, hterminal⟩ | ⟨rfl, hterminal⟩
  · exact isSound_of_wholeMeaning hterminal hproper h
  · exact isSound_of_textMeaning hterminal h

/-- The tokens of a form that is checked are sound if its trees have a meaning. -/
theorem isSound_of_yields {source : List Char} {parts : List Part} (hf : f.isChecked = true)
    (h : f.Yields (Vouches names) ts trees) (hproper : ∀ t ∈ ts, t.IsProper)
    (hok : Tree.meanings names source trees = .ok parts) : ∀ t ∈ ts, t.isSound names = true := by
  induction f generalizing ts trees parts with
  | token terminal =>
    obtain ⟨t, rfl, rfl, rfl⟩ := h
    intro t' ht'
    rw [List.mem_singleton.1 ht']
    exact isSound_of_needsCheck names (by simpa [isChecked] using hf)
  | phrase p => exact h.2 hproper source parts hok
  | empty => simp [h.1]
  | seq f g ihf ihg =>
    simp only [isChecked, Bool.and_eq_true] at hf
    obtain ⟨us, _, us', _, h, h', rfl, rfl⟩ := h
    obtain ⟨_, _, hleft, hright, _⟩ := meanings_append_ok hok
    obtain ⟨hproper, hproper'⟩ := List.forall_mem_append.1 hproper
    exact List.forall_mem_append.2 ⟨ihf hf.1 h hproper hleft, ihg hf.2 h' hproper' hright⟩
  | either f g ihf ihg =>
    simp only [isChecked, Bool.and_eq_true] at hf
    exact h.elim (fun h => ihf hf.1 h hproper hok) fun h => ihg hf.2 h hproper hok
  | many f ih =>
    simp only [Form.Yields] at h
    induction h generalizing parts with
    | none => simp
    | more hitem _ ihrest =>
      obtain ⟨_, _, hleft, hright, _⟩ := meanings_append_ok hok
      obtain ⟨hproper, hproper'⟩ := List.forall_mem_append.1 hproper
      exact List.forall_mem_append.2 ⟨ih hf hitem hproper hleft, ihrest hproper' hright⟩
  | branch rule f ih =>
    obtain ⟨span, children, rfl, h⟩ := h
    obtain ⟨inner, part, hinner, hpart⟩ := meanings_branch_ok hok
    rcases isChecked_branch hf with hf | ⟨terminal, rfl, hchecks⟩
    · exact ih hf h hproper hinner
    · obtain ⟨t, rfl, rfl, rfl⟩ := h
      intro t' ht'
      rw [List.mem_singleton.1 ht']
      rw [Token.leaves, if_pos (isKept_of_checks hchecks)] at hinner
      cases hinner
      exact isSound_of_checks hchecks (hproper t (List.mem_singleton.2 rfl)) hpart

theorem meanings_singleton_ok {source : List Char} {tree : Tree} {parts : List Part}
    (h : Tree.meanings names source [tree] = .ok parts) : ∃ part, parts = [part] := by
  rw [Tree.meanings] at h
  obtain ⟨part, _, h⟩ := exists_of_bind_eq_ok h
  cases h
  exact ⟨part, rfl⟩

theorem isSound_of_comparisonMeaning {t : Token} {place : Place} {left part : Part}
    {rest : List Part} (hterminal : t.terminal = .comparison)
    (h : Rule.comparisonMeaning place (left :: .token t.text :: rest) = .ok part) :
    t.isSound names = true := by
  simp only [Token.isSound, hterminal, decide_eq_true_eq]
  intro hsign
  rw [Rule.comparisonMeaning, hsign] at h
  cases h

/-- A comparison has a meaning only if its sign is sound, and its operands have one. -/
theorem vouches_comparison (h : Phrase.comparison.form.Yields (Vouches names) ts trees)
    (hproper : ∀ t ∈ ts, t.IsProper) {source : List Char} {parts : List Part}
    (hok : Tree.meanings names source trees = .ok parts) : ∀ t ∈ ts, t.isSound names = true := by
  rcases h with hsum | ⟨span, _, rfl, _, _, _, right, ⟨_, left, _, _, hleft,
    ⟨sign, hterminal, rfl, rfl⟩, rfl, rfl⟩, hright, rfl, rfl⟩
  · exact hsum.2 hproper source parts hok
  obtain ⟨inner, part, hinner, hpart⟩ := meanings_branch_ok hok
  obtain ⟨_, rights, hfirst, hrights, rfl⟩ := meanings_append_ok hinner
  obtain ⟨lefts, _, hlefts, hsigns, rfl⟩ := meanings_append_ok hfirst
  simp only [List.forall_mem_append] at hproper ⊢
  refine ⟨⟨hleft.2 hproper.1.1 source lefts hlefts, fun t ht => ?_⟩,
    hright.2 hproper.2 source rights hrights⟩
  obtain ⟨leftTree, rfl⟩ := List.length_eq_one_iff.1 hleft.1
  obtain ⟨leftPart, rfl⟩ := meanings_singleton_ok hlefts
  have hkept : sign.terminal.isKept = true := by rw [hterminal]; rfl
  rw [Token.leaves, if_pos hkept] at hsigns
  cases hsigns
  rw [List.mem_singleton.1 ht]
  exact isSound_of_comparisonMeaning hterminal hpart

/-- Whatever is derived has a meaning only if all its tokens are sound. -/
theorem vouches_form (p : Phrase) (h : p.form.Yields (Vouches names) ts trees) :
    Vouches names p ts trees := by
  have hone : p.form.trees? = some 1 := by cases p <;> rfl
  refine ⟨length_of_yields h hone, fun hproper source parts hok => ?_⟩
  by_cases hcomparison : p = .comparison
  · subst hcomparison
    exact vouches_comparison h hproper hok
  · have hchecked : p.form.isChecked = true := by
      cases p <;> first | rfl | exact absurd rfl hcomparison
    exact isSound_of_yields hchecked h hproper hok

/-- A program has a meaning only if all its tokens are sound. -/
theorem Derives.isSound {tree : Tree} {source : List Char} {part : Part}
    (h : Derives (.phrase .program) ts [tree]) (hproper : ∀ t ∈ ts, t.IsProper)
    (hmeaning : tree.meaning names source = .ok part) : ∀ t ∈ ts, t.isSound names = true := by
  have hvouches : Vouches names .program ts [tree] := h.yields fun p _ _ => vouches_form p
  refine hvouches.2 hproper source [part] ?_
  rw [Tree.meanings, hmeaning]
  rfl

end Grammar

/-! ## Numbers that are too large -/

/-- Whether a failure, if it says that a number is too large, is about a number that can be read. -/
def Failure.isMeasured : Failure → Bool
  | .script (.unreadableNumber text _) => (Integer.read? text).isSome
  | _ => true

/-- Whether a result is no failure about a number that cannot be read. -/
def Measured {α : Type} (result : Except Failure α) : Prop :=
  ∀ failure, result = .error failure → failure.isMeasured = true

section

variable {α β : Type}

theorem measured_ok (a : α) : Measured (.ok a) :=
  fun _ h => nomatch h

theorem measured_error {failure : Failure} (h : failure.isMeasured = true) :
    Measured (.error failure : Except Failure α) := by
  intro failure' heq
  cases heq
  exact h

theorem Measured.bind {result : Except Failure α} {next : α → Except Failure β}
    (h : Measured result) (hnext : ∀ a, Measured (next a)) : Measured (result >>= next) := by
  cases result with
  | ok a => exact hnext a
  | error failure => exact measured_error (h failure rfl)

theorem measured_toExpression (part : Part) : Measured part.toExpression := by
  unfold Part.toExpression
  split
  · split
    · exact measured_ok _
    · exact measured_error rfl
  · exact measured_error rfl

theorem measured_mapM_toExpression (parts : List Part) :
    Measured (parts.mapM Part.toExpression) := by
  induction parts with
  | nil => exact measured_ok []
  | cons part parts ih =>
    rw [List.mapM_cons]
    exact (measured_toExpression part).bind fun _ => ih.bind fun _ => measured_ok _

theorem measured_binaryMeaning (operator : Operator) (place : Place) (parts : List Part) :
    Measured (Rule.binaryMeaning operator place parts) := by
  unfold Rule.binaryMeaning
  split
  · exact measured_error rfl
  · exact measured_error rfl
  · exact (measured_toExpression _).bind fun _ =>
      (measured_toExpression _).bind fun _ => measured_ok _

theorem measured_comparisonMeaning (place : Place) (parts : List Part) :
    Measured (Rule.comparisonMeaning place parts) := by
  unfold Rule.comparisonMeaning
  split
  · split
    · exact measured_error rfl
    · exact measured_binaryMeaning _ _ _
  · exact measured_error rfl

theorem measured_wholeMeaning (rule : Rule) (text : String) :
    Measured (rule.wholeMeaning text) := by
  unfold Rule.wholeMeaning
  split
  · exact measured_error rfl
  · next hread =>
    split
    · exact measured_error (by simp [Failure.isMeasured, hread])
    · exact measured_ok _

theorem measured_callMeaning (rule : Rule) (place : Place) (parts : List Part) :
    Measured (rule.callMeaning place parts) := by
  unfold Rule.callMeaning
  split
  · exact measured_ok _
  · split
    · exact measured_error rfl
    · exact measured_ok _
  · exact measured_error rfl

theorem measured_functionMeaning (rule : Rule) (parts : List Part) :
    Measured (rule.functionMeaning parts) := by
  unfold Rule.functionMeaning
  split
  · exact measured_error rfl
  · exact measured_ok _
  · exact measured_ok _
  · split
    · exact measured_error rfl
    · exact measured_ok _

/-- No rule calls a number too large that it has not read. -/
theorem Rule.measured_meaning (names : Text.Names) (rule : Rule) (place : Place)
    (parts : List Part) :
    Measured (rule.meaning names place parts) := by
  have hfirst (next : Node → Except Failure Part) (hnext : ∀ e, Measured (next e)) (part : Part) :
      Measured (part.toExpression >>= next) := (measured_toExpression part).bind hnext
  cases rule with
  | program | block | parameters | emptyStatement | trueLiteral | falseLiteral | readNumber
  | readText => exact measured_ok _
  | unknown name => exact measured_error rfl
  | or | and | add | sub | mul | div => exact measured_binaryMeaning _ _ _
  | comparison => exact measured_comparisonMeaning _ _
  | call => exact measured_callMeaning _ _ _
  | function => exact measured_functionMeaning _ _
  | print | arguments => exact (measured_mapM_toExpression parts).bind fun _ => measured_ok _
  | wholeLiteral =>
    cases parts with
    | nil => exact measured_error rfl
    | cons number _ => exact measured_wholeMeaning _ _
  | decimalLiteral =>
    cases parts with
    | nil => exact measured_error rfl
    | cons number _ =>
      rw [Rule.meaning, Rule.decimalMeaning]
      split
      · exact measured_error rfl
      · exact measured_ok _
  | textLiteral =>
    cases parts with
    | nil => exact measured_error rfl
    | cons literal _ =>
      rw [Rule.meaning, Rule.textMeaning]
      split
      · exact measured_error rfl
      · exact measured_ok _
  | reference =>
    cases parts with
    | nil => exact measured_error rfl
    | cons name _ => exact measured_ok _
  | negation =>
    cases parts with
    | nil => exact measured_error rfl
    | cons operand _ => exact hfirst _ (fun _ => measured_ok _) operand
  | returning =>
    cases parts with
    | nil => exact measured_ok _
    | cons value _ => exact hfirst _ (fun _ => measured_ok _) value
  | expressionStatement =>
    cases parts with
    | nil => exact measured_error rfl
    | cons expression _ =>
      refine hfirst _ (fun e => ?_) expression
      cases e <;> exact measured_ok _
  | definition | assignment =>
    rcases parts with _ | ⟨_, _ | ⟨expression, _⟩⟩
    · exact measured_error rfl
    · exact measured_error rfl
    · exact hfirst _ (fun _ => measured_ok _) expression
  | conditional =>
    rcases parts with _ | ⟨condition, _ | ⟨_, _ | ⟨_, _⟩⟩⟩
    · exact measured_error rfl
    · exact hfirst _ (fun _ => measured_error rfl) condition
    all_goals exact hfirst _ (fun _ => measured_ok _) condition
  | loop =>
    rcases parts with _ | ⟨condition, _ | ⟨_, _⟩⟩
    · exact measured_error rfl
    · exact hfirst _ (fun _ => measured_error rfl) condition
    · exact hfirst _ (fun _ => measured_ok _) condition

end

mutual

theorem Tree.measured_meaning (names : Text.Names) (source : List Char) :
    ∀ tree : Tree, Measured (tree.meaning names source)
  | .leaf _ => measured_ok _
  | .built _ => measured_ok _
  | .branch rule _ children => by
    rw [Tree.meaning]
    exact (Tree.measured_meanings names source children).bind fun parts =>
      rule.measured_meaning names _ parts
termination_by structural tree => tree

theorem Tree.measured_meanings (names : Text.Names) (source : List Char) :
    ∀ trees : List Tree, Measured (Tree.meanings names source trees)
  | [] => measured_ok _
  | tree :: trees => by
    rw [Tree.meanings]
    refine (Tree.measured_meaning names source tree).bind fun part => ?_
    exact (Tree.measured_meanings names source trees).bind fun parts => measured_ok _
termination_by structural trees => trees

end

/-! ## Numbers as programs -/

theorem Source.passes_numeral {digits : List Char} (h : IsNumeral digits) : Passes digits :=
  passes_of_forall h.1 (isOrdinary_of_isNumeral h)

/-- A whole number that is all of a text is read as such, before the semicolon that ends it. -/
theorem Tree.read_numeral {digits : List Char} (h : IsNumeral digits) :
    ∃ start stop tree, Tree.read (Source.terminate (String.ofList digits)) = .ok tree ∧
      Grammar.Derives (.phrase .program)
        [⟨.whole, String.ofList digits, start⟩, ⟨.symbol .semicolon, ";", stop⟩] [tree] := by
  have hleads : Reader.Leads
      (fun state => ∃ start stop tree, Reader.finish? state = some tree ∧ Reader.Represents state
        [⟨.whole, String.ofList digits, start⟩, ⟨.symbol .semicolon, ";", stop⟩])
      [] Reader.State.initial (digits ++ [';']) := by
    have hbegins : Reader.Begins Reader.State.initial [.program []] :=
      Reader.IsBody.program.begins false [] []
    refine .lexeme h.1 (Lexer.match?_whole h (hbegins.opens.accepts rfl) rfl) fun start => ?_
    have hnumber := hbegins.opens.step (t := ⟨.whole, String.ofList digits, start⟩) rfl (by simp)
    refine ⟨_, hnumber, .symbol .semicolon rfl (by simp) fun stop => ⟨_, rfl, .here ?_⟩⟩
    exact ⟨start, stop, _, rfl, (Reader.represents_initial.step hnumber).step rfl⟩
  obtain ⟨state, last, position, fuel, ⟨start, stop, tree, hfinish, hrepresents⟩, hread⟩ :=
    hleads.readFrom {} {} le_rfl
  refine ⟨start, stop, tree, ?_, hrepresents.finish hfinish⟩
  rw [Source.terminate_of_passes (Source.passes_numeral h), Tree.read, String.toList_ofList, hread,
    Reader.readFrom_nil, Reader.readFrom.ends, hfinish]

/-! ## Programs -/

/-- Whether the error says that a program text is no program: it lies outside the grammar, or it has
a text literal, a comparison sign or a whole number without a meaning. -/
def ScriptError.isRefusal : ScriptError → Bool
  | .unexpectedToken _ | .unexpectedCharacter _ _ | .incorrectSyntax _ | .unsupportedOperator _
  | .unreadableNumber _ .integer => true
  | _ => false

theorem ScriptError.isRefusal_of_isGrammatical {e : ScriptError} (h : e.isGrammatical = true) :
    e.isRefusal = true := by
  cases e <;> first | rfl | cases h

/-- How reading a program breaks off at a whole number with too many digits. -/
def Failure.overlong : Failure :=
  .fault (.brokenTree Rule.wholeLiteral.name)

/-- A failure that tokens explain is the break at an overlong number, or an error for which a token
is to blame that is not sound, and not for its length. -/
theorem refusal_of_explains {names : Text.Names} {ts : List Token} {failure : Failure}
    (h : Explains names ts failure)
    (hmeasured : failure.isMeasured = true) (hproper : ∀ t ∈ ts, t.IsProper) :
    (failure = .overlong ∧ ∃ t ∈ ts, t.isOverlong = true) ∨
      (∃ e, failure = .script e ∧ e.isRefusal = true) ∧
        ∃ t ∈ ts, t.isSound names = false ∧ t.isOverlong = false := by
  cases failure with
  | fault f =>
    cases f with
    | brokenTree rule =>
      obtain ⟨rfl, t, ht, hterminal, hlong⟩ := h
      exact Or.inl ⟨rfl, t, ht, by simp [Token.isOverlong, hterminal, hlong]⟩
    | _ => exact h.elim
  | exhausted => exact h.elim
  | outOfFuel => exact h.elim
  | script e =>
    right
    cases e with
    | incorrectSyntax text =>
      obtain ⟨t, ht, hterminal, hdecode⟩ := h
      refine ⟨⟨_, rfl, rfl⟩, t, ht, ?_, ?_⟩
      · simp [Token.isSound, hterminal, hdecode]
      · simp [Token.isOverlong, hterminal]
    | unsupportedOperator sign =>
      obtain ⟨rfl, t, ht, hterminal, htext⟩ := h
      refine ⟨⟨_, rfl, rfl⟩, t, ht, ?_, ?_⟩
      · simp [Token.isSound, hterminal, htext]
      · simp [Token.isOverlong, hterminal]
    | unreadableNumber text target =>
      obtain ⟨rfl, t, ht, hterminal, rfl, hlarge⟩ := h
      have hnumeral := (hproper t ht).isNumeral hterminal
      have hlength : t.text.length ≤ Integer.maxDigits := by
        by_contra hlong
        rw [Failure.isMeasured, Integer.read?_numeral hnumeral, if_neg hlong] at hmeasured
        cases hmeasured
      refine ⟨⟨_, rfl, rfl⟩, t, ht, ?_, ?_⟩
      · simp [Token.isSound, hterminal, hlarge]
      · simp [Token.isOverlong, hlength]
    | _ => exact h.elim

namespace Program

variable {names : Text.Names} {source : String} {ts : List Token} {tree : Tree}

/-- A text that the grammar derives is a program of sound tokens, or it is refused. -/
theorem parse_of_derives (hread : Tree.read (Source.terminate source) = .ok tree)
    (hderives : Grammar.Derives (.phrase .program) ts [tree]) (hproper : ∀ t ∈ ts, t.IsProper) :
    ((∃ body, parse names source = .ok body) ∧ ∀ t ∈ ts, t.isSound names = true) ∨
      (parse names source = .error .overlong ∧ ∃ t ∈ ts, t.isOverlong = true) ∨
      (∃ e, parse names source = .error (.script e) ∧ e.isRefusal = true) ∧
        ∃ t ∈ ts, t.isSound names = false ∧ t.isOverlong = false := by
  have houtcome := hderives.outcome names hproper (Source.terminate source).toList
  cases hmeaning : tree.meaning names (Source.terminate source).toList with
  | ok part =>
    obtain ⟨span, parts, rfl⟩ := Grammar.eq_branch_of_derives_program hderives
    obtain ⟨body, rfl⟩ := Tree.eq_program_of_meaning hmeaning
    exact Or.inl ⟨⟨body, parse_of_meaning rfl hread hmeaning⟩, hderives.isSound hproper hmeaning⟩
  | error failure =>
    rw [hmeaning] at houtcome
    have hmeasured := Tree.measured_meaning names _ tree failure hmeaning
    rw [parse_of_meaning_error hread hmeaning]
    right
    refine (refusal_of_explains houtcome hmeasured hproper).imp ?_ ?_
    · rintro ⟨rfl, hlong⟩
      exact ⟨rfl, hlong⟩
    · rintro ⟨⟨e, rfl, he⟩, hunsound⟩
      exact ⟨⟨e, rfl, he⟩, hunsound⟩

/-- What comes of a program text. -/
theorem parse_outcomes (names : Text.Names) (source : String) :
    (∃ body, parse names source = .ok body) ∨
      (∃ e, parse names source = .error (.script e) ∧ e.isRefusal = true) ∨
      parse names source = .error .overlong ∧
        ∃ ts tree, Tree.read (Source.terminate source) = .ok tree ∧
          Grammar.Derives (.phrase .program) ts [tree] ∧ (∀ t ∈ ts, t.IsProper) ∧
          Spells ts (Source.terminate source).toList ∧ ∃ t ∈ ts, t.isOverlong = true := by
  cases hread : Tree.read (Source.terminate source) with
  | error e =>
    refine .inr (.inl ⟨e, ?_, ScriptError.isRefusal_of_isGrammatical (Tree.read_error hread)⟩)
    rw [parse, hread]
    rfl
  | ok tree =>
    obtain ⟨ts, hderives, hspells, hproper⟩ := Tree.read_derives hread
    rcases parse_of_derives hread hderives hproper with ⟨hok, -⟩ | ⟨hlong, ht⟩ | ⟨herror, -⟩
    · exact .inl hok
    · exact .inr (.inr ⟨hlong, ts, tree, rfl, hderives, hproper, hspells, ht⟩)
    · exact .inr (.inl herror)

/-- A program text is parsed, or refused with an error that says why, or it holds a whole number
with too many digits. The last is what happens if nothing else is wrong with its tokens. The command
reports an error in the usual way, but an overlong number ends it without a report. -/
theorem parse_refuses (names : Text.Names) (source : String) :
    ((∃ body, parse names source = .ok body) ∨
      (∃ e, parse names source = .error (.script e) ∧ e.isRefusal = true) ∨
      parse names source = .error .overlong ∧
        ∃ ts tree, Tree.read (Source.terminate source) = .ok tree ∧
          Grammar.Derives (.phrase .program) ts [tree] ∧ (∀ t ∈ ts, t.IsProper) ∧
          Spells ts (Source.terminate source).toList ∧ ∃ t ∈ ts, t.isOverlong = true) ∧
    (∀ ts tree, Tree.read (Source.terminate source) = .ok tree →
      Grammar.Derives (.phrase .program) ts [tree] → (∀ t ∈ ts, t.IsProper) →
      ((∃ body, parse names source = .ok body) ↔ ∀ t ∈ ts, t.isSound names = true) ∧
      ((∃ t ∈ ts, t.isOverlong = true) → (∀ t ∈ ts, t.isOverlong = true ∨ t.isSound names = true) →
        parse names source = .error .overlong)) ∧
    ∀ environment files input arguments config,
      CommandLine.Selects environment files arguments config source →
      (∀ e, parse names source = .error (.script e) →
        CommandLine.execute names environment files input arguments
          = { outcome := .ok 1, errors := CommandLine.errorLine e.message, files }) ∧
      (parse names source = .error .overlong →
        CommandLine.execute names environment files input arguments
          = { outcome := .error .overlong, files }) := by
  refine ⟨parse_outcomes names source, ?_, ?_⟩
  · intro ts tree hread hderives hproper
    rcases parse_of_derives hread hderives hproper with
      ⟨hok, hsound⟩ | ⟨hlong, t, ht, hoverlong⟩ | ⟨⟨e, herror, -⟩, t, ht, hunsound, hshort⟩
    · refine ⟨⟨fun _ => hsound, fun _ => hok⟩, ?_⟩
      rintro ⟨t, ht, hoverlong⟩
      exact absurd (hsound t ht) (by simp [Token.isSound_of_isOverlong names hoverlong])
    · refine ⟨⟨?_, fun hsound => ?_⟩, fun _ _ => hlong⟩
      · rintro ⟨body, hok⟩
        rw [hok] at hlong
        cases hlong
      · exact absurd (hsound t ht) (by simp [Token.isSound_of_isOverlong names hoverlong])
    · refine ⟨⟨?_, fun hsound => ?_⟩, fun _ hall => ?_⟩
      · rintro ⟨body, hok⟩
        rw [hok] at herror
        cases herror
      · exact absurd (hsound t ht) (by simp [hunsound])
      · exact absurd (hall t ht) (by simp [hunsound, hshort])
  · intro environment files input arguments config hselects
    rw [CommandLine.execute_of_selects hselects]
    refine ⟨fun e herror => ?_,
      fun hlong => CommandLine.runText_of_refused hlong config files input⟩
    have hinput : e ≠ .noInput := by
      rintro rfl
      rcases parse_outcomes names source with ⟨_, hok⟩ | ⟨_, herror', hrefusal⟩ | ⟨hlong, -⟩
      · cases herror.symm.trans hok
      · cases herror.symm.trans herror'
        cases hrefusal
      · cases herror.symm.trans hlong
    rw [CommandLine.runText_of_refused herror, CommandLine.refused]
    simp [hinput]

/-- A number with one digit more than can be read, and a comparison with a sign that has no meaning.
-/
theorem parse_refuses_overlong :
    let digits := List.replicate (Integer.maxDigits + 1) '1'
    let source := String.ofList digits
    (∃ ts tree, Tree.read (Source.terminate source) = .ok tree ∧
      Grammar.Derives (.phrase .program) ts [tree] ∧ (∀ t ∈ ts, t.IsProper) ∧
      (∃ t ∈ ts, t.isOverlong = true) ∧
      ∀ t ∈ ts, t.isOverlong = true ∨ t.isSound Text.unnamed = true) ∧
    parse Text.unnamed source = .error .overlong ∧
    CommandLine.execute Text.unnamed (fun _ => none) {} none ["-c", source]
      = { outcome := .error .overlong, files := {} } ∧
    CommandLine.execute Text.unnamed (fun _ => none) {} none ["-c", "1 <> 2"]
      = { outcome := .ok 1, errors := "Error: Unsupported operator: <>\n", files := {} } := by
  intro digits source
  have hnumeral : IsNumeral digits := by
    refine ⟨by simp [digits], fun c hc => ?_⟩
    rw [List.eq_of_mem_replicate hc]
    decide
  have hlength : Integer.maxDigits < digits.length := by
    simp [digits]
  have hminus : source.toList.head? ≠ some '-' := by
    simp [source, digits, List.head?_replicate]
  -- from here on the number is any number of this length, so that nothing computes with its digits
  clear_value digits
  obtain ⟨start, stop, tree, hread, hderives⟩ := Tree.read_numeral hnumeral
  generalize hnumber : (⟨.whole, String.ofList digits, start⟩ : Token) = number at hderives
  generalize hend : (⟨.symbol .semicolon, ";", stop⟩ : Token) = semicolon at hderives
  have hproper : ∀ t ∈ [number, semicolon], t.IsProper := by
    simp [← hnumber, ← hend, Token.IsProper, Terminal.Matches, hnumeral, Symbol.text]
  have hoverlong : number.isOverlong = true := by
    simp [← hnumber, Token.isOverlong, hlength]
  have hexists : ∃ t ∈ [number, semicolon], t.isOverlong = true := ⟨number, by simp, hoverlong⟩
  have hall : ∀ t ∈ [number, semicolon], t.isOverlong = true ∨ t.isSound Text.unnamed = true := by
    simp [hoverlong, ← hend, Token.isSound]
  have hparse :=
    ((parse_refuses Text.unnamed source).2.1 _ tree hread hderives hproper).2 hexists hall
  have hsign : parse Text.unnamed "1 <> 2" = .error (.script (.unsupportedOperator "<>")) := by
    have htext : Source.terminate "1 <> 2" = "1 <> 2;" := by decide +kernel
    have hread : Tree.read (Source.terminate "1 <> 2")
        = .ok (.branch .program (some ⟨0, 7⟩)
          [.branch .expressionStatement (some ⟨0, 7⟩)
            [.branch .comparison (some ⟨0, 6⟩)
              [.branch .wholeLiteral (some ⟨0, 1⟩) [.leaf "1"], .leaf "<>",
                .branch .wholeLiteral (some ⟨5, 6⟩) [.leaf "2"]]]]) := by
      rw [htext]
      rfl
    rw [parse, hread]
    rfl
  refine ⟨⟨_, tree, hread, hderives, hproper, hexists, hall⟩, hparse, ?_, ?_⟩
  · exact ((parse_refuses Text.unnamed source).2.2 _ {} none _ _
      (CommandLine.selects_code hminus {})).2 hparse
  · rw [((parse_refuses Text.unnamed "1 <> 2").2.2 _ {} none _ _
      (CommandLine.selects_code (by decide) {})).1 _ hsign]
    rfl

end Program

end ScriptLang
