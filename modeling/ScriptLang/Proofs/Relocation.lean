import ScriptLang.Proofs.Meaning
import ScriptLang.Proofs.Tokens

set_option autoImplicit false

/-! # Reading after other statements

A program that stands after others is read as it is read alone. `Reader.Preface` is what stands
before it: how many characters and lines, and the statements there. Each step of the reader can be
moved behind a preface (`Reader.Preface.step`), and so can all that it takes from a text
(`Reader.Takes.moved`). Where a tree stands does not matter to what it means, unless it has no
meaning (`Tree.meaning_mapSpan`). -/

namespace ScriptLang

/-! ## Trees in other places -/

namespace Tree

mutual

/-- A tree with its stretches of text changed. -/
def mapSpan (f : Span → Span) : Tree → Tree
  | .leaf text => .leaf text
  | .built node => .built node
  | .branch rule span children => .branch rule (span.map f) (mapSpans f children)
termination_by structural tree => tree

def mapSpans (f : Span → Span) : List Tree → List Tree
  | [] => []
  | tree :: trees => mapSpan f tree :: mapSpans f trees
termination_by structural trees => trees

end

variable (f : Span → Span)

theorem mapSpans_eq_map (trees : List Tree) : mapSpans f trees = trees.map (mapSpan f) := by
  induction trees with
  | nil => rfl
  | cons tree trees ih => rw [mapSpans, ih, List.map_cons]

@[simp]
theorem mapSpan_branch (rule : Rule) (span : Option Span) (children : List Tree) :
    mapSpan f (.branch rule span children)
      = .branch rule (span.map f) (children.map (mapSpan f)) := by
  rw [mapSpan, mapSpans_eq_map]

@[simp]
theorem mapSpan_leaf (text : String) : mapSpan f (.leaf text) = .leaf text := rfl

@[simp]
theorem span?_mapSpan (tree : Tree) : (mapSpan f tree).span? = tree.span?.map f := by
  cases tree with
  | branch rule span children => rw [mapSpan_branch]; rfl
  | leaf text => rfl
  | built node => rfl

end Tree

/-- Where a rule stands matters only to how it fails. -/
theorem Rule.meaning_place {names : Text.Names} {rule : Rule} {place : Place}
    {parts : List Part} {part : Part}
    (h : rule.meaning names place parts = .ok part) (place' : Place) :
    rule.meaning names place' parts = .ok part := by
  have hbinary {operator : Operator} {parts : List Part}
      (h : binaryMeaning operator place parts = .ok part) :
      binaryMeaning operator place' parts = .ok part := by
    unfold binaryMeaning at h ⊢
    split at h
    · cases h
    · cases h
    · exact h
  have hcomparison {parts : List Part} (h : comparisonMeaning place parts = .ok part) :
      comparisonMeaning place' parts = .ok part := by
    unfold comparisonMeaning at h ⊢
    split at h
    · split at h
      · cases h
      · exact hbinary h
    · cases h
  have htext {literal : String} (h : textMeaning names place literal = .ok part) :
      textMeaning names place' literal = .ok part := by
    unfold textMeaning at h ⊢
    split at h
    · cases h
    · exact h
  have hcall {parts : List Part} (h : callMeaning rule place parts = .ok part) :
      callMeaning rule place' parts = .ok part := by
    unfold callMeaning at h ⊢
    split at h
    · exact h
    · exact h
    · cases h
  unfold meaning at h ⊢
  split at h
  all_goals first
    | exact h
    | exact hbinary h
    | exact hcomparison h
    | exact htext h
    | exact hcall h
    | cases h

namespace Tree

variable {names : Text.Names} {f : Span → Span} {source source' : List Char}

mutual

/-- A tree that means something means the same in any other place of any other text. -/
theorem meaning_mapSpan : ∀ {tree : Tree} {part : Part},
    tree.meaning names source = .ok part → (mapSpan f tree).meaning names source' = .ok part
  | .leaf text, part, h => h
  | .built node, part, h => h
  | .branch rule span children, part, h => by
    rw [meaning] at h
    obtain ⟨parts, hparts, hrule⟩ := exists_of_bind_eq_ok h
    rw [mapSpan, meaning, meanings_mapSpans hparts]
    exact Rule.meaning_place hrule _
termination_by structural tree => tree

theorem meanings_mapSpans : ∀ {trees : List Tree} {parts : List Part},
    meanings names source trees = .ok parts →
      meanings names source' (mapSpans f trees) = .ok parts
  | [], parts, h => h
  | tree :: trees, parts, h => by
    rw [meanings] at h
    obtain ⟨part, hpart, h⟩ := exists_of_bind_eq_ok h
    obtain ⟨rest, hrest, h⟩ := exists_of_bind_eq_ok h
    rw [mapSpans, meanings, meaning_mapSpan hpart, meanings_mapSpans hrest]
    exact h
termination_by structural trees => trees

end

mutual

theorem mapSpan_id : ∀ tree : Tree, mapSpan id tree = tree
  | .leaf text => rfl
  | .built node => rfl
  | .branch rule span children => by rw [mapSpan, mapSpans_id, Option.map_id_fun, id]
termination_by structural tree => tree

theorem mapSpans_id : ∀ trees : List Tree, mapSpans id trees = trees
  | [] => rfl
  | tree :: trees => by rw [mapSpans, mapSpan_id, mapSpans_id]
termination_by structural trees => trees

end

end Tree

namespace Reader

/-! ## Single steps -/

section

variable {t : Token} {frames : List Frame}

theorem startStatement_else (h : t.terminal = .keyword .elseWord) :
    startStatement frames t = none := by
  simp [startStatement, operandStep, h]

theorem statementStep_of_ne_else (h : t.terminal ≠ .keyword .elseWord) :
    statementStep frames t = startStatement (settle frames) t := by
  unfold statementStep
  split
  · next helse => exact absurd helse h
  · rfl

theorem step_statement {s : State} {afterBlock : Bool}
    (hexpectation : s.expectation = .statement afterBlock)
    (h : t.terminal ≠ .keyword .elseWord) : step s t = startStatement (settle s.frames) t := by
  rw [← statementStep_of_ne_else h, step, hexpectation]

theorem step_afterName {name : Token} (hdefine : t.terminal ≠ .symbol .define)
    (hequal : t.terminal ≠ .symbol .equal) :
    step ⟨.afterName name, frames⟩ t = nameStep name (.expressionStatement :: frames) t := by
  unfold step
  split <;> simp_all

end

/-! ## Prefaces -/

/-- What stands before a program: so many characters and lines, and these statements, the last
first. -/
structure Preface where
  offset : Nat
  lines : Nat
  statements : List Tree

namespace Preface

variable (p : Preface)

def position (q : Position) : Position :=
  ⟨p.offset + q.offset, p.lines + q.line, q.column⟩

def span (s : Span) : Span :=
  ⟨p.offset + s.start, p.offset + s.stop⟩

def token (t : Token) : Token :=
  { t with start := p.position t.start }

/-- A tree of the program behind the preface. -/
def tree (tree : Tree) : Tree :=
  tree.mapSpan p.span

/-- A frame of the program behind the preface: the program begins with the statements there. -/
def frame : Frame → Frame
  | .program statements => .program (statements.map p.tree ++ p.statements)
  | .block brace statements => .block (p.token brace) (statements.map p.tree)
  | .print word expressions => .print (p.token word) (expressions.map p.tree)
  | .definition name => .definition (p.token name)
  | .assignment name => .assignment (p.token name)
  | .returning word => .returning (p.token word)
  | .expressionStatement => .expressionStatement
  | .ifCondition word => .ifCondition (p.token word)
  | .ifThen word condition => .ifThen (p.token word) (p.tree condition)
  | .ifDone word condition thenBlock =>
    .ifDone (p.token word) (p.tree condition) (p.tree thenBlock)
  | .ifElse word condition thenBlock =>
    .ifElse (p.token word) (p.tree condition) (p.tree thenBlock)
  | .whileCondition word => .whileCondition (p.token word)
  | .whileBody word condition => .whileBody (p.token word) (p.tree condition)
  | .functionBody word name parameters =>
    .functionBody (p.token word) (p.token name) (parameters.map p.tree)
  | .group => .group
  | .arguments name expressions => .arguments (p.token name) (expressions.map p.tree)
  | .binary rule left sign => .binary rule (p.tree left) (p.token sign)
  | .negation sign => .negation (p.token sign)

def expectation : Expectation → Expectation
  | .statement afterBlock => .statement afterBlock
  | .afterName name => .afterName (p.token name)
  | .operand => .operand
  | .afterOperandName name => .afterOperandName (p.token name)
  | .operator operand => .operator (p.tree operand)
  | .readOpen rule word => .readOpen rule (p.token word)
  | .readClose rule word => .readClose rule (p.token word)
  | .functionName word => .functionName (p.token word)
  | .functionOpen word name => .functionOpen (p.token word) (p.token name)
  | .parameter word name parameters =>
    .parameter (p.token word) (p.token name) (parameters.map p.token)
  | .afterParameter word name parameters =>
    .afterParameter (p.token word) (p.token name) (parameters.map p.token)
  | .functionBrace word name parameters =>
    .functionBrace (p.token word) (p.token name) (parameters.map p.tree)
  | .elseBranch => .elseBranch

/-- A state of the reader in the program behind the preface. -/
def state (state : State) : State :=
  ⟨p.expectation state.expectation, state.frames.map p.frame⟩

/-! ### Places and trees -/

theorem advanceBy_position (q : Position) (cs : List Char) :
    (p.position q).advanceBy cs = p.position (q.advanceBy cs) := by
  have hadvance (q : Position) (c : Char) :
      (p.position q).advance c = p.position (q.advance c) := by
    unfold Position.advance
    split <;> rfl
  induction cs generalizing q with
  | nil => rfl
  | cons c cs ih =>
    show ((p.position q).advance c).advanceBy cs = _
    rw [hadvance, ih]
    rfl

@[simp]
theorem terminal_token (t : Token) : (p.token t).terminal = t.terminal := rfl

@[simp]
theorem text_token (t : Token) : (p.token t).text = t.text := rfl

@[simp]
theorem span_token (t : Token) : (p.token t).span = p.span t.span := by
  simp [Token.span, Token.stop, token, position, span, Nat.add_assoc]

@[simp]
theorem cover_span (s s' : Span) : (p.span s).cover (p.span s') = p.span (s.cover s') := rfl

@[simp]
theorem tree_leaf (text : String) : p.tree (.leaf text) = .leaf text := rfl

@[simp]
theorem tree_branch (rule : Rule) (span : Option Span) (children : List Tree) :
    p.tree (.branch rule span children)
      = .branch rule (span.map p.span) (children.map p.tree) :=
  Tree.mapSpan_branch ..

@[simp]
theorem span?_tree (tree : Tree) : (p.tree tree).span? = tree.span?.map p.span :=
  Tree.span?_mapSpan ..

@[simp]
theorem map_cover? (s s' : Option Span) :
    (Tree.cover? s s').map p.span = Tree.cover? (s.map p.span) (s'.map p.span) := by
  cases s <;> cases s' <;> rfl

@[simp]
theorem tree_ofToken (rule : Rule) (t : Token) :
    p.tree (Tree.ofToken rule t) = Tree.ofToken rule (p.token t) := by
  simp [Tree.ofToken]

@[simp]
theorem tree_between (rule : Rule) (first last : Token) (children : List Tree) :
    p.tree (Tree.between rule first last children)
      = Tree.between rule (p.token first) (p.token last) (children.map p.tree) := by
  simp [Tree.between]

theorem lastSpan_map (children : List Tree) :
    (children.map p.tree).getLast?.bind Tree.span?
      = (children.getLast?.bind Tree.span?).map p.span := by
  rw [List.getLast?_map]
  cases children.getLast? <;> simp

@[simp]
theorem tree_after (rule : Rule) (first : Token) (children : List Tree) :
    p.tree (Tree.after rule first children)
      = Tree.after rule (p.token first) (children.map p.tree) := by
  simp only [Tree.after, tree_branch, lastSpan_map, span_token, map_cover?, Option.map_some]

@[simp]
theorem tree_ofChildren (rule : Rule) (children : List Tree) :
    p.tree (Tree.ofChildren rule children) = Tree.ofChildren rule (children.map p.tree) := by
  have hfirst : (children.map p.tree).head?.bind Tree.span?
      = (children.head?.bind Tree.span?).map p.span := by
    rw [List.head?_map]
    cases children.head? <;> simp
  simp only [Tree.ofChildren, tree_branch, lastSpan_map, hfirst, map_cover?]

@[simp]
theorem tree_binaryTree (rule : Rule) (left : Tree) (sign : Token) (right : Tree) :
    p.tree (binaryTree rule left sign right)
      = binaryTree rule (p.tree left) (p.token sign) (p.tree right) := by
  unfold binaryTree
  split <;> simp

@[simp]
theorem tree_conditionalTree (word : Token) (condition thenBlock : Tree)
    (elseBranch : Option Tree) :
    p.tree (conditionalTree word condition thenBlock elseBranch)
      = conditionalTree (p.token word) (p.tree condition) (p.tree thenBlock)
        (elseBranch.map p.tree) := by
  cases elseBranch <;> simp [conditionalTree]

@[simp]
theorem tree_callTree (name : Token) (expressions : List Tree) (paren : Token) :
    p.tree (callTree name expressions paren)
      = callTree (p.token name) (expressions.map p.tree) (p.token paren) := by
  unfold callTree
  cases expressions <;> simp

@[simp]
theorem parametersTree?_map (parameters : List Token) :
    parametersTree? (parameters.map p.token) = (parametersTree? parameters).map p.tree := by
  cases parameters with
  | nil => rfl
  | cons first rest =>
    simp [parametersTree?, List.getLast?_cons, Function.comp_def]

/-! ### Steps -/

theorem reduce (least : Nat) (operand : Tree) (frames : List Frame) :
    Reader.reduce least (p.tree operand) (frames.map p.frame)
      = (p.tree (Reader.reduce least operand frames).1,
          (Reader.reduce least operand frames).2.map p.frame) := by
  fun_induction Reader.reduce least operand frames with
  | case1 operand rule left sign frames hle ih =>
    rw [← ih, tree_binaryTree, List.map_cons, frame, Reader.reduce, if_pos hle]
  | case2 operand rule left sign frames hle =>
    rw [List.map_cons, frame, Reader.reduce, if_neg hle]
  | case3 operand sign frames ih =>
    rw [← ih, tree_after, List.map_cons, frame, Reader.reduce]
    rfl
  | case4 operand frames hbinary hnegation =>
    cases frames with
    | nil => rfl
    | cons frame frames =>
      cases frame with
      | binary rule left sign => exact (hbinary _ _ _ _ rfl).elim
      | negation sign => exact (hnegation _ _ rfl).elim
      | _ => rfl

theorem finishStatement (statement : Tree) (frames : List Frame) :
    Reader.finishStatement (p.tree statement) (frames.map p.frame)
      = (Reader.finishStatement statement frames).map p.frame := by
  fun_induction Reader.finishStatement statement frames with
  | case1 statement statements frames => rfl
  | case2 statement brace statements frames => rfl
  | case3 statement word condition thenBlock frames ih =>
    rw [← ih, tree_conditionalTree, List.map_cons, frame, Reader.finishStatement]
    rfl
  | case4 statement frames hprogram hblock helse =>
    cases frames with
    | nil => rfl
    | cons frame frames =>
      cases frame with
      | program statements => exact (hprogram _ _ rfl).elim
      | block brace statements => exact (hblock _ _ _ rfl).elim
      | ifElse word condition thenBlock => exact (helse _ _ _ _ rfl).elim
      | _ => rfl

theorem settle (frames : List Frame) :
    Reader.settle (frames.map p.frame) = (Reader.settle frames).map p.frame := by
  cases frames with
  | nil => rfl
  | cons frame frames =>
    cases frame with
    | ifDone word condition thenBlock =>
      rw [Reader.settle, ← finishStatement, tree_conditionalTree]
      rfl
    | _ => rfl

variable {e : Tree} {name t : Token} {frames : List Frame} {s s' : State}

theorem finished (statement : Tree) (frames : List Frame) :
    p.state (Reader.finished statement frames)
      = Reader.finished (p.tree statement) (frames.map p.frame) := by
  rw [Reader.finished, Reader.finished, finishStatement]
  rfl

theorem endExpression (h : Reader.endExpression e frames t = some s) :
    Reader.endExpression (p.tree e) (frames.map p.frame) (p.token t) = some (p.state s) := by
  unfold Reader.endExpression at h
  split at h <;> cases h
  all_goals
    try rw [finished]
    simp [Reader.endExpression, state, expectation, frame, *]

theorem operandStep (h : Reader.operandStep frames t = some s) :
    Reader.operandStep (frames.map p.frame) (p.token t) = some (p.state s) := by
  unfold Reader.operandStep at h
  split at h <;> cases h
  all_goals
    try rw [finished]
    simp [Reader.operandStep, state, expectation, frame, *]

theorem pushBinary {rule : Rule} (h : Reader.pushBinary rule e frames t = some s) :
    Reader.pushBinary rule (p.tree e) (frames.map p.frame) (p.token t) = some (p.state s) := by
  obtain ⟨rfl, hchain⟩ := pushBinary_eq_some h
  unfold Reader.pushBinary
  rw [reduce]
  split
  · next left sign below hreduce =>
    -- a comparison on the stack would be one without the preface, too
    obtain ⟨frame, outer, houter, hframe, -⟩ := List.map_eq_cons_iff.1 (congrArg Prod.snd hreduce)
    cases frame with
    | binary rule left' sign' =>
      injection hframe with hrule
      subst hrule
      exact absurd houter (hchain rfl left' sign' outer)
    | _ => cases hframe
  · next hreduce =>
    cases hreduce
    rfl

theorem operatorStep (h : Reader.operatorStep e frames t = some s) :
    Reader.operatorStep (p.tree e) (frames.map p.frame) (p.token t) = some (p.state s) := by
  unfold Reader.operatorStep at h ⊢
  rw [terminal_token]
  split at h
  · exact p.pushBinary h
  · rw [reduce]
    exact p.endExpression h

theorem nameStep (h : Reader.nameStep name frames t = some s) :
    Reader.nameStep (p.token name) (frames.map p.frame) (p.token t) = some (p.state s) := by
  unfold Reader.nameStep at h ⊢
  rw [terminal_token]
  split at h
  · next hparen =>
    cases h
    rw [if_pos hparen]
    rfl
  · next hparen =>
    rw [if_neg hparen, ← tree_ofToken]
    exact p.operatorStep h

theorem finishBlock {block : Tree} (h : Reader.finishBlock block frames = some s) :
    Reader.finishBlock (p.tree block) (frames.map p.frame) = some (p.state s) := by
  unfold Reader.finishBlock at h
  split at h <;> cases h
  all_goals simp [Reader.finishBlock, state, expectation, frame, ← finishStatement,
    Option.toList_map]

theorem startStatement (h : Reader.startStatement frames t = some s) :
    Reader.startStatement (frames.map p.frame) (p.token t) = some (p.state s) := by
  unfold Reader.startStatement at h
  split at h
  case h_8 =>
    -- a brace ends the block that is begun
    have hmoved := p.finishBlock h
    simp_all [Reader.startStatement, frame]
  case h_10 =>
    -- an operand starts an expression statement
    have hmoved := p.operandStep h
    unfold Reader.operandStep at h
    split at h <;> cases h
    all_goals simp_all [Reader.startStatement, frame]
  all_goals
    cases h
    try rw [finished]
    simp [Reader.startStatement, state, expectation, frame, *]

theorem statementStep (h : Reader.statementStep frames t = some s) :
    Reader.statementStep (frames.map p.frame) (p.token t) = some (p.state s) := by
  by_cases helse : t.terminal = .keyword .elseWord
  · unfold Reader.statementStep at h
    split at h
    · cases h
      simp [Reader.statementStep, state, expectation, frame, *]
    · rw [startStatement_else helse] at h
      cases h
  · have hmoved : (p.token t).terminal ≠ .keyword .elseWord := helse
    rw [statementStep_of_ne_else helse] at h
    rw [statementStep_of_ne_else hmoved, settle]
    exact p.startStatement h

/-- The reader takes the moved token as it takes the token itself. -/
theorem step (h : Reader.step s t = some s') :
    Reader.step (p.state s) (p.token t) = some (p.state s') := by
  obtain ⟨expectation, frames⟩ := s
  unfold Reader.step at h
  dsimp only at h
  split at h
  case h_1 => exact p.statementStep h
  case h_4 hdefine hequal =>
    exact (step_afterName (t := p.token t) hdefine hequal).trans (p.nameStep h)
  case h_5 => exact p.operandStep h
  case h_6 => exact p.nameStep h
  case h_7 => exact p.operatorStep h
  all_goals
    cases h <;> simp [Reader.step, state, Preface.expectation, frame, *]

theorem accepts_expectation (e : Expectation) : accepts (p.expectation e) = accepts e := by
  cases e <;> rfl

theorem next {accepts : Terminal → Bool} {q after : Position} {cs rest : List Char}
    (h : Lexer.next accepts q cs = .token t rest after) :
    Lexer.next accepts (p.position q) cs = .token (p.token t) rest (p.position after) := by
  obtain ⟨length, hmatch, htext, hrest, hstart, hafter⟩ := Lexer.next_eq_token_iff.1 h
  refine Lexer.next_eq_token_iff.2 ⟨length, hmatch, htext, hrest, ?_, ?_⟩
  · rw [advanceBy_position, ← hstart]
    rfl
  · rw [hafter, ← advanceBy_position]
    rfl

end Preface

variable {s final : State} {q : Position} {cs : List Char} {ts : List Token}

/-- What is taken from a text is taken from it behind a preface, moved. -/
theorem Takes.moved (p : Preface) (h : Takes s q cs ts final) :
    Takes (p.state s) (p.position q) cs (ts.map p.token) (p.state final) := by
  induction h with
  | finish hgap => exact .finish hgap
  | token hnext hstep _ ih =>
    refine .token ?_ (p.step hstep) ih
    rw [Preface.state, p.accepts_expectation]
    exact p.next hnext

/-- A program may end where a statement is expected and nothing but the program is begun. -/
theorem finish?_eq_some_iff {tree : Tree} :
    finish? s = some tree ↔ ∃ afterBlock statements, s.expectation = .statement afterBlock ∧
      settle s.frames = [.program statements] ∧
      tree = Tree.ofChildren .program statements.reverse := by
  unfold finish?
  constructor
  · intro h
    split at h
    · next hexpectation hframes =>
      cases h
      exact ⟨_, _, hexpectation, hframes, rfl⟩
    · cases h
  · rintro ⟨afterBlock, statements, hexpectation, hframes, rfl⟩
    rw [hexpectation, hframes]

end Reader

end ScriptLang
