import ScriptLang.Proofs.Lexemes
import ScriptLang.Tree.Meaning
import ScriptLang.Tree.Reader

set_option autoImplicit false

/-! # Reading written expressions

`Reader.Leads goal rest state cs` says that the reader, in `state` before the text `cs`, comes to
the text `rest` in a state with `goal`. A written expression leads to a state that holds a tree for
it (`Reader.reads_write`): an operator that is still on the stack then is one that binds at least as
tightly as its place asks for, so the next token makes it take its right operand. -/

namespace ScriptLang

/-! ## What trees mean -/

theorem Part.toExpression_node {node : Node} (h : node.isExpression = true) :
    (Part.node node).toExpression = .ok node := by
  simp [toExpression, h]

theorem Node.isExpression_of_isWritable {node : Node} (h : node.isWritable = true) :
    node.isExpression = true := by
  cases node <;> first | rfl | cases h

theorem Node.isExpression_of_areWritable {nodes : List Node} (h : areWritable nodes = true) :
    ∀ node ∈ nodes, node.isExpression = true := by
  induction nodes with
  | nil => simp
  | cons node nodes ih =>
    simp only [areWritable, Bool.and_eq_true] at h
    exact List.forall_mem_cons.2 ⟨isExpression_of_isWritable h.1, ih h.2⟩

theorem Part.mapM_toExpression_node {nodes : List Node} (h : ∀ n ∈ nodes, n.isExpression = true) :
    (nodes.map Part.node).mapM toExpression = .ok nodes := by
  induction nodes with
  | nil => rfl
  | cons node nodes ih =>
    rw [List.map_cons, List.mapM_cons, toExpression_node (h node (List.mem_cons_self ..)),
      ih fun n hn => h n (List.mem_cons_of_mem _ hn)]
    rfl

namespace Tree

/-- Whether the tree means the part, whatever text it is read from and whatever names characters
have. -/
def Denotes (tree : Tree) (part : Part) : Prop :=
  ∀ names source, tree.meaning names source = .ok part

/-- Whether the trees mean the parts, one by one. -/
def DenoteAll (trees : List Tree) (parts : List Part) : Prop :=
  ∀ names source, meanings names source trees = .ok parts

variable {tree : Tree} {trees : List Tree} {part : Part} {parts : List Part}

theorem denoteAll_nil : DenoteAll [] [] :=
  fun _ _ => rfl

theorem Denotes.cons (h : tree.Denotes part) (h' : DenoteAll trees parts) :
    DenoteAll (tree :: trees) (part :: parts) := by
  intro names source
  rw [meanings, h, h']
  rfl

theorem denotes_leaf (text : String) : (leaf text).Denotes (.token text) :=
  fun _ _ => rfl

theorem DenoteAll.branch {rule : Rule} {span : Option Span} (h : DenoteAll trees parts)
    (hrule : ∀ names place, rule.meaning names place parts = .ok part) :
    (Tree.branch rule span trees).Denotes part := by
  intro names source
  rw [meaning, h]
  exact hrule _ _

end Tree

/-- The rule of an operator. -/
def Operator.rule : Operator → Rule
  | .or => .or
  | .and => .and
  | .is | .isNot | .order _ => .comparison
  | .arithmetic .sum => .add
  | .arithmetic .sub => .sub
  | .arithmetic .mult => .mul
  | .arithmetic .div => .div
  | .unknown name => .unknown name

namespace Reader

open Lexer

variable {left right : Tree} {l r : Node}

theorem denotes_binaryTree {operator : Operator} (hoperator : operator ∈ Operator.all)
    (sign : Token)
    (hsign : operator.rule = .comparison → Rule.comparisonOperator? sign.text = some operator)
    (hleft : left.Denotes (.node l)) (hright : right.Denotes (.node r))
    (hl : l.isExpression = true) (hr : r.isExpression = true) :
    (binaryTree operator.rule left sign right).Denotes (.node (.binary operator l r)) := by
  have hboth : Tree.DenoteAll [left, right] [.node l, .node r] :=
    hleft.cons (hright.cons Tree.denoteAll_nil)
  have hmeaning (place : Place) : Rule.binaryMeaning operator place [.node l, .node r]
      = .ok (.node (.binary operator l r)) := by
    simp only [Rule.binaryMeaning, List.getLastD_nil, Part.toExpression_node hl,
      Part.toExpression_node hr]
    rfl
  by_cases hrule : operator.rule = .comparison
  · have hall : Tree.DenoteAll [left, .leaf sign.text, right]
        [.node l, .token sign.text, .node r] :=
      hleft.cons ((Tree.denotes_leaf _).cons (hright.cons Tree.denoteAll_nil))
    rw [binaryTree, if_pos hrule, hrule]
    refine hall.branch fun names place => ?_
    rw [Rule.meaning, Rule.comparisonMeaning]
    simp only [Part.text, hsign hrule]
    exact hmeaning place
  · rw [binaryTree, if_neg hrule]
    refine hboth.branch fun names place => ?_
    rw [← hmeaning place]
    simp only [Operator.all, List.mem_cons, List.not_mem_nil, or_false] at hoperator
    rcases hoperator with rfl | rfl | rfl | rfl | rfl | rfl | rfl | rfl | rfl | rfl | rfl | rfl
    all_goals first | rfl | exact absurd rfl hrule

theorem denotes_callTree {name paren : Token} {trees : List Tree} {nodes : List Node}
    (h : Tree.DenoteAll trees (nodes.map .node)) (hnodes : ∀ n ∈ nodes, n.isExpression = true) :
    (callTree name trees paren).Denotes (.node (.call name.text nodes)) := by
  have hname := Tree.denotes_leaf name.text
  cases trees with
  | nil =>
    obtain rfl : nodes = [] := by
      have hnil := h Text.unnamed []
      cases nodes with
      | nil => rfl
      | cons node nodes => cases hnil
    exact (hname.cons Tree.denoteAll_nil).branch fun _ _ => rfl
  | cons tree trees =>
    have harguments : (Tree.ofChildren .arguments (tree :: trees)).Denotes (.nodes nodes) := by
      refine h.branch fun names place => ?_
      rw [Rule.meaning, Part.mapM_toExpression_node hnodes]
      rfl
    exact (hname.cons (harguments.cons Tree.denoteAll_nil)).branch fun _ _ => rfl

/-! ## Literals -/

theorem denotes_whole {digits : List Char} (h : IsNumeral digits)
    (hlength : digits.length ≤ Integer.maxDigits) (hn : numeral digits ≤ 2147483647)
    (start : Position) :
    (Tree.ofToken .wholeLiteral ⟨.whole, String.ofList digits, start⟩).Denotes
      (.node (.literal (Value.ofInt (numeral digits)))) := by
  refine ((Tree.denotes_leaf _).cons Tree.denoteAll_nil).branch fun names place => ?_
  have hmax : ¬Int32.maxValue.toInt < (numeral digits : Int) := by
    have : Int32.maxValue.toInt = 2147483647 := rfl
    omega
  have hread : Integer.read? (String.ofList digits) = some (numeral digits : Int) := by
    rw [Integer.read?_numeral (by rwa [String.toList_ofList]), String.toList_ofList,
      String.length_ofList, if_pos hlength]
  rw [Rule.meaning, Rule.wholeMeaning, Part.text, hread]
  exact if_neg hmax

theorem denotes_text (text : String) (start : Position) :
    (Tree.ofToken .textLiteral ⟨.text, String.ofList (Value.string text).write, start⟩).Denotes
      (.node (.literal (.string text))) := by
  refine ((Tree.denotes_leaf _).cons Tree.denoteAll_nil).branch fun names place => ?_
  rw [Rule.meaning, Rule.textMeaning, Part.text, Text.decodeLiteral?_write]

/-! ## Runs of the reader -/

/-- Whether the reader comes to the text `rest` in a state with `goal`, wherever the text stands.
The state after a token depends on where the token starts, because trees record their places. -/
inductive Leads (goal : State → Prop) (rest : List Char) : State → List Char → Prop where
  | here {state : State} (h : goal state) : Leads goal rest state rest
  | gap {state : State} {c : Char} {cs : List Char} (hgap : isGap c = true)
      (h : Leads goal rest state cs) : Leads goal rest state (c :: cs)
  | token {state : State} {terminal : Terminal} {lexeme cs : List Char} {after : Position → State}
      (hne : lexeme ≠ [])
      (hmatch : match? (accepts state.expectation) (lexeme ++ cs) = some (terminal, lexeme.length))
      (hstep : ∀ start, step state ⟨terminal, String.ofList lexeme, start⟩ = some (after start))
      (hafter : ∀ start, Leads goal rest (after start) cs) :
      Leads goal rest state (lexeme ++ cs)

/-- The reader goes on from where it is led to. -/
theorem Leads.readFrom {goal : State → Prop} {rest : List Char} {state : State} {cs : List Char}
    (h : Leads goal rest state cs) (last position : Position) {fuel : Nat}
    (hfuel : cs.length ≤ fuel) :
    ∃ state' last' position' fuel', goal state' ∧
      readFrom state last position cs fuel = readFrom state' last' position' rest fuel' := by
  induction h generalizing last position fuel with
  | here hgoal => exact ⟨_, last, position, fuel, hgoal, rfl⟩
  | @gap state c cs hgap h ih =>
    obtain ⟨n, rfl⟩ := Nat.exists_eq_succ_of_ne_zero (Nat.ne_of_gt (Nat.zero_lt_of_lt hfuel))
    obtain ⟨state', last', position', fuel', hgoal, hread⟩ :=
      ih last (position.advance c) (Nat.le_of_succ_le hfuel)
    refine ⟨state', last', position', fuel', hgoal, ?_⟩
    rw [← hread, Reader.readFrom, Reader.readFrom, next_gap hgap]
  | @token state terminal lexeme cs after hne hmatch hstep hafter ih =>
    have hpos := List.length_pos_iff.2 hne
    rw [List.length_append] at hfuel
    obtain ⟨n, rfl⟩ : ∃ n, fuel = n + 1 := ⟨fuel - 1, by omega⟩
    have hrest : cs.length ≤ n := by omega
    obtain ⟨state', last', position', fuel', hgoal, hread⟩ :=
      ih position position (position.advanceBy lexeme) hrest
    refine ⟨state', last', position', fuel', hgoal, ?_⟩
    rw [← hread, Reader.readFrom, next_of_match? hne hmatch]
    dsimp only
    rw [hstep]

variable {goal : State → Prop} {state : State} {rest cs : List Char}

theorem Leads.trans {goal' : State → Prop} {rest' : List Char} (h : Leads goal rest state cs)
    (h' : ∀ state, goal state → Leads goal' rest' state rest) : Leads goal' rest' state cs := by
  induction h with
  | here hgoal => exact h' _ hgoal
  | gap hgap h ih => exact .gap hgap ih
  | token hne hmatch hstep hafter ih => exact .token hne hmatch hstep ih

/-- The line ends where the reader is led to. -/
theorem Leads.lineEnd (h : Leads goal ('\n' :: rest) state cs) : Leads goal rest state cs :=
  h.trans fun _ hgoal => .gap (by decide) (.here hgoal)

theorem Leads.spaces (h : Leads goal rest state cs) (n : Nat) :
    Leads goal rest state (List.replicate n ' ' ++ cs) := by
  induction n with
  | zero => exact h
  | succ n ih => exact .gap (by decide) ih

/-- A token leads on, if it is found and has a place. -/
theorem Leads.lexeme {terminal : Terminal} {lexeme : List Char} (hne : lexeme ≠ [])
    (hmatch : match? (accepts state.expectation) (lexeme ++ cs) = some (terminal, lexeme.length))
    (hstep : ∀ start, ∃ state', step state ⟨terminal, String.ofList lexeme, start⟩ = some state' ∧
      Leads goal rest state' cs) :
    Leads goal rest state (lexeme ++ cs) := by
  choose after hstep hafter using hstep
  exact .token hne hmatch hstep hafter

theorem Leads.symbol (s : Symbol) (haccepts : accepts state.expectation (.symbol s) = true)
    (hequal : s = .equal → cs.head? ≠ some '=')
    (hstep : ∀ start, ∃ state', step state ⟨.symbol s, s.text, start⟩ = some state' ∧
      Leads goal rest state' cs) :
    Leads goal rest state (s.text.toList ++ cs) := by
  refine .lexeme ?_ (match?_symbol haccepts hequal) ?_
  · cases s <;> decide
  · rwa [String.ofList_toList]

theorem Leads.keyword (k : Keyword) (haccepts : accepts state.expectation (.keyword k) = true)
    (hends : endsWord cs = true)
    (hstep : ∀ start, ∃ state', step state ⟨.keyword k, k.text, start⟩ = some state' ∧
      Leads goal rest state' cs) :
    Leads goal rest state (k.text.toList ++ cs) := by
  have hmatch : match? (accepts state.expectation) (k.text.toList ++ cs)
      = some (.keyword k, k.text.toList.length) := by
    cases hword : accepts state.expectation .word with
    | true => exact match?_keyword haccepts hword hends
    | false => exact match?_keyword_of_not_word haccepts hword
  refine .lexeme ?_ hmatch ?_
  · cases k <;> decide
  · rwa [String.ofList_toList]

theorem Leads.name {name : String} (hname : isName name = true)
    (haccepts : accepts state.expectation .word = true) (hends : endsWord cs = true)
    (hstep : ∀ start, ∃ state', step state ⟨.word, name, start⟩ = some state' ∧
      Leads goal rest state' cs) :
    Leads goal rest state (name.toList ++ cs) := by
  refine .lexeme ?_ (match?_name hname haccepts hends) ?_
  · intro hnil
    rw [isName, hnil] at hname
    cases hname
  · rwa [String.ofList_toList]

/-! ## Where operands start and end -/

/-- An expression may start in the state, on top of the frames. -/
inductive Opens : State → List Frame → Prop where
  | operand {frames : List Frame} : Opens ⟨.operand, frames⟩ frames
  | statement {afterBlock : Bool} {frames : List Frame} :
      Opens ⟨.statement afterBlock, frames⟩ (.expressionStatement :: settle frames)

/-- An expression has started with a name, on top of the frames. -/
inductive Named : State → Token → List Frame → Prop where
  | operand {name : Token} {frames : List Frame} :
      Named ⟨.afterOperandName name, frames⟩ name frames
  | statement {name : Token} {frames : List Frame} :
      Named ⟨.afterName name, frames⟩ name (.expressionStatement :: frames)

/-- The state holds an operand, on top of the frames. -/
inductive Holds : State → Tree → List Frame → Prop where
  | operator {operand : Tree} {frames : List Frame} :
      Holds ⟨.operator operand, frames⟩ operand frames
  | name {state : State} {name : Token} {frames : List Frame} (h : Named state name frames) :
      Holds state (Tree.ofToken .reference name) frames

variable {frames : List Frame}

theorem Opens.accepts (h : Opens state frames) {t : Terminal} (ht : startsOperand t = true) :
    accepts state.expectation t = true := by
  cases h with
  | operand => simp [Reader.accepts, ht]
  | statement =>
    have hstatement : startsStatement t = true := by
      unfold startsStatement
      split
      all_goals first | rfl | exact ht
    simp [Reader.accepts, hstatement]

theorem Opens.step (h : Opens state frames) {t : Token} (ht : startsOperand t.terminal = true)
    (hword : t.terminal ≠ .word) : step state t = operandStep frames t := by
  obtain ⟨terminal, text, start⟩ := t
  cases h with
  | operand => rfl
  | statement =>
    dsimp only at ht hword
    unfold startsOperand at ht
    split at ht
    all_goals first | rfl | exact absurd rfl hword | cases ht

/-- A name that starts an expression. -/
theorem Opens.name (h : Opens state frames) (text : String) (start : Position) :
    ∃ state', Reader.step state ⟨.word, text, start⟩ = some state' ∧
      Named state' ⟨.word, text, start⟩ frames := by
  cases h with
  | operand => exact ⟨_, rfl, .operand⟩
  | statement => exact ⟨_, rfl, .statement⟩

variable {name : Token} {operand tree : Tree} {least : Nat}

/-- A parenthesis after a name starts the arguments of a call. -/
theorem Named.step (h : Named state name frames) (start : Position) :
    Reader.step state ⟨.symbol .leftParen, Symbol.leftParen.text, start⟩
      = some ⟨.operand, .arguments name [] :: frames⟩ := by
  cases h <;> rfl

theorem Named.accepts (h : Named state name frames) :
    Reader.accepts state.expectation (.symbol .leftParen) = true := by
  cases h <;> rfl

theorem Holds.accepts (h : Holds state operand frames) {t : Terminal}
    (ht : followsOperand t = true) : Reader.accepts state.expectation t = true := by
  rcases h with _ | (_ | _) <;> simp [Reader.accepts, ht]

theorem Holds.accepts_word (h : Holds state operand frames) :
    Reader.accepts state.expectation .word = false := by
  rcases h with _ | (_ | _) <;> rfl

theorem Holds.step (h : Holds state operand frames) {t : Token}
    (ht : followsOperand t.terminal = true) :
    Reader.step state t = operatorStep operand frames t := by
  obtain ⟨terminal, text, start⟩ := t
  rcases h with _ | (_ | _)
  · rfl
  all_goals
    dsimp only at ht
    unfold followsOperand at ht
    split at ht
    all_goals first | rfl | cases ht

/-! ## Operators that wait -/

/-- Whether the operator on top of the frames, if there is one, binds less tightly than `least`. -/
def waits (least : Nat) : List Frame → Bool
  | .binary rule _ _ :: _ => tightness rule < least
  | .negation _ :: _ => false
  | _ => true

theorem reduce_of_waits {l : Nat} (h : waits least frames = true) (hl : least ≤ l) :
    reduce l tree frames = (tree, frames) := by
  unfold waits at h
  split at h
  · have h := of_decide_eq_true h
    rw [reduce, if_neg (by omega)]
  · cases h
  · rw [reduce] <;> assumption

/-- The state holds the last operand of an expression: an operator that binds no more tightly than
`least` finds `tree` in front of it. -/
def Completes (least : Nat) (tree : Tree) (frames : List Frame) (state : State) : Prop :=
  ∃ operand frames', Holds state operand frames' ∧
    ∀ l ≤ least, reduce l operand frames' = reduce l tree frames

theorem Holds.completes (h : Holds state tree frames) : Completes least tree frames state :=
  ⟨tree, frames, h, fun _ _ => rfl⟩

theorem Completes.accepts (h : Completes least tree frames state) {t : Terminal}
    (ht : followsOperand t = true) : Reader.accepts state.expectation t = true := by
  obtain ⟨operand, frames', hholds, -⟩ := h
  exact hholds.accepts ht

theorem Completes.accepts_word (h : Completes least tree frames state) :
    Reader.accepts state.expectation .word = false := by
  obtain ⟨operand, frames', hholds, -⟩ := h
  exact hholds.accepts_word

theorem Completes.step_end (h : Completes least tree frames state) (hwaits : waits 0 frames = true)
    {t : Token} (ht : followsOperand t.terminal = true) (hrule : binaryRule? t.terminal = none) :
    Reader.step state t = endExpression tree frames t := by
  obtain ⟨operand, frames', hholds, hreduce⟩ := h
  rw [hholds.step ht, operatorStep, hrule]
  dsimp only
  rw [hreduce 0 (Nat.zero_le _), reduce_of_waits hwaits (Nat.zero_le _)]

theorem Completes.step_operator (h : Completes least tree frames state) {rule : Rule}
    (hwaits : waits (tightness rule) frames = true) (hleast : leftTightness rule ≤ least)
    {t : Token} (ht : followsOperand t.terminal = true)
    (hrule : binaryRule? t.terminal = some rule) :
    Reader.step state t = some ⟨.operand, .binary rule tree t :: frames⟩ := by
  obtain ⟨operand, frames', hholds, hreduce⟩ := h
  have htight : tightness rule ≤ leftTightness rule := by
    unfold leftTightness
    split <;> omega
  rw [hholds.step ht, operatorStep, hrule]
  show pushBinary rule operand frames' t = _
  unfold pushBinary
  rw [hreduce _ hleast, reduce_of_waits hwaits htight]
  split
  -- a comparison is refused after a comparison, but none waits on top of these frames
  · next hframes =>
    cases hframes
    simp [waits] at hwaits
  · next hframes =>
    cases hframes
    rfl

/-! ## Written expressions -/

/-- Whether a written expression is read as itself: the reader comes to a state that holds a tree
for it. -/
def Reads (layout : Layout) (e : Node) : Prop :=
  ∀ ⦃least : Nat⦄ ⦃state : State⦄ ⦃frames : List Frame⦄ ⦃rest : List Char⦄, Opens state frames →
    waits least frames = true → endsToken rest = true →
    Leads (fun state' => ∃ tree, tree.Denotes (.node e) ∧ Completes least tree frames state') rest
      state (e.write layout least ++ rest)

/-- Whether a text is read as an expression where no operator waits for it. -/
def ReadsAlone (code : List Char) (e : Node) : Prop :=
  ∀ ⦃state : State⦄ ⦃frames : List Frame⦄ ⦃rest : List Char⦄, Opens state frames →
    waits 0 frames = true → endsToken rest = true →
    Leads (fun state' => ∃ tree, tree.Denotes (.node e) ∧ Completes 0 tree frames state') rest
      state (code ++ rest)

/-- Whether a text is read as an operand: no operator in front of it can take only a part of it. -/
def ReadsOperand (code : List Char) (e : Node) : Prop :=
  ∀ ⦃least : Nat⦄ ⦃state : State⦄ ⦃frames : List Frame⦄ ⦃rest : List Char⦄, Opens state frames →
    endsToken rest = true →
    Leads (fun state' => ∃ tree, tree.Denotes (.node e) ∧ Completes least tree frames state') rest
      state (code ++ rest)

variable {layout : Layout} {code : List Char} {e : Node}

theorem Reads.alone (h : Reads layout e) : ReadsAlone (e.write layout 0) e :=
  fun _ _ _ hopens hwaits hends => h hopens hwaits hends

theorem ReadsOperand.alone (h : ReadsOperand code e) : ReadsAlone code e :=
  fun _ _ _ hopens _ hends => h hopens hends

/-- An expression that is written as an operand is never put into parentheses. -/
theorem ReadsOperand.reads (h : ReadsOperand code e)
    (hwrite : ∀ least, e.write layout least = code) : Reads layout e := by
  intro least state frames rest hopens _ hends
  rw [hwrite]
  exact h hopens hends

/-- A sign in front of an operand waits on the stack, and every operator lets it take the operand
first. -/
theorem ReadsOperand.negated (h : ReadsOperand code e) (he : e.isExpression = true) :
    ReadsOperand ('-' :: code) (Rule.negated e) := by
  intro least state frames rest hopens hends
  refine .symbol .minus (hopens.accepts rfl) (by simp) fun sign => ?_
  refine ⟨_, hopens.step rfl (by simp), (@h least _ _ _ .operand hends).trans ?_⟩
  rintro state' ⟨tree, hdenotes, operand, frames', hholds, hreduce⟩
  refine .here ⟨Tree.after .negation ⟨.symbol .minus, Symbol.minus.text, sign⟩ [tree], ?_,
    operand, frames', hholds, hreduce⟩
  refine (hdenotes.cons Tree.denoteAll_nil).branch fun names place => ?_
  rw [Rule.meaning, Part.toExpression_node he]
  rfl

theorem readsOperand_reference {name : String} (h : isName name = true) :
    ReadsOperand name.toList (.reference name) := by
  intro least state frames rest hopens hends
  refine .name h (hopens.accepts rfl) (endsWord_of_endsToken hends) fun start => ?_
  obtain ⟨state', hstep, hnamed⟩ := hopens.name name start
  refine ⟨state', hstep, .here ⟨_, ?_, (Holds.name hnamed).completes⟩⟩
  exact ((Tree.denotes_leaf name).cons Tree.denoteAll_nil).branch fun _ _ => rfl

theorem readsOperand_whole {digits : List Char} (h : IsNumeral digits)
    (hlength : digits.length ≤ Integer.maxDigits) (hn : numeral digits ≤ 2147483647) :
    ReadsOperand digits (.literal (Value.ofInt (numeral digits))) := by
  intro least state frames rest hopens hends
  refine .lexeme h.1 (match?_whole h (hopens.accepts rfl) hends) fun start => ?_
  exact ⟨_, hopens.step rfl (by simp),
    .here ⟨_, denotes_whole h hlength hn start, Holds.operator.completes⟩⟩

theorem readsOperand_toDigits {n : Nat} (hn : n ≤ 2147483647) :
    ReadsOperand (Nat.toDigits 10 n) (.literal (Value.ofInt n)) := by
  have h := readsOperand_whole (Integer.isNumeral_toDigits n) (Integer.length_toDigits_le hn)
  rw [Integer.numeral_toDigits] at h
  exact h hn

theorem readsOperand_literal {value : Value} (h : value.isWritable = true) :
    ReadsOperand value.write (.literal value) := by
  cases value with
  | bool truth =>
    intro least state frames rest hopens hends
    cases truth
    · refine .keyword .falseWord (hopens.accepts rfl) (endsWord_of_endsToken hends) fun start => ?_
      refine ⟨_, hopens.step rfl (by simp), .here ⟨_, ?_, Holds.operator.completes⟩⟩
      exact Tree.denoteAll_nil.branch fun _ _ => rfl
    · refine .keyword .trueWord (hopens.accepts rfl) (endsWord_of_endsToken hends) fun start => ?_
      refine ⟨_, hopens.step rfl (by simp), .here ⟨_, ?_, Holds.operator.completes⟩⟩
      exact Tree.denoteAll_nil.branch fun _ _ => rfl
  | string text =>
    intro least state frames rest hopens _
    refine .lexeme (by simp [Value.write]) (match?_text text (hopens.accepts rfl)) fun start => ?_
    refine ⟨_, hopens.step rfl (by simp), .here ⟨_, ?_, Holds.operator.completes⟩⟩
    exact denotes_text text start
  | integer n =>
    have hlow : -2147483647 ≤ n.toInt := of_decide_eq_true h
    have hhigh : n.toInt < 2 ^ 31 := n.toInt_lt
    have hsize : n.toInt.natAbs ≤ 2147483647 := by omega
    have hreads := readsOperand_toDigits hsize
    rw [Value.write]
    split
    · next hneg =>
      have hvalue : Rule.negated (.literal (Value.ofInt n.toInt.natAbs))
          = .literal (.integer n) := by
        have hwrap : (Integer.wrap n.toInt.natAbs).toInt = n.toInt.natAbs :=
          Int32.toInt_ofInt_of_le (by omega) (by omega)
        have hnat : -(n.toInt.natAbs : Int) = n.toInt := by omega
        rw [Value.ofInt, Rule.negated, hwrap, hnat, Value.ofInt, Integer.wrap, Int32.ofInt_toInt]
      rw [← hvalue]
      exact hreads.negated rfl
    · next hneg =>
      have hvalue : Value.ofInt n.toInt.natAbs = .integer n := by
        have hnat : (n.toInt.natAbs : Int) = n.toInt := by omega
        rw [hnat, Value.ofInt, Integer.wrap, Int32.ofInt_toInt]
      rwa [hvalue] at hreads
  | void => cases h
  | float number => cases h

/-- A word that reads input, with its parentheses. -/
theorem leads_input {k : Keyword} {rule : Rule} {kind : InputKind}
    (hstarts : startsOperand (.keyword k) = true)
    (hstep : ∀ frames start, operandStep frames ⟨.keyword k, k.text, start⟩
      = some ⟨.readOpen rule ⟨.keyword k, k.text, start⟩, frames⟩)
    (hmeaning : ∀ names place, rule.meaning names place [] = .ok (.node (.input kind)))
    (hopens : Opens state frames) :
    Leads (fun state' => ∃ tree, tree.Denotes (.node (.input kind)) ∧
      Completes least tree frames state') rest state (k.text.toList ++ ['(', ')'] ++ rest) := by
  rw [List.append_assoc]
  refine .keyword k (hopens.accepts hstarts) rfl fun start => ?_
  refine ⟨_, (hopens.step hstarts (by simp)).trans (hstep frames start), ?_⟩
  refine .symbol .leftParen rfl (by simp) fun _ => ?_
  refine ⟨_, rfl, .symbol .rightParen rfl (by simp) fun _ => ?_⟩
  exact ⟨_, rfl, .here ⟨_, Tree.denoteAll_nil.branch hmeaning, Holds.operator.completes⟩⟩

theorem reads_input {kind : InputKind} (h : (Node.input kind).isWritable = true) :
    Reads layout (.input kind) := by
  intro least state frames rest hopens _ hends
  cases kind with
  | number => exact leads_input rfl (fun _ _ => rfl) (fun _ _ => rfl) hopens
  | text => exact leads_input rfl (fun _ _ => rfl) (fun _ _ => rfl) hopens
  | other name => cases h

/-- Expressions with commas between them, in a frame that lists them. -/
theorem leads_commas {list : List Tree → Frame}
    (hwaits : ∀ trees, waits 0 (list trees :: frames) = true)
    (hcomma : ∀ tree trees text start, endExpression tree (list trees :: frames)
      ⟨.symbol .comma, text, start⟩ = some ⟨.operand, list (tree :: trees) :: frames⟩)
    {e : Node} {es : List Node} (h : ∀ node ∈ e :: es, Reads layout node)
    (hends : endsToken rest = true) (before : List Tree) :
    Leads (fun state' => ∃ tree trees, Completes 0 tree (list trees :: frames) state' ∧
        ∃ all, (tree :: trees).reverse = before.reverse ++ all ∧
          Tree.DenoteAll all ((e :: es).map .node))
      rest ⟨.operand, list before :: frames⟩ (commas (Node.writeAll layout (e :: es)) ++ rest) := by
  induction es generalizing e before with
  | nil =>
    refine (h e (by simp) .operand (hwaits before) hends).trans ?_
    rintro state' ⟨tree, hdenotes, hcompletes⟩
    refine .here ⟨tree, before, hcompletes, [tree], by simp, ?_⟩
    exact hdenotes.cons Tree.denoteAll_nil
  | cons e' es ih =>
    -- the comma puts the tree of `e` in front of `before`, and the rest is read with that
    rw [Node.writeAll, Node.writeAll, commas, List.append_assoc]
    · refine (h e (by simp) .operand (hwaits before) rfl).trans ?_
      rintro state' ⟨tree, hdenotes, hcompletes⟩
      refine .symbol .comma (hcompletes.accepts rfl) (by simp) fun start => ?_
      refine ⟨_, (hcompletes.step_end (hwaits before) rfl rfl).trans (hcomma ..), ?_⟩
      have hes : ∀ node ∈ e' :: es, Reads layout node := fun node hnode =>
        h node (List.mem_cons_of_mem _ hnode)
      refine .gap (by decide) ((ih hes (tree :: before)).trans ?_)
      rintro state' ⟨tree', trees, hcompletes', all, hreverse, hall⟩
      refine .here ⟨tree', trees, hcompletes', tree :: all, ?_, hdenotes.cons hall⟩
      rw [hreverse]
      simp
    · simp

theorem reads_call {name : String} {arguments : List Node} (hname : isName name = true)
    (hwritable : Node.areWritable arguments = true)
    (harguments : ∀ node ∈ arguments, Reads layout node) :
    Reads layout (.call name arguments) := by
  intro least state frames rest hopens _ hends
  rw [Node.write, List.append_assoc, List.cons_append, List.append_assoc]
  refine .name hname (hopens.accepts rfl) rfl fun start => ?_
  obtain ⟨state', hstep, hnamed⟩ := hopens.name name start
  refine ⟨state', hstep, .symbol .leftParen hnamed.accepts (by simp) fun _ => ?_⟩
  refine ⟨_, hnamed.step _, ?_⟩
  have hexpressions := Node.isExpression_of_areWritable hwritable
  cases arguments with
  | nil =>
    refine .symbol .rightParen rfl (by simp) fun _ => ?_
    refine ⟨_, rfl, .here ⟨_, ?_, Holds.operator.completes⟩⟩
    exact denotes_callTree Tree.denoteAll_nil hexpressions
  | cons e es =>
    refine (leads_commas (fun _ => rfl) (fun _ _ _ _ => rfl) harguments rfl []).trans ?_
    rintro state'' ⟨tree, trees, hcompletes, all, hreverse, hall⟩
    refine .symbol .rightParen (hcompletes.accepts rfl) (by simp) fun _ => ?_
    refine ⟨_, hcompletes.step_end rfl rfl rfl, .here ⟨_, ?_, Holds.operator.completes⟩⟩
    rw [hreverse]
    exact denotes_callTree hall hexpressions

/-- The sign of an operator between spaces is found. -/
theorem match?_operator {accepts : Terminal → Bool} {operator : Operator}
    (hoperator : operator ∈ Operator.all) (words : Bool)
    (haccepts : ∀ t, followsOperand t = true → accepts t = true) (hword : accepts .word = false)
    (cs : List Char) :
    ∃ terminal, binaryRule? terminal = some operator.rule ∧ followsOperand terminal = true ∧
      match? accepts ((operator.spelling words).toList ++ ' ' :: cs)
        = some (terminal, (operator.spelling words).toList.length) := by
  cases operator with
  | arithmetic operation =>
    cases operation with
    | sum => exact ⟨.symbol .plus, rfl, rfl, match?_symbol (haccepts _ rfl) (by simp)⟩
    | sub => exact ⟨.symbol .minus, rfl, rfl, match?_symbol (haccepts _ rfl) (by simp)⟩
    | mult => exact ⟨.symbol .star, rfl, rfl, match?_symbol (haccepts _ rfl) (by simp)⟩
    | div => exact ⟨.symbol .slash, rfl, rfl, match?_symbol (haccepts _ rfl) (by simp)⟩
  | is =>
    have hmem : Operator.spelling words .is ∈ comparisons := by
      simp [Operator.spelling, comparisons]
    exact ⟨.comparison, rfl, rfl, match?_comparison hmem (haccepts _ rfl)⟩
  | isNot =>
    have hmem : Operator.spelling words .isNot ∈ comparisons := by
      simp [Operator.spelling, comparisons]
    exact ⟨.comparison, rfl, rfl, match?_comparison hmem (haccepts _ rfl)⟩
  | order relation =>
    have hmem : Operator.spelling words (.order relation) ∈ comparisons := by
      cases relation <;> simp [Operator.spelling, comparisons]
    exact ⟨.comparison, rfl, rfl, match?_comparison hmem (haccepts _ rfl)⟩
  | and =>
    cases words
    · exact ⟨.symbol .ampersands, rfl, rfl, match?_symbol (haccepts _ rfl) (by simp)⟩
    · exact ⟨.keyword .and, rfl, rfl, match?_keyword_of_not_word (haccepts _ rfl) hword⟩
  | or =>
    cases words
    · exact ⟨.symbol .bars, rfl, rfl, match?_symbol (haccepts _ rfl) (by simp)⟩
    · exact ⟨.keyword .or, rfl, rfl, match?_keyword_of_not_word (haccepts _ rfl) hword⟩
  | unknown name => simp [Operator.all] at hoperator

theorem operator_levels : ∀ operator ∈ Operator.all, tightness operator.rule = operator.level ∧
    leftTightness operator.rule = operator.leftLevel ∧ operator.level ≤ operator.leftLevel := by
  decide

theorem operator_spelling_ne_nil : ∀ words, ∀ operator ∈ Operator.all,
    (Operator.spelling words operator).toList ≠ [] := by
  decide

theorem comparisonOperator?_spelling : ∀ words, ∀ operator ∈ Operator.all,
    operator.rule = .comparison →
      Rule.comparisonOperator? (operator.spelling words) = some operator := by
  decide

theorem waits_mono {least' : Nat} (h : waits least frames = true) (hle : least ≤ least') :
    waits least' frames = true := by
  unfold waits at h ⊢
  split at h
  · simp only [decide_eq_true_eq] at h ⊢
    omega
  · cases h
  · rfl

/-- A binary expression without parentheses. The operator waits on the stack while its right operand
is read; where `least` or a looser operator comes next, it takes that operand. -/
theorem leads_binary {operator : Operator} (hoperator : operator ∈ Operator.all) {left right : Node}
    (hl : left.isExpression = true) (hr : right.isExpression = true) (hleft : Reads layout left)
    (hright : Reads layout right) (hleast : least ≤ operator.level) (hopens : Opens state frames)
    (hwaits : waits least frames = true) (hends : endsToken rest = true) :
    Leads (fun state' => ∃ tree, tree.Denotes (.node (.binary operator left right)) ∧
        Completes least tree frames state')
      rest state (left.write layout operator.leftLevel ++ ' ' ::
        ((operator.spelling layout.words).toList ++ ' ' ::
          (right.write layout (operator.level + 1) ++ rest))) := by
  obtain ⟨hlevel, hleftLevel, hle⟩ := operator_levels operator hoperator
  -- nothing on the stack binds tightly enough to take the left operand away
  refine (hleft hopens (waits_mono hwaits (hleast.trans hle)) rfl).trans ?_
  rintro state₁ ⟨tree, hdenotes, hcompletes⟩
  obtain ⟨terminal, hrule, hfollows, hmatch⟩ := match?_operator hoperator layout.words
    (fun _ => hcompletes.accepts) hcompletes.accepts_word
    (right.write layout (operator.level + 1) ++ rest)
  have hne := operator_spelling_ne_nil layout.words operator hoperator
  refine .gap (by decide) (.lexeme hne hmatch fun start => ?_)
  rw [String.ofList_toList]
  refine ⟨_, hcompletes.step_operator (waits_mono hwaits (hleast.trans hlevel.ge)) hleftLevel.le
    hfollows hrule, ?_⟩
  have hwaits' (t : Token) :
      waits (operator.level + 1) (.binary operator.rule tree t :: frames) = true := by
    simp only [waits, decide_eq_true_eq]
    omega
  refine .gap (by decide) ((hright .operand (hwaits' _) hends).trans ?_)
  rintro state₂ ⟨tree', hdenotes', operand, frames', hholds, hreduce⟩
  have hbinary := denotes_binaryTree hoperator ⟨terminal, operator.spelling layout.words, start⟩
    (comparisonOperator?_spelling layout.words operator hoperator) hdenotes hdenotes' hl hr
  refine .here ⟨_, hbinary, operand, frames', hholds, fun l hle => ?_⟩
  -- `l` is at most the level of the operator, so the operator on top takes the right operand
  rw [hreduce l (by omega), reduce, if_pos (by omega)]

theorem reads_binary {operator : Operator} {left right : Node}
    (hoperator : operator ∈ Operator.all) (hl : left.isExpression = true)
    (hr : right.isExpression = true) (hleft : Reads layout left) (hright : Reads layout right) :
    Reads layout (.binary operator left right) := by
  intro least state frames rest hopens hwaits hends
  rw [Node.write, grouped]
  split
  · next hneeded =>
    simp only [List.cons_append, List.append_assoc, List.nil_append]
    refine .symbol .leftParen (hopens.accepts rfl) (by simp) fun _ => ?_
    refine ⟨_, hopens.step rfl (by simp), ?_⟩
    refine (leads_binary hoperator hl hr hleft hright le_rfl .operand rfl rfl).trans ?_
    rintro state' ⟨tree, hdenotes, hcompletes⟩
    refine .symbol .rightParen (hcompletes.accepts rfl) (by simp) fun _ => ?_
    exact ⟨_, hcompletes.step_end rfl rfl rfl, .here ⟨tree, hdenotes, Holds.operator.completes⟩⟩
  · next hneeded =>
    simp only [List.cons_append, List.append_assoc]
    exact leads_binary hoperator hl hr hleft hright (by simpa using hneeded) hopens hwaits hends

mutual

/-- Every expression that can be written is read as itself. -/
theorem reads_write (layout : Layout) : ∀ node : Node, node.isWritable = true → Reads layout node
  | .reference _, h => (readsOperand_reference h).reads fun _ => rfl
  | .literal _, h => (readsOperand_literal h).reads fun _ => rfl
  | .binary operator left right, h => by
    simp only [Node.isWritable, Bool.and_eq_true, decide_eq_true_eq] at h
    exact reads_binary h.1.1 (Node.isExpression_of_isWritable h.1.2)
      (Node.isExpression_of_isWritable h.2) (reads_write layout left h.1.2)
      (reads_write layout right h.2)
  | .call name arguments, h => by
    simp only [Node.isWritable, Bool.and_eq_true] at h
    exact reads_call h.1 h.2 (reads_writeAll layout arguments h.2)
  | .input _, h => reads_input h
  | .block _, h | .program _, h | .print _, h | .definition _ _, h | .assignment _ _, h
  | .conditional _ _ _, h | .loop _ _, h | .function _ _ _, h | .callStatement _ _, h
  | .returning _, h | .expressionStatement _, h | .valueStatement _, h | .fragment _, h => by
    cases h
termination_by structural node => node

theorem reads_writeAll (layout : Layout) : ∀ nodes : List Node, Node.areWritable nodes = true →
    ∀ node ∈ nodes, Reads layout node
  | [], _ => by simp
  | node :: nodes, h => by
    simp only [Node.areWritable, Bool.and_eq_true] at h
    exact List.forall_mem_cons.2
      ⟨reads_write layout node h.1, reads_writeAll layout nodes h.2⟩
termination_by structural nodes => nodes

end

end Reader

end ScriptLang
