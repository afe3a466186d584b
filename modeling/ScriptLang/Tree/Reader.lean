import ScriptLang.Token.Lexer
import ScriptLang.Tree

set_option autoImplicit false

/-! # From tokens to parse trees

The reader is a machine that takes one token after the other. What is begun and not yet complete
lies on a stack of frames, the innermost first, and an expectation says what may come next. An
operator waits on the stack until the token after its right operand shows that nothing binds that
operand more tightly.

The operators bind in this order, the loosest first: `or`, `and`, the comparisons, `+` and `-`, `*`
and `/`, the sign `-`. Comparisons do not chain; the other binary operators group to the left. -/

namespace ScriptLang

/-- The stretch of text that a token covers. -/
def Token.span (t : Token) : Span :=
  ⟨t.start.offset, t.stop⟩

namespace Tree

/-- The stretch from the first to the last of two stretches, if both are known. -/
def cover? (first last : Option Span) : Option Span :=
  match first, last with
  | some first, some last => some (first.cover last)
  | _, _ => none

/-- A branch that covers its children. -/
def ofChildren (rule : Rule) (children : List Tree) : Tree :=
  .branch rule (cover? (children.head?.bind span?) (children.getLast?.bind span?)) children

/-- A branch for a single token that it keeps as its leaf. -/
def ofToken (rule : Rule) (t : Token) : Tree :=
  .branch rule t.span [.leaf t.text]

/-- A branch from one token to another. -/
def between (rule : Rule) (first last : Token) (children : List Tree) : Tree :=
  .branch rule (first.span.cover last.span) children

/-- A branch from a token to its last child. -/
def after (rule : Rule) (first : Token) (children : List Tree) : Tree :=
  .branch rule (cover? first.span (children.getLast?.bind span?)) children

end Tree

namespace Reader

/-! ## Operators -/

/-- The rule of a binary operator. -/
def binaryRule? : Terminal → Option Rule
  | .symbol .bars | .keyword .or => some .or
  | .symbol .ampersands | .keyword .and => some .and
  | .comparison => some .comparison
  | .symbol .plus => some .add
  | .symbol .minus => some .sub
  | .symbol .star => some .mul
  | .symbol .slash => some .div
  | _ => none

/-- How tightly the rule of a binary operator binds. -/
def tightness : Rule → Nat
  | .or => 1
  | .and => 2
  | .comparison => 3
  | .add | .sub => 4
  | .mul | .div => 5
  | _ => 0

/-- The tightness from which on an operator takes its left operand before the operator of `rule`. -/
def leftTightness (rule : Rule) : Nat :=
  if rule = .comparison then tightness rule + 1 else tightness rule

/-! ## The machine -/

/-- A construct that is begun and not yet complete. The statements and expressions of a frame are
listed last first. -/
inductive Frame where
  | program (statements : List Tree)
  | block (brace : Token) (statements : List Tree)
  | print (word : Token) (expressions : List Tree)
  | definition (name : Token)
  | assignment (name : Token)
  | returning (word : Token)
  | expressionStatement
  | ifCondition (word : Token)
  | ifThen (word : Token) (condition : Tree)
  /-- A conditional that an `else` can extend. -/
  | ifDone (word : Token) (condition thenBlock : Tree)
  | ifElse (word : Token) (condition thenBlock : Tree)
  | whileCondition (word : Token)
  | whileBody (word : Token) (condition : Tree)
  | functionBody (word name : Token) (parameters : Option Tree)
  | group
  | arguments (name : Token) (expressions : List Tree)
  | binary (rule : Rule) (left : Tree) (sign : Token)
  | negation (sign : Token)

/-- What may come next. -/
inductive Expectation where
  /-- A statement, or the end of what encloses it. -/
  | statement (afterBlock : Bool)
  /-- The rest of a statement that starts with a name. -/
  | afterName (name : Token)
  /-- An operand. -/
  | operand
  /-- The rest of an operand that starts with a name. -/
  | afterOperandName (name : Token)
  /-- An operator, or the end of the expression. -/
  | operator (operand : Tree)
  /-- The parentheses after a word that reads input. -/
  | readOpen (rule : Rule) (word : Token)
  | readClose (rule : Rule) (word : Token)
  /-- The parts of the head of a function. -/
  | functionName (word : Token)
  | functionOpen (word name : Token)
  | parameter (word name : Token) (parameters : List Token)
  | afterParameter (word name : Token) (parameters : List Token)
  | functionBrace (word name : Token) (parameters : Option Tree)
  /-- What follows `else`. -/
  | elseBranch

/-- The state of the machine. -/
structure State where
  expectation : Expectation
  frames : List Frame

namespace State

/-- Nothing is read yet. -/
def initial : State :=
  ⟨.statement false, [.program []]⟩

end State

/-! ## Accepted tokens -/

/-- Whether an operand can start with the token. -/
def startsOperand : Terminal → Bool
  | .keyword .trueWord | .keyword .falseWord | .keyword .readNumber | .keyword .readText
  | .word | .whole | .decimal | .text | .symbol .leftParen | .symbol .minus => true
  | _ => false

/-- Whether a statement can start with the token, or the enclosing block end with it. -/
def startsStatement : Terminal → Bool
  | .keyword .print | .keyword .ifWord | .keyword .whileWord | .keyword .fn | .keyword .function
  | .keyword .returnWord | .symbol .semicolon | .symbol .rightBrace => true
  | t => startsOperand t

/-- Whether the token can follow an operand. -/
def followsOperand : Terminal → Bool
  | .comparison | .symbol .plus | .symbol .minus | .symbol .star | .symbol .slash | .symbol .bars
  | .symbol .ampersands | .keyword .or | .keyword .and | .symbol .comma | .symbol .semicolon
  | .symbol .rightParen | .symbol .leftBrace => true
  | _ => false

/-- The tokens that are tried where something is expected. After any block an `else` is tried, also
where the block is none of a conditional. -/
def accepts (expectation : Expectation) (t : Terminal) : Bool :=
  match expectation with
  | .statement afterBlock => startsStatement t || (afterBlock && t = .keyword .elseWord)
  | .afterName _ =>
    followsOperand t || t = .symbol .define || t = .symbol .equal || t = .symbol .leftParen
  | .operand => startsOperand t || t = .symbol .semicolon || t = .symbol .rightParen
  | .afterOperandName _ => followsOperand t || t = .symbol .leftParen
  | .operator _ => followsOperand t
  | .readOpen .. | .functionOpen .. => t = .symbol .leftParen
  | .readClose .. => t = .symbol .rightParen
  | .functionName _ => t = .word
  | .parameter .. => t = .word || t = .symbol .rightParen
  | .afterParameter .. => t = .symbol .comma || t = .symbol .rightParen
  | .functionBrace .. => t = .symbol .leftBrace
  | .elseBranch => t = .symbol .leftBrace || t = .keyword .ifWord

/-! ## Completing constructs -/

/-- A binary expression; a comparison keeps its sign. -/
def binaryTree (rule : Rule) (left : Tree) (sign : Token) (right : Tree) : Tree :=
  let children := if rule = .comparison then [left, .leaf sign.text, right] else [left, right]
  .branch rule (Tree.cover? left.span? right.span?) children

/-- The conditional with or without a branch for `else`. -/
def conditionalTree (word : Token) (condition thenBlock : Tree) (elseBranch : Option Tree) : Tree :=
  Tree.after .conditional word ([condition, thenBlock] ++ elseBranch.toList)

/-- A call with its arguments. -/
def callTree (name : Token) (expressions : List Tree) (paren : Token) : Tree :=
  let arguments := if expressions.isEmpty then [] else [Tree.ofChildren .arguments expressions]
  Tree.between .call name paren (.leaf name.text :: arguments)

/-- The parameters of a function, if it has some. -/
def parametersTree? (parameters : List Token) : Option Tree :=
  match parameters, parameters.getLast? with
  | first :: _, some last =>
    some (Tree.between .parameters first last (parameters.map fun t => .leaf t.text))
  | _, _ => none

/-- The operators on top of the stack that bind at least as tightly as `least` take their right
operand. -/
def reduce (least : Nat) (operand : Tree) : List Frame → Tree × List Frame
  | .binary rule left sign :: frames =>
    if least ≤ tightness rule then reduce least (binaryTree rule left sign operand) frames
    else (operand, .binary rule left sign :: frames)
  | .negation sign :: frames => reduce least (Tree.after .negation sign [operand]) frames
  | frames => (operand, frames)

/-- A complete statement joins the statements of what encloses it. As the branch for `else` of a
conditional it completes that one too. -/
def finishStatement (statement : Tree) : List Frame → List Frame
  | .program statements :: frames => .program (statement :: statements) :: frames
  | .block brace statements :: frames => .block brace (statement :: statements) :: frames
  | .ifElse word condition thenBlock :: frames =>
    finishStatement (conditionalTree word condition thenBlock (some statement)) frames
  | frames => frames

/-- A conditional that no `else` extends is complete. -/
def settle : List Frame → List Frame
  | .ifDone word condition thenBlock :: frames =>
    finishStatement (conditionalTree word condition thenBlock none) frames
  | frames => frames

/-- The state after a complete statement. -/
def finished (statement : Tree) (frames : List Frame) : State :=
  ⟨.statement false, finishStatement statement frames⟩

/-- The state after a complete block. -/
def finishBlock (block : Tree) : List Frame → Option State
  | .ifThen word condition :: frames =>
    some ⟨.statement true, .ifDone word condition block :: frames⟩
  | .ifElse word condition thenBlock :: frames =>
    some ⟨.statement true,
      finishStatement (conditionalTree word condition thenBlock (some block)) frames⟩
  | .whileBody word condition :: frames =>
    some ⟨.statement true, finishStatement (Tree.after .loop word [condition, block]) frames⟩
  | .functionBody word name parameters :: frames =>
    let children := .leaf name.text :: (parameters.toList ++ [block])
    some ⟨.statement true, finishStatement (Tree.after .function word children) frames⟩
  | _ => none

/-! ## Steps

Each step takes a token where something is expected; it has no result where the grammar has no place
for the token. -/

/-- A token after a complete operand that is no binary operator: it ends the expression. -/
def endExpression (expression : Tree) (frames : List Frame) (t : Token) : Option State :=
  match t.terminal, frames with
  | .symbol .semicolon, .print word expressions :: frames =>
    some (finished (Tree.between .print word t (expression :: expressions).reverse) frames)
  | .symbol .comma, .print word expressions :: frames =>
    some ⟨.operand, .print word (expression :: expressions) :: frames⟩
  | .symbol .semicolon, .definition name :: frames =>
    some (finished (Tree.between .definition name t [.leaf name.text, expression]) frames)
  | .symbol .semicolon, .assignment name :: frames =>
    some (finished (Tree.between .assignment name t [.leaf name.text, expression]) frames)
  | .symbol .semicolon, .returning word :: frames =>
    some (finished (Tree.between .returning word t [expression]) frames)
  | .symbol .semicolon, .expressionStatement :: frames =>
    let span := Tree.cover? expression.span? t.span
    some (finished (.branch .expressionStatement span [expression]) frames)
  | .symbol .leftBrace, .ifCondition word :: frames =>
    some ⟨.statement false, .block t [] :: .ifThen word expression :: frames⟩
  | .symbol .leftBrace, .whileCondition word :: frames =>
    some ⟨.statement false, .block t [] :: .whileBody word expression :: frames⟩
  | .symbol .rightParen, .group :: frames => some ⟨.operator expression, frames⟩
  | .symbol .comma, .arguments name expressions :: frames =>
    some ⟨.operand, .arguments name (expression :: expressions) :: frames⟩
  | .symbol .rightParen, .arguments name expressions :: frames =>
    some ⟨.operator (callTree name (expression :: expressions).reverse t), frames⟩
  | _, _ => none

/-- A binary operator after an operand. -/
def pushBinary (rule : Rule) (operand : Tree) (frames : List Frame) (t : Token) : Option State :=
  match rule, reduce (leftTightness rule) operand frames with
  | .comparison, (_, .binary .comparison _ _ :: _) => none
  | rule, (left, frames) => some ⟨.operand, .binary rule left t :: frames⟩

/-- A token after an operand. -/
def operatorStep (operand : Tree) (frames : List Frame) (t : Token) : Option State :=
  match binaryRule? t.terminal with
  | some rule => pushBinary rule operand frames t
  | none =>
    let (expression, frames) := reduce 0 operand frames
    endExpression expression frames t

/-- A token after a name in an expression. -/
def nameStep (name : Token) (frames : List Frame) (t : Token) : Option State :=
  if t.terminal = .symbol .leftParen then some ⟨.operand, .arguments name [] :: frames⟩
  else operatorStep (Tree.ofToken .reference name) frames t

/-- A token where an operand is expected. -/
def operandStep (frames : List Frame) (t : Token) : Option State :=
  match t.terminal, frames with
  | .whole, _ => some ⟨.operator (Tree.ofToken .wholeLiteral t), frames⟩
  | .decimal, _ => some ⟨.operator (Tree.ofToken .decimalLiteral t), frames⟩
  | .text, _ => some ⟨.operator (Tree.ofToken .textLiteral t), frames⟩
  | .keyword .trueWord, _ => some ⟨.operator (.branch .trueLiteral t.span []), frames⟩
  | .keyword .falseWord, _ => some ⟨.operator (.branch .falseLiteral t.span []), frames⟩
  | .word, _ => some ⟨.afterOperandName t, frames⟩
  | .keyword .readNumber, _ => some ⟨.readOpen .readNumber t, frames⟩
  | .keyword .readText, _ => some ⟨.readOpen .readText t, frames⟩
  | .symbol .leftParen, _ => some ⟨.operand, .group :: frames⟩
  | .symbol .minus, _ => some ⟨.operand, .negation t :: frames⟩
  | .symbol .semicolon, .print word [] :: frames =>
    some (finished (Tree.between .print word t []) frames)
  | .symbol .semicolon, .returning word :: frames =>
    some (finished (Tree.between .returning word t []) frames)
  | .symbol .rightParen, .arguments name [] :: frames =>
    some ⟨.operator (callTree name [] t), frames⟩
  | _, _ => none

/-- A token where a statement is expected. -/
def startStatement (frames : List Frame) (t : Token) : Option State :=
  match t.terminal, frames with
  | .keyword .print, _ => some ⟨.operand, .print t [] :: frames⟩
  | .keyword .returnWord, _ => some ⟨.operand, .returning t :: frames⟩
  | .keyword .ifWord, _ => some ⟨.operand, .ifCondition t :: frames⟩
  | .keyword .whileWord, _ => some ⟨.operand, .whileCondition t :: frames⟩
  | .keyword .fn, _ | .keyword .function, _ => some ⟨.functionName t, frames⟩
  | .symbol .semicolon, _ => some (finished (.branch .emptyStatement t.span []) frames)
  | .symbol .rightBrace, .block brace statements :: frames =>
    finishBlock (Tree.between .block brace t statements.reverse) frames
  | .word, _ => some ⟨.afterName t, frames⟩
  | _, _ => operandStep (.expressionStatement :: frames) t

/-- A token where a statement is expected, or an `else` that extends a conditional. -/
def statementStep (frames : List Frame) (t : Token) : Option State :=
  match t.terminal, frames with
  | .keyword .elseWord, .ifDone word condition thenBlock :: frames =>
    some ⟨.elseBranch, .ifElse word condition thenBlock :: frames⟩
  | _, _ => startStatement (settle frames) t

/-- The state after one more token. -/
def step (state : State) (t : Token) : Option State :=
  let frames := state.frames
  match state.expectation, t.terminal with
  | .statement _, _ => statementStep frames t
  | .afterName name, .symbol .define => some ⟨.operand, .definition name :: frames⟩
  | .afterName name, .symbol .equal => some ⟨.operand, .assignment name :: frames⟩
  | .afterName name, _ => nameStep name (.expressionStatement :: frames) t
  | .operand, _ => operandStep frames t
  | .afterOperandName name, _ => nameStep name frames t
  | .operator operand, _ => operatorStep operand frames t
  | .readOpen rule word, .symbol .leftParen => some ⟨.readClose rule word, frames⟩
  | .readClose rule word, .symbol .rightParen =>
    some ⟨.operator (Tree.between rule word t []), frames⟩
  | .functionName word, .word => some ⟨.functionOpen word t, frames⟩
  | .functionOpen word name, .symbol .leftParen => some ⟨.parameter word name [], frames⟩
  | .parameter word name parameters, .word =>
    some ⟨.afterParameter word name (parameters ++ [t]), frames⟩
  | .parameter word name [], .symbol .rightParen => some ⟨.functionBrace word name none, frames⟩
  | .afterParameter word name parameters, .symbol .comma =>
    some ⟨.parameter word name parameters, frames⟩
  | .afterParameter word name parameters, .symbol .rightParen =>
    some ⟨.functionBrace word name (parametersTree? parameters), frames⟩
  | .functionBrace word name parameters, .symbol .leftBrace =>
    some ⟨.statement false, .block t [] :: .functionBody word name parameters :: frames⟩
  | .elseBranch, .symbol .leftBrace => some ⟨.statement false, .block t [] :: frames⟩
  | .elseBranch, .keyword .ifWord => some ⟨.operand, .ifCondition t :: frames⟩
  | _, _ => none

/-- The tree of the whole program, if the text may end here. -/
def finish? (state : State) : Option Tree :=
  match state.expectation, settle state.frames with
  | .statement _, [.program statements] => some (Tree.ofChildren .program statements.reverse)
  | _, _ => none

/-! ## Reading a text -/

/-- The error for a text that ends too early; it stands where the last token starts. -/
def unexpectedEnd (last : Position) : ScriptError :=
  .unexpectedToken ⟨.finish, "", last⟩

/-- The tree of a text whose first tokens led to `state`; `last` is where the last of them starts.
Every token has at least one character, so `fuel` need be no more than the length of the text. -/
def readFrom (state : State) (last position : Position) (cs : List Char) :
    (fuel : Nat) → Except ScriptError Tree
  | 0 => ends
  | fuel + 1 =>
    match Lexer.next (accepts state.expectation) position cs with
    | .finish => ends
    | .failed error => .error error
    | .token t rest position =>
      match step state t with
      | none => .error (.unexpectedToken t)
      | some state => readFrom state t.start position rest fuel
where
  ends : Except ScriptError Tree :=
    match finish? state with
    | some tree => .ok tree
    | none => .error (unexpectedEnd last)

end Reader

/-- The parse tree of a program text in which all statements are ended by semicolons. -/
def Tree.read (source : String) : Except ScriptError Tree :=
  let cs := source.toList
  Reader.readFrom Reader.State.initial {} {} cs cs.length

end ScriptLang
