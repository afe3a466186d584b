import ScriptLang.Proofs.Derivation
import ScriptLang.Proofs.Numerals

set_option autoImplicit false

/-! # What a derived program can mean

A tree that the grammar derives has all the parts its rules ask for (`Tree.read_complete`). Its
meaning is a program in which every node stands where it belongs (`Program.fits_of_parse`), or there
is none; then one of the tokens is to blame (`Program.parse_error_explained`). -/

namespace ScriptLang

/-! ## Nodes in their places -/

/-- The kinds of places in a syntax tree. -/
inductive Role where
  | expression
  | statement
  | block
  deriving DecidableEq

/-- Whether a node can stand in a place of some kind, and so can all nodes in it. -/
inductive Node.Fits : Role → Node → Prop where
  | reference (name : String) : Fits .expression (.reference name)
  | literal (value : Value) : Fits .expression (.literal value)
  | binary {operator : Operator} {left right : Node} (hknown : operator ∈ Operator.all)
      (hleft : Fits .expression left) (hright : Fits .expression right) :
      Fits .expression (.binary operator left right)
  | call (name : String) {arguments : List Node}
      (harguments : ∀ e ∈ arguments, Fits .expression e) :
      Fits .expression (.call name arguments)
  | input (kind : InputKind) : Fits .expression (.input kind)
  | block {statements : List Node} (hstatements : ∀ s ∈ statements, Fits .statement s) :
      Fits .block (.block statements)
  | print {expressions : List Node} (hexpressions : ∀ e ∈ expressions, Fits .expression e) :
      Fits .statement (.print expressions)
  | definition (name : String) {expression : Node} (hexpression : Fits .expression expression) :
      Fits .statement (.definition name expression)
  | assignment (name : String) {expression : Node} (hexpression : Fits .expression expression) :
      Fits .statement (.assignment name expression)
  | conditional {condition thenBlock : Node} {elseBlock : Option Node}
      (hcondition : Fits .expression condition) (hthen : Fits .block thenBlock)
      (helse : ∀ block ∈ elseBlock, Fits .block block) :
      Fits .statement (.conditional condition thenBlock elseBlock)
  | loop {condition body : Node} (hcondition : Fits .expression condition)
      (hbody : Fits .block body) : Fits .statement (.loop condition body)
  | function (name : String) (parameters : List String) {body : Node} (hbody : Fits .block body) :
      Fits .statement (.function name parameters body)
  | callStatement (name : String) {arguments : List Node}
      (harguments : ∀ e ∈ arguments, Fits .expression e) :
      Fits .statement (.callStatement name arguments)
  | returning {value : Node} (hvalue : Fits .expression value) :
      Fits .statement (.returning value)
  | expressionStatement {expression : Node} (hexpression : Fits .expression expression) :
      Fits .statement (.expressionStatement expression)

theorem Node.Fits.isExpression {n : Node} (h : n.Fits .expression) : n.isExpression = true := by
  cases h <;> rfl

/-! ## Trees with all their parts -/

/-- How many parts the meaning of a rule needs at least. -/
def Rule.leastParts : Rule → Nat
  | .program | .block | .print | .parameters | .returning | .emptyStatement | .trueLiteral
  | .falseLiteral | .arguments | .readNumber | .readText | .unknown _ => 0
  | .function | .expressionStatement | .negation | .wholeLiteral | .decimalLiteral | .textLiteral
  | .reference | .call => 1
  | .definition | .assignment | .conditional | .loop | .or | .and | .add | .sub | .mul | .div => 2
  | .comparison => 3

/-- With fewer parts a rule has no meaning. -/
theorem Rule.meaning_of_lt {names : Text.Names} {rule : Rule} {place : Place} {parts : List Part}
    (h : parts.length < rule.leastParts) :
    ∃ failure, rule.meaning names place parts = .error failure := by
  match parts with
  | [] => cases rule <;> first | exact absurd h (Nat.not_lt_zero _) | exact ⟨_, rfl⟩
  | [part] =>
    cases rule
    case conditional | loop =>
      cases hpart : part.toExpression with
      | error failure => exact ⟨failure, by simp only [Rule.meaning, hpart]; rfl⟩
      | ok e => exact ⟨_, by simp only [Rule.meaning, hpart]; rfl⟩
    all_goals first | exact ⟨_, rfl⟩ | exact absurd h (by simp [leastParts])
  | [left, sign] =>
    cases rule
    case comparison =>
      cases hsign : comparisonOperator? sign.text with
      | none => exact ⟨_, by simp only [Rule.meaning, comparisonMeaning, hsign]; rfl⟩
      | some operator => exact ⟨_, by simp only [Rule.meaning, comparisonMeaning, hsign]; rfl⟩
    all_goals exact absurd h (by simp [leastParts])
  | _ :: _ :: _ :: _ => cases rule <;> exact absurd h (by simp [leastParts])

/-- Whether every branch of a tree belongs to a rule of the grammar and has the parts that the rule
needs. -/
inductive Tree.Complete : Tree → Prop where
  | leaf (text : String) : Complete (.leaf text)
  | branch {rule : Rule} (span : Option Span) {children : List Tree} (hknown : rule ∈ Rule.all)
      (hleast : rule.leastParts ≤ children.length)
      (hchildren : ∀ child ∈ children, Complete child) : Complete (.branch rule span children)

namespace Grammar

open Form

/-- How many trees a form leaves at least. -/
def Form.least : Form → Nat
  | token terminal => if terminal.isKept then 1 else 0
  | phrase _ | branch _ _ => 1
  | empty | many _ => 0
  | seq f g => f.least + g.least
  | either f g => min f.least g.least

/-- Whether the branches of a form belong to rules of the grammar and leave their rules the parts
they need. -/
def Form.isComplete : Form → Bool
  | token _ | phrase _ | empty => true
  | seq f g | either f g => f.isComplete && g.isComplete
  | many f => f.isComplete
  | branch rule f => decide (rule ∈ Rule.all) && decide (rule.leastParts ≤ f.least) && f.isComplete

theorem isComplete_form (p : Phrase) : p.form.isComplete = true ∧ 1 ≤ p.form.least := by
  cases p <;> decide

/-- Derived trees are complete. -/
theorem Derives.complete {f : Form} {ts : List Token} {trees : List Tree} (h : Derives f ts trees)
    (hf : f.isComplete = true) :
    f.least ≤ trees.length ∧ ∀ tree ∈ trees, tree.Complete := by
  induction h with
  | token t =>
    by_cases hkept : t.terminal.isKept = true
    · simp [least, Token.leaves, hkept, Tree.Complete.leaf]
    · simp [least, Token.leaves, hkept]
  | @phrase p _ _ _ ih =>
    obtain ⟨hp, hleast⟩ := isComplete_form p
    exact ⟨hleast.trans (ih hp).1, (ih hp).2⟩
  | empty => simp [least]
  | seq _ _ ihf ihg =>
    simp only [isComplete, Bool.and_eq_true] at hf
    obtain ⟨⟨hlf, hcf⟩, hlg, hcg⟩ := And.intro (ihf hf.1) (ihg hf.2)
    refine ⟨?_, ?_⟩
    · simp only [least, List.length_append]
      omega
    · intro tree htree
      exact (List.mem_append.1 htree).elim (hcf tree) (hcg tree)
  | left g _ ih =>
    simp only [isComplete, Bool.and_eq_true] at hf
    exact ⟨(Nat.min_le_left ..).trans (ih hf.1).1, (ih hf.1).2⟩
  | right f _ ih =>
    simp only [isComplete, Bool.and_eq_true] at hf
    exact ⟨(Nat.min_le_right ..).trans (ih hf.2).1, (ih hf.2).2⟩
  | none f => simp [least]
  | more _ _ ihf ihmany =>
    refine ⟨Nat.zero_le _, fun tree htree => ?_⟩
    exact (List.mem_append.1 htree).elim ((ihf hf).2 tree) ((ihmany hf).2 tree)
  | branch rule span _ ih =>
    simp only [isComplete, Bool.and_eq_true, decide_eq_true_eq] at hf
    obtain ⟨⟨hknown, hleast⟩, hinner⟩ := hf
    refine ⟨Nat.le_refl _, fun tree htree => ?_⟩
    obtain rfl := List.mem_singleton.1 htree
    exact .branch span hknown (hleast.trans (ih hinner).1) (ih hinner).2

end Grammar

/-- Every tree that is read is complete. -/
theorem Tree.read_complete {source : String} {tree : Tree} (h : Tree.read source = .ok tree) :
    tree.Complete := by
  obtain ⟨ts, hderives, -, -⟩ := Tree.read_derives h
  exact (hderives.complete rfl).2 tree (List.mem_singleton.2 rfl)

/-! ## Outcomes -/

/-- Whether the tokens of a program explain why it has no meaning: a text literal that cannot be
decoded, the sign `<>`, or a whole number that is too large or has too many digits. -/
def Explains (names : Text.Names) (ts : List Token) : Failure → Prop
  | .script (.incorrectSyntax _) =>
    ∃ t ∈ ts, t.terminal = .text ∧ Text.decodeLiteral? names t.text = none
  | .script (.unsupportedOperator sign) =>
    sign = "<>" ∧ ∃ t ∈ ts, t.terminal = .comparison ∧ t.text = sign
  | .script (.unreadableNumber text target) =>
    target = .integer ∧ ∃ t ∈ ts, t.terminal = .whole ∧ t.text = text ∧
      2147483647 < numeral text.toList
  | .fault (.brokenTree rule) =>
    rule = Rule.wholeLiteral.name ∧ ∃ t ∈ ts, t.terminal = .whole ∧
      Integer.maxDigits < t.text.length
  | _ => False

/-- Whether a result is good, or the tokens explain why there is none. -/
def Outcome {α : Type} (names : Text.Names) (ts : List Token) (good : α → Prop) :
    Except Failure α → Prop
  | .ok result => good result
  | .error failure => Explains names ts failure

namespace Outcome

variable {α β : Type} {names : Text.Names} {ts : List Token} {good good' : α → Prop}
  {result : Except Failure α}

theorem imp (h : Outcome names ts good result) (himp : ∀ a, good a → good' a) :
    Outcome names ts good' result := by
  cases result with
  | ok a => exact himp a h
  | error failure => exact h

theorem bind {good' : β → Prop} {next : α → Except Failure β} (h : Outcome names ts good result)
    (hnext : ∀ a, good a → Outcome names ts good' (next a)) :
    Outcome names ts good' (result >>= next) := by
  cases result with
  | ok a => exact hnext a h
  | error failure => exact h

end Outcome

/-! ## Phrases -/

namespace Part

/-- Whether the part is a node that fits in a place of some kind. -/
def IsNode (role : Role) (part : Part) : Prop :=
  ∃ n, part = .node n ∧ n.Fits role

/-- An expression is taken as it is. -/
theorem toExpression_of_fits {n : Node} (h : n.Fits .expression) :
    (Part.node n).toExpression = .ok n := by
  simp [toExpression, h.isExpression]

theorem mapM_toExpression {parts : List Part} (h : ∀ part ∈ parts, part.IsNode .expression) :
    ∃ es, parts.mapM toExpression = .ok es ∧ ∀ e ∈ es, e.Fits .expression := by
  induction parts with
  | nil => exact ⟨[], rfl, by simp⟩
  | cons part parts ih =>
    obtain ⟨e, rfl, he⟩ := h part (List.mem_cons_self ..)
    obtain ⟨es, hes, hfits⟩ := ih fun part hpart => h part (List.mem_cons_of_mem _ hpart)
    refine ⟨e :: es, ?_, by simpa [he] using hfits⟩
    rw [List.mapM_cons, toExpression_of_fits he, hes]
    rfl

end Part

namespace Grammar

/-- The parts that a phrase can mean. -/
def Phrase.Admits : Phrase → Part → Prop
  | program, part => ∃ body, part = .node (.program body) ∧ ∀ s ∈ body, s.Fits .statement
  | statement, part => part = .nothing ∨ part.IsNode .statement
  | conditional, part => ∃ condition thenBlock elseBlock,
      part = .node (.conditional condition thenBlock elseBlock) ∧
      (Node.conditional condition thenBlock elseBlock).Fits .statement
  | print, part | definition, part | assignment, part | loop, part | function, part
  | returning, part | expressionStatement, part => part.IsNode .statement
  | emptyStatement, part => part = .nothing
  | parameters, part => ∃ names, part = .names names
  | block, part => part.IsNode .block
  | arguments, part => ∃ es, part = .nodes es ∧ ∀ e ∈ es, e.Fits .expression
  | expression, part | disjunction, part | conjunction, part | comparison, part | sum, part
  | product, part | unary, part | atom, part | call, part => part.IsNode .expression

/-- The parts that a form without branches can mean in a program of some tokens. -/
def Form.Hands (ts : List Token) : Form → List Part → Prop
  | token terminal, parts =>
    if terminal.isKept then
      ∃ t ∈ ts, t.terminal = terminal ∧ t.IsProper ∧ parts = [.token t.text]
    else parts = []
  | phrase p, parts => ∃ part, parts = [part] ∧ p.Admits part
  | empty, parts => parts = []
  | seq f g, parts => ∃ left right, f.Hands ts left ∧ g.Hands ts right ∧ parts = left ++ right
  | either f g, parts => f.Hands ts parts ∨ g.Hands ts parts
  | many f, parts => ∃ groups : List (List Part), (∀ group ∈ groups, f.Hands ts group) ∧
      parts = groups.flatten
  | branch _ _, _ => False

/-- Whether a form has no branches. -/
def Form.isPlain : Form → Bool
  | token _ | phrase _ | empty => true
  | seq f g | either f g => f.isPlain && g.isPlain
  | many f => f.isPlain
  | branch _ _ => false

/-- Whether each way to read a form gives one good part, or tokens that explain why not. -/
def Form.Gives (names : Text.Names) (ts : List Token) (good : Part → Prop) : Form → Prop
  | phrase p => ∀ part, p.Admits part → good part
  | either f g => f.Gives names ts good ∧ g.Gives names ts good
  | branch rule f => f.isPlain = true ∧ ∀ place parts, f.Hands ts parts →
      Outcome names ts good (rule.meaning names place parts)
  | f => f.isPlain = true ∧ ∀ parts, f.Hands ts parts → ∃ part, parts = [part] ∧ good part

end Grammar

theorem Tree.meanings_append (names : Text.Names) (source : List Char) (trees trees' : List Tree) :
    meanings names source (trees ++ trees') = (do
      let parts ← meanings names source trees
      let parts' ← meanings names source trees'
      return parts ++ parts') := by
  induction trees with
  | nil =>
    rw [List.nil_append, meanings]
    cases meanings names source trees' <;> rfl
  | cons tree trees ih =>
    rw [List.cons_append, meanings, ih, meanings]
    cases meaning names source tree with
    | error failure => rfl
    | ok part =>
      cases meanings names source trees with
      | error failure => rfl
      | ok parts => cases meanings names source trees' <;> rfl

namespace Grammar

open Form

section

variable {names : Text.Names} {ts us : List Token} {f : Form} {trees : List Tree}
  {good : Part → Prop}

/-- Whether the trees of a phrase mean what they should. -/
def Means (names : Text.Names) (ts : List Token) (p : Phrase) (us : List Token)
    (trees : List Tree) : Prop :=
  us ⊆ ts → ∀ source, Outcome names ts ((phrase p).Hands ts) (Tree.meanings names source trees)

/-- Trees side by side mean what they mean one by one. -/
theorem outcome_append {trees' : List Tree} {good good' all : List Part → Prop} {source : List Char}
    (h : Outcome names ts good (Tree.meanings names source trees))
    (h' : Outcome names ts good' (Tree.meanings names source trees'))
    (hall : ∀ parts parts', good parts → good' parts' → all (parts ++ parts')) :
    Outcome names ts all (Tree.meanings names source (trees ++ trees')) := by
  rw [Tree.meanings_append]
  exact h.bind fun parts hparts => h'.bind fun parts' hparts' => hall parts parts' hparts hparts'

/-- A form without branches means what its phrases mean. -/
theorem outcome_hands (hproper : ∀ t ∈ ts, t.IsProper) (hplain : f.isPlain = true)
    (h : f.Yields (Means names ts) us trees) (hus : us ⊆ ts) (source : List Char) :
    Outcome names ts (f.Hands ts) (Tree.meanings names source trees) := by
  induction f generalizing us trees with
  | token terminal =>
    obtain ⟨t, rfl, rfl, rfl⟩ := h
    have ht : t ∈ ts := hus (List.mem_singleton.2 rfl)
    by_cases hkept : t.terminal.isKept = true
    · simp only [Token.leaves, hkept, if_true, Form.Hands]
      exact ⟨t, ht, rfl, hproper t ht, rfl⟩
    · simp only [Token.leaves, hkept, if_false, Form.Hands, Bool.false_eq_true]
      rfl
  | phrase p => exact h hus source
  | empty =>
    obtain ⟨rfl, rfl⟩ := h
    rfl
  | seq f g ihf ihg =>
    simp only [isPlain, Bool.and_eq_true] at hplain
    obtain ⟨us, trees, us', trees', hf, hg, rfl, rfl⟩ := h
    obtain ⟨hus, hus'⟩ := List.append_subset.1 hus
    exact outcome_append (ihf hplain.1 hf hus) (ihg hplain.2 hg hus')
      fun parts parts' hparts hparts' => ⟨parts, parts', hparts, hparts', rfl⟩
  | either f g ihf ihg =>
    simp only [isPlain, Bool.and_eq_true] at hplain
    rcases h with h | h
    · exact (ihf hplain.1 h hus).imp fun _ => .inl
    · exact (ihg hplain.2 h hus).imp fun _ => .inr
  | many f ih =>
    simp only [Form.Yields] at h
    induction h with
    | none => exact ⟨[], by simp, rfl⟩
    | more hitem _ ihrest =>
      obtain ⟨hus, hus'⟩ := List.append_subset.1 hus
      refine outcome_append (ih hplain hitem hus) (ihrest hus') ?_
      rintro group _ hgroup ⟨groups, hgroups, rfl⟩
      refine ⟨group :: groups, ?_, rfl⟩
      simpa [hgroup] using hgroups
  | branch rule f _ => exact absurd hplain (by simp [isPlain])

/-- A form that gives one part means one part. -/
theorem outcome_gives (hproper : ∀ t ∈ ts, t.IsProper) (hf : f.Gives names ts good)
    (h : f.Yields (Means names ts) us trees) (hus : us ⊆ ts) (source : List Char) :
    Outcome names ts (fun parts => ∃ part, parts = [part] ∧ good part)
      (Tree.meanings names source trees) := by
  induction f generalizing us trees with
  | phrase p =>
    refine (h hus source).imp ?_
    rintro _ ⟨part, rfl, hpart⟩
    exact ⟨part, rfl, hf part hpart⟩
  | either f g ihf ihg => exact h.elim (fun h => ihf hf.1 h hus) (fun h => ihg hf.2 h hus)
  | branch rule f _ =>
    obtain ⟨span, parts, rfl, h⟩ := h
    have hmeaning :
        Outcome names ts good (Tree.meaning names source (.branch rule span parts)) := by
      rw [Tree.meaning]
      exact (outcome_hands hproper hf.1 h hus source).bind fun parts hparts => hf.2 _ parts hparts
    rw [Tree.meanings]
    exact hmeaning.bind fun part hpart => ⟨part, rfl, hpart⟩
  | token | empty | seq | many => exact (outcome_hands hproper hf.1 h hus source).imp hf.2

/-! ### Repetitions -/

theorem admits_of_hands_many {p : Phrase} {parts : List Part}
    (h : (many (.phrase p)).Hands ts parts) : ∀ part ∈ parts, p.Admits part := by
  obtain ⟨groups, hgroups, rfl⟩ := h
  intro part hpart
  obtain ⟨group, hgroup, hpart⟩ := List.mem_flatten.1 hpart
  obtain ⟨part', rfl, hpart'⟩ := hgroups group hgroup
  rwa [List.mem_singleton.1 hpart]

theorem admits_of_hands_listOf {p : Phrase} {parts : List Part}
    (h : (listOf (.phrase p)).Hands ts parts) : ∀ part ∈ parts, p.Admits part := by
  obtain ⟨_, _, ⟨first, rfl, hfirst⟩, ⟨groups, hgroups, rfl⟩, rfl⟩ := h
  intro part hpart
  rcases List.mem_cons.1 hpart with rfl | hpart
  · exact hfirst
  obtain ⟨group, hgroup, hpart⟩ := List.mem_flatten.1 hpart
  obtain ⟨_, _, hcomma, ⟨part', rfl, hpart'⟩, rfl⟩ := hgroups group hgroup
  obtain rfl : _ = [] := hcomma
  rwa [List.mem_singleton.1 hpart]

/-- The statements among the parts of a block or a program. -/
theorem fits_of_mem_filterMap {parts : List Part}
    (h : ∀ part ∈ parts, Phrase.statement.Admits part) :
    ∀ s ∈ parts.filterMap Part.toNode?, s.Fits .statement := by
  intro s hs
  obtain ⟨part, hpart, hnode⟩ := List.mem_filterMap.1 hs
  rcases h part hpart with rfl | ⟨n, rfl, hn⟩
  · cases hnode
  · cases hnode
    exact hn

/-! ### Rules -/

theorem outcome_binaryMeaning {operator : Operator} (hknown : operator ∈ Operator.all)
    {place : Place} {left right : Part} (hleft : left.IsNode .expression)
    (hright : right.IsNode .expression) :
    Outcome names ts (Part.IsNode .expression)
      (Rule.binaryMeaning operator place [left, right]) := by
  obtain ⟨l, rfl, hl⟩ := hleft
  obtain ⟨r, rfl, hr⟩ := hright
  have hmeaning : Rule.binaryMeaning operator place [.node l, .node r]
      = .ok (.node (.binary operator l r)) := by
    simp only [Rule.binaryMeaning, List.getLastD_nil, Part.toExpression_of_fits hl,
      Part.toExpression_of_fits hr]
    rfl
  rw [hmeaning]
  exact ⟨_, rfl, .binary hknown hl hr⟩

/-- A binary rule with an operator of its own. -/
theorem gives_binary {rule : Rule} {p q : Phrase} {sign : Form} {operator : Operator}
    (hrule : ∀ place parts,
      rule.meaning names place parts = Rule.binaryMeaning operator place parts)
    (hknown : operator ∈ Operator.all) (hsign : ∀ parts, sign.Hands ts parts → parts = [])
    (hplain : sign.isPlain = true) (hp : p.Admits = Part.IsNode .expression)
    (hq : q.Admits = Part.IsNode .expression) :
    (branch rule (.phrase p ++ sign ++ .phrase q)).Gives names ts (Part.IsNode .expression) := by
  refine ⟨by simp [append_eq, isPlain, hplain], ?_⟩
  rintro place _ ⟨_, _, ⟨_, _, ⟨left, rfl, hleft⟩, hnone, rfl⟩, ⟨right, rfl, hright⟩, rfl⟩
  obtain rfl := hsign _ hnone
  rw [hrule]
  exact outcome_binaryMeaning hknown (hp ▸ hleft) (hq ▸ hright)

/-! ### Statements -/

theorem outcome_print {place : Place} {parts : List Part}
    (h : ∀ part ∈ parts, part.IsNode .expression) :
    Outcome names ts (Part.IsNode .statement) (Rule.meaning names .print place parts) := by
  obtain ⟨es, hes, hfits⟩ := Part.mapM_toExpression h
  rw [Rule.meaning, hes]
  exact ⟨_, rfl, .print hfits⟩

theorem gives_print : Phrase.print.form.Gives names ts Phrase.print.Admits := by
  refine ⟨rfl, ?_⟩
  rintro place _ ⟨_, _, ⟨_, parts, rfl, hlist, rfl⟩, rfl, rfl⟩
  rw [List.append_nil]
  rcases hlist with hlist | rfl
  · exact outcome_print (admits_of_hands_listOf hlist)
  · exact outcome_print (by simp)

theorem gives_definition : Phrase.definition.form.Gives names ts Phrase.definition.Admits := by
  refine ⟨rfl, ?_⟩
  rintro place _ ⟨_, _, ⟨_, _, ⟨_, _, ⟨name, -, -, -, rfl⟩, rfl, rfl⟩, ⟨_, rfl, e, rfl, he⟩, rfl⟩,
    rfl, rfl⟩
  simp only [List.append_nil, List.cons_append, List.nil_append, Rule.meaning,
    Part.toExpression_of_fits he]
  exact ⟨_, rfl, .definition _ he⟩

theorem gives_assignment : Phrase.assignment.form.Gives names ts Phrase.assignment.Admits := by
  refine ⟨rfl, ?_⟩
  rintro place _ ⟨_, _, ⟨_, _, ⟨_, _, ⟨name, -, -, -, rfl⟩, rfl, rfl⟩, ⟨_, rfl, e, rfl, he⟩, rfl⟩,
    rfl, rfl⟩
  simp only [List.append_nil, List.cons_append, List.nil_append, Rule.meaning,
    Part.toExpression_of_fits he]
  exact ⟨_, rfl, .assignment _ he⟩

/-- A block, or a conditional in a block of its own. -/
theorem elseBlock?_fits {part : Part}
    (h : Phrase.block.Admits part ∨ Phrase.conditional.Admits part) :
    ∀ block ∈ Rule.elseBlock? part, block.Fits .block := by
  rintro block hblock
  rcases h with ⟨n, rfl, hn⟩ | ⟨condition, thenBlock, elseBlock, rfl, hfits⟩
  · cases hn with
    | block hstatements =>
      cases hblock
      exact .block hstatements
  · cases hblock
    exact .block (by simpa using hfits)

theorem gives_conditional : Phrase.conditional.form.Gives names ts Phrase.conditional.Admits := by
  refine ⟨rfl, ?_⟩
  rintro place _ ⟨_, elseParts, ⟨_, _, ⟨_, _, rfl, ⟨_, rfl, c, rfl, hc⟩, rfl⟩,
    ⟨_, rfl, t, rfl, ht⟩, rfl⟩, helse, rfl⟩
  have helse : elseParts = [] ∨ ∃ part, elseParts = [part] ∧
      (Phrase.block.Admits part ∨ Phrase.conditional.Admits part) := by
    rcases helse with ⟨_, _, rfl, ⟨part, rfl, hpart⟩ | ⟨part, rfl, hpart⟩, rfl⟩ | rfl
    · exact .inr ⟨part, rfl, .inl hpart⟩
    · exact .inr ⟨part, rfl, .inr hpart⟩
    · exact .inl rfl
  rcases helse with rfl | ⟨part, rfl, hpart⟩
  · simp only [List.append_nil, List.cons_append, List.nil_append, Rule.meaning,
      Part.toExpression_of_fits hc]
    exact ⟨_, _, _, rfl, .conditional hc ht (by simp)⟩
  · simp only [List.cons_append, List.nil_append, Rule.meaning, Part.toExpression_of_fits hc]
    exact ⟨_, _, _, rfl, .conditional hc ht (elseBlock?_fits hpart)⟩

theorem gives_loop : Phrase.loop.form.Gives names ts Phrase.loop.Admits := by
  refine ⟨rfl, ?_⟩
  rintro place _ ⟨_, _, ⟨_, _, rfl, ⟨_, rfl, c, rfl, hc⟩, rfl⟩, ⟨_, rfl, b, rfl, hb⟩, rfl⟩
  simp only [List.cons_append, List.nil_append, Rule.meaning, Part.toExpression_of_fits hc]
  exact ⟨_, rfl, .loop hc hb⟩

theorem gives_function : Phrase.function.form.Gives names ts Phrase.function.Admits := by
  refine ⟨rfl, ?_⟩
  rintro place _ ⟨_, _, ⟨_, _, ⟨_, parameters, ⟨_, _, ⟨word, _, hword, ⟨name, -, -, -, rfl⟩, rfl⟩,
    rfl, rfl⟩, hparameters, rfl⟩, rfl, rfl⟩, ⟨_, rfl, b, rfl, hb⟩, rfl⟩
  obtain rfl : word = [] := hword.elim id id
  rcases hparameters with ⟨_, rfl, names, rfl⟩ | rfl
  · exact ⟨_, rfl, .function _ _ hb⟩
  · exact ⟨_, rfl, .function _ _ hb⟩

theorem gives_returning : Phrase.returning.form.Gives names ts Phrase.returning.Admits := by
  refine ⟨rfl, ?_⟩
  rintro place _ ⟨_, _, ⟨_, value, rfl, hvalue, rfl⟩, rfl, rfl⟩
  rcases hvalue with ⟨_, rfl, e, rfl, he⟩ | rfl
  · simp only [List.append_nil, Rule.meaning, Part.toExpression_of_fits he]
    exact ⟨_, rfl, .returning he⟩
  · exact ⟨_, rfl, .returning (.literal _)⟩

/-- A call that stands alone is a statement of its own kind. -/
theorem gives_expressionStatement :
    Phrase.expressionStatement.form.Gives names ts Phrase.expressionStatement.Admits := by
  refine ⟨rfl, ?_⟩
  rintro place _ ⟨_, _, ⟨_, rfl, e, rfl, he⟩, rfl, rfl⟩
  simp only [List.append_nil, Rule.meaning, Part.toExpression_of_fits he]
  cases he with
  | call name harguments => exact ⟨_, rfl, .callStatement name harguments⟩
  | reference name => exact ⟨_, rfl, .expressionStatement (.reference name)⟩
  | literal value => exact ⟨_, rfl, .expressionStatement (.literal value)⟩
  | binary hknown hl hr => exact ⟨_, rfl, .expressionStatement (.binary hknown hl hr)⟩
  | input kind => exact ⟨_, rfl, .expressionStatement (.input kind)⟩

theorem gives_block : Phrase.block.form.Gives names ts Phrase.block.Admits := by
  refine ⟨rfl, ?_⟩
  rintro place _ ⟨_, _, ⟨_, parts, rfl, hparts, rfl⟩, rfl, rfl⟩
  rw [List.append_nil]
  exact ⟨_, rfl, .block (fits_of_mem_filterMap (admits_of_hands_many hparts))⟩

/-! ### Expressions -/

theorem comparisonOperator?_mem_all {text : String} {operator : Operator}
    (h : Rule.comparisonOperator? text = some operator) : operator ∈ Operator.all := by
  unfold Rule.comparisonOperator? at h
  split at h <;> cases h <;> decide

theorem outcome_comparison {place : Place} {left right : Part} {sign : Token} (hsign : sign ∈ ts)
    (hterminal : sign.terminal = .comparison) (hproper : sign.IsProper)
    (hleft : left.IsNode .expression) (hright : right.IsNode .expression) :
    Outcome names ts (Part.IsNode .expression)
      (Rule.comparisonMeaning place [left, .token sign.text, right]) := by
  have htext : sign.text ∈ ["==", "!=", "<=", ">=", "<>", "<", ">"] := by
    rw [Token.IsProper, hterminal] at hproper
    simpa only [Terminal.Matches, String.ofList_toList] using hproper
  rw [Rule.comparisonMeaning]
  cases hoperator : Rule.comparisonOperator? (Part.token sign.text).text with
  | none =>
    have hunknown : ∀ text ∈ ["==", "!=", "<=", ">=", "<>", "<", ">"],
        Rule.comparisonOperator? text = none → text = "<>" := by decide
    exact ⟨hunknown _ htext hoperator, sign, hsign, hterminal, rfl⟩
  | some operator =>
    exact outcome_binaryMeaning (comparisonOperator?_mem_all hoperator) hleft hright

theorem gives_comparison : Phrase.comparison.form.Gives names ts Phrase.comparison.Admits := by
  refine ⟨fun part h => h, rfl, ?_⟩
  rintro place _ ⟨_, _, ⟨_, _, ⟨left, rfl, hleft⟩, ⟨sign, hsign, hterminal, hproper, rfl⟩, rfl⟩,
    ⟨right, rfl, hright⟩, rfl⟩
  exact outcome_comparison hsign hterminal hproper hleft hright

theorem negated_fits {e : Node} (h : e.Fits .expression) : (Rule.negated e).Fits .expression := by
  unfold Rule.negated
  split
  · exact .literal _
  · exact .literal _
  · exact .binary (by decide) (.literal _) h

theorem gives_unary : Phrase.unary.form.Gives names ts Phrase.unary.Admits := by
  refine ⟨fun _ h => h, rfl, ?_⟩
  rintro place _ ⟨_, _, rfl, ⟨_, rfl, e, rfl, he⟩, rfl⟩
  simp only [List.nil_append, Rule.meaning, Part.toExpression_of_fits he]
  exact ⟨_, rfl, negated_fits he⟩

theorem outcome_whole {t : Token} (ht : t ∈ ts) (hterminal : t.terminal = .whole)
    (hproper : t.IsProper) :
    Outcome names ts (Part.IsNode .expression) (Rule.wholeMeaning .wholeLiteral t.text) := by
  rw [Rule.wholeMeaning, Integer.read?_numeral (hproper.isNumeral hterminal)]
  by_cases hlength : t.text.length ≤ Integer.maxDigits
  · rw [if_pos hlength]
    simp only
    split
    · next hlarge =>
      have hmax : Int32.maxValue.toInt = 2147483647 := rfl
      exact ⟨rfl, t, ht, hterminal, rfl, by omega⟩
    · exact ⟨_, rfl, .literal _⟩
  · rw [if_neg hlength]
    exact ⟨rfl, t, ht, hterminal, Nat.lt_of_not_le hlength⟩

theorem outcome_decimal {t : Token} (hterminal : t.terminal = .decimal) (hproper : t.IsProper) :
    Outcome names ts (Part.IsNode .expression) (Rule.decimalMeaning .decimalLiteral t.text) := by
  rw [Token.IsProper, hterminal] at hproper
  obtain ⟨whole, fraction, htext, hwhole, hfraction⟩ := hproper
  have hsome := Double.isSome_readGrouped?_decimal htext hwhole hfraction
  obtain ⟨number, hnumber⟩ := Option.isSome_iff_exists.1 hsome
  rw [Rule.decimalMeaning, hnumber]
  exact ⟨_, rfl, .literal _⟩

theorem outcome_text {t : Token} (ht : t ∈ ts) (hterminal : t.terminal = .text) (place : Place) :
    Outcome names ts (Part.IsNode .expression) (Rule.textMeaning names place t.text) := by
  rw [Rule.textMeaning]
  cases hdecode : Text.decodeLiteral? names t.text with
  | none => exact ⟨t, ht, hterminal, hdecode⟩
  | some text => exact ⟨_, rfl, .literal _⟩

theorem gives_atom : Phrase.atom.form.Gives names ts Phrase.atom.Admits := by
  refine ⟨⟨⟨⟨⟨⟨⟨⟨⟨⟨rfl, ?whole⟩, rfl, ?decimal⟩, rfl, ?text⟩, rfl, ?true⟩, rfl, ?false⟩, rfl,
    ?reference⟩, ?call⟩, rfl, ?readNumber⟩, rfl, ?readText⟩, rfl, ?group⟩
  case whole =>
    rintro place _ ⟨t, ht, hterminal, hproper, rfl⟩
    exact outcome_whole ht hterminal hproper
  case decimal =>
    rintro place _ ⟨t, -, hterminal, hproper, rfl⟩
    exact outcome_decimal hterminal hproper
  case text =>
    rintro place _ ⟨t, ht, hterminal, -, rfl⟩
    exact outcome_text ht hterminal place
  case true | false => exact fun _ _ _ => ⟨_, rfl, .literal _⟩
  case reference =>
    rintro place _ ⟨t, -, -, -, rfl⟩
    exact ⟨_, rfl, .reference _⟩
  case call => exact fun _ h => h
  case readNumber | readText => exact fun _ _ _ => ⟨_, rfl, .input _⟩
  case group =>
    rintro _ ⟨_, _, ⟨_, _, rfl, ⟨part, rfl, hpart⟩, rfl⟩, rfl, rfl⟩
    exact ⟨part, rfl, hpart⟩

theorem gives_call : Phrase.call.form.Gives names ts Phrase.call.Admits := by
  refine ⟨rfl, ?_⟩
  rintro place _ ⟨_, _, ⟨_, arguments, ⟨_, _, ⟨name, -, -, -, rfl⟩, rfl, rfl⟩, harguments, rfl⟩,
    rfl, rfl⟩
  rcases harguments with ⟨_, rfl, es, rfl, hes⟩ | rfl
  · exact ⟨_, rfl, .call _ hes⟩
  · exact ⟨_, rfl, .call _ (by simp)⟩

theorem gives_arguments : Phrase.arguments.form.Gives names ts Phrase.arguments.Admits := by
  refine ⟨rfl, fun place parts hparts => ?_⟩
  obtain ⟨es, hes, hfits⟩ := Part.mapM_toExpression (admits_of_hands_listOf hparts)
  rw [Rule.meaning, hes]
  exact ⟨_, rfl, hfits⟩

/-! ### All phrases -/

/-- Every rule gives a part of its kind. -/
theorem gives_form (p : Phrase) : p.form.Gives names ts p.Admits := by
  cases p with
  | program =>
    refine ⟨rfl, fun place parts hparts => ?_⟩
    exact ⟨_, rfl, fits_of_mem_filterMap (admits_of_hands_many hparts)⟩
  | statement =>
    refine ⟨⟨⟨⟨⟨⟨⟨⟨?_, ?_⟩, ?_⟩, ?choice⟩, ?_⟩, ?_⟩, ?_⟩, ?_⟩, ?nothing⟩
    case choice =>
      rintro _ ⟨condition, thenBlock, elseBlock, rfl, hfits⟩
      exact .inr ⟨_, rfl, hfits⟩
    case nothing => exact fun _ => .inl
    all_goals exact fun _ => .inr
  | print => exact gives_print
  | definition => exact gives_definition
  | assignment => exact gives_assignment
  | conditional => exact gives_conditional
  | loop => exact gives_loop
  | function => exact gives_function
  | parameters => exact ⟨rfl, fun _ _ _ => ⟨_, rfl⟩⟩
  | returning => exact gives_returning
  | expressionStatement => exact gives_expressionStatement
  | emptyStatement => exact ⟨rfl, fun _ _ _ => rfl⟩
  | block => exact gives_block
  | expression => exact fun _ h => h
  | disjunction =>
    exact ⟨fun _ h => h, gives_binary (fun _ _ => rfl) (by decide : .or ∈ Operator.all)
      (fun _ h => h.elim id id) rfl rfl rfl⟩
  | conjunction =>
    exact ⟨fun _ h => h, gives_binary (fun _ _ => rfl) (by decide : .and ∈ Operator.all)
      (fun _ h => h.elim id id) rfl rfl rfl⟩
  | comparison => exact gives_comparison
  | sum =>
    exact ⟨⟨fun _ h => h,
      gives_binary (fun _ _ => rfl) (by decide : .arithmetic .sum ∈ Operator.all) (fun _ h => h)
        rfl rfl rfl⟩,
      gives_binary (fun _ _ => rfl) (by decide : .arithmetic .sub ∈ Operator.all) (fun _ h => h)
        rfl rfl rfl⟩
  | product =>
    exact ⟨⟨fun _ h => h,
      gives_binary (fun _ _ => rfl) (by decide : .arithmetic .mult ∈ Operator.all) (fun _ h => h)
        rfl rfl rfl⟩,
      gives_binary (fun _ _ => rfl) (by decide : .arithmetic .div ∈ Operator.all) (fun _ h => h)
        rfl rfl rfl⟩
  | unary => exact gives_unary
  | atom => exact gives_atom
  | call => exact gives_call
  | arguments => exact gives_arguments

/-- A program of proper tokens means a program of statements, or one of the tokens is to blame. -/
theorem Derives.outcome (names : Text.Names) {tree : Tree} (hproper : ∀ t ∈ ts, t.IsProper)
    (h : Derives (.phrase .program) ts [tree]) (source : List Char) :
    Outcome names ts (Phrase.program.Admits) (tree.meaning names source) := by
  have hmeans : ∀ p us trees, p.form.Yields (Means names ts) us trees → Means names ts p us trees :=
    fun p us trees hyields hus source => outcome_gives hproper (gives_form p) hyields hus source
  have hprogram := h.yields hmeans (List.Subset.refl ts) source
  rw [Tree.meanings] at hprogram
  cases hmeaning : tree.meaning names source with
  | error failure =>
    rw [hmeaning] at hprogram
    exact hprogram
  | ok part =>
    rw [hmeaning] at hprogram
    obtain ⟨part', hpart, hadmits⟩ := hprogram
    cases hpart
    exact hadmits

end

end Grammar

/-! ## Programs -/

namespace Program

variable {names : Text.Names}

/-- Every statement of a program stands where it belongs. -/
theorem fits_of_parse {source : String} {body : List Node} (h : parse names source = .ok body) :
    ∀ s ∈ body, s.Fits .statement := by
  rcases parse_cases names source with
    ⟨_, -, herror⟩ | ⟨ts, tree, hderives, hproper, -, ⟨_, -, herror⟩ | ⟨body', hmeaning, hok⟩⟩
  · rw [herror] at h
    cases h
  · rw [herror] at h
    cases h
  · have houtcome := hderives.outcome names hproper (Source.terminate source).toList
    rw [hmeaning] at houtcome
    obtain ⟨_, hbody, hfits⟩ := houtcome
    rw [hok] at h
    cases h
    cases hbody
    exact hfits

/-- A program text that is refused lies outside the grammar, or its tokens explain the failure. -/
theorem explains_of_parse {source : String} {failure : Failure}
    (h : parse names source = .error failure) :
    (∃ e, failure = .script e ∧ e.isGrammatical = true) ∨
      ∃ ts tree, Grammar.Derives (.phrase .program) ts [tree] ∧ (∀ t ∈ ts, t.IsProper) ∧
        Spells ts (Source.terminate source).toList ∧ Explains names ts failure := by
  rcases parse_cases names source with ⟨e, hgrammatical, herror⟩ |
    ⟨ts, tree, hderives, hproper, hspells, ⟨_, hmeaning, herror⟩ | ⟨_, -, hok⟩⟩
  · rw [herror] at h
    cases h
    exact .inl ⟨e, rfl, hgrammatical⟩
  · have houtcome := hderives.outcome names hproper (Source.terminate source).toList
    rw [hmeaning] at houtcome
    rw [herror] at h
    cases h
    exact .inr ⟨ts, tree, hderives, hproper, hspells, houtcome⟩
  · rw [hok] at h
    cases h

/-- No program text is refused for a node in the wrong place or a missing part. A text literal that
cannot be decoded, the sign `<>` and a whole number beyond the largest integer are the only reasons
for the errors that name them. -/
theorem parse_failures (names : Text.Names) (source : String) :
    (∀ text, parse names source ≠ .error (.script (.notAnExpression text))) ∧
    (∀ text missing, parse names source ≠ .error (.script (.incompleteExpression text missing))) ∧
    (∀ text, parse names source ≠ .error (.script (.incompleteCall text))) ∧
    (∀ tree, Tree.read (Source.terminate source) = .ok tree → tree.Complete) ∧
    ∀ failure, parse names source = .error failure →
      (∃ e, failure = .script e ∧ e.isGrammatical = true) ∨
      ∃ ts tree, Grammar.Derives (.phrase .program) ts [tree] ∧ (∀ t ∈ ts, t.IsProper) ∧
        Spells ts (Source.terminate source).toList ∧ Explains names ts failure := by
  have hnever {e : ScriptError} (hgrammatical : e.isGrammatical = false)
      (hunexplained : ∀ ts, ¬ Explains names ts (.script e)) :
      parse names source ≠ .error (.script e) := by
    intro h
    rcases explains_of_parse h with ⟨e', he, hgrammatical'⟩ | ⟨ts, _, _, _, _, hexplains⟩
    · cases he
      rw [hgrammatical] at hgrammatical'
      cases hgrammatical'
    · exact hunexplained ts hexplains
  exact ⟨fun _ => hnever rfl fun _ => id, fun _ _ => hnever rfl fun _ => id,
    fun _ => hnever rfl fun _ => id, fun _ => Tree.read_complete, fun _ => explains_of_parse⟩

/-- A number that is too large stands beside the sign `<>`, and comes first. -/
theorem parse_failures_largeNumber :
    let source := "print 1 <> 2147483648"
    let failure := Failure.script (.unreadableNumber "2147483648" .integer)
    (∃ tree, Tree.read (Source.terminate source) = .ok tree ∧ tree.Complete) ∧
      parse Text.unnamed source = .error failure ∧
      ((∃ e, failure = .script e ∧ e.isGrammatical = true) ∨
        ∃ ts tree, Grammar.Derives (.phrase .program) ts [tree] ∧ (∀ t ∈ ts, t.IsProper) ∧
          Spells ts (Source.terminate source).toList ∧ Explains Text.unnamed ts failure) := by
  intro source failure
  have htext : Source.terminate source = "print 1 <> 2147483648;" := by decide +kernel
  have hread : Tree.read (Source.terminate source)
      = .ok (.branch .program (some ⟨0, 22⟩)
        [.branch .print (some ⟨0, 22⟩)
          [.branch .comparison (some ⟨6, 21⟩)
            [.branch .wholeLiteral (some ⟨6, 7⟩) [.leaf "1"], .leaf "<>",
              .branch .wholeLiteral (some ⟨11, 21⟩) [.leaf "2147483648"]]]]) := by
    rw [htext]
    rfl
  have hparse : parse Text.unnamed source = .error failure := by
    rw [parse, hread]
    rfl
  obtain ⟨-, -, -, hcomplete, hfailure⟩ := parse_failures Text.unnamed source
  exact ⟨⟨_, hread, hcomplete _ hread⟩, hparse, hfailure failure hparse⟩

end Program

end ScriptLang
