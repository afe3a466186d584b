import ScriptLang.Proofs.Lexing
import ScriptLang.Program

set_option autoImplicit false

/-! # Reading follows the grammar

The frames on the reader's stack are phrases that are begun. `Frame.Begun` says which tokens a frame
stands for, `Nests` in which place a frame of each kind can lie and which place it opens, and
`Awaits` puts both together: the frames stand for all tokens read so far and wait for a phrase of a
certain kind. Each step keeps this (`Represents.step`), so the tree that is read in the end is
derived from the tokens of the whole text (`Tree.read_derives`). -/

namespace ScriptLang

namespace Reader

open Grammar Grammar.Form

/-! ## What the stack stands for -/

/-- Items so far of a list that goes on: after each of them stands a comma. -/
def Listed (item : Form) (trees : List Tree) (ts : List Token) : Prop :=
  trees = [] ∧ ts = [] ∨ ∃ items comma, ts = items ++ [comma] ∧ trees ≠ [] ∧
    Derives (listOf item) items trees ∧ comma.terminal = .symbol .comma

theorem Listed.nil {item : Form} {ts : List Token} (h : Listed item [] ts) : ts = [] := by
  rcases h with ⟨_, hts⟩ | ⟨_, _, _, hne, _⟩
  · exact hts
  · exact absurd rfl hne

theorem Listed.last {item : Form} {trees trees' : List Tree} {ts ts' : List Token}
    (h : Listed item trees ts) (hitem : Derives item ts' trees') :
    Derives (listOf item) (ts ++ ts') (trees ++ trees') := by
  rcases h with ⟨rfl, rfl⟩ | ⟨items, comma, rfl, _, hitems, hcomma⟩
  · exact (Derives.seq hitem (.none _)).congr (by simp) (by simp)
  · exact (hitems.listSnoc hcomma hitem).congr (by simp) rfl

theorem Listed.more {item : Form} {trees : List Tree} {ts : List Token} {comma : Token}
    (hne : trees ≠ []) (h : Derives (listOf item) ts trees)
    (hcomma : comma.terminal = .symbol .comma) : Listed item trees (ts ++ [comma]) :=
  Or.inr ⟨ts, comma, rfl, hne, h, hcomma⟩

/-- Whether a function can start with the word. -/
def IsFunctionWord (word : Token) : Prop :=
  word.terminal = .keyword .fn ∨ word.terminal = .keyword .function

/-- Whether the rule is the one for the word that reads input. -/
def IsReadWord (rule : Rule) (word : Token) : Prop :=
  rule = .readNumber ∧ word.terminal = .keyword .readNumber ∨
    rule = .readText ∧ word.terminal = .keyword .readText

/-- Whether the tokens are the head of a function, up to the closing parenthesis. -/
def IsHead (word name : Token) (parameters : Option Tree) (ts : List Token) : Prop :=
  ∃ opening inner closing, ts = word :: name :: opening :: (inner ++ [closing]) ∧
    IsFunctionWord word ∧ name.terminal = .word ∧ opening.terminal = .symbol .leftParen ∧
    Derives (optional (.phrase .parameters)) inner parameters.toList ∧
    closing.terminal = .symbol .rightParen

/-- Whether the tokens are those that a frame stands for. -/
def Frame.Begun : Frame → List Token → Prop
  | .program statements, ts => Derives (many (.phrase .statement)) ts statements.reverse
  | .block brace statements, ts => ∃ inner, ts = brace :: inner ∧
      brace.terminal = .symbol .leftBrace ∧
      Derives (many (.phrase .statement)) inner statements.reverse
  | .print word expressions, ts => ∃ items, ts = word :: items ∧ word.terminal = .keyword .print ∧
      Listed (.phrase .expression) expressions.reverse items
  | .definition name, ts => ∃ sign, ts = [name, sign] ∧ name.terminal = .word ∧
      sign.terminal = .symbol .define
  | .assignment name, ts => ∃ sign, ts = [name, sign] ∧ name.terminal = .word ∧
      sign.terminal = .symbol .equal
  | .returning word, ts => ts = [word] ∧ word.terminal = .keyword .returnWord
  | .expressionStatement, ts => ts = []
  | .ifCondition word, ts => ts = [word] ∧ word.terminal = .keyword .ifWord
  | .ifThen word condition, ts => ∃ inner, ts = word :: inner ∧ word.terminal = .keyword .ifWord ∧
      Derives (.phrase .expression) inner [condition]
  | .ifDone word condition thenBlock, ts => ∃ inner block, ts = word :: (inner ++ block) ∧
      word.terminal = .keyword .ifWord ∧ Derives (.phrase .expression) inner [condition] ∧
      Derives (.phrase .block) block [thenBlock]
  | .ifElse word condition thenBlock, ts => ∃ inner block other,
      ts = word :: (inner ++ block ++ [other]) ∧ word.terminal = .keyword .ifWord ∧
      Derives (.phrase .expression) inner [condition] ∧
      Derives (.phrase .block) block [thenBlock] ∧ other.terminal = .keyword .elseWord
  | .whileCondition word, ts => ts = [word] ∧ word.terminal = .keyword .whileWord
  | .whileBody word condition, ts => ∃ inner, ts = word :: inner ∧
      word.terminal = .keyword .whileWord ∧ Derives (.phrase .expression) inner [condition]
  | .functionBody word name parameters, ts => IsHead word name parameters ts
  | .group, ts => ∃ paren, ts = [paren] ∧ paren.terminal = .symbol .leftParen
  | .arguments name expressions, ts => ∃ paren items, ts = name :: paren :: items ∧
      name.terminal = .word ∧ paren.terminal = .symbol .leftParen ∧
      Listed (.phrase .expression) expressions.reverse items
  | .binary rule left sign, ts => ∃ inner, ts = inner ++ [sign] ∧
      binaryRule? sign.terminal = some rule ∧
      Derives (.phrase (level (leftTightness rule))) inner [left]
  | .negation sign, ts => ts = [sign] ∧ sign.terminal = .symbol .minus

/-- The places where a phrase can stand. -/
inductive Slot where
  | statement
  /-- The place of a statement, or of a conditional right after `else`. -/
  | conditional
  /-- The place of a statement, or of the `else` that extends a conditional. -/
  | extension
  | block
  | expression
  /-- The place of an operand that binds at least so tightly. -/
  | operand (least : Nat)

/-- In which place a frame can lie, and which place it opens. -/
inductive Nests : Slot → Frame → Slot → Prop where
  | block (brace : Token) (statements : List Tree) :
      Nests .block (.block brace statements) .statement
  | print (word : Token) (expressions : List Tree) :
      Nests .statement (.print word expressions) .expression
  | definition (name : Token) : Nests .statement (.definition name) .expression
  | assignment (name : Token) : Nests .statement (.assignment name) .expression
  | returning (word : Token) : Nests .statement (.returning word) .expression
  | expressionStatement : Nests .statement .expressionStatement .expression
  | ifCondition (word : Token) : Nests .conditional (.ifCondition word) .expression
  | ifThen (word : Token) (condition : Tree) : Nests .conditional (.ifThen word condition) .block
  | ifDone (word : Token) (condition thenBlock : Tree) :
      Nests .conditional (.ifDone word condition thenBlock) .extension
  | elseBlock (word : Token) (condition thenBlock : Tree) :
      Nests .conditional (.ifElse word condition thenBlock) .block
  | elseIf (word : Token) (condition thenBlock : Tree) :
      Nests .conditional (.ifElse word condition thenBlock) .conditional
  | whileCondition (word : Token) : Nests .statement (.whileCondition word) .expression
  | whileBody (word : Token) (condition : Tree) :
      Nests .statement (.whileBody word condition) .block
  | functionBody (word name : Token) (parameters : Option Tree) :
      Nests .statement (.functionBody word name parameters) .block
  | group (least : Nat) : Nests (.operand least) .group .expression
  | arguments (least : Nat) (name : Token) (expressions : List Tree) :
      Nests (.operand least) (.arguments name expressions) .expression
  | binary {least : Nat} {rule : Rule} (left : Tree) (sign : Token) (h : least ≤ tightness rule) :
      Nests (.operand least) (.binary rule left sign) (.operand (tightness rule + 1))
  | negation {least : Nat} (sign : Token) (h : least ≤ 6) :
      Nests (.operand least) (.negation sign) (.operand 6)

/-- Whether frames stand for some tokens and wait for a phrase in some place. -/
inductive Awaits : Slot → List Frame → List Token → Prop where
  | program {statements : List Tree} {ts : List Token} (h : (Frame.program statements).Begun ts) :
      Awaits .statement [.program statements] ts
  | push {outer inner : Slot} {frame : Frame} {frames : List Frame} {ts ts' : List Token}
      (hnests : Nests outer frame inner) (houter : Awaits outer frames ts)
      (hbegun : frame.Begun ts') : Awaits inner (frame :: frames) (ts ++ ts')
  | conditional {frames : List Frame} {ts : List Token} (h : Awaits .statement frames ts) :
      Awaits .conditional frames ts
  | extension {frames : List Frame} {ts : List Token} (h : Awaits .statement frames ts) :
      Awaits .extension frames ts
  | operand {frames : List Frame} {ts : List Token} (h : Awaits .expression frames ts) :
      Awaits (.operand 1) frames ts

/-- Below a frame lie those that it nests in. -/
theorem Awaits.pushed {slot : Slot} {frame : Frame} {frames : List Frame} {ts : List Token}
    (h : Awaits slot (frame :: frames) ts) (hne : ∀ statements, frame ≠ .program statements) :
    ∃ outer inner ts₁ ts₂, ts = ts₁ ++ ts₂ ∧ Nests outer frame inner ∧ Awaits outer frames ts₁ ∧
      frame.Begun ts₂ := by
  generalize hall : frame :: frames = all at h
  induction h with
  | program =>
    cases hall
    exact absurd rfl (hne _)
  | push hnests houter hbegun =>
    cases hall
    exact ⟨_, _, _, _, rfl, hnests, houter, hbegun⟩
  | conditional _ ih => exact ih hall
  | extension _ ih => exact ih hall
  | operand _ ih => exact ih hall

/-! ## Operators -/

theorem tightness_le (rule : Rule) : tightness rule ≤ 5 := by
  unfold tightness
  split <;> omega

theorem derives_binary {rule : Rule} {sign : Token} {left right : Tree} {ts ts' : List Token}
    (hsign : binaryRule? sign.terminal = some rule)
    (hleft : Derives (.phrase (level (leftTightness rule))) ts [left])
    (hright : Derives (.phrase (level (tightness rule + 1))) ts' [right]) :
    Derives (.phrase (level (tightness rule))) (ts ++ sign :: ts')
      [binaryTree rule left sign right] := by
  generalize hterminal : sign.terminal = terminal at hsign
  unfold binaryRule? at hsign
  split at hsign <;> cases hsign
  · exact .phrase (.right _ (.branch _ _ ((Derives.seq (.seq hleft (.right _ (.symbol hterminal)))
      hright).congr (by simp) (by simp))))
  · exact .phrase (.right _ (.branch _ _ ((Derives.seq (.seq hleft (.left _ (.keyword hterminal)))
      hright).congr (by simp) (by simp))))
  · exact .phrase (.right _ (.branch _ _ ((Derives.seq (.seq hleft (.right _ (.symbol hterminal)))
      hright).congr (by simp) (by simp))))
  · exact .phrase (.right _ (.branch _ _ ((Derives.seq (.seq hleft (.left _ (.keyword hterminal)))
      hright).congr (by simp) (by simp))))
  · exact .phrase (.right _ (.branch _ _ ((Derives.seq (.seq hleft (.kept hterminal rfl))
      hright).congr (by simp) (by simp))))
  · exact .phrase (.left _ (.right _ (.branch _ _ ((Derives.seq (.seq hleft (.symbol hterminal))
      hright).congr (by simp) (by simp)))))
  · exact .phrase (.right _ (.branch _ _ ((Derives.seq (.seq hleft (.symbol hterminal))
      hright).congr (by simp) (by simp))))
  · exact .phrase (.left _ (.right _ (.branch _ _ ((Derives.seq (.seq hleft (.symbol hterminal))
      hright).congr (by simp) (by simp)))))
  · exact .phrase (.right _ (.branch _ _ ((Derives.seq (.seq hleft (.symbol hterminal))
      hright).congr (by simp) (by simp))))

/-- Where operators stop taking their operands: at the start of the expression, or at an operator
that binds less tightly. -/
def Stops (least : Nat) (frames : List Frame) (ts : List Token) : Prop :=
  Awaits .expression frames ts ∨ ∃ rule left sign outer, frames = .binary rule left sign :: outer ∧
    tightness rule < least ∧ Awaits (.operand (tightness rule + 1)) frames ts

theorem Awaits.operand_le {k : Nat} {frames : List Frame} {ts : List Token}
    (h : Awaits (.operand k) frames ts) : k ≤ 6 := by
  cases h with
  | push hnests =>
    cases hnests with
    | binary left sign _ => exact Nat.succ_le_succ (tightness_le _)
    | negation sign _ => exact Nat.le_refl 6
  | operand _ => decide

/-- Operators that take their operands make a phrase of the operands' tokens. -/
theorem reduce_derives {least : Nat} (hleast : least ≤ 6) {frames : List Frame} {k j : Nat}
    {operand : Tree} {ts ts' : List Token} (hframes : Awaits (.operand k) frames ts)
    (hk : k ≤ j) (hj : least ≤ j) (hoperand : Derives (.phrase (level j)) ts' [operand]) :
    ∃ ts₁ ts₂, ts ++ ts' = ts₁ ++ ts₂ ∧ Stops least (reduce least operand frames).2 ts₁ ∧
      Derives (.phrase (level least)) ts₂ [(reduce least operand frames).1] := by
  induction frames generalizing k j operand ts ts' with
  | nil => cases hframes with | operand h => cases h
  | cons frame frames ih =>
    cases hframes with
    | push hnests houter hbegun =>
      cases hnests with
      | binary left sign hle =>
        rw [reduce]
        split
        · next hbinds =>
          obtain ⟨inner, rfl, hsign, hleft⟩ := hbegun
          have hright := derives_level_of_le hk hoperand
          obtain ⟨us, us', hus, hstops, hderives⟩ :=
            ih houter hle hbinds (derives_binary hsign hleft hright)
          exact ⟨us, us', by rw [← hus]; simp, hstops, hderives⟩
        · next hloose =>
          refine ⟨_, ts', rfl, Or.inr ⟨_, left, sign, frames, rfl, by omega, ?_⟩,
            derives_level_of_le hj hoperand⟩
          exact .push (.binary left sign hle) houter hbegun
      | negation sign hle =>
        obtain ⟨rfl, hsign⟩ := hbegun
        rw [reduce]
        obtain ⟨us, us', hus, hstops, hderives⟩ :=
          ih houter hle hleast (derives_negation hsign (derives_level_of_le hk hoperand))
        exact ⟨us, us', by rw [← hus]; simp, hstops, hderives⟩
    | operand hexpression =>
      have hstays : reduce least operand (frame :: frames) = (operand, frame :: frames) := by
        cases hexpression with
        | push hnests => cases hnests <;> rfl
      rw [hstays]
      exact ⟨ts, ts', rfl, Or.inl hexpression, derives_level_of_le hj hoperand⟩

/-! ## Completing constructs -/

variable {frames : List Frame} {ts ts' : List Token} {tree : Tree}

theorem awaits_finishStatement (hframes : Awaits .statement frames ts)
    (h : Derives (.phrase .statement) ts' [tree]) :
    Awaits .statement (finishStatement tree frames) (ts ++ ts') := by
  cases hframes with
  | program hbegun =>
    refine .program ?_
    rw [Frame.Begun, List.reverse_cons]
    exact hbegun.snoc h
  | push hnests houter hbegun =>
    cases hnests with
    | block brace statements =>
      obtain ⟨inner, rfl, hbrace, hinner⟩ := hbegun
      have hmore : (Frame.block brace (tree :: statements)).Begun (brace :: (inner ++ ts')) := by
        refine ⟨_, rfl, hbrace, ?_⟩
        rw [List.reverse_cons]
        exact hinner.snoc h
      have hawaits := Awaits.push (.block brace _) houter hmore
      rwa [List.append_assoc, List.cons_append]

theorem derives_else {other : Token} (hother : other.terminal = .keyword .elseWord)
    (h : Derives (.phrase .block ||| .phrase .conditional) ts [tree]) :
    Derives (optional (.keyword .elseWord ++ (.phrase .block ||| .phrase .conditional)))
      (other :: ts) [tree] :=
  .present (.seq (.keyword hother) h)

theorem derives_conditionalTree {word : Token} {condition thenBlock : Tree}
    {elseBranch : Option Tree} {inner block rest : List Token}
    (hword : word.terminal = .keyword .ifWord)
    (hinner : Derives (.phrase .expression) inner [condition])
    (hblock : Derives (.phrase .block) block [thenBlock])
    (helse : Derives (optional (.keyword .elseWord ++ (.phrase .block ||| .phrase .conditional)))
      rest elseBranch.toList) :
    Derives (.phrase .conditional) (word :: (inner ++ block ++ rest))
      [conditionalTree word condition thenBlock elseBranch] :=
  derives_conditional hword hinner hblock helse

/-- A complete conditional completes the conditionals for whose `else` it stands, too. -/
theorem awaits_finishConditional (hframes : Awaits .conditional frames ts)
    (h : Derives (.phrase .conditional) ts' [tree]) :
    Awaits .statement (finishStatement tree frames) (ts ++ ts') := by
  generalize hslot : Slot.conditional = slot at hframes
  induction hframes generalizing tree ts' with
  | program => cases hslot
  | extension => cases hslot
  | operand => cases hslot
  | conditional hstatement =>
    exact awaits_finishStatement hstatement (derives_statement (by decide) h)
  | push hnests houter hbegun ih =>
    subst hslot
    cases hnests with
    | elseIf word condition thenBlock =>
      obtain ⟨inner, block, other, rfl, hword, hinner, hblock, hother⟩ := hbegun
      have hconditional : Derives _ _ [conditionalTree word condition thenBlock (some tree)] :=
        derives_conditionalTree hword hinner hblock (derives_else hother (.right _ h))
      simpa [finishStatement] using ih hconditional rfl

theorem awaits_settle (hframes : Awaits .extension frames ts) :
    Awaits .statement (settle frames) ts := by
  cases hframes with
  | extension h =>
    have hstays : settle frames = frames := by
      cases h with
      | program => rfl
      | push hnests => cases hnests; rfl
    rwa [hstays]
  | push hnests houter hbegun =>
    cases hnests with
    | ifDone word condition thenBlock =>
      obtain ⟨inner, block, rfl, hword, hinner, hblock⟩ := hbegun
      have hconditional : Derives _ _ [conditionalTree word condition thenBlock none] :=
        derives_conditionalTree hword hinner hblock (.absent _)
      simpa [settle] using awaits_finishConditional houter hconditional

theorem derives_callTree {name opening closing : Token} {expressions : List Tree}
    (hname : name.terminal = .word) (hopening : opening.terminal = .symbol .leftParen)
    (h : expressions = [] ∧ ts = [] ∨
      expressions ≠ [] ∧ Derives (listOf (.phrase .expression)) ts expressions)
    (hclosing : closing.terminal = .symbol .rightParen) :
    Derives (.phrase .atom) (name :: opening :: (ts ++ [closing]))
      [callTree name expressions closing] := by
  unfold callTree
  rcases h with ⟨rfl, rfl⟩ | ⟨hne, hlist⟩
  · exact derives_call hname hopening (.absent _) hclosing
  · rw [if_neg (by simpa using hne)]
    exact derives_call hname hopening (.present (.phrase (.branch _ _ hlist))) hclosing

theorem derives_function {word name : Token} {parameters : Option Tree} {body : Tree}
    {span : Option Span} (hhead : IsHead word name parameters ts)
    (hbody : Derives (.phrase .block) ts' [body]) :
    Derives (.phrase .function) (ts ++ ts')
      [.branch .function span (.leaf name.text :: (parameters.toList ++ [body]))] := by
  obtain ⟨opening, inner, closing, rfl, hword, hname, hopening, hinner, hclosing⟩ := hhead
  have hfunction : Derives (.keyword .fn ||| .keyword .function) [word] [] := by
    rcases hword with hword | hword
    · exact .left _ (.keyword hword)
    · exact .right _ (.keyword hword)
  exact .phrase (.branch _ _ ((Derives.seq (.seq (.seq (.seq (.seq hfunction (.kept hname rfl))
    (.symbol hopening)) hinner) (.symbol hclosing)) hbody).congr (by simp) (by simp)))

/-! ## States -/

/-- Whether a state stands for the tokens read so far. -/
def Represents (state : State) (ts : List Token) : Prop :=
  match state.expectation with
  | .statement _ => Awaits .extension state.frames ts
  | .afterName name => ∃ outer, ts = outer ++ [name] ∧ name.terminal = .word ∧
      Awaits .statement state.frames outer
  | .operand => ∃ least, Awaits (.operand least) state.frames ts
  | .afterOperandName name => ∃ outer least, ts = outer ++ [name] ∧ name.terminal = .word ∧
      Awaits (.operand least) state.frames outer
  | .operator operand => ∃ outer inner least, ts = outer ++ inner ∧
      Awaits (.operand least) state.frames outer ∧ Derives (.phrase .atom) inner [operand]
  | .readOpen rule word => ∃ outer least, ts = outer ++ [word] ∧ IsReadWord rule word ∧
      Awaits (.operand least) state.frames outer
  | .readClose rule word => ∃ outer opening least, ts = outer ++ [word, opening] ∧
      IsReadWord rule word ∧ opening.terminal = .symbol .leftParen ∧
      Awaits (.operand least) state.frames outer
  | .functionName word => ∃ outer, ts = outer ++ [word] ∧ IsFunctionWord word ∧
      Awaits .statement state.frames outer
  | .functionOpen word name => ∃ outer, ts = outer ++ [word, name] ∧ IsFunctionWord word ∧
      name.terminal = .word ∧ Awaits .statement state.frames outer
  | .parameter word name parameters => ∃ outer opening inner,
      ts = outer ++ word :: name :: opening :: inner ∧ IsFunctionWord word ∧
      name.terminal = .word ∧ opening.terminal = .symbol .leftParen ∧
      Listed (.token .word) (parameters.map fun t => .leaf t.text) inner ∧
      Awaits .statement state.frames outer
  | .afterParameter word name parameters => ∃ outer opening inner,
      ts = outer ++ word :: name :: opening :: inner ∧ IsFunctionWord word ∧
      name.terminal = .word ∧ opening.terminal = .symbol .leftParen ∧ parameters ≠ [] ∧
      Derives (listOf (.token .word)) inner (parameters.map fun t => .leaf t.text) ∧
      Awaits .statement state.frames outer
  | .functionBrace word name parameters => ∃ outer inner, ts = outer ++ inner ∧
      IsHead word name parameters inner ∧ Awaits .statement state.frames outer
  | .elseBranch => Awaits .block state.frames ts ∧ Awaits .conditional state.frames ts

/-! ## Steps -/

variable {state : State} {t : Token}

theorem Represents.congr (h : Represents state ts) (hts : ts = ts') : Represents state ts' :=
  hts ▸ h

theorem represents_finished (hframes : Awaits .statement frames ts)
    (h : Derives (.phrase .statement) ts' [tree]) :
    Represents (finished tree frames) (ts ++ ts') :=
  Awaits.extension (awaits_finishStatement hframes h)

theorem represents_operandStep {k : Nat} (hframes : Awaits (.operand k) frames ts)
    (h : operandStep frames t = some state) : Represents state (ts ++ [t]) := by
  unfold operandStep at h
  split at h
  · next hwhole =>
    cases h
    refine ⟨ts, [t], k, rfl, hframes, .phrase ?_⟩
    exact .left _ (.left _ (.left _ (.left _ (.left _ (.left _ (.left _ (.left _ (.left _
      (.branch _ _ (.kept hwhole rfl))))))))))
  · next hdecimal =>
    cases h
    refine ⟨ts, [t], k, rfl, hframes, .phrase ?_⟩
    exact .left _ (.left _ (.left _ (.left _ (.left _ (.left _ (.left _ (.left _ (.right _
      (.branch _ _ (.kept hdecimal rfl))))))))))
  · next htext =>
    cases h
    refine ⟨ts, [t], k, rfl, hframes, .phrase ?_⟩
    exact .left _ (.left _ (.left _ (.left _ (.left _ (.left _ (.left _ (.right _
      (.branch _ _ (.kept htext rfl)))))))))
  · next htrue =>
    cases h
    refine ⟨ts, [t], k, rfl, hframes, .phrase ?_⟩
    exact .left _ (.left _ (.left _ (.left _ (.left _ (.left _ (.right _
      (.branch _ _ (.keyword htrue))))))))
  · next hfalse =>
    cases h
    refine ⟨ts, [t], k, rfl, hframes, .phrase ?_⟩
    exact .left _ (.left _ (.left _ (.left _ (.left _ (.right _
      (.branch _ _ (.keyword hfalse)))))))
  · next hword =>
    cases h
    exact ⟨ts, k, rfl, hword, hframes⟩
  · next hread =>
    cases h
    exact ⟨ts, k, rfl, Or.inl ⟨rfl, hread⟩, hframes⟩
  · next hread =>
    cases h
    exact ⟨ts, k, rfl, Or.inr ⟨rfl, hread⟩, hframes⟩
  · next hparen =>
    cases h
    exact ⟨1, .operand (.push (.group k) hframes ⟨t, rfl, hparen⟩)⟩
  · next hminus =>
    cases h
    exact ⟨6, .push (.negation t hframes.operand_le) hframes ⟨rfl, hminus⟩⟩
  · next hstop =>
    cases h
    obtain ⟨_, _, outer, _, rfl, hnests, houter, hbegun⟩ := hframes.pushed (by simp)
    cases hnests
    obtain ⟨items, rfl, hword, hlisted⟩ := hbegun
    obtain rfl := hlisted.nil
    rw [List.append_assoc]
    exact represents_finished houter
      (derives_statement (by decide) (derives_print hword (.absent _) hstop))
  · next hstop =>
    cases h
    obtain ⟨_, _, outer, _, rfl, hnests, houter, hbegun⟩ := hframes.pushed (by simp)
    cases hnests
    obtain ⟨rfl, hword⟩ := hbegun
    rw [List.append_assoc]
    exact represents_finished houter
      (derives_statement (by decide) (derives_returning hword (.absent _) hstop))
  · next hparen =>
    cases h
    obtain ⟨_, _, outer, _, rfl, hnests, houter, hbegun⟩ := hframes.pushed (by simp)
    cases hnests with | arguments k' =>
    obtain ⟨paren, items, rfl, hname, hopening, hlisted⟩ := hbegun
    obtain rfl := hlisted.nil
    exact ⟨outer, _, k', List.append_assoc .., houter,
      derives_callTree hname hopening (Or.inl ⟨rfl, rfl⟩) hparen⟩
  · cases h

theorem represents_endExpression (hframes : Awaits .expression frames ts)
    (hexpression : Derives (.phrase .expression) ts' [tree])
    (h : endExpression tree frames t = some state) : Represents state (ts ++ (ts' ++ [t])) := by
  unfold endExpression at h
  split at h
  · next expressions _ hstop =>
    cases h
    obtain ⟨_, _, outer, _, rfl, hnests, houter, hbegun⟩ := hframes.pushed (by simp)
    cases hnests
    obtain ⟨items, rfl, hword, hlisted⟩ := hbegun
    have hlist := hlisted.last hexpression
    rw [← List.reverse_cons] at hlist
    exact (represents_finished houter (derives_statement (by decide)
      (derives_print hword (.present hlist) hstop))).congr (by simp)
  · next hcomma =>
    cases h
    obtain ⟨_, _, outer, _, rfl, hnests, houter, hbegun⟩ := hframes.pushed (by simp)
    cases hnests
    obtain ⟨items, rfl, hword, hlisted⟩ := hbegun
    have hlist := hlisted.last hexpression
    rw [← List.reverse_cons] at hlist
    have hmore := Listed.more (by simp) hlist hcomma
    have hgoes := Awaits.push (.print _ _) houter ⟨_, rfl, hword, hmore⟩
    exact ⟨1, .operand (by simpa using hgoes)⟩
  · next hstop =>
    cases h
    obtain ⟨_, _, outer, _, rfl, hnests, houter, hbegun⟩ := hframes.pushed (by simp)
    cases hnests
    obtain ⟨sign, rfl, hname, hsign⟩ := hbegun
    exact (represents_finished houter (derives_statement (by decide)
      (derives_definition hname hsign hexpression hstop))).congr (by simp)
  · next hstop =>
    cases h
    obtain ⟨_, _, outer, _, rfl, hnests, houter, hbegun⟩ := hframes.pushed (by simp)
    cases hnests
    obtain ⟨sign, rfl, hname, hsign⟩ := hbegun
    exact (represents_finished houter (derives_statement (by decide)
      (derives_assignment hname hsign hexpression hstop))).congr (by simp)
  · next hstop =>
    cases h
    obtain ⟨_, _, outer, _, rfl, hnests, houter, hbegun⟩ := hframes.pushed (by simp)
    cases hnests
    obtain ⟨rfl, hword⟩ := hbegun
    exact (represents_finished houter (derives_statement (by decide)
      (derives_returning hword (.present hexpression) hstop))).congr (by simp)
  · next hstop =>
    cases h
    obtain ⟨_, _, outer, _, rfl, hnests, houter, hbegun⟩ := hframes.pushed (by simp)
    cases hnests
    obtain rfl := hbegun
    exact (represents_finished houter (derives_statement (by decide)
      (derives_expressionStatement hexpression hstop))).congr (by simp)
  · next hbrace =>
    cases h
    obtain ⟨_, _, outer, _, rfl, hnests, houter, hbegun⟩ := hframes.pushed (by simp)
    cases hnests
    obtain ⟨rfl, hword⟩ := hbegun
    have hthen := Awaits.push (.ifThen _ tree) houter ⟨ts', rfl, hword, hexpression⟩
    have hblock := Awaits.push (.block t []) hthen ⟨[], rfl, hbrace, .none _⟩
    exact .extension (by simpa using hblock)
  · next hbrace =>
    cases h
    obtain ⟨_, _, outer, _, rfl, hnests, houter, hbegun⟩ := hframes.pushed (by simp)
    cases hnests
    obtain ⟨rfl, hword⟩ := hbegun
    have hbody := Awaits.push (.whileBody _ tree) houter ⟨ts', rfl, hword, hexpression⟩
    have hblock := Awaits.push (.block t []) hbody ⟨[], rfl, hbrace, .none _⟩
    exact .extension (by simpa using hblock)
  · next hparen =>
    cases h
    obtain ⟨_, _, outer, _, rfl, hnests, houter, hbegun⟩ := hframes.pushed (by simp)
    cases hnests with | group k =>
    obtain ⟨paren, rfl, hopening⟩ := hbegun
    exact ⟨outer, _, k, List.append_assoc .., houter, derives_group hopening hexpression hparen⟩
  · next hcomma =>
    cases h
    obtain ⟨_, _, outer, _, rfl, hnests, houter, hbegun⟩ := hframes.pushed (by simp)
    cases hnests with | arguments k =>
    obtain ⟨paren, items, rfl, hname, hopening, hlisted⟩ := hbegun
    have hlist := hlisted.last hexpression
    rw [← List.reverse_cons] at hlist
    have hmore := Listed.more (by simp) hlist hcomma
    have hgoes := Awaits.push (.arguments k _ _) houter ⟨paren, _, rfl, hname, hopening, hmore⟩
    exact ⟨1, .operand (by simpa using hgoes)⟩
  · next hparen =>
    cases h
    obtain ⟨_, _, outer, _, rfl, hnests, houter, hbegun⟩ := hframes.pushed (by simp)
    cases hnests with | arguments k =>
    obtain ⟨paren, items, rfl, hname, hopening, hlisted⟩ := hbegun
    have hlist := hlisted.last hexpression
    rw [← List.reverse_cons] at hlist
    have hcall := derives_callTree hname hopening (Or.inr ⟨by simp, hlist⟩) hparen
    exact ⟨outer, _, k, by simp, houter, hcall⟩
  · cases h

/-- An operator waits for its right operand; a comparison has no comparison as its left one. -/
theorem pushBinary_eq_some {rule : Rule} (h : pushBinary rule tree frames t = some state) :
    let (left, outer) := reduce (leftTightness rule) tree frames
    state = ⟨.operand, .binary rule left t :: outer⟩ ∧ (rule = .comparison →
      ∀ left sign below, outer ≠ .binary .comparison left sign :: below) := by
  unfold pushBinary at h
  split at h
  · cases h
  · next left outer hchain hreduce =>
    cases h
    rw [hreduce]
    exact ⟨rfl, fun hrule left sign below houter => hchain left sign below hrule houter⟩

/-- An operator can lie on one that binds less tightly than its left operand. -/
theorem tightness_lt {rule other : Rule} (hloose : tightness other < leftTightness rule)
    (hchain : rule = .comparison → other ≠ .comparison) : tightness other < tightness rule := by
  unfold leftTightness at hloose
  split at hloose
  · next hrule =>
    subst hrule
    have hne : tightness other ≠ tightness .comparison := by
      intro heq
      unfold tightness at heq
      split at heq <;> simp_all
    omega
  · exact hloose

theorem tightness_pos {terminal : Terminal} {rule : Rule} (h : binaryRule? terminal = some rule) :
    1 ≤ tightness rule := by
  unfold binaryRule? at h
  split at h <;> cases h <;> decide

theorem represents_operatorStep {k : Nat} (hframes : Awaits (.operand k) frames ts)
    (hatom : Derives (.phrase .atom) ts' [tree])
    (h : operatorStep tree frames t = some state) : Represents state (ts ++ (ts' ++ [t])) := by
  unfold operatorStep at h
  split at h
  · next rule hrule =>
    have hleast : leftTightness rule ≤ 6 := by
      have := tightness_le rule
      unfold leftTightness
      split <;> omega
    obtain ⟨us, us', hus, hstops, hderives⟩ := reduce_derives hleast hframes (Nat.le_max_left k _)
      (Nat.le_max_right k _) (derives_level_of_atom _ hatom)
    obtain ⟨rfl, hchain⟩ := pushBinary_eq_some h
    rw [← List.append_assoc, hus, List.append_assoc]
    refine ⟨tightness rule + 1, ?_⟩
    rcases hstops with hstops | ⟨other, left, sign, below, houter, hloose, hstops⟩
    · exact .push (.binary _ t (tightness_pos hrule)) (.operand hstops)
        ⟨us', rfl, hrule, hderives⟩
    · refine .push (.binary _ t ?_) hstops ⟨us', rfl, hrule, hderives⟩
      refine tightness_lt hloose ?_
      rintro hcomparison rfl
      exact hchain hcomparison left sign below houter
  · obtain ⟨us, us', hus, hstops, hderives⟩ := reduce_derives (Nat.zero_le 6) hframes
      (Nat.le_refl k) (Nat.zero_le k) (derives_level_of_atom _ hatom)
    rw [← List.append_assoc, hus, List.append_assoc]
    rcases hstops with hstops | ⟨_, _, _, _, _, hloose, _⟩
    · exact represents_endExpression hstops (.phrase hderives) h
    · exact absurd hloose (Nat.not_lt_zero _)

theorem represents_nameStep {k : Nat} {name : Token} (hframes : Awaits (.operand k) frames ts)
    (hname : name.terminal = .word) (h : nameStep name frames t = some state) :
    Represents state (ts ++ [name, t]) := by
  unfold nameStep at h
  split at h
  · next hparen =>
    cases h
    exact ⟨1, .operand (.push (.arguments k name []) hframes
      ⟨t, [], rfl, hname, hparen, Or.inl ⟨rfl, rfl⟩⟩)⟩
  · have hreference : Derives (.phrase .atom) [name] [Tree.ofToken .reference name] :=
      .phrase (.left _ (.left _ (.left _ (.left _ (.right _ (.branch _ _ (.kept hname rfl)))))))
    exact represents_operatorStep hframes hreference h

theorem represents_finishBlock (hframes : Awaits .block frames ts)
    (hblock : Derives (.phrase .block) ts' [tree]) (h : finishBlock tree frames = some state) :
    Represents state (ts ++ ts') := by
  unfold finishBlock at h
  split at h
  · cases h
    obtain ⟨_, _, outer, _, rfl, hnests, houter, hbegun⟩ := hframes.pushed (by simp)
    cases hnests
    obtain ⟨inner, rfl, hword, hinner⟩ := hbegun
    rw [List.append_assoc]
    exact Awaits.push (.ifDone _ _ tree) houter ⟨inner, ts', rfl, hword, hinner, hblock⟩
  · cases h
    obtain ⟨_, _, outer, _, rfl, hnests, houter, hbegun⟩ := hframes.pushed (by simp)
    obtain ⟨inner, block, other, rfl, hword, hinner, hthen, hother⟩ := hbegun
    have hconditional : Derives _ _ [conditionalTree _ _ _ (some tree)] :=
      derives_conditionalTree hword hinner hthen (derives_else hother (.left _ hblock))
    refine .extension ?_
    cases hnests with
    | elseBlock | elseIf => simpa using awaits_finishConditional houter hconditional
  · cases h
    obtain ⟨_, _, outer, _, rfl, hnests, houter, hbegun⟩ := hframes.pushed (by simp)
    cases hnests
    obtain ⟨inner, rfl, hword, hinner⟩ := hbegun
    rw [List.append_assoc]
    exact .extension (awaits_finishStatement houter
      (derives_statement (by decide) (derives_loop hword hinner hblock)))
  · cases h
    obtain ⟨_, _, outer, _, rfl, hnests, houter, hbegun⟩ := hframes.pushed (by simp)
    cases hnests
    rw [List.append_assoc]
    exact .extension (awaits_finishStatement houter
      (derives_statement (by decide) (derives_function hbegun hblock)))
  · cases h

theorem represents_startStatement (hframes : Awaits .statement frames ts)
    (h : startStatement frames t = some state) : Represents state (ts ++ [t]) := by
  unfold startStatement at h
  split at h
  · next hword =>
    cases h
    exact ⟨1, .operand (.push (.print t []) hframes ⟨[], rfl, hword, Or.inl ⟨rfl, rfl⟩⟩)⟩
  · next hword =>
    cases h
    exact ⟨1, .operand (.push (.returning t) hframes ⟨rfl, hword⟩)⟩
  · next hword =>
    cases h
    exact ⟨1, .operand (.push (.ifCondition t) (.conditional hframes) ⟨rfl, hword⟩)⟩
  · next hword =>
    cases h
    exact ⟨1, .operand (.push (.whileCondition t) hframes ⟨rfl, hword⟩)⟩
  · next hword =>
    cases h
    exact ⟨ts, rfl, Or.inl hword, hframes⟩
  · next hword =>
    cases h
    exact ⟨ts, rfl, Or.inr hword, hframes⟩
  · next hstop =>
    cases h
    exact represents_finished hframes
      (derives_statement (by decide) (derives_emptyStatement hstop))
  · next hbrace =>
    obtain ⟨_, _, outer, _, rfl, hnests, houter, hbegun⟩ := hframes.pushed (by simp)
    cases hnests
    obtain ⟨inner, rfl, hopening, hinner⟩ := hbegun
    rw [List.append_assoc]
    exact represents_finishBlock houter (derives_block hopening hinner hbrace) h
  · next hword =>
    cases h
    exact ⟨ts, rfl, hword, hframes⟩
  · have hexpression := Awaits.operand (.push .expressionStatement hframes rfl)
    rw [List.append_nil] at hexpression
    exact represents_operandStep hexpression h

theorem represents_statementStep (hframes : Awaits .extension frames ts)
    (h : statementStep frames t = some state) : Represents state (ts ++ [t]) := by
  unfold statementStep at h
  split at h
  · next word condition thenBlock outer hother =>
    cases h
    obtain ⟨_, _, outer, _, rfl, hnests, houter, hbegun⟩ := hframes.pushed (by simp)
    cases hnests
    obtain ⟨inner, block, rfl, hword, hinner, hblock⟩ := hbegun
    have hbegun : (Frame.ifElse word condition thenBlock).Begun
        (word :: (inner ++ block ++ [t])) :=
      ⟨inner, block, t, rfl, hword, hinner, hblock, hother⟩
    rw [List.append_assoc]
    exact ⟨.push (.elseBlock ..) houter hbegun, .push (.elseIf ..) houter hbegun⟩
  · exact represents_startStatement (awaits_settle hframes) h

theorem derives_parametersTree {parameters : List Token} (hne : parameters ≠ [])
    (h : Derives (listOf (.token .word)) ts (parameters.map fun t => .leaf t.text)) :
    Derives (optional (.phrase .parameters)) ts (parametersTree? parameters).toList := by
  cases parameters with
  | nil => exact absurd rfl hne
  | cons first rest =>
    simp only [parametersTree?, List.getLast?_cons]
    exact .present (.phrase (.branch _ _ h))

/-- A step adds its token to those that the state stands for. -/
theorem Represents.step {next : State} (hstate : Represents state ts)
    (h : step state t = some next) : Represents next (ts ++ [t]) := by
  obtain ⟨expectation, frames⟩ := state
  unfold Reader.step at h
  dsimp only at h
  split at h
  · exact represents_statementStep hstate h
  · next hsign =>
    cases h
    obtain ⟨outer, rfl, hname, hframes⟩ := hstate
    rw [List.append_assoc]
    exact ⟨1, .operand (.push (.definition _) hframes ⟨t, rfl, hname, hsign⟩)⟩
  · next hsign =>
    cases h
    obtain ⟨outer, rfl, hname, hframes⟩ := hstate
    rw [List.append_assoc]
    exact ⟨1, .operand (.push (.assignment _) hframes ⟨t, rfl, hname, hsign⟩)⟩
  · obtain ⟨outer, rfl, hname, hframes⟩ := hstate
    have hexpression : Awaits (.operand 1) (.expressionStatement :: frames) (outer ++ []) :=
      .operand (.push .expressionStatement hframes rfl)
    rw [List.append_nil] at hexpression
    rw [List.append_assoc]
    exact represents_nameStep hexpression hname h
  · obtain ⟨least, hframes⟩ := hstate
    exact represents_operandStep hframes h
  · obtain ⟨outer, least, rfl, hname, hframes⟩ := hstate
    rw [List.append_assoc]
    exact represents_nameStep hframes hname h
  · obtain ⟨outer, inner, least, rfl, hframes, hatom⟩ := hstate
    rw [List.append_assoc]
    exact represents_operatorStep hframes hatom h
  · next hparen =>
    cases h
    obtain ⟨outer, least, rfl, hword, hframes⟩ := hstate
    exact ⟨outer, t, least, by simp, hword, hparen, hframes⟩
  · next hparen =>
    cases h
    obtain ⟨outer, opening, least, rfl, hword, hopening, hframes⟩ := hstate
    refine ⟨outer, _, least, List.append_assoc .., hframes, .phrase ?_⟩
    rcases hword with ⟨rfl, hword⟩ | ⟨rfl, hword⟩
    · exact .left _ (.left _ (.right _ (.branch _ _
        (.seq (.seq (.keyword hword) (.symbol hopening)) (.symbol hparen)))))
    · exact .left _ (.right _ (.branch _ _
        (.seq (.seq (.keyword hword) (.symbol hopening)) (.symbol hparen))))
  · next hname =>
    cases h
    obtain ⟨outer, rfl, hword, hframes⟩ := hstate
    exact ⟨outer, by simp, hword, hname, hframes⟩
  · next hparen =>
    cases h
    obtain ⟨outer, rfl, hword, hname, hframes⟩ := hstate
    exact ⟨outer, t, [], by simp, hword, hname, hparen, Or.inl ⟨rfl, rfl⟩, hframes⟩
  · next hparameter =>
    cases h
    obtain ⟨outer, opening, inner, rfl, hword, hname, hopening, hlisted, hframes⟩ := hstate
    refine ⟨outer, opening, inner ++ [t], by simp, hword, hname, hopening, by simp, ?_, hframes⟩
    rw [List.map_append]
    exact hlisted.last (.kept hparameter rfl)
  · next hparen =>
    cases h
    obtain ⟨outer, opening, inner, rfl, hword, hname, hopening, hlisted, hframes⟩ := hstate
    obtain rfl := hlisted.nil
    exact ⟨outer, _, List.append_assoc .., ⟨opening, [], t, rfl, hword, hname, hopening, .absent _,
      hparen⟩, hframes⟩
  · next hcomma =>
    cases h
    obtain ⟨outer, opening, inner, rfl, hword, hname, hopening, hne, hlist, hframes⟩ := hstate
    exact ⟨outer, opening, inner ++ [t], by simp, hword, hname, hopening,
      .more (by simpa using hne) hlist hcomma, hframes⟩
  · next hparen =>
    cases h
    obtain ⟨outer, opening, inner, rfl, hword, hname, hopening, hne, hlist, hframes⟩ := hstate
    exact ⟨outer, _, List.append_assoc .., ⟨opening, inner, t, rfl, hword, hname, hopening,
      derives_parametersTree hne hlist, hparen⟩, hframes⟩
  · next hbrace =>
    cases h
    obtain ⟨outer, inner, rfl, hhead, hframes⟩ := hstate
    have hbody := Awaits.push (.functionBody ..) hframes hhead
    exact .extension (.push (.block t []) hbody ⟨[], rfl, hbrace, .none _⟩)
  · next hbrace =>
    cases h
    exact .extension (.push (.block t []) hstate.1 ⟨[], rfl, hbrace, .none _⟩)
  · next hword =>
    cases h
    exact ⟨1, .operand (.push (.ifCondition t) hstate.2 ⟨rfl, hword⟩)⟩
  · cases h

/-- A complete program is derived from all the tokens. -/
theorem Represents.finish (hstate : Represents state ts) (h : finish? state = some tree) :
    Derives (.phrase .program) ts [tree] := by
  obtain ⟨expectation, frames⟩ := state
  unfold finish? at h
  dsimp only at h
  split at h
  · next hsettle =>
    cases h
    have hframes := awaits_settle hstate
    dsimp only at hframes
    rw [hsettle] at hframes
    cases hframes with
    | program hbegun => exact .phrase (.branch _ _ hbegun)
    | push hnests => cases hnests
  · cases h

/-! ## Texts -/

theorem derives_of_ends {last : Position} (hstate : Represents state ts)
    (h : readFrom.ends state last = .ok tree) : Derives (.phrase .program) ts [tree] := by
  unfold readFrom.ends at h
  split at h
  · next tree hfinish =>
    cases h
    exact hstate.finish hfinish
  · cases h

/-- What is left of a text that can be read are tokens that complete the program. -/
theorem readFrom_derives {last position : Position} {cs : List Char} {fuel : Nat}
    (hstate : Represents state ts) (hfuel : cs.length ≤ fuel)
    (h : readFrom state last position cs fuel = .ok tree) :
    ∃ rest, Derives (.phrase .program) (ts ++ rest) [tree] ∧ Spells rest cs ∧
      ∀ t ∈ rest, t.IsProper := by
  induction fuel generalizing state ts last position cs with
  | zero =>
    obtain rfl := List.eq_nil_of_length_eq_zero (Nat.le_zero.1 hfuel)
    refine ⟨[], ?_, .finish (by simp), by simp⟩
    rw [List.append_nil]
    exact derives_of_ends hstate h
  | succ fuel ih =>
    rw [readFrom] at h
    split at h
    · next hnext =>
      refine ⟨[], ?_, .finish (Lexer.next_finish hnext), by simp⟩
      rw [List.append_nil]
      exact derives_of_ends hstate h
    · cases h
    · next t rest after hnext =>
      obtain ⟨_, hproper, gap, hgap, rfl⟩ := Lexer.next_token hnext
      split at h
      · cases h
      · next state' hstep =>
        -- a token has at least one character, so the rest of the text is shorter
        have hlength : rest.length ≤ fuel := by
          have := List.length_pos_iff.2 hproper.ne_nil
          simp only [List.length_append] at hfuel
          omega
        obtain ⟨tokens, hderives, hspells, htokens⟩ := ih (hstate.step hstep) hlength h
        refine ⟨t :: tokens, ?_, .token hgap hspells, ?_⟩
        · rwa [List.append_assoc] at hderives
        · intro u hu
          rcases List.mem_cons.1 hu with rfl | hu
          · exact hproper
          · exact htokens u hu

/-- Only a token or a character out of place keeps a text from being read. -/
theorem readFrom_error {last position : Position} {cs : List Char} {fuel : Nat} {e : ScriptError}
    (h : readFrom state last position cs fuel = .error e) : e.isGrammatical = true := by
  have hends {state : State} {last : Position} (h : readFrom.ends state last = .error e) :
      e.isGrammatical = true := by
    unfold readFrom.ends at h
    split at h <;> cases h
    rfl
  induction fuel generalizing state last position cs with
  | zero => exact hends h
  | succ fuel ih =>
    rw [readFrom] at h
    split at h
    · exact hends h
    · next hnext =>
      cases h
      exact Lexer.next_failed hnext
    · split at h
      · cases h
        rfl
      · exact ih h

theorem represents_initial : Represents State.initial [] :=
  .extension (.program (.none _))

end Reader

/-- A text that can be read consists of tokens from which the grammar derives the tree. -/
theorem Tree.read_derives {source : String} {tree : Tree} (h : Tree.read source = .ok tree) :
    ∃ ts, Grammar.Derives (.phrase .program) ts [tree] ∧ Spells ts source.toList ∧
      ∀ t ∈ ts, t.IsProper :=
  Reader.readFrom_derives Reader.represents_initial (Nat.le_refl _) h

theorem Tree.read_error {source : String} {e : ScriptError} (h : Tree.read source = .error e) :
    e.isGrammatical = true :=
  Reader.readFrom_error h

/-! ## Programs -/

/-- The tree of a program is a branch for the whole. -/
theorem Grammar.eq_branch_of_derives_program {ts : List Token} {tree : Tree}
    (h : Derives (.phrase .program) ts [tree]) :
    ∃ span parts, tree = .branch .program span parts := by
  cases h with
  | phrase h =>
    cases h with
    | branch _ span _ => exact ⟨span, _, rfl⟩

theorem exists_of_bind_eq_ok {ε α β : Type} {x : Except ε α} {next : α → Except ε β} {b : β}
    (h : x >>= next = .ok b) : ∃ a, x = .ok a ∧ next a = .ok b := by
  cases x with
  | error e => cases h
  | ok a => exact ⟨a, rfl, h⟩

variable {names : Text.Names}

/-- A branch for a whole program means a program, if it means anything. -/
theorem Tree.eq_program_of_meaning {source : List Char} {span : Option Span} {parts : List Tree}
    {part : Part} (h : (Tree.branch .program span parts).meaning names source = .ok part) :
    ∃ body, part = .node (.program body) := by
  rw [Tree.meaning] at h
  obtain ⟨meanings, _, hprogram⟩ := exists_of_bind_eq_ok h
  cases hprogram
  exact ⟨_, rfl⟩

theorem Program.parse_of_meaning {source text : String} {tree : Tree} {body : List Node}
    (htext : Source.terminate source = text) (hread : Tree.read text = .ok tree)
    (hmeaning : tree.meaning names text.toList = .ok (.node (.program body))) :
    Program.parse names source = .ok body := by
  rw [Program.parse, htext, hread]
  change (Tree.meaning _ _ _ >>= _) = _
  rw [hmeaning]
  rfl

theorem Program.parse_of_meaning_error {source : String} {tree : Tree} {failure : Failure}
    (hread : Tree.read (Source.terminate source) = .ok tree)
    (hmeaning : tree.meaning names (Source.terminate source).toList = .error failure) :
    Program.parse names source = .error failure := by
  rw [Program.parse, hread]
  change (Tree.meaning _ _ _ >>= _) = _
  rw [hmeaning]
  rfl

/-- What parsing can come to: a text outside the grammar, or a derivation, whose tree has no meaning
or means a program. -/
theorem Program.parse_cases (names : Text.Names) (source : String) :
    (∃ e, e.isGrammatical = true ∧ Program.parse names source = .error (.script e)) ∨
    ∃ ts tree, Grammar.Derives (.phrase .program) ts [tree] ∧ (∀ t ∈ ts, t.IsProper) ∧
      Spells ts (Source.terminate source).toList ∧
      ((∃ failure, tree.meaning names (Source.terminate source).toList = .error failure ∧
          Program.parse names source = .error failure) ∨
        ∃ body, tree.meaning names (Source.terminate source).toList = .ok (.node (.program body)) ∧
          Program.parse names source = .ok body) := by
  cases hread : Tree.read (Source.terminate source) with
  | error e =>
    refine .inl ⟨e, Tree.read_error hread, ?_⟩
    rw [Program.parse, hread]
    rfl
  | ok tree =>
    obtain ⟨ts, hderives, hspells, hproper⟩ := Tree.read_derives hread
    refine .inr ⟨ts, tree, hderives, hproper, hspells, ?_⟩
    obtain ⟨span, parts, rfl⟩ := Grammar.eq_branch_of_derives_program hderives
    cases hmeaning : (Tree.branch .program span parts).meaning names
        (Source.terminate source).toList with
    | error failure => exact .inl ⟨failure, rfl, Program.parse_of_meaning_error hread hmeaning⟩
    | ok part =>
      obtain ⟨body, rfl⟩ := Tree.eq_program_of_meaning hmeaning
      exact .inr ⟨body, rfl, Program.parse_of_meaning rfl hread hmeaning⟩

/-- The statements of a program are the meaning of a tree that the grammar derives from the tokens
of the text; the tokens and white space make up all of it. -/
theorem Program.parse_derivable {source : String} {body : List Node}
    (h : Program.parse names source = .ok body) :
    ∃ ts tree, Grammar.Derives (.phrase .program) ts [tree] ∧ (∀ t ∈ ts, t.IsProper) ∧
      Spells ts (Source.terminate source).toList ∧
      tree.meaning names (Source.terminate source).toList = .ok (.node (.program body)) := by
  rcases Program.parse_cases names source with
    ⟨e, -, herror⟩ | ⟨ts, tree, hderives, hproper, hspells, ⟨_, -, herror⟩ | ⟨body', hmeaning, hok⟩⟩
  · rw [herror] at h
    cases h
  · rw [herror] at h
    cases h
  · rw [hok] at h
    cases h
    exact ⟨ts, tree, hderives, hproper, hspells, hmeaning⟩

/-- A function with a negated literal in it, and a call that is compared and printed beside a text
with a semicolon in it. -/
theorem Program.parse_derivable_function :
    let source := "fn f(a) \x7b\n  return a * -2\n\x7d\nprint f(3) <= 1, \"a;\""
    let body : List Node :=
      [.function "f" ["a"]
        (.block [.returning (.binary (.arithmetic .mult) (.reference "a")
          (.literal (.integer (-2))))]),
       .print [.binary (.order .smallerOrEqual) (.call "f" [.literal (.integer 3)])
          (.literal (.integer 1)), .literal (.string "a;")]]
    Program.parse Text.unnamed source = .ok body ∧
      ∃ ts tree, Grammar.Derives (.phrase .program) ts [tree] ∧ (∀ t ∈ ts, t.IsProper) ∧
        Spells ts (Source.terminate source).toList ∧
        tree.meaning Text.unnamed (Source.terminate source).toList
          = .ok (.node (.program body)) := by
  intro source body
  have htext : Source.terminate source
      = "fn f(a) \x7b\n  return a * -2;\n\x7d\nprint f(3) <= 1, \"a;\";" := by decide +kernel
  have hread : Tree.read "fn f(a) \x7b\n  return a * -2;\n\x7d\nprint f(3) <= 1, \"a;\";"
      = .ok (.branch .program (some ⟨0, 51⟩)
        [.branch .function (some ⟨0, 28⟩)
          [.leaf "f", .branch .parameters (some ⟨5, 6⟩) [.leaf "a"],
            .branch .block (some ⟨8, 28⟩)
              [.branch .returning (some ⟨12, 26⟩)
                [.branch .mul (some ⟨19, 25⟩)
                  [.branch .reference (some ⟨19, 20⟩) [.leaf "a"],
                    .branch .negation (some ⟨23, 25⟩)
                      [.branch .wholeLiteral (some ⟨24, 25⟩) [.leaf "2"]]]]]],
          .branch .print (some ⟨29, 51⟩)
            [.branch .comparison (some ⟨35, 44⟩)
              [.branch .call (some ⟨35, 39⟩)
                [.leaf "f", .branch .arguments (some ⟨37, 38⟩)
                  [.branch .wholeLiteral (some ⟨37, 38⟩) [.leaf "3"]]],
                .leaf "<=", .branch .wholeLiteral (some ⟨43, 44⟩) [.leaf "1"]],
              .branch .textLiteral (some ⟨46, 50⟩) [.leaf "\"a;\""]]]) := by
    rfl
  have hparse : Program.parse Text.unnamed source = .ok body :=
    Program.parse_of_meaning htext hread rfl
  exact ⟨hparse, Program.parse_derivable hparse⟩

end ScriptLang
