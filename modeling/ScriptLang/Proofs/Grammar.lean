import ScriptLang.Tree.Reader

set_option autoImplicit false

/-! # The grammar

`Phrase.form` gives the rules of the grammar, one form for each kind of phrase, and `Derives` says
which tokens a form covers and which trees it leaves. Forms are put together by `++` (one after the
other), `|||` (one of two) and `Form.many`. A form in a `Form.branch` becomes a branch of the parse
tree; what stands in no branch of its own is handed on to the branch around it.

What holds of a phrase as soon as it holds of its parts holds of everything derived
(`Derives.yields`). -/

namespace ScriptLang

/-! ## Terminals -/

/-- Whether a text is a run of digits. -/
def IsNumeral (cs : List Char) : Prop :=
  cs ≠ [] ∧ ∀ c ∈ cs, Text.isDigit c = true

namespace Terminal

/-- The texts of a terminal. A text literal has no line feed in it, and its last quote stands after
an even number of backslashes. -/
def Matches : Terminal → List Char → Prop
  | symbol s, cs => cs = s.text.toList
  | keyword k, cs => cs = k.text.toList
  | comparison, cs => String.ofList cs ∈ ["==", "!=", "<=", ">=", "<>", "<", ">"]
  | decimal, cs => ∃ whole fraction, cs = whole ++ '.' :: fraction ∧ IsNumeral whole ∧
      IsNumeral fraction
  | whole, cs => IsNumeral cs
  | word, cs => ∃ c rest, cs = c :: rest ∧ Lexer.isWordStart c = true ∧
      ∀ d ∈ rest, Lexer.isWordCharacter d = true
  | text, cs => ∃ inner n, cs = '"' :: (inner ++ List.replicate (2 * n) '\\' ++ ['"']) ∧
      '\n' ∉ inner ∧ inner.getLast? ≠ some '\\'
  | finish, _ => False

/-- Whether the tokens of a terminal become leaves. -/
def isKept : Terminal → Bool
  | comparison | decimal | whole | word | text => true
  | symbol _ | keyword _ | finish => false

end Terminal

namespace Token

/-- Whether the text of a token is one of its terminal's. -/
def IsProper (t : Token) : Prop :=
  t.terminal.Matches t.text.toList

theorem IsProper.isNumeral {t : Token} (h : t.IsProper) (hterminal : t.terminal = .whole) :
    IsNumeral t.text.toList := by
  rw [IsProper, hterminal] at h
  exact h

/-- The leaves that a token leaves in a parse tree. -/
def leaves (t : Token) : List Tree :=
  if t.terminal.isKept then [.leaf t.text] else []

end Token

/-- Whether tokens make up a text, in this order and with nothing but white space around them. -/
inductive Spells : List Token → List Char → Prop where
  | finish {gap : List Char} (hgap : ∀ c ∈ gap, Lexer.isGap c = true) : Spells [] gap
  | token {t : Token} {ts : List Token} {gap rest : List Char}
      (hgap : ∀ c ∈ gap, Lexer.isGap c = true) (hrest : Spells ts rest) :
      Spells (t :: ts) (gap ++ t.text.toList ++ rest)

namespace Grammar

/-! ## Rules -/

/-- The kinds of phrases. -/
inductive Phrase where
  | program
  | statement
  | print
  | definition
  | assignment
  | conditional
  | loop
  | function
  | parameters
  | returning
  | expressionStatement
  | emptyStatement
  | block
  | expression
  | disjunction
  | conjunction
  | comparison
  | sum
  | product
  | unary
  | atom
  | call
  | arguments
  deriving DecidableEq

/-- What a phrase can consist of. -/
inductive Form where
  | token (terminal : Terminal)
  | phrase (phrase : Phrase)
  | empty
  | seq (first second : Form)
  | either (first second : Form)
  | many (form : Form)
  | branch (rule : Rule) (form : Form)

namespace Form

instance : Append Form := ⟨seq⟩

instance : OrOp Form := ⟨either⟩

theorem append_eq (first second : Form) : first ++ second = seq first second := rfl

/-- A keyword. -/
abbrev keyword (k : Keyword) : Form := token (.keyword k)

/-- A symbol. -/
abbrev symbol (s : Symbol) : Form := token (.symbol s)

/-- A form that may be left out. -/
abbrev optional (form : Form) : Form := form ||| empty

/-- One or more forms with commas between them. -/
abbrev listOf (form : Form) : Form := form ++ many (symbol .comma ++ form)

end Form

open Form

/-- The rules of the grammar. -/
def Phrase.form : Phrase → Form
  | program => branch .program (many (phrase statement))
  | statement =>
    phrase print ||| phrase definition ||| phrase assignment ||| phrase conditional ||| phrase loop
      ||| phrase function ||| phrase returning ||| phrase expressionStatement
      ||| phrase emptyStatement
  | print =>
    branch .print
      (keyword .print ++ optional (listOf (phrase expression)) ++ symbol .semicolon)
  | definition =>
    branch .definition (token .word ++ symbol .define ++ phrase expression ++ symbol .semicolon)
  | assignment =>
    branch .assignment (token .word ++ symbol .equal ++ phrase expression ++ symbol .semicolon)
  | conditional =>
    branch .conditional
      (keyword .ifWord ++ phrase expression ++ phrase block
        ++ optional (keyword .elseWord ++ (phrase block ||| phrase conditional)))
  | loop => branch .loop (keyword .whileWord ++ phrase expression ++ phrase block)
  | function =>
    branch .function
      ((keyword .fn ||| keyword .function) ++ token .word ++ symbol .leftParen
        ++ optional (phrase parameters) ++ symbol .rightParen ++ phrase block)
  | parameters => branch .parameters (listOf (token .word))
  | returning =>
    branch .returning
      (keyword .returnWord ++ optional (phrase expression) ++ symbol .semicolon)
  | expressionStatement => branch .expressionStatement (phrase expression ++ symbol .semicolon)
  | emptyStatement => branch .emptyStatement (symbol .semicolon)
  | block =>
    branch .block (symbol .leftBrace ++ many (phrase statement) ++ symbol .rightBrace)
  | expression => phrase disjunction
  | disjunction =>
    phrase conjunction
      ||| branch .or (phrase disjunction ++ (keyword .or ||| symbol .bars) ++ phrase conjunction)
  | conjunction =>
    phrase comparison
      ||| branch .and
        (phrase conjunction ++ (keyword .and ||| symbol .ampersands) ++ phrase comparison)
  | comparison =>
    phrase sum ||| branch .comparison (phrase sum ++ token .comparison ++ phrase sum)
  | sum =>
    phrase product
      ||| branch .add (phrase sum ++ symbol .plus ++ phrase product)
      ||| branch .sub (phrase sum ++ symbol .minus ++ phrase product)
  | product =>
    phrase unary
      ||| branch .mul (phrase product ++ symbol .star ++ phrase unary)
      ||| branch .div (phrase product ++ symbol .slash ++ phrase unary)
  | unary => phrase atom ||| branch .negation (symbol .minus ++ phrase unary)
  | atom =>
    branch .wholeLiteral (token .whole)
      ||| branch .decimalLiteral (token .decimal)
      ||| branch .textLiteral (token .text)
      ||| branch .trueLiteral (keyword .trueWord)
      ||| branch .falseLiteral (keyword .falseWord)
      ||| branch .reference (token .word)
      ||| phrase call
      ||| branch .readNumber (keyword .readNumber ++ symbol .leftParen ++ symbol .rightParen)
      ||| branch .readText (keyword .readText ++ symbol .leftParen ++ symbol .rightParen)
      ||| (symbol .leftParen ++ phrase expression ++ symbol .rightParen)
  | call =>
    branch .call
      (token .word ++ symbol .leftParen ++ optional (phrase arguments) ++ symbol .rightParen)
  | arguments => branch .arguments (listOf (phrase expression))

/-! ## Derivations -/

/-- Whether a form covers some tokens and leaves some trees. Which stretch of the text a branch
covers is no matter of the grammar. -/
inductive Derives : Form → List Token → List Tree → Prop where
  | token (t : Token) : Derives (.token t.terminal) [t] t.leaves
  | phrase {p : Phrase} {ts : List Token} {trees : List Tree} (h : Derives p.form ts trees) :
      Derives (.phrase p) ts trees
  | empty : Derives .empty [] []
  | seq {f g : Form} {ts ts' : List Token} {trees trees' : List Tree} (hf : Derives f ts trees)
      (hg : Derives g ts' trees') : Derives (.seq f g) (ts ++ ts') (trees ++ trees')
  | left {f : Form} (g : Form) {ts : List Token} {trees : List Tree} (h : Derives f ts trees) :
      Derives (.either f g) ts trees
  | right (f : Form) {g : Form} {ts : List Token} {trees : List Tree} (h : Derives g ts trees) :
      Derives (.either f g) ts trees
  | none (f : Form) : Derives (.many f) [] []
  | more {f : Form} {ts ts' : List Token} {trees trees' : List Tree} (hf : Derives f ts trees)
      (hmany : Derives (.many f) ts' trees') : Derives (.many f) (ts ++ ts') (trees ++ trees')
  | branch (rule : Rule) (span : Option Span) {f : Form} {ts : List Token} {trees : List Tree}
      (h : Derives f ts trees) : Derives (.branch rule f) ts [.branch rule span trees]

/-! ## Building derivations -/

namespace Derives

variable {f : Form} {t : Token} {ts ts' : List Token} {trees trees' : List Tree}

theorem congr (h : Derives f ts trees) (hts : ts = ts') (htrees : trees = trees') :
    Derives f ts' trees' :=
  hts ▸ htrees ▸ h

theorem keyword {k : Keyword} (h : t.terminal = .keyword k) : Derives (keyword k) [t] [] := by
  have ht := Derives.token t
  rw [h, Token.leaves, h] at ht
  exact ht

theorem symbol {s : Symbol} (h : t.terminal = .symbol s) : Derives (symbol s) [t] [] := by
  have ht := Derives.token t
  rw [h, Token.leaves, h] at ht
  exact ht

theorem kept {terminal : Terminal} (h : t.terminal = terminal) (hkept : terminal.isKept = true) :
    Derives (.token terminal) [t] [.leaf t.text] := by
  have ht := Derives.token t
  rw [h, Token.leaves, h, if_pos hkept] at ht
  exact ht

theorem absent (f : Form) : Derives (optional f) [] [] :=
  .right f .empty

theorem present (h : Derives f ts trees) : Derives (optional f) ts trees :=
  .left _ h

/-- One more repetition at the end. -/
theorem snoc (hmany : Derives (many f) ts trees) (hf : Derives f ts' trees') :
    Derives (many f) (ts ++ ts') (trees ++ trees') := by
  generalize hg : many f = g at hmany
  induction hmany with
  | none =>
    cases hg
    exact (Derives.more hf (.none _)).congr (by simp) (by simp)
  | more hfirst _ _ ih =>
    cases hg
    exact (Derives.more hfirst (ih rfl)).congr (by simp) (by simp)
  | _ => cases hg

/-- One more item after a comma. -/
theorem listSnoc {comma : Token} (hlist : Derives (listOf f) ts trees)
    (hcomma : comma.terminal = .symbol .comma) (hf : Derives f ts' trees') :
    Derives (listOf f) (ts ++ comma :: ts') (trees ++ trees') := by
  cases hlist with
  | seq hfirst hmany =>
    exact (Derives.seq hfirst (hmany.snoc (.seq (.symbol hcomma) hf))).congr (by simp) (by simp)

end Derives

/-! ### Statements -/

section Statements

variable {span : Option Span} {ts ts' : List Token} {tree : Tree} {trees : List Tree}
  {word name sign stop : Token}

/-- Each kind of statement is a statement. -/
theorem derives_statement {p : Phrase}
    (hp : p ∈ [Phrase.print, .definition, .assignment, .conditional, .loop, .function, .returning,
      .expressionStatement, .emptyStatement])
    (h : Derives (.phrase p) ts trees) : Derives (.phrase .statement) ts trees := by
  simp only [List.mem_cons, List.not_mem_nil, or_false] at hp
  refine .phrase ?_
  rcases hp with rfl | rfl | rfl | rfl | rfl | rfl | rfl | rfl | rfl
  · exact .left _ (.left _ (.left _ (.left _ (.left _ (.left _ (.left _ (.left _ h)))))))
  · exact .left _ (.left _ (.left _ (.left _ (.left _ (.left _ (.left _ (.right _ h)))))))
  · exact .left _ (.left _ (.left _ (.left _ (.left _ (.left _ (.right _ h))))))
  · exact .left _ (.left _ (.left _ (.left _ (.left _ (.right _ h)))))
  · exact .left _ (.left _ (.left _ (.left _ (.right _ h))))
  · exact .left _ (.left _ (.left _ (.right _ h)))
  · exact .left _ (.left _ (.right _ h))
  · exact .left _ (.right _ h)
  · exact .right _ h

theorem derives_print (hword : word.terminal = .keyword .print)
    (h : Derives (optional (listOf (.phrase .expression))) ts trees)
    (hstop : stop.terminal = .symbol .semicolon) :
    Derives (.phrase .print) (word :: (ts ++ [stop])) [.branch .print span trees] :=
  .phrase (.branch _ _ ((Derives.seq (.seq (.keyword hword) h) (.symbol hstop)).congr
    (by simp) (by simp)))

theorem derives_definition (hname : name.terminal = .word)
    (hsign : sign.terminal = .symbol .define) (h : Derives (.phrase .expression) ts [tree])
    (hstop : stop.terminal = .symbol .semicolon) :
    Derives (.phrase .definition) (name :: sign :: (ts ++ [stop]))
      [.branch .definition span [.leaf name.text, tree]] :=
  .phrase (.branch _ _ ((Derives.seq (.seq (.seq (.kept hname rfl) (.symbol hsign)) h)
    (.symbol hstop)).congr (by simp) (by simp)))

theorem derives_assignment (hname : name.terminal = .word)
    (hsign : sign.terminal = .symbol .equal) (h : Derives (.phrase .expression) ts [tree])
    (hstop : stop.terminal = .symbol .semicolon) :
    Derives (.phrase .assignment) (name :: sign :: (ts ++ [stop]))
      [.branch .assignment span [.leaf name.text, tree]] :=
  .phrase (.branch _ _ ((Derives.seq (.seq (.seq (.kept hname rfl) (.symbol hsign)) h)
    (.symbol hstop)).congr (by simp) (by simp)))

theorem derives_returning (hword : word.terminal = .keyword .returnWord)
    (h : Derives (optional (.phrase .expression)) ts trees)
    (hstop : stop.terminal = .symbol .semicolon) :
    Derives (.phrase .returning) (word :: (ts ++ [stop])) [.branch .returning span trees] :=
  .phrase (.branch _ _ ((Derives.seq (.seq (.keyword hword) h) (.symbol hstop)).congr
    (by simp) (by simp)))

theorem derives_expressionStatement (h : Derives (.phrase .expression) ts [tree])
    (hstop : stop.terminal = .symbol .semicolon) :
    Derives (.phrase .expressionStatement) (ts ++ [stop])
      [.branch .expressionStatement span [tree]] :=
  .phrase (.branch _ _ (.seq h (.symbol hstop)))

theorem derives_emptyStatement (hstop : stop.terminal = .symbol .semicolon) :
    Derives (.phrase .emptyStatement) [stop] [.branch .emptyStatement span []] :=
  .phrase (.branch _ _ (.symbol hstop))

theorem derives_block {closing : Token} (hopening : sign.terminal = .symbol .leftBrace)
    (h : Derives (many (.phrase .statement)) ts trees)
    (hclosing : closing.terminal = .symbol .rightBrace) :
    Derives (.phrase .block) (sign :: (ts ++ [closing])) [.branch .block span trees] :=
  .phrase (.branch _ _ ((Derives.seq (.seq (.symbol hopening) h) (.symbol hclosing)).congr
    (by simp) (by simp)))

theorem derives_loop {body : Tree} (hword : word.terminal = .keyword .whileWord)
    (h : Derives (.phrase .expression) ts [tree]) (hbody : Derives (.phrase .block) ts' [body]) :
    Derives (.phrase .loop) (word :: (ts ++ ts')) [.branch .loop span [tree, body]] :=
  .phrase (.branch _ _ ((Derives.seq (.seq (.keyword hword) h) hbody).congr (by simp) (by simp)))

theorem derives_conditional {ts'' : List Token} {thenBlock : Tree} {elseBranch : List Tree}
    (hword : word.terminal = .keyword .ifWord) (h : Derives (.phrase .expression) ts [tree])
    (hthen : Derives (.phrase .block) ts' [thenBlock])
    (helse : Derives (optional (.keyword .elseWord ++ (.phrase .block ||| .phrase .conditional)))
      ts'' elseBranch) :
    Derives (.phrase .conditional) (word :: (ts ++ ts' ++ ts''))
      [.branch .conditional span ([tree, thenBlock] ++ elseBranch)] :=
  .phrase (.branch _ _ ((Derives.seq (.seq (.seq (.keyword hword) h) hthen) helse).congr
    (by simp) (by simp)))

end Statements

/-! ### Expressions -/

/-- The phrases that bind at least so tightly. -/
def level : Nat → Phrase
  | 0 | 1 => .disjunction
  | 2 => .conjunction
  | 3 => .comparison
  | 4 => .sum
  | 5 => .product
  | _ => .unary

section Expressions

variable {span : Option Span} {ts : List Token} {tree : Tree} {trees : List Tree}

theorem derives_level_succ (n : Nat) (h : Derives (.phrase (level (n + 1))) ts trees) :
    Derives (.phrase (level n)) ts trees := by
  match n with
  | 0 => exact h
  | 1 | 2 | 3 => exact .phrase (.left _ h)
  | 4 | 5 => exact .phrase (.left _ (.left _ h))
  | n + 6 => exact h

theorem derives_level_of_le {m n : Nat} (hle : m ≤ n) (h : Derives (.phrase (level n)) ts trees) :
    Derives (.phrase (level m)) ts trees := by
  induction hle with
  | refl => exact h
  | step _ ih => exact ih (derives_level_succ _ h)

theorem derives_level_of_atom (n : Nat) (h : Derives (.phrase .atom) ts trees) :
    Derives (.phrase (level n)) ts trees := by
  have hunary : Derives (.phrase (level 6)) ts trees := .phrase (.left _ h)
  rcases Nat.le_total n 6 with hle | hle
  · exact derives_level_of_le hle hunary
  · obtain ⟨k, rfl⟩ := Nat.exists_eq_add_of_le hle
    rw [Nat.add_comm]
    exact hunary

theorem derives_negation {sign : Token} (hsign : sign.terminal = .symbol .minus)
    (h : Derives (.phrase (level 6)) ts [tree]) :
    Derives (.phrase (level 6)) (sign :: ts) [.branch .negation span [tree]] :=
  .phrase (.right _ (.branch _ _ (.seq (.symbol hsign) h)))

theorem derives_group {opening closing : Token} (hopening : opening.terminal = .symbol .leftParen)
    (h : Derives (.phrase .expression) ts [tree])
    (hclosing : closing.terminal = .symbol .rightParen) :
    Derives (.phrase .atom) (opening :: (ts ++ [closing])) [tree] :=
  .phrase (.right _ ((Derives.seq (.seq (.symbol hopening) h) (.symbol hclosing)).congr
    (by simp) (by simp)))

theorem derives_call {name opening closing : Token} (hname : name.terminal = .word)
    (hopening : opening.terminal = .symbol .leftParen)
    (h : Derives (optional (.phrase .arguments)) ts trees)
    (hclosing : closing.terminal = .symbol .rightParen) :
    Derives (.phrase .atom) (name :: opening :: (ts ++ [closing]))
      [.branch .call span (.leaf name.text :: trees)] := by
  have hcall : Derives (.phrase .call) (name :: opening :: (ts ++ [closing]))
      [.branch .call span (.leaf name.text :: trees)] :=
    .phrase (.branch _ _ ((Derives.seq (.seq (.seq (.kept hname rfl) (.symbol hopening)) h)
      (.symbol hclosing)).congr (by simp) (by simp)))
  exact .phrase (.left _ (.left _ (.left _ (.right _ hcall))))

end Expressions

/-! ## What holds of all phrases -/

/-- Some repetitions of what `item` allows. -/
inductive Repeats (item : List Token → List Tree → Prop) : List Token → List Tree → Prop where
  | none : Repeats item [] []
  | more {ts ts' : List Token} {trees trees' : List Tree} (hitem : item ts trees)
      (hrest : Repeats item ts' trees') : Repeats item (ts ++ ts') (trees ++ trees')

/-- What a form allows, given what its phrases allow. -/
def Form.Yields (phrases : Phrase → List Token → List Tree → Prop) :
    Form → List Token → List Tree → Prop
  | token terminal, ts, trees => ∃ t : Token, t.terminal = terminal ∧ ts = [t] ∧ trees = t.leaves
  | phrase p, ts, trees => phrases p ts trees
  | empty, ts, trees => ts = [] ∧ trees = []
  | seq f g, ts, trees => ∃ ts₁ trees₁ ts₂ trees₂, f.Yields phrases ts₁ trees₁ ∧
      g.Yields phrases ts₂ trees₂ ∧ ts = ts₁ ++ ts₂ ∧ trees = trees₁ ++ trees₂
  | either f g, ts, trees => f.Yields phrases ts trees ∨ g.Yields phrases ts trees
  | many f, ts, trees => Repeats (f.Yields phrases) ts trees
  | branch rule f, ts, trees => ∃ span parts, trees = [.branch rule span parts] ∧
      f.Yields phrases ts parts

/-- What every phrase has if its parts have it, everything derived has. -/
theorem Derives.yields {phrases : Phrase → List Token → List Tree → Prop}
    (hphrases : ∀ p ts trees, p.form.Yields phrases ts trees → phrases p ts trees)
    {f : Form} {ts : List Token} {trees : List Tree} (h : Derives f ts trees) :
    f.Yields phrases ts trees := by
  induction h with
  | token t => exact ⟨t, rfl, rfl, rfl⟩
  | phrase _ ih => exact hphrases _ _ _ ih
  | empty => exact ⟨rfl, rfl⟩
  | seq _ _ ihf ihg => exact ⟨_, _, _, _, ihf, ihg, rfl, rfl⟩
  | left g _ ih => exact Or.inl ih
  | right f _ ih => exact Or.inr ih
  | none f => exact .none
  | more _ _ ihf ihmany => exact .more ihf ihmany
  | branch rule span _ ih => exact ⟨span, _, rfl, ih⟩

end Grammar

end ScriptLang
