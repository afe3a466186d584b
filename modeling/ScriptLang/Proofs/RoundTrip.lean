import ScriptLang.Proofs.Derivation
import ScriptLang.Proofs.Reading

set_option autoImplicit false

/-! # Parsing undoes writing

A written statement adds a tree for it to the statements of the body that it stands in
(`Reader.reads_statement`). So a written program is parsed as itself (`Program.parse_write`). -/

namespace ScriptLang

namespace Reader

open Lexer

/-! ## Bodies -/

/-- The frames that collect statements. -/
inductive IsBody : (List Tree → Frame) → Prop where
  | program : IsBody .program
  | block {brace : Token} : IsBody (.block brace)

/-- A statement may start in the state, on top of the frames. -/
inductive Begins : State → List Frame → Prop where
  | statement {afterBlock : Bool} {frames : List Frame} :
      Begins ⟨.statement afterBlock, frames⟩ (settle frames)

variable {goal : State → Prop} {state : State} {frames : List Frame} {rest cs : List Char}
variable {body : List Tree → Frame} {tree : Tree} {trees : List Tree}

theorem Begins.opens (h : Begins state frames) : Opens state (.expressionStatement :: frames) := by
  cases h
  exact .statement

theorem Begins.accepts (h : Begins state frames) {t : Terminal} (ht : startsStatement t = true) :
    Reader.accepts state.expectation t = true := by
  cases h
  simp [Reader.accepts, ht]

theorem Begins.step (h : Begins state frames) {t : Token} (ht : t.terminal ≠ .keyword .elseWord) :
    Reader.step state t = startStatement frames t := by
  cases h
  show statementStep _ t = _
  unfold statementStep
  split
  · next hterminal _ => exact absurd hterminal ht
  · rfl

theorem Begins.finish? (h : Begins state [.program trees]) :
    Reader.finish? state = some (Tree.ofChildren .program trees.reverse) := by
  generalize hframes : [Frame.program trees] = frames at h
  cases h
  simp [Reader.finish?, ← hframes]

theorem readFrom_nil (state : State) (last position : Position) (fuel : Nat) :
    readFrom state last position [] fuel = readFrom.ends state last := by
  cases fuel <;> rfl

theorem IsBody.begins (h : IsBody body) (afterBlock : Bool) (trees : List Tree)
    (frames : List Frame) : Begins ⟨.statement afterBlock, body trees :: frames⟩
      (body trees :: frames) := by
  cases h <;> exact Begins.statement

theorem IsBody.finishStatement_eq (h : IsBody body) (tree : Tree) (trees : List Tree)
    (frames : List Frame) :
    finishStatement tree (body trees :: frames) = body (tree :: trees) :: frames := by
  cases h <;> rfl

/-- Whether the state stands after a statement that was added to a body. -/
def Adds (s : Node) (body : List Tree → Frame) (trees : List Tree) (frames : List Frame)
    (state : State) : Prop :=
  ∃ tree, tree.Denotes (.node s) ∧ Begins state (body (tree :: trees) :: frames)

theorem IsBody.adds (h : IsBody body) {s : Node} (hdenotes : tree.Denotes (.node s))
    (afterBlock : Bool) :
    Adds s body trees frames
      ⟨.statement afterBlock, finishStatement tree (body trees :: frames)⟩ := by
  rw [h.finishStatement_eq]
  exact ⟨tree, hdenotes, h.begins ..⟩

/-- Whether a written statement is read as itself, wherever a statement may stand. -/
def ReadsStatement (layout : Layout) (depth : Nat) (s : Node) : Prop :=
  ∀ ⦃state : State⦄ ⦃body : List Tree → Frame⦄ ⦃trees : List Tree⦄ ⦃frames : List Frame⦄
    ⦃rest : List Char⦄, IsBody body → Begins state (body trees :: frames) →
    Leads (Adds s body trees frames) rest state (s.writeStatement layout [';'] depth ++ rest)

/-- Whether a written block is read as itself, wherever a block may stand. -/
def ReadsBlock (layout : Layout) (depth : Nat) (b : Node) : Prop :=
  ∀ ⦃state : State⦄ ⦃frames : List Frame⦄ ⦃finish : Tree → State⦄ ⦃rest : List Char⦄,
    Reader.accepts state.expectation (.symbol .leftBrace) = true →
    (∀ start, step state ⟨.symbol .leftBrace, Symbol.leftBrace.text, start⟩
      = some ⟨.statement false,
        .block ⟨.symbol .leftBrace, Symbol.leftBrace.text, start⟩ [] :: frames⟩) →
    (∀ block, finishBlock block frames = some (finish block)) →
    Leads (fun state' => ∃ block, block.Denotes (.node b) ∧ state' = finish block) rest state
      (b.writeBlock layout [';'] depth ++ rest)

variable {layout : Layout} {depth : Nat} {s : Node}

/-! ## Simple statements -/

/-- The semicolon after the expression at the end of a statement. -/
theorem leads_semicolon {frame : Frame} {make : Position → Tree} {least : Nat} (hbody : IsBody body)
    (hcompletes : Completes least tree (frame :: body trees :: frames) state)
    (hwaits : waits 0 (frame :: body trees :: frames) = true)
    (hend : ∀ start, endExpression tree (frame :: body trees :: frames)
      ⟨.symbol .semicolon, Symbol.semicolon.text, start⟩
        = some (finished (make start) (body trees :: frames)))
    (hmake : ∀ start, (make start).Denotes (.node s)) :
    Leads (Adds s body trees frames) rest state (';' :: rest) := by
  refine .symbol .semicolon (hcompletes.accepts rfl) (by simp) fun start => ?_
  refine ⟨_, (hcompletes.step_end hwaits rfl rfl).trans (hend start), .here ?_⟩
  exact hbody.adds (hmake start) false

theorem reads_print {es : List Node} (hwritable : Node.areWritable es = true)
    (hreads : ∀ e ∈ es, Reads layout e) : ReadsStatement layout depth (.print es) := by
  intro state body trees frames rest hbody hbegins
  have hexpressions := Node.isExpression_of_areWritable hwritable
  have hprint {trees : List Tree} {span : Option Span} (h : Tree.DenoteAll trees (es.map .node)) :
      (Tree.branch .print span trees).Denotes (.node (.print es)) := by
    refine h.branch fun names place => ?_
    rw [Rule.meaning, Part.mapM_toExpression_node hexpressions]
    rfl
  cases es with
  | nil =>
    simp only [Node.writeStatement, Layout.indent, List.append_assoc, List.cons_append,
      List.nil_append]
    refine (Leads.keyword .print (hbegins.accepts rfl) rfl fun _ => ?_).spaces _
    refine ⟨_, hbegins.step (by simp), .symbol .semicolon rfl (by simp) fun _ => ?_⟩
    refine ⟨_, rfl, .gap (by decide) (.here (hbody.adds ?_ false))⟩
    exact hprint Tree.denoteAll_nil
  | cons e es =>
    rw [Node.writeStatement]
    · simp only [Layout.indent, List.append_assoc, List.cons_append, List.nil_append]
      refine (Leads.keyword .print (hbegins.accepts rfl) rfl fun _ => ?_).spaces _
      refine ⟨_, hbegins.step (by simp), .gap (by decide) ?_⟩
      refine (leads_commas (fun _ => rfl) (fun _ _ _ _ => rfl) hreads rfl []).trans ?_
      rintro state' ⟨tree, before, hcompletes, all, hreverse, hall⟩
      refine (leads_semicolon hbody hcompletes rfl (fun _ => rfl) fun _ => ?_).lineEnd
      rw [hreverse]
      exact hprint hall
    · simp

/-- A statement that binds a name to an expression. -/
theorem leads_binding (sign : Symbol) (frame : Token → Frame) (rule : Rule) {name : String}
    {e : Node} {code : List Char} (hname : isName name = true) (hcode : ReadsAlone code e)
    (haccepts : ∀ t, accepts (.afterName t) (.symbol sign) = true)
    (hstep : ∀ t frames start, step ⟨.afterName t, frames⟩ ⟨.symbol sign, sign.text, start⟩
      = some ⟨.operand, frame t :: frames⟩)
    (hwaits : ∀ t frames, waits 0 (frame t :: frames) = true)
    (hend : ∀ tree name frames text start,
      endExpression tree (frame name :: frames) ⟨.symbol .semicolon, text, start⟩
        = some (finished (Tree.between rule name ⟨.symbol .semicolon, text, start⟩
          [.leaf name.text, tree]) frames))
    (hmeaning : ∀ names place, rule.meaning names place [.token name, .node e] = .ok (.node s))
    (hbody : IsBody body) (hbegins : Begins state (body trees :: frames)) :
    Leads (Adds s body trees frames) rest state
      (name.toList ++ ' ' :: (sign.text.toList ++ ' ' :: (code ++ ';' :: rest))) := by
  refine .name hname (hbegins.accepts rfl) rfl fun start => ?_
  refine ⟨_, hbegins.step (by simp), .gap (by decide) ?_⟩
  refine .symbol sign (haccepts _) (by simp) fun _ => ⟨_, hstep .., .gap (by decide) ?_⟩
  refine (hcode .operand (hwaits ..) rfl).trans ?_
  rintro state' ⟨tree, hdenotes, hcompletes⟩
  refine leads_semicolon hbody hcompletes (hwaits ..) (fun _ => hend ..) fun _ => ?_
  exact ((Tree.denotes_leaf name).cons (hdenotes.cons Tree.denoteAll_nil)).branch hmeaning

theorem leads_definition {name : String} {e : Node} {code : List Char} (hname : isName name = true)
    (he : e.isExpression = true) (hcode : ReadsAlone code e) (hbody : IsBody body)
    (hbegins : Begins state (body trees :: frames)) :
    Leads (Adds (.definition name e) body trees frames) rest state
      (name.toList ++ ' ' :: (Symbol.define.text.toList ++ ' ' :: (code ++ ';' :: rest))) := by
  refine leads_binding .define .definition .definition hname hcode (fun _ => rfl)
    (fun _ _ _ => rfl) (fun _ _ => rfl) (fun _ _ _ _ _ => rfl) (fun names place => ?_) hbody hbegins
  rw [Rule.meaning, Part.toExpression_node he]
  rfl

theorem reads_definition {name : String} {e : Node} (hname : isName name = true)
    (he : e.isExpression = true) (hreads : Reads layout e) :
    ReadsStatement layout depth (.definition name e) := by
  intro state body trees frames rest hbody hbegins
  simp only [Node.writeStatement, Layout.indent, List.append_assoc, List.cons_append,
    List.nil_append]
  exact (leads_definition hname he hreads.alone hbody hbegins).lineEnd.spaces _

theorem reads_assignment {name : String} {e : Node} (hname : isName name = true)
    (he : e.isExpression = true) (hreads : Reads layout e) :
    ReadsStatement layout depth (.assignment name e) := by
  intro state body trees frames rest hbody hbegins
  simp only [Node.writeStatement, Layout.indent, List.append_assoc, List.cons_append,
    List.nil_append]
  refine (leads_binding .equal .assignment .assignment hname hreads.alone (fun _ => rfl)
    (fun _ _ _ => rfl) (fun _ _ => rfl) (fun _ _ _ _ _ => rfl) (fun names place => ?_) hbody
    hbegins).lineEnd.spaces _
  rw [Rule.meaning, Part.toExpression_node he]
  rfl

theorem reads_returning_void : ReadsStatement layout depth (.returning (.literal .void)) := by
  intro state body trees frames rest hbody hbegins
  simp only [Node.writeStatement, Layout.indent, List.append_assoc, List.cons_append,
    List.nil_append]
  refine (Leads.keyword .returnWord (hbegins.accepts rfl) rfl fun _ => ?_).spaces _
  refine ⟨_, hbegins.step (by simp), .symbol .semicolon rfl (by simp) fun _ => ?_⟩
  refine ⟨_, rfl, .gap (by decide) (.here (hbody.adds ?_ false))⟩
  exact Tree.denoteAll_nil.branch fun _ _ => rfl

theorem leads_returning {e : Node} {code : List Char} (he : e.isExpression = true)
    (hcode : ReadsAlone code e) (hbody : IsBody body)
    (hbegins : Begins state (body trees :: frames)) :
    Leads (Adds (.returning e) body trees frames) rest state
      (Keyword.returnWord.text.toList ++ ' ' :: (code ++ ';' :: rest)) := by
  refine .keyword .returnWord (hbegins.accepts rfl) rfl fun _ => ?_
  refine ⟨_, hbegins.step (by simp), .gap (by decide) ((hcode .operand rfl rfl).trans ?_)⟩
  rintro state' ⟨tree, hdenotes, hcompletes⟩
  refine leads_semicolon hbody hcompletes rfl (fun _ => rfl) fun _ => ?_
  refine (hdenotes.cons Tree.denoteAll_nil).branch fun names place => ?_
  rw [Rule.meaning, Part.toExpression_node he]
  rfl

theorem reads_returning {e : Node} (hwritable : e.isWritable = true) (hreads : Reads layout e) :
    ReadsStatement layout depth (.returning e) := by
  intro state body trees frames rest hbody hbegins
  rw [Node.writeStatement_returning hwritable]
  simp only [Layout.indent, List.append_assoc, List.cons_append, List.nil_append]
  have he := Node.isExpression_of_isWritable hwritable
  exact (leads_returning he hreads.alone hbody hbegins).lineEnd.spaces _

/-- A statement that is an expression. What the rule makes of the expression is the statement. -/
theorem leads_expression {e : Node} {code : List Char} (hcode : ReadsAlone code e)
    (hmeaning : ∀ names place,
      Rule.meaning names .expressionStatement place [.node e] = .ok (.node s))
    (hbody : IsBody body) (hbegins : Begins state (body trees :: frames)) :
    Leads (Adds s body trees frames) rest state (code ++ ';' :: rest) := by
  refine (hcode hbegins.opens rfl rfl).trans ?_
  rintro state' ⟨tree, hdenotes, hcompletes⟩
  refine leads_semicolon hbody hcompletes rfl (fun _ => rfl) fun _ => ?_
  exact (hdenotes.cons Tree.denoteAll_nil).branch hmeaning

theorem reads_expression {e : Node} (hreads : Reads layout e)
    (hwrite : s.writeStatement layout [';'] depth
      = layout.indent depth ++ e.write layout 0 ++ [';'] ++ ['\n'])
    (hmeaning : ∀ names place,
      Rule.meaning names .expressionStatement place [.node e] = .ok (.node s)) :
    ReadsStatement layout depth s := by
  intro state body trees frames rest hbody hbegins
  rw [hwrite]
  simp only [Layout.indent, List.append_assoc, List.cons_append, List.nil_append]
  exact (leads_expression hreads.alone hmeaning hbody hbegins).lineEnd.spaces _

theorem reads_callStatement {name : String} {arguments : List Node}
    (hreads : Reads layout (.call name arguments)) :
    ReadsStatement layout depth (.callStatement name arguments) :=
  reads_expression hreads rfl fun _ _ => rfl

theorem reads_expressionStatement {e : Node} (he : e.isExpression = true)
    (hcall : ∀ name arguments, e ≠ .call name arguments) (hreads : Reads layout e) :
    ReadsStatement layout depth (.expressionStatement e) := by
  refine reads_expression hreads rfl fun names place => ?_
  rw [Rule.meaning, Part.toExpression_node he]
  cases e with
  | call name arguments => exact absurd rfl (hcall name arguments)
  | _ => rfl

/-! ## Blocks and compound statements -/

theorem reads_statements {ss : List Node} (h : ∀ s ∈ ss, ReadsStatement layout depth s)
    (hbody : IsBody body) (hbegins : Begins state (body trees :: frames)) :
    Leads (fun state' => ∃ all, Tree.DenoteAll all (ss.map .node) ∧
        Begins state' (body (all.reverse ++ trees) :: frames))
      rest state (Node.writeStatements layout [';'] depth ss ++ rest) := by
  induction ss generalizing state trees with
  | nil => exact .here ⟨[], Tree.denoteAll_nil, hbegins⟩
  | cons s ss ih =>
    rw [Node.writeStatements, List.append_assoc]
    refine (h s (List.mem_cons_self ..) hbody hbegins).trans ?_
    rintro state' ⟨tree, hdenotes, hbegins'⟩
    refine (ih (fun s hs => h s (List.mem_cons_of_mem _ hs)) hbegins').trans ?_
    rintro state'' ⟨all, hall, hbegins''⟩
    refine .here ⟨tree :: all, hdenotes.cons hall, ?_⟩
    simpa using hbegins''

theorem filterMap_toNode? (nodes : List Node) :
    (nodes.map Part.node).filterMap Part.toNode? = nodes := by
  rw [List.filterMap_map]
  exact List.filterMap_some

theorem reads_block {ss : List Node} (h : ∀ s ∈ ss, ReadsStatement layout (depth + 1) s) :
    ReadsBlock layout depth (.block ss) := by
  intro state frames finish rest haccepts hopen hfinish
  simp only [Node.writeBlock, Layout.indent, List.append_assoc, List.cons_append, List.nil_append]
  refine .symbol .leftBrace haccepts (by simp) fun start => ⟨_, hopen start, .gap (by decide) ?_⟩
  refine (reads_statements h .block (IsBody.block.begins ..)).trans ?_
  rintro state' ⟨all, hall, hbegins⟩
  refine (Leads.symbol .rightBrace (hbegins.accepts rfl) (by simp) fun _ => ?_).spaces _
  refine ⟨_, (hbegins.step (by simp)).trans (hfinish _), .here ⟨_, ?_, rfl⟩⟩
  rw [List.append_nil, List.reverse_reverse]
  refine hall.branch fun names place => ?_
  rw [Rule.meaning, filterMap_toNode?]

/-- A keyword, a condition and a block. -/
theorem leads_condition {k : Keyword} {frame : Token → Frame} {inner : Token → Tree → Frame}
    {finish : Token → Tree → Tree → State} {condition block : Node}
    (hcondition : Reads layout condition) (hblock : ReadsBlock layout depth block)
    (hbegins : Begins state frames) (helse : k ≠ .elseWord)
    (hstarts : startsStatement (.keyword k) = true)
    (hstart : ∀ text start, startStatement frames ⟨.keyword k, text, start⟩
      = some ⟨.operand, frame ⟨.keyword k, text, start⟩ :: frames⟩)
    (hwaits : ∀ word, waits 0 (frame word :: frames) = true)
    (hopen : ∀ tree word text start, endExpression tree (frame word :: frames)
      ⟨.symbol .leftBrace, text, start⟩ = some ⟨.statement false,
        .block ⟨.symbol .leftBrace, text, start⟩ [] :: inner word tree :: frames⟩)
    (hfinish : ∀ word tree block,
      finishBlock block (inner word tree :: frames) = some (finish word tree block)) :
    Leads (fun state' => ∃ word tree tree', tree.Denotes (.node condition) ∧
        tree'.Denotes (.node block) ∧ state' = finish word tree tree')
      rest state (k.text.toList ++ ' ' :: (condition.write layout 0 ++ ' ' ::
        (block.writeBlock layout [';'] depth ++ rest))) := by
  refine .keyword k (hbegins.accepts hstarts) rfl fun start => ?_
  refine ⟨_, (hbegins.step (by simpa using helse)).trans (hstart ..), .gap (by decide) ?_⟩
  refine (hcondition .operand (hwaits _) rfl).trans ?_
  rintro state' ⟨tree, hdenotes, hcompletes⟩
  refine .gap (by decide) ((hblock (hcompletes.accepts rfl) (fun _ =>
    (hcompletes.step_end (hwaits _) rfl rfl).trans (hopen ..)) (hfinish _ tree)).trans ?_)
  rintro _ ⟨tree', hdenotes', rfl⟩
  exact .here ⟨_, tree, tree', hdenotes, hdenotes', rfl⟩

theorem reads_conditional {condition thenBlock : Node} (hcondition : condition.isExpression = true)
    (hreads : Reads layout condition) (hthen : ReadsBlock layout depth thenBlock) :
    ReadsStatement layout depth (.conditional condition thenBlock none) := by
  intro state body trees frames rest hbody hbegins
  simp only [Node.writeStatement, Layout.indent, List.append_assoc, List.cons_append,
    List.nil_append]
  refine ((leads_condition hreads hthen hbegins (by simp) rfl (fun _ _ => rfl) (fun _ => rfl)
    (fun _ _ _ _ => rfl) (fun _ _ _ => rfl)).trans ?_).spaces _
  rintro _ ⟨word, tree, block, htree, hblock, rfl⟩
  -- the conditional could still be extended by an `else`; whatever comes next settles it
  refine .gap (by decide) (.here ⟨conditionalTree word tree block none, ?_, ?_⟩)
  · refine (htree.cons (hblock.cons Tree.denoteAll_nil)).branch fun names place => ?_
    rw [Rule.meaning, Part.toExpression_node hcondition]
    rfl
  · rw [← hbody.finishStatement_eq]
    exact .statement

theorem reads_conditional_else {condition thenBlock : Node} {ss : List Node}
    (hcondition : condition.isExpression = true) (hreads : Reads layout condition)
    (hthen : ReadsBlock layout depth thenBlock) (helse : ReadsBlock layout depth (.block ss)) :
    ReadsStatement layout depth (.conditional condition thenBlock (some (.block ss))) := by
  intro state body trees frames rest hbody hbegins
  rw [Node.writeStatement]
  simp only [Layout.indent, List.append_assoc, List.cons_append, List.nil_append]
  refine ((leads_condition hreads hthen hbegins (by simp) rfl (fun _ _ => rfl) (fun _ => rfl)
    (fun _ _ _ _ => rfl) (fun _ _ _ => rfl)).trans ?_).spaces _
  rintro _ ⟨word, tree, block, htree, hblock, rfl⟩
  refine .gap (by decide) (.keyword .elseWord rfl rfl fun _ => ⟨_, rfl, .gap (by decide) ?_⟩)
  refine (helse rfl (fun _ => rfl) (fun _ => rfl)).trans ?_
  rintro _ ⟨block', hblock', rfl⟩
  refine .gap (by decide) (.here (hbody.adds ?_ true))
  refine (htree.cons (hblock.cons (hblock'.cons Tree.denoteAll_nil))).branch fun names place => ?_
  rw [Rule.meaning, Part.toExpression_node hcondition]
  rfl

theorem reads_loop {condition block : Node} (hcondition : condition.isExpression = true)
    (hreads : Reads layout condition) (hblock : ReadsBlock layout depth block) :
    ReadsStatement layout depth (.loop condition block) := by
  intro state body trees frames rest hbody hbegins
  simp only [Node.writeStatement, Layout.indent, List.append_assoc, List.cons_append,
    List.nil_append]
  refine ((leads_condition hreads hblock hbegins (by simp) rfl (fun _ _ => rfl) (fun _ => rfl)
    (fun _ _ _ _ => rfl) (fun _ _ _ => rfl)).trans ?_).spaces _
  rintro _ ⟨word, tree, tree', htree, hblock, rfl⟩
  refine .gap (by decide) (.here (hbody.adds ?_ true))
  refine (htree.cons (hblock.cons Tree.denoteAll_nil)).branch fun names place => ?_
  rw [Rule.meaning, Part.toExpression_node hcondition]
  rfl

/-! ## Functions -/

theorem leads_parameters {word name : Token} {p : String} {ps : List String}
    (h : ∀ q ∈ p :: ps, isName q = true) (hends : endsWord rest = true) (before : List Token) :
    Leads (fun state' => ∃ ts, ts.map Token.text = p :: ps ∧
        state' = ⟨.afterParameter word name (before ++ ts), frames⟩)
      rest ⟨.parameter word name before, frames⟩
      (commas ((p :: ps).map String.toList) ++ rest) := by
  induction ps generalizing p before with
  | nil =>
    refine .name (h p (by simp)) rfl hends fun start => ⟨_, rfl, .here ?_⟩
    exact ⟨[⟨.word, p, start⟩], rfl, rfl⟩
  | cons p' ps ih =>
    rw [List.map_cons, List.map_cons, commas, List.append_assoc]
    · refine .name (h p (by simp)) rfl rfl fun start => ?_
      refine ⟨_, rfl, .symbol .comma rfl (by simp) fun _ => ⟨_, rfl, .gap (by decide) ?_⟩⟩
      refine (ih (fun q hq => h q (List.mem_cons_of_mem _ hq))
        (before ++ [⟨.word, p, start⟩])).trans ?_
      rintro _ ⟨ts, hts, rfl⟩
      exact .here ⟨⟨.word, p, start⟩ :: ts, by simp [hts], by simp⟩
    · simp

theorem denoteAll_leaves (ts : List Token) :
    Tree.DenoteAll (ts.map fun t => .leaf t.text) (ts.map fun t => .token t.text) := by
  induction ts with
  | nil => exact Tree.denoteAll_nil
  | cons t ts ih => exact (Tree.denotes_leaf t.text).cons ih

theorem denotes_parametersTree? {ts : List Token} (hne : ts ≠ []) :
    ∃ tree, parametersTree? ts = some tree ∧ tree.Denotes (.names (ts.map Token.text)) := by
  obtain ⟨t, ts, rfl⟩ := List.exists_cons_of_ne_nil hne
  refine ⟨_, rfl, (denoteAll_leaves (t :: ts)).branch fun names place => ?_⟩
  simp [Rule.meaning, Part.text]

/-- The parameters of a function up to the closing parenthesis. The function has them, whatever its
body is. -/
theorem leads_parameterList {word name : Token} {ps : List String}
    (h : ∀ p ∈ ps, isName p = true) :
    Leads (fun state' => ∃ parameters, state' = ⟨.functionBrace word name parameters, frames⟩ ∧
        ∀ block b, Tree.Denotes block (.node b) →
          (Tree.after .function word (.leaf name.text :: (parameters.toList ++ [block]))).Denotes
            (.node (.function name.text ps b)))
      rest ⟨.parameter word name [], frames⟩
      (commas (ps.map String.toList) ++ ')' :: rest) := by
  have hname := Tree.denotes_leaf name.text
  cases ps with
  | nil =>
    refine .symbol .rightParen rfl (by simp) fun _ => ⟨_, rfl, .here ⟨none, rfl, ?_⟩⟩
    intro block b hblock
    exact (hname.cons (hblock.cons Tree.denoteAll_nil)).branch fun _ _ => rfl
  | cons p ps =>
    refine (leads_parameters h rfl []).trans ?_
    rintro _ ⟨ts, hts, rfl⟩
    have hne : ts ≠ [] := by
      rintro rfl
      cases hts
    obtain ⟨tree, htree, hdenotes⟩ := denotes_parametersTree? hne
    refine .symbol .rightParen rfl (by simp) fun _ => ⟨_, rfl, .here ⟨some tree, ?_, ?_⟩⟩
    · rw [List.nil_append, htree]
    · intro block b hblock
      rw [hts] at hdenotes
      exact (hname.cons (hdenotes.cons (hblock.cons Tree.denoteAll_nil))).branch fun _ _ => rfl

theorem reads_function {name : String} {ps : List String} {block : Node}
    (hname : isName name = true) (hps : ∀ p ∈ ps, isName p = true)
    (hblock : ReadsBlock layout depth block) :
    ReadsStatement layout depth (.function name ps block) := by
  intro state body trees frames rest hbody hbegins
  simp only [Node.writeStatement, Layout.indent, List.append_assoc, List.cons_append,
    List.nil_append]
  refine (Leads.keyword .fn (hbegins.accepts rfl) rfl fun _ => ?_).spaces _
  refine ⟨_, hbegins.step (by simp), .gap (by decide) (.name hname rfl rfl fun _ => ?_)⟩
  refine ⟨_, rfl, .symbol .leftParen rfl (by simp) fun _ => ⟨_, rfl, ?_⟩⟩
  refine (leads_parameterList hps).trans ?_
  rintro _ ⟨parameters, rfl, hfunction⟩
  refine .gap (by decide) ((hblock rfl (fun _ => rfl) (fun _ => rfl)).trans ?_)
  rintro _ ⟨tree, hdenotes, rfl⟩
  exact .gap (by decide) (.here (hbody.adds (hfunction tree block hdenotes) true))

/-! ## All statements -/

mutual

/-- Every statement that can be written is read as itself. -/
theorem reads_statement (layout : Layout) : ∀ (s : Node) (depth : Nat),
    s.isWritableStatement = true → ReadsStatement layout depth s
  | .print es, _, h => reads_print h (reads_writeAll layout es h)
  | .definition name e, _, h => by
    simp only [Node.isWritableStatement, Bool.and_eq_true] at h
    exact reads_definition h.1 (Node.isExpression_of_isWritable h.2) (reads_write layout e h.2)
  | .assignment name e, _, h => by
    simp only [Node.isWritableStatement, Bool.and_eq_true] at h
    exact reads_assignment h.1 (Node.isExpression_of_isWritable h.2) (reads_write layout e h.2)
  | .conditional condition thenBlock none, depth, h => by
    simp only [Node.isWritableStatement, Bool.and_eq_true] at h
    exact reads_conditional (Node.isExpression_of_isWritable h.1)
      (reads_write layout condition h.1) (reads_writeBlock layout thenBlock depth h.2)
  | .conditional condition thenBlock (some elseBlock), depth, h => by
    simp only [Node.isWritableStatement, Bool.and_eq_true] at h
    have hreads := reads_writeBlock layout elseBlock depth h.2
    -- a conditional in place of the block would be put into a block of its own
    obtain ⟨ss, rfl⟩ := Node.eq_block_of_isWritableBlock h.2
    exact reads_conditional_else (Node.isExpression_of_isWritable h.1.1)
      (reads_write layout condition h.1.1) (reads_writeBlock layout thenBlock depth h.1.2) hreads
  | .loop condition block, depth, h => by
    simp only [Node.isWritableStatement, Bool.and_eq_true] at h
    exact reads_loop (Node.isExpression_of_isWritable h.1) (reads_write layout condition h.1)
      (reads_writeBlock layout block depth h.2)
  | .function name ps block, depth, h => by
    simp only [Node.isWritableStatement, Bool.and_eq_true, List.all_eq_true] at h
    exact reads_function h.1.1 h.1.2 (reads_writeBlock layout block depth h.2)
  | .callStatement name arguments, _, h =>
    reads_callStatement (reads_write layout (.call name arguments) h)
  | .returning value, _, h => by
    rcases Node.writable_returning h with rfl | hvalue
    · exact reads_returning_void
    · exact reads_returning hvalue (reads_write layout value hvalue)
  | .expressionStatement e, _, h => by
    obtain ⟨he, hcall⟩ := Node.writable_expressionStatement h
    exact reads_expressionStatement (Node.isExpression_of_isWritable he) hcall
      (reads_write layout e he)
  | .reference _, _, h | .literal _, _, h | .binary _ _ _, _, h | .call _ _, _, h | .input _, _, h
  | .block _, _, h | .program _, _, h | .valueStatement _, _, h | .fragment _, _, h => by cases h
termination_by structural s => s

theorem reads_writeBlock (layout : Layout) : ∀ (b : Node) (depth : Nat),
    b.isWritableBlock = true → ReadsBlock layout depth b
  | .block ss, depth, h => reads_block (reads_writeStatements layout ss (depth + 1) h)
  | .reference _, _, h | .literal _, _, h | .binary _ _ _, _, h | .call _ _, _, h | .input _, _, h
  | .program _, _, h | .print _, _, h | .definition _ _, _, h | .assignment _ _, _, h
  | .conditional _ _ _, _, h | .loop _ _, _, h | .function _ _ _, _, h | .callStatement _ _, _, h
  | .returning _, _, h | .expressionStatement _, _, h | .valueStatement _, _, h
  | .fragment _, _, h => by cases h
termination_by structural b => b

theorem reads_writeStatements (layout : Layout) : ∀ (ss : List Node) (depth : Nat),
    Node.areWritableStatements ss = true → ∀ s ∈ ss, ReadsStatement layout depth s
  | [], _, _ => by simp
  | s :: ss, depth, h => by
    simp only [Node.areWritableStatements, Bool.and_eq_true] at h
    exact List.forall_mem_cons.2 ⟨reads_statement layout s depth h.1,
      reads_writeStatements layout ss depth h.2⟩
termination_by structural ss => ss

end

end Reader

/-- A text that leads through statements to its end is read as a tree for them. -/
theorem Tree.read_of_leads {cs : List Char} {body : List Node}
    (h : Reader.Leads (fun state => ∃ all, Tree.DenoteAll all (body.map .node) ∧
      Reader.Begins state [.program (all.reverse ++ [])]) [] Reader.State.initial cs) :
    ∃ tree, Tree.read (String.ofList cs) = .ok tree ∧ tree.Denotes (.node (.program body)) := by
  obtain ⟨state, last, position, fuel, ⟨all, hall, hbegins⟩, hread⟩ := h.readFrom {} {} le_rfl
  refine ⟨Tree.ofChildren .program all, ?_, ?_⟩
  · rw [Tree.read, String.toList_ofList, hread, Reader.readFrom_nil, Reader.readFrom.ends,
      hbegins.finish?]
    simp
  · refine hall.branch fun names place => ?_
    rw [Rule.meaning, Reader.filterMap_toNode?]

/-- A written program, its statements ended by semicolons, is read as a tree for it. -/
theorem Tree.read_write (layout : Layout) {body : List Node}
    (h : Node.areWritableStatements body = true) :
    ∃ tree, Tree.read (String.ofList (Node.writeStatements layout [';'] 0 body)) = .ok tree ∧
      tree.Denotes (.node (.program body)) := by
  have hleads : Reader.Leads _ [] Reader.State.initial
      (Node.writeStatements layout [';'] 0 body ++ []) :=
    Reader.reads_statements (Reader.reads_writeStatements layout body 0 h) .program
      (Reader.IsBody.program.begins false [] [])
  rw [List.append_nil] at hleads
  exact Tree.read_of_leads hleads

/-- Parsing undoes writing: every program that can be written is parsed from its text. -/
theorem Program.parse_write (names : Text.Names) (layout : Layout) {body : List Node}
    (h : Node.areWritableStatements body = true) :
    Program.parse names (Program.write layout body) = .ok body := by
  obtain ⟨tree, hread, hdenotes⟩ := Tree.read_write layout h
  exact Program.parse_of_meaning (Program.terminate_write layout h) hread (hdenotes _ _)

/-- Every kind of statement, and operators that need parentheses and that need none. -/
theorem Program.parse_write_all :
    let product := Node.binary (.arithmetic .mult)
      (.binary (.arithmetic .sub) (.reference "a") (.literal (.integer (-5))))
      (.call "f" [.reference "a", .input .number])
    let difference := Node.binary (.arithmetic .sub) (.literal (.integer 1))
      (.binary (.arithmetic .sub) (.reference "a") (.literal (.string "\"\\\n")))
    let test := Node.binary .or (.binary .and (.literal (.bool true)) (.input .text))
      (.binary .is (.binary .isNot product difference)
        (.binary (.order .smaller) product difference))
    let body := [Node.definition "a" (.literal (.integer 2147483647)), .print [],
      .print [product, test],
      .function "f" ["x", "_y1"] (.block [.returning (.literal .void), .returning difference]),
      .function "g" [] (.block []),
      .conditional test (.block [.assignment "a" product])
        (some (.block [.conditional test (.block [.callStatement "g" []]) none])),
      .loop test (.block [.expressionStatement difference, .expressionStatement (.reference "a")])]
    Node.areWritableStatements body = true ∧
      Program.parse Text.unnamed (Program.write {} body) = .ok body ∧
      Program.parse Text.unnamed (Program.write ⟨4, true⟩ body) = .ok body := by
  intro product difference test body
  have h : Node.areWritableStatements body = true := by decide
  exact ⟨h, Program.parse_write _ {} h, Program.parse_write _ ⟨4, true⟩ h⟩

end ScriptLang
