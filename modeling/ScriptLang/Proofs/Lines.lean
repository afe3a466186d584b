import ScriptLang.Proofs.Printer

set_option autoImplicit false

/-! # The ends of written lines

A written expression is one piece of code to the scan that looks for the ends of statements: it
comes out as it goes in, with all its brackets closed and no comment begun (`Source.passes_write`).
So the scan adds a semicolon at the end of each line of a written program that ends a statement, and
nothing else (`Program.terminate_write`). -/

namespace ScriptLang

namespace Text

theorem toNat_of_isAlpha {c : Char} (h : c.isAlpha = true) :
    (65 ≤ c.toNat ∧ c.toNat ≤ 90) ∨ (97 ≤ c.toNat ∧ c.toNat ≤ 122) := by
  delta Char.isAlpha Char.isUpper Char.isLower at h
  simp only [Bool.or_eq_true, Bool.and_eq_true, decide_eq_true_eq, ge_iff_le,
    UInt32.le_iff_toNat_le] at h
  exact h

theorem toNat_of_isDigit {c : Char} (h : c.isDigit = true) : 48 ≤ c.toNat ∧ c.toNat ≤ 57 := by
  delta Char.isDigit at h
  simp only [Bool.and_eq_true, decide_eq_true_eq, ge_iff_le, UInt32.le_iff_toNat_le] at h
  exact h

end Text

namespace Source

/-! ## Steps of the scan -/

variable {scan : Scan}

theorem terminateFrom_code (hmode : scan.mode = .code) {c : Char} (hslash : c ≠ '/')
    (hhash : c ≠ '#') (rest : List Char) :
    terminateFrom scan (c :: rest)
      = (codeStep scan c).1 ++ terminateFrom (codeStep scan c).2 rest := by
  rw [terminateFrom.eq_def]
  simp only [hmode]
  split
  · exact absurd rfl hslash
  · exact absurd rfl hslash
  · exact absurd rfl hhash
  · rfl

/-- A slash before a space starts no comment. -/
theorem terminateFrom_slash (hmode : scan.mode = .code) (rest : List Char) :
    terminateFrom scan ('/' :: ' ' :: rest)
      = '/' :: terminateFrom (scan.wrote '/') (' ' :: rest) := by
  rw [terminateFrom.eq_def]
  simp only [hmode]
  split
  · next h => cases h
  · next h => cases h
  · next h => exact absurd h (by decide)
  · rfl

theorem terminateFrom_text {escaped : Bool} (hmode : scan.mode = .text escaped) (c : Char)
    (rest : List Char) :
    terminateFrom scan (c :: rest)
      = c :: terminateFrom ((scan.wrote c).within (textMode escaped c)) rest := by
  rw [terminateFrom.eq_def]
  simp only [hmode]

/-- The end of the text ends an open statement. -/
theorem terminateFrom_nil_of_isOpen (hopen : scan.isOpen = true) :
    terminateFrom scan [] = [';'] :=
  if_pos hopen

/-! ## Code that passes the scan -/

/-- Whether the scan writes `out` for `cs`, and goes on as `scan'`. -/
def Turns (scan : Scan) (cs out : List Char) (scan' : Scan) : Prop :=
  ∀ rest, terminateFrom scan (cs ++ rest) = out ++ terminateFrom scan' rest

theorem Turns.nil : Turns scan [] [] scan :=
  fun _ => rfl

theorem Turns.append {cs out cs' out' : List Char} {scan' scan'' : Scan}
    (h : Turns scan cs out scan') (h' : Turns scan' cs' out' scan'') :
    Turns scan (cs ++ cs') (out ++ out') scan'' := by
  intro rest
  rw [List.append_assoc, h, h', List.append_assoc]

/-- One character of code. -/
theorem turns_code (hmode : scan.mode = .code) {c : Char} (hslash : c ≠ '/') (hhash : c ≠ '#') :
    Turns scan [c] (codeStep scan c).1 (codeStep scan c).2 :=
  fun rest => terminateFrom_code hmode hslash hhash rest

theorem turns_space (hmode : scan.mode = .code) : Turns scan [' '] [' '] scan := by
  have hstep : codeStep scan ' ' = ([' '], scan) := by
    have hwrote : scan.wrote ' ' = scan := if_pos (by decide)
    simp [codeStep, hwrote]
  have h := turns_code hmode (by decide : ' ' ≠ '/') (by decide)
  rwa [hstep] at h

theorem turns_indent (hmode : scan.mode = .code) (layout : Layout) (depth : Nat) :
    Turns scan (layout.indent depth) (layout.indent depth) scan := by
  unfold Layout.indent
  induction layout.width * depth with
  | zero => exact .nil
  | succ n ih => exact (turns_space hmode).append ih

/-- Whether the scan leaves a text as it is, wherever code may stand, and has an open statement and
the same open brackets after it. -/
def Passes (cs : List Char) : Prop :=
  ∀ scan : Scan, scan.mode = .code → ∃ scan', Turns scan cs cs scan' ∧ scan'.mode = .code ∧
    scan'.depth = scan.depth ∧ scan'.isOpen = true

theorem Passes.append {cs cs' : List Char} (h : Passes cs) (h' : Passes cs') :
    Passes (cs ++ cs') := by
  intro scan hmode
  obtain ⟨scan', hturns, hmode', hdepth', -⟩ := h scan hmode
  obtain ⟨scan'', hturns', hmode'', hdepth'', hopen⟩ := h' scan' hmode'
  exact ⟨scan'', hturns.append hturns', hmode'', hdepth''.trans hdepth', hopen⟩

theorem Passes.space {cs : List Char} (h : Passes cs) : Passes (cs ++ [' ']) := by
  intro scan hmode
  obtain ⟨scan', hturns, hmode', hdepth, hopen⟩ := h scan hmode
  exact ⟨scan', hturns.append (turns_space hmode'), hmode', hdepth, hopen⟩

theorem passes_space_cons {cs : List Char} (h : Passes cs) : Passes (' ' :: cs) := by
  intro scan hmode
  obtain ⟨scan', hturns, hscan'⟩ := h scan hmode
  exact ⟨scan', (turns_space hmode).append hturns, hscan'⟩

/-- The characters that mean something to the scan. -/
def specials : List Char :=
  ['"', '(', ')', '[', ']', '\x7b', '\x7d', '\n', '/', '#', ';']

/-- Whether a character is code like any other. -/
def isOrdinary (c : Char) : Bool :=
  !Text.isBlank c && !specials.contains c

theorem passes_ordinary {c : Char} (h : isOrdinary c = true) : Passes [c] := by
  simp only [isOrdinary, specials, Bool.and_eq_true, Bool.not_eq_true', List.contains_eq_mem,
    decide_eq_false_iff_not, List.mem_cons, List.not_mem_nil, or_false, not_or] at h
  obtain ⟨hblank, hquote, hopen, hclose, hleft, hright, hbrace, hbrace', hfeed, hslash, hhash,
    hsemicolon⟩ := h
  intro scan hmode
  have hstep : codeStep scan c = ([c], { scan with last := some c }) := by
    simp [codeStep, Scan.wrote, hquote, hopen, hclose, hleft, hright, hbrace', hfeed, hblank]
  have hturns := turns_code hmode hslash hhash
  rw [hstep] at hturns
  exact ⟨_, hturns, hmode, rfl, by simp [Scan.isOpen, hsemicolon, hbrace, hbrace']⟩

theorem passes_of_forall {cs : List Char} (hne : cs ≠ []) (h : ∀ c ∈ cs, isOrdinary c = true) :
    Passes cs := by
  induction cs with
  | nil => exact absurd rfl hne
  | cons c rest ih =>
    have hc := passes_ordinary (h c (List.mem_cons_self ..))
    cases rest with
    | nil => exact hc
    | cons d rest => exact hc.append (ih (by simp) fun x hx => h x (List.mem_cons_of_mem _ hx))

/-- A text in parentheses, which may be empty. -/
theorem passes_parentheses {cs : List Char} (h : cs = [] ∨ Passes cs) :
    Passes ('(' :: (cs ++ [')'])) := by
  intro scan hmode
  have hopening := turns_code hmode (by decide : '(' ≠ '/') (by decide)
  have hinner : ∃ scan', Turns (codeStep scan '(').2 cs cs scan' ∧ scan'.mode = .code ∧
      scan'.depth = scan.depth + 1 := by
    rcases h with rfl | h
    · exact ⟨_, .nil, hmode, rfl⟩
    · obtain ⟨scan', hturns, hmode', hdepth, -⟩ := h (codeStep scan '(').2 hmode
      exact ⟨scan', hturns, hmode', hdepth⟩
  obtain ⟨scan', hturns, hmode', hdepth⟩ := hinner
  have hclosing := turns_code hmode' (by decide : ')' ≠ '/') (by decide)
  refine ⟨_, hopening.append (hturns.append hclosing), hmode', ?_, rfl⟩
  show scan'.depth - 1 = scan.depth
  rw [hdepth]
  rfl

/-! ## Literals -/

@[simp]
theorem depth_wrote (scan : Scan) (c : Char) : (scan.wrote c).depth = scan.depth := by
  unfold Scan.wrote
  split <;> rfl

/-- One character inside a text literal. -/
theorem turns_text {escaped : Bool} (hmode : scan.mode = .text escaped) (c : Char) :
    Turns scan [c] [c] ((scan.wrote c).within (textMode escaped c)) :=
  fun rest => terminateFrom_text hmode c rest

/-- Whether the scan leaves a text as it is in the middle of a text literal, and goes on there. -/
def Stays (cs : List Char) : Prop :=
  ∀ scan : Scan, scan.mode = .text false → ∃ scan', Turns scan cs cs scan' ∧
    scan'.mode = .text false ∧ scan'.depth = scan.depth

theorem Stays.append {cs cs' : List Char} (h : Stays cs) (h' : Stays cs') : Stays (cs ++ cs') := by
  intro scan hmode
  obtain ⟨scan', hturns, hmode', hdepth⟩ := h scan hmode
  obtain ⟨scan'', hturns', hmode'', hdepth'⟩ := h' scan' hmode'
  exact ⟨scan'', hturns.append hturns', hmode'', hdepth'.trans hdepth⟩

theorem stays_plain {c : Char} (hslash : c ≠ '\\') (hquote : c ≠ '"') : Stays [c] := by
  intro scan hmode
  exact ⟨_, turns_text hmode c, by simp [textMode, hslash, hquote, Scan.within],
    by simp [Scan.within]⟩

/-- The character after a backslash is not looked at. -/
theorem stays_escaped (c : Char) : Stays ['\\', c] := by
  intro scan hmode
  have hbackslash := turns_text hmode '\\'
  have hmode' : ((scan.wrote '\\').within (textMode false '\\')).mode = .text true := rfl
  exact ⟨_, hbackslash.append (turns_text hmode' c), rfl, by simp [Scan.within]⟩

theorem stays_escape (c : Char) : Stays (Text.escape c) := by
  unfold Text.escape
  split
  · exact stays_escaped c
  next hspecial =>
  simp only [Bool.or_eq_true, decide_eq_true_eq, not_or] at hspecial
  split
  · exact stays_escaped 'n'
  split
  · exact stays_escaped 'r'
  split
  · have hzero : Stays ['0'] := stays_plain (by decide) (by decide)
    exact (stays_escaped 'x').append (hzero.append hzero)
  · exact stays_plain hspecial.1 hspecial.2

theorem stays_flatMap_escape (cs : List Char) : Stays (cs.flatMap Text.escape) := by
  induction cs with
  | nil => exact fun scan hmode => ⟨scan, .nil, hmode, rfl⟩
  | cons c cs ih =>
    rw [List.flatMap_cons]
    exact (stays_escape c).append ih

theorem passes_text (text : String) : Passes (Value.string text).write := by
  intro scan hmode
  have hopening := turns_code hmode (by decide : '"' ≠ '/') (by decide)
  obtain ⟨scan', hturns, hmode', hdepth⟩ :=
    stays_flatMap_escape text.toList (codeStep scan '"').2 rfl
  have hclosing := turns_text hmode' '"'
  exact ⟨_, hopening.append (hturns.append hclosing), rfl, (depth_wrote scan' '"').trans hdepth,
    rfl⟩

/-! ## Expressions -/

theorem isWordCharacter_of_isWordStart {c : Char} (h : Lexer.isWordStart c = true) :
    Lexer.isWordCharacter c = true := by
  simp only [Lexer.isWordStart, Lexer.isWordCharacter, Char.isAlphanum, Bool.or_eq_true] at h ⊢
  exact h.imp_left .inl

/-- The characters of words lie between `0` and `z`. -/
theorem toNat_of_isWordCharacter {c : Char} (h : Lexer.isWordCharacter c = true) :
    48 ≤ c.toNat ∧ c.toNat ≤ 122 := by
  delta Lexer.isWordCharacter Char.isAlphanum at h
  simp only [Bool.or_eq_true, decide_eq_true_eq] at h
  rcases h with (h | h) | rfl
  · have := Text.toNat_of_isAlpha h
    omega
  · have := Text.toNat_of_isDigit h
    omega
  · decide

theorem isOrdinary_of_isWordCharacter {c : Char} (h : Lexer.isWordCharacter c = true) :
    isOrdinary c = true := by
  have hspecial : specials.all (fun d => !Lexer.isWordCharacter d) = true := by decide
  have hblank : Text.isBlank c = false := by
    obtain ⟨hlow, hhigh⟩ := toNat_of_isWordCharacter h
    have hranges : ∀ range ∈ Text.blankRanges, range.2 < 48 ∨ 122 < range.1 := by decide
    rw [Text.isBlank, Text.CodeRanges.contains, List.any_eq_false]
    intro range hrange
    have := hranges range hrange
    simp only [Bool.and_eq_true, decide_eq_true_eq, not_and]
    omega
  simp only [isOrdinary, hblank, Bool.not_false, Bool.true_and, Bool.not_eq_true',
    List.contains_eq_mem, decide_eq_false_iff_not]
  intro hmem
  have hnot := List.all_eq_true.1 hspecial c hmem
  rw [h] at hnot
  cases hnot

theorem isOrdinary_of_isDigit {c : Char} (h : c.isDigit = true) : isOrdinary c = true :=
  isOrdinary_of_isWordCharacter (by simp [Lexer.isWordCharacter, Char.isAlphanum, h])

theorem passes_name {name : String} (h : isName name = true) : Passes name.toList := by
  unfold isName at h
  split at h
  · cases h
  · next c cs hname =>
    simp only [Bool.and_eq_true, List.all_eq_true] at h
    rw [hname]
    refine passes_of_forall (by simp) fun d hd => isOrdinary_of_isWordCharacter ?_
    rcases List.mem_cons.1 hd with rfl | hd
    · exact isWordCharacter_of_isWordStart h.1.1
    · exact h.1.2 d hd

theorem passes_keyword (k : Keyword) : Passes k.text.toList := by
  refine passes_of_forall ?_ (List.all_eq_true.1 ?_) <;> cases k <;> decide

theorem passes_literal {value : Value} (h : value.isWritable = true) : Passes value.write := by
  cases value with
  | bool truth => cases truth <;> exact passes_keyword _
  | string text => exact passes_text text
  | integer n =>
    have hdigits : Passes (Nat.toDigits 10 n.toInt.natAbs) := by
      refine passes_of_forall Nat.toDigits_ne_nil fun c hc => isOrdinary_of_isDigit ?_
      exact Nat.isDigit_of_mem_toDigits (by decide) (by decide) hc
    rw [Value.write]
    split
    · exact (passes_ordinary (by decide)).append hdigits
    · exact hdigits
  | void => cases h
  | float number => cases h

/-- An operator and the space after it. -/
theorem passes_spelling {operator : Operator} (h : operator ∈ Operator.all) (words : Bool) :
    Passes ((operator.spelling words).toList ++ [' ']) := by
  have hsigns : ∀ words, ∀ operator ∈ Operator.all, Operator.spelling words operator = "/" ∨
      (Operator.spelling words operator).toList ≠ [] ∧
        (Operator.spelling words operator).toList.all isOrdinary = true := by decide
  rcases hsigns words operator h with hslash | ⟨hne, hordinary⟩
  · rw [hslash]
    intro scan hmode
    refine ⟨scan.wrote '/', fun rest => ?_, hmode, rfl, rfl⟩
    have hspace : Turns (scan.wrote '/') [' '] [' '] (scan.wrote '/') := turns_space hmode
    exact (terminateFrom_slash hmode rest).trans (congrArg _ (hspace rest))
  · exact (passes_of_forall hne (List.all_eq_true.1 hordinary)).space

theorem passes_commas {texts : List (List Char)} (hne : texts ≠ [])
    (h : ∀ text ∈ texts, Passes text) : Passes (commas texts) := by
  induction texts with
  | nil => exact absurd rfl hne
  | cons text texts ih =>
    have htext := h text (List.mem_cons_self ..)
    cases texts with
    | nil => exact htext
    | cons text' texts =>
      have hrest := ih (by simp) fun t ht => h t (List.mem_cons_of_mem _ ht)
      have hcomma : Passes [','] := passes_ordinary (by decide)
      exact htext.append (hcomma.append (passes_space_cons hrest))

theorem passes_grouped {cs : List Char} (h : Passes cs) (needed : Bool) :
    Passes (grouped needed cs) := by
  unfold grouped
  split
  · exact passes_parentheses (.inr h)
  · exact h

mutual

/-- A written expression passes the scan. -/
theorem passes_write (layout : Layout) : ∀ (node : Node) (least : Nat), node.isWritable = true →
    Passes (node.write layout least)
  | .reference name, _, h => passes_name h
  | .literal value, _, h => passes_literal h
  | .binary operator left right, least, h => by
    simp only [Node.isWritable, Bool.and_eq_true, decide_eq_true_eq] at h
    obtain ⟨⟨hoperator, hleft⟩, hright⟩ := h
    rw [Node.write]
    refine passes_grouped ?_ _
    have hl := passes_write layout left operator.leftLevel hleft
    have hr := passes_write layout right (operator.level + 1) hright
    have hall := hl.append (passes_space_cons ((passes_spelling hoperator layout.words).append hr))
    simpa using hall
  | .call name arguments, _, h => by
    simp only [Node.isWritable, Bool.and_eq_true] at h
    rw [Node.write]
    refine (passes_name h.1).append (passes_parentheses ?_)
    cases arguments with
    | nil => exact .inl rfl
    | cons node nodes =>
      exact .inr (passes_commas (by simp [Node.writeAll]) (passes_writeAll layout _ h.2))
  | .input .number, _, _ => (passes_keyword _).append (passes_parentheses (.inl rfl))
  | .input .text, _, _ => (passes_keyword _).append (passes_parentheses (.inl rfl))
  | .input (.other _), _, h => by cases h
  | .block _, _, h | .program _, _, h | .print _, _, h | .definition _ _, _, h
  | .assignment _ _, _, h | .conditional _ _ _, _, h | .loop _ _, _, h | .function _ _ _, _, h
  | .callStatement _ _, _, h | .returning _, _, h | .expressionStatement _, _, h
  | .valueStatement _, _, h | .fragment _, _, h => by cases h
termination_by structural node => node

theorem passes_writeAll (layout : Layout) : ∀ nodes : List Node, Node.areWritable nodes = true →
    ∀ text ∈ Node.writeAll layout nodes, Passes text
  | [], _ => by simp [Node.writeAll]
  | node :: nodes, h => by
    simp only [Node.areWritable, Bool.and_eq_true] at h
    intro text htext
    rw [Node.writeAll] at htext
    rcases List.mem_cons.1 htext with rfl | htext
    · exact passes_write layout node 0 h.1
    · exact passes_writeAll layout nodes h.2 text htext
termination_by structural nodes => nodes

end

/-! ## Statements -/

/-- Whether the scan stands outside brackets and has no open statement. -/
structure Scan.Closed (scan : Scan) : Prop where
  mode : scan.mode = .code
  depth : scan.depth = 0
  isOpen : scan.isOpen = false

/-- Whether the scan writes `out` for `cs` outside brackets, with no open statement after it. -/
def Closes (cs out : List Char) : Prop :=
  ∀ scan : Scan, scan.mode = .code → scan.depth = 0 → ∃ scan', Turns scan cs out scan' ∧
    scan'.Closed

theorem turns_lineEnd (hscan : scan.Closed) : Turns scan ['\n'] ['\n'] scan := by
  have hstep : codeStep scan '\n' = (['\n'], scan) := by
    simp [codeStep, Scan.lineTerminator, Scan.lineTerminated, Scan.terminator, Scan.terminated,
      hscan.isOpen, hscan.depth]
  have h := turns_code hscan.mode (by decide : '\n' ≠ '/') (by decide)
  rwa [hstep] at h

/-- The end of a line closes the statement on it. -/
theorem closes_line {cs : List Char} (h : Passes cs) (layout : Layout) (depth : Nat) :
    Closes (layout.indent depth ++ (cs ++ ['\n']))
      (layout.indent depth ++ (cs ++ [';', '\n'])) := by
  intro scan hmode hdepth
  obtain ⟨scan', hturns, hmode', hdepth', hopen⟩ := h scan hmode
  have hstep : codeStep scan' '\n' = ([';', '\n'], { scan' with last := some ';' }) := by
    simp [codeStep, Scan.lineTerminator, Scan.lineTerminated, Scan.terminator, Scan.terminated,
      hopen, hdepth', hdepth]
  have hend := turns_code hmode' (by decide : '\n' ≠ '/') (by decide)
  rw [hstep] at hend
  have hline := (turns_indent hmode layout depth).append (hturns.append hend)
  exact ⟨_, hline, hmode', hdepth'.trans hdepth, rfl⟩

/-- Code in front, with an open statement after it. -/
theorem Closes.after {cs out : List Char} (h : Closes cs out) {code : List Char}
    (hcode : Passes code) : Closes (code ++ cs) (code ++ out) := by
  intro scan hmode hdepth
  obtain ⟨scan', hturns, hmode', hdepth', -⟩ := hcode scan hmode
  obtain ⟨scan'', hturns', hclosed⟩ := h scan' hmode' (hdepth'.trans hdepth)
  exact ⟨scan'', hturns.append hturns', hclosed⟩

theorem Closes.append {cs out cs' out' : List Char} (h : Closes cs out) (h' : Closes cs' out') :
    Closes (cs ++ cs') (out ++ out') := by
  intro scan hmode hdepth
  obtain ⟨scan', hturns, hclosed⟩ := h scan hmode hdepth
  obtain ⟨scan'', hturns', hclosed'⟩ := h' scan' hclosed.mode hclosed.depth
  exact ⟨scan'', hturns.append hturns', hclosed'⟩

/-- Nothing is added at the end of a line without an open statement. -/
theorem Closes.line {cs out : List Char} (h : Closes cs out) (layout : Layout) (depth : Nat) :
    Closes (layout.indent depth ++ (cs ++ ['\n'])) (layout.indent depth ++ (out ++ ['\n'])) := by
  intro scan hmode hdepth
  obtain ⟨scan', hturns, hclosed⟩ := h scan hmode hdepth
  have hline := (turns_indent hmode layout depth).append (hturns.append (turns_lineEnd hclosed))
  exact ⟨scan', hline, hclosed⟩

/-- A block whose lines are closed is closed. -/
theorem closes_block {cs out : List Char}
    (h : ∀ scan : Scan, scan.Closed → ∃ scan', Turns scan cs out scan' ∧ scan'.Closed)
    (layout : Layout) (depth : Nat) :
    Closes ('\x7b' :: '\n' :: (cs ++ layout.indent depth ++ ['\x7d']))
      ('\x7b' :: '\n' :: (out ++ layout.indent depth ++ ['\x7d'])) := by
  intro scan hmode hdepth
  have hopening : Turns scan ['\x7b'] ['\x7b'] { scan with last := some '\x7b' } :=
    turns_code hmode (by decide : '\x7b' ≠ '/') (by decide)
  have hopened : ({ scan with last := some '\x7b' } : Scan).Closed := ⟨hmode, hdepth, rfl⟩
  obtain ⟨scan', hlines, hclosed⟩ := h _ hopened
  have hstep : codeStep scan' '\x7d' = (['\x7d'], { scan' with last := some '\x7d' }) := by
    simp only [codeStep, Scan.terminator, Scan.terminated, hclosed.isOpen]
    rfl
  have hclosing := turns_code hclosed.mode (by decide : '\x7d' ≠ '/') (by decide)
  rw [hstep] at hclosing
  have hturns := hopening.append ((turns_lineEnd hopened).append
    ((hlines.append (turns_indent hclosed.mode layout depth)).append hclosing))
  exact ⟨_, hturns, hclosed.mode, hclosed.depth, rfl⟩

/-- A simple statement is code that the end of its line closes. -/
theorem closes_simple {layout : Layout} {depth : Nat} {node : Node} {code : List Char}
    (hcode : Passes code)
    (hwrite : ∀ stop, node.writeStatement layout stop depth
      = layout.indent depth ++ code ++ stop ++ ['\n']) :
    Closes (node.writeStatement layout [] depth) (node.writeStatement layout [';'] depth) := by
  rw [hwrite, hwrite]
  simpa using closes_line hcode layout depth

mutual

/-- Each statement is closed on its own lines. -/
theorem closes_statement (layout : Layout) (depth : Nat) :
    ∀ node : Node, node.isWritableStatement = true →
      Closes (node.writeStatement layout [] depth) (node.writeStatement layout [';'] depth)
  | .print [], _ => closes_simple (passes_keyword .print) fun _ => rfl
  | .print (node :: nodes), h => by
    have hlist : Passes (commas (Node.writeAll layout (node :: nodes))) :=
      passes_commas (by simp [Node.writeAll]) (passes_writeAll layout _ h)
    refine closes_simple ((passes_keyword .print).append (passes_space_cons hlist)) fun stop => ?_
    simp [Node.writeStatement]
  | .definition name expression, h => by
    simp only [Node.isWritableStatement, Bool.and_eq_true] at h
    have hsign : Passes Symbol.define.text.toList :=
      passes_of_forall (by decide) (List.all_eq_true.1 (by decide))
    have hcode := ((passes_name h.1).append (passes_space_cons hsign)).append
      (passes_space_cons (passes_write layout expression 0 h.2))
    exact closes_simple hcode fun stop => by simp [Node.writeStatement]
  | .assignment name expression, h => by
    simp only [Node.isWritableStatement, Bool.and_eq_true] at h
    have hsign : Passes Symbol.equal.text.toList :=
      passes_of_forall (by decide) (List.all_eq_true.1 (by decide))
    have hcode := ((passes_name h.1).append (passes_space_cons hsign)).append
      (passes_space_cons (passes_write layout expression 0 h.2))
    exact closes_simple hcode fun stop => by simp [Node.writeStatement]
  | .conditional condition thenBlock none, h => by
    simp only [Node.isWritableStatement, Bool.and_eq_true] at h
    have hhead := (passes_keyword .ifWord).append
      (passes_space_cons (passes_write layout condition 0 h.1))
    have hblock := (closes_writeBlock layout depth thenBlock h.2).after hhead.space
    simpa [Node.writeStatement] using hblock.line layout depth
  | .conditional condition thenBlock (some elseBlock), h => by
    simp only [Node.isWritableStatement, Bool.and_eq_true] at h
    have hhead := (passes_keyword .ifWord).append
      (passes_space_cons (passes_write layout condition 0 h.1.1))
    have hthen := (closes_writeBlock layout depth thenBlock h.1.2).after hhead.space
    have helse := (closes_writeBlock layout depth elseBlock h.2).after
      (passes_space_cons (passes_keyword .elseWord)).space
    simpa [Node.writeStatement] using (hthen.append helse).line layout depth
  | .loop condition body, h => by
    simp only [Node.isWritableStatement, Bool.and_eq_true] at h
    have hhead := (passes_keyword .whileWord).append
      (passes_space_cons (passes_write layout condition 0 h.1))
    have hblock := (closes_writeBlock layout depth body h.2).after hhead.space
    simpa [Node.writeStatement] using hblock.line layout depth
  | .function name parameters body, h => by
    simp only [Node.isWritableStatement, Bool.and_eq_true, List.all_eq_true] at h
    have hparameters : commas (parameters.map String.toList) = [] ∨
        Passes (commas (parameters.map String.toList)) := by
      cases parameters with
      | nil => exact .inl rfl
      | cons first rest =>
        refine .inr (passes_commas (by simp) fun text htext => ?_)
        obtain ⟨parameter, hparameter, rfl⟩ := List.mem_map.1 htext
        exact passes_name (h.1.2 parameter hparameter)
    have hhead := (passes_keyword .fn).append
      (passes_space_cons ((passes_name h.1.1).append (passes_parentheses hparameters)))
    have hblock := (closes_writeBlock layout depth body h.2).after hhead.space
    simpa [Node.writeStatement] using hblock.line layout depth
  | .callStatement name arguments, h =>
    closes_simple (passes_write layout (.call name arguments) 0 h) fun _ => rfl
  | .returning value, h => by
    rcases Node.writable_returning h with rfl | hvalue
    · exact closes_simple (passes_keyword .returnWord) fun _ => rfl
    · have hcode := (passes_keyword .returnWord).append
        (passes_space_cons (passes_write layout value 0 hvalue))
      exact closes_simple hcode fun stop => by simp [Node.writeStatement_returning hvalue]
  | .expressionStatement expression, h =>
    closes_simple (passes_write layout expression 0 (Node.writable_expressionStatement h).1)
      fun _ => rfl
  | .reference _, h | .literal _, h | .binary _ _ _, h | .call _ _, h | .input _, h | .block _, h
  | .program _, h | .valueStatement _, h | .fragment _, h => by cases h
termination_by structural node => node

theorem closes_writeBlock (layout : Layout) (depth : Nat) :
    ∀ node : Node, node.isWritableBlock = true →
      Closes (node.writeBlock layout [] depth) (node.writeBlock layout [';'] depth)
  | .block statements, h =>
    closes_block (turns_statements layout (depth + 1) statements h) layout depth
  | .reference _, h | .literal _, h | .binary _ _ _, h | .call _ _, h | .input _, h | .program _, h
  | .print _, h | .definition _ _, h | .assignment _ _, h | .conditional _ _ _, h | .loop _ _, h
  | .function _ _ _, h | .callStatement _ _, h | .returning _, h | .expressionStatement _, h
  | .valueStatement _, h | .fragment _, h => by cases h
termination_by structural node => node

theorem turns_statements (layout : Layout) (depth : Nat) :
    ∀ nodes : List Node, Node.areWritableStatements nodes = true →
      ∀ scan : Scan, scan.Closed →
        ∃ scan', Turns scan (Node.writeStatements layout [] depth nodes)
          (Node.writeStatements layout [';'] depth nodes) scan' ∧ scan'.Closed
  | [], _, scan, hscan => ⟨scan, .nil, hscan⟩
  | node :: nodes, h, scan, hscan => by
    simp only [Node.areWritableStatements, Bool.and_eq_true] at h
    obtain ⟨scan', hturns, hclosed⟩ :=
      closes_statement layout depth node h.1 scan hscan.mode hscan.depth
    obtain ⟨scan'', hturns', hclosed'⟩ := turns_statements layout depth nodes h.2 scan' hclosed
    exact ⟨scan'', hturns.append hturns', hclosed'⟩
termination_by structural nodes => nodes

end

/-- The end of the text closes the statement on the last line. -/
theorem terminate_of_passes {cs : List Char} (h : Passes cs) :
    terminate (String.ofList cs) = String.ofList (cs ++ [';']) := by
  obtain ⟨scan, hturns, -, -, hopen⟩ := h {} rfl
  have hall := hturns []
  rw [List.append_nil, terminateFrom_nil_of_isOpen hopen] at hall
  rw [terminate, String.toList_ofList, hall]

end Source

/-- The ends of statements in a written program become semicolons, and nothing else changes. -/
theorem Program.terminate_write (layout : Layout) {body : List Node}
    (h : Node.areWritableStatements body = true) :
    Source.terminate (Program.write layout body)
      = String.ofList (Node.writeStatements layout [';'] 0 body) := by
  obtain ⟨scan, hturns, hclosed⟩ := Source.turns_statements layout 0 body h {} ⟨rfl, rfl, rfl⟩
  have hall := hturns []
  have hend : Source.terminateFrom scan [] = [] := by
    show scan.terminator = []
    simp [Source.Scan.terminator, hclosed.isOpen]
  rw [List.append_nil, hend, List.append_nil] at hall
  rw [Source.terminate, Program.write, String.toList_ofList, hall]

end ScriptLang
