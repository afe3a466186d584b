import ScriptLang.Proofs.Lines
import Mathlib.Tactic.SplitIfs

set_option autoImplicit false

/-! # The scan at the end of a text

`Source.scanFrom` is the state of the scan at the end of a text. What it knows about literals and
brackets can be read off what it has written (`Source.writes_scanFrom`), though comments are not
written. How it goes on from there depends on little of what it has read
(`Source.terminateFrom_congr`). -/

namespace ScriptLang.Source

/-- The scan at the end of a text. -/
def scanFrom (scan : Scan) : List Char → Scan
  | [] => scan
  | c :: rest =>
    match scan.mode with
    | .text escaped => scanFrom ((scan.wrote c).within (textMode escaped c)) rest
    | .lineComment =>
      if c = '\n' then scanFrom (scan.within .code).lineTerminated rest else scanFrom scan rest
    | .blockComment =>
      match c, rest with
      | '*', '/' :: rest => scanFrom (scan.within .code) rest
      | '\n', rest => scanFrom scan.lineTerminated rest
      | _, rest => scanFrom scan rest
    | .code =>
      match c, rest with
      | '/', '*' :: rest => scanFrom (scan.within .blockComment) rest
      | '/', '/' :: rest => scanFrom (scan.within .lineComment) rest
      | '#', rest => scanFrom (scan.within .lineComment) rest
      | c, rest => scanFrom (codeStep scan c).2 rest

/-- Whether a text ends inside a block comment. -/
def endsInComment (source : String) : Bool :=
  (scanFrom {} source.toList).mode = .blockComment

/-- The scan behind a quote that opens a literal. -/
def Scan.quoted (scan : Scan) : Scan :=
  (scan.wrote '"').within (.text false)

theorem Scan.mode_quoted (scan : Scan) : scan.quoted.mode = .text false :=
  rfl

/-! ## Steps of the scan -/

section Steps

variable {scan : Scan} {c : Char} {rest : List Char}

/-- A character of code that starts no comment. -/
theorem terminateFrom_plain (hmode : scan.mode = .code) (hhash : c ≠ '#')
    (hblock : ∀ tail, c = '/' → rest ≠ '*' :: tail) (hline : ∀ tail, c = '/' → rest ≠ '/' :: tail) :
    terminateFrom scan (c :: rest)
      = (codeStep scan c).1 ++ terminateFrom (codeStep scan c).2 rest := by
  rw [terminateFrom.eq_def]
  simp only [hmode]

/-- A quote in code opens a literal. -/
theorem terminateFrom_quote (hmode : scan.mode = .code) (rest : List Char) :
    terminateFrom scan ('"' :: rest) = '"' :: terminateFrom scan.quoted rest :=
  terminateFrom_code hmode (by decide) (by decide) rest

theorem terminateFrom_opensBlock (hmode : scan.mode = .code) :
    terminateFrom scan ('/' :: '*' :: rest) = terminateFrom (scan.within .blockComment) rest := by
  rw [terminateFrom.eq_def]
  simp only [hmode]

theorem terminateFrom_opensLine (hmode : scan.mode = .code) :
    terminateFrom scan ('/' :: '/' :: rest) = terminateFrom (scan.within .lineComment) rest := by
  rw [terminateFrom.eq_def]
  simp only [hmode]

theorem terminateFrom_hash (hmode : scan.mode = .code) :
    terminateFrom scan ('#' :: rest) = terminateFrom (scan.within .lineComment) rest := by
  rw [terminateFrom.eq_def]
  simp only [hmode]

theorem terminateFrom_lineComment (hmode : scan.mode = .lineComment) (hfeed : c ≠ '\n') :
    terminateFrom scan (c :: rest) = terminateFrom scan rest := by
  rw [terminateFrom.eq_def]
  simp only [hmode, if_neg hfeed]

/-- A line feed ends a comment that has no other end. -/
theorem terminateFrom_endsLine (hmode : scan.mode = .lineComment) :
    terminateFrom scan ('\n' :: rest) = (scan.lineTerminator ++ ['\n'])
      ++ terminateFrom (scan.within .code).lineTerminated rest := by
  rw [terminateFrom.eq_def, List.append_assoc]
  simp only [hmode]
  rfl

/-- A character of a block comment that is no line feed and does not end the comment. -/
theorem terminateFrom_blockComment (hmode : scan.mode = .blockComment) (hfeed : c ≠ '\n')
    (hend : ∀ tail, c = '*' → rest ≠ '/' :: tail) :
    terminateFrom scan (c :: rest) = terminateFrom scan rest := by
  rw [terminateFrom.eq_def]
  simp only [hmode]

theorem terminateFrom_endsBlock (hmode : scan.mode = .blockComment) :
    terminateFrom scan ('*' :: '/' :: rest) = terminateFrom (scan.within .code) rest := by
  rw [terminateFrom.eq_def]
  simp only [hmode]

/-- A line feed in a block comment ends a statement before it. -/
theorem terminateFrom_lineInBlock (hmode : scan.mode = .blockComment) :
    terminateFrom scan ('\n' :: rest) = (scan.lineTerminator ++ ['\n'])
      ++ terminateFrom scan.lineTerminated rest := by
  rw [terminateFrom.eq_def, List.append_assoc]
  simp only [hmode]
  rfl

end Steps

/-! ## Literals and brackets -/

/-- The text literal that the scan is inside of: whether a backslash stands right before. -/
def Mode.literal? : Mode → Option Bool
  | .text escaped => some escaped
  | .code | .lineComment | .blockComment => none

/-- The literal and the number of brackets around a place. -/
structure Level where
  literal? : Option Bool := none
  depth : Nat := 0

namespace Level

/-- The level after one more character that is written. -/
def after (level : Level) (c : Char) : Level :=
  match level.literal? with
  | some escaped => { level with literal? := (textMode escaped c).literal? }
  | none =>
    if c = '"' then { level with literal? := some false }
    else if c = '(' || c = '[' then { level with depth := level.depth + 1 }
    else if c = ')' || c = ']' then { level with depth := level.depth - 1 }
    else level

/-- The level after some more characters that are written. -/
def afterAll (level : Level) (cs : List Char) : Level :=
  cs.foldl after level

theorem afterAll_append (level : Level) (cs cs' : List Char) :
    level.afterAll (cs ++ cs') = (level.afterAll cs).afterAll cs' :=
  List.foldl_append

end Level

/-- What the scan knows about literals and brackets. -/
def Scan.level (scan : Scan) : Level :=
  ⟨scan.mode.literal?, scan.depth⟩

variable {scan scan' last : Scan} {c : Char} {cs out rest rest' : List Char}

theorem level_terminated (scan : Scan) : scan.terminated.level = scan.level := by
  unfold Scan.terminated
  split <;> rfl

theorem level_lineTerminated (scan : Scan) : scan.lineTerminated.level = scan.level := by
  unfold Scan.lineTerminated
  split
  · exact level_terminated scan
  · rfl

theorem mode_terminated (scan : Scan) : scan.terminated.mode = scan.mode := by
  unfold Scan.terminated
  split <;> rfl

theorem mode_lineTerminated (scan : Scan) : scan.lineTerminated.mode = scan.mode := by
  unfold Scan.lineTerminated
  split
  · exact mode_terminated scan
  · rfl

theorem mode_wrote (scan : Scan) (c : Char) : (scan.wrote c).mode = scan.mode := by
  unfold Scan.wrote
  split <;> rfl

theorem level_wrote (scan : Scan) (c : Char) : (scan.wrote c).level = scan.level := by
  rw [Scan.level, mode_wrote, depth_wrote]
  rfl

theorem eq_of_mem_terminator (h : c ∈ scan.terminator) : c = ';' := by
  unfold Scan.terminator at h
  split at h <;> simp_all

theorem eq_of_mem_lineTerminator (h : c ∈ scan.lineTerminator) : c = ';' := by
  unfold Scan.lineTerminator at h
  split at h
  · exact eq_of_mem_terminator h
  · cases h

/-- A semicolon that ends a statement stands outside literals and is no bracket. -/
theorem afterAll_terminator {level : Level} (hlevel : level.literal? = none) (scan : Scan) :
    level.afterAll scan.terminator = level := by
  unfold Scan.terminator
  split
  · simp [Level.afterAll, Level.after, hlevel]
  · rfl

theorem afterAll_lineEnd {level : Level} (hlevel : level.literal? = none) (scan : Scan) :
    level.afterAll (scan.lineTerminator ++ ['\n']) = level := by
  have hfeed : level.after '\n' = level := by
    simp [Level.after, hlevel]
  unfold Scan.lineTerminator
  rw [Level.afterAll_append]
  split
  · rw [afterAll_terminator hlevel]
    exact hfeed
  · exact hfeed

theorem level_codeStep (hmode : scan.mode = .code) (c : Char) :
    scan.level.afterAll (codeStep scan c).1 = (codeStep scan c).2.level := by
  have hlevel : scan.level = ⟨none, scan.depth⟩ := by
    rw [Scan.level, hmode]
    rfl
  have hopened : scan.opened.level = ⟨none, scan.depth + 1⟩ := by
    rw [Scan.level, Scan.opened, hmode]
    rfl
  have hclosed : scan.closed.level = ⟨none, scan.depth - 1⟩ := by
    rw [Scan.level, Scan.closed, hmode]
    rfl
  unfold codeStep
  split_ifs with hquote hopening hclosing hbrace hfeed
  · rw [hlevel]
    simp [Level.afterAll, Level.after, hquote, Scan.level, Scan.within, Mode.literal?]
  · rw [hlevel, level_wrote, hopened]
    simp [Level.afterAll, Level.after, hquote, hopening]
  · rw [hlevel, level_wrote, hclosed]
    simp [Level.afterAll, Level.after, hquote, hopening, hclosing]
  · rw [level_wrote, level_terminated, Level.afterAll_append, afterAll_terminator (by rw [hlevel]),
      hlevel, hbrace]
    rfl
  · rw [level_lineTerminated, hfeed]
    exact afterAll_lineEnd (by rw [hlevel]) scan
  · rw [hlevel, level_wrote, hlevel]
    simp [Level.afterAll, Level.after, hquote, hopening, hclosing]

/-! ## One step -/

/-- One step of the scan before a text: what it writes, the scan after it and the text that is
left. -/
inductive Step (scan : Scan) : List Char → List Char → Scan → List Char → Prop where
  | text {escaped : Bool} (hmode : scan.mode = .text escaped) (c : Char) (rest : List Char) :
      Step scan (c :: rest) [c] ((scan.wrote c).within (textMode escaped c)) rest
  | inLine {c : Char} (hmode : scan.mode = .lineComment) (hfeed : c ≠ '\n') (rest : List Char) :
      Step scan (c :: rest) [] scan rest
  | endsLine (hmode : scan.mode = .lineComment) (rest : List Char) :
      Step scan ('\n' :: rest) (scan.lineTerminator ++ ['\n']) (scan.within .code).lineTerminated
        rest
  | inBlock {c : Char} {rest : List Char} (hmode : scan.mode = .blockComment) (hfeed : c ≠ '\n')
      (hend : ∀ tail, c = '*' → rest ≠ '/' :: tail) : Step scan (c :: rest) [] scan rest
  | lineInBlock (hmode : scan.mode = .blockComment) (rest : List Char) :
      Step scan ('\n' :: rest) (scan.lineTerminator ++ ['\n']) scan.lineTerminated rest
  | endsBlock (hmode : scan.mode = .blockComment) (rest : List Char) :
      Step scan ('*' :: '/' :: rest) [] (scan.within .code) rest
  | opensBlock (hmode : scan.mode = .code) (rest : List Char) :
      Step scan ('/' :: '*' :: rest) [] (scan.within .blockComment) rest
  | opensLine (hmode : scan.mode = .code) (rest : List Char) :
      Step scan ('/' :: '/' :: rest) [] (scan.within .lineComment) rest
  | hash (hmode : scan.mode = .code) (rest : List Char) :
      Step scan ('#' :: rest) [] (scan.within .lineComment) rest
  | plain {c : Char} {rest : List Char} (hmode : scan.mode = .code) (hhash : c ≠ '#')
      (hblock : ∀ tail, c = '/' → rest ≠ '*' :: tail)
      (hline : ∀ tail, c = '/' → rest ≠ '/' :: tail) :
      Step scan (c :: rest) (codeStep scan c).1 (codeStep scan c).2 rest

namespace Step

theorem writes (h : Step scan cs out scan' rest) :
    terminateFrom scan cs = out ++ terminateFrom scan' rest := by
  cases h with
  | text hmode c => exact terminateFrom_text hmode c rest
  | inLine hmode hfeed => exact terminateFrom_lineComment hmode hfeed
  | endsLine hmode => exact terminateFrom_endsLine hmode
  | inBlock hmode hfeed hend => exact terminateFrom_blockComment hmode hfeed hend
  | lineInBlock hmode => exact terminateFrom_lineInBlock hmode
  | endsBlock hmode => exact terminateFrom_endsBlock hmode
  | opensBlock hmode => exact terminateFrom_opensBlock hmode
  | opensLine hmode => exact terminateFrom_opensLine hmode
  | hash hmode => exact terminateFrom_hash hmode
  | plain hmode hhash hblock hline => exact terminateFrom_plain hmode hhash hblock hline

theorem length_lt (h : Step scan cs out scan' rest) : rest.length < cs.length := by
  cases h <;> simp only [List.length_cons] <;> omega

/-- What is open after a step follows from what it writes. -/
theorem level (h : Step scan cs out scan' rest) : scan.level.afterAll out = scan'.level := by
  have hlevel (mode : Mode) (hmode : scan.mode.literal? = none) (hmode' : mode.literal? = none) :
      scan.level = (scan.within mode).level := by
    rw [Scan.level, hmode, ← hmode']
    rfl
  cases h with
  | @text escaped hmode c =>
    rw [show scan.level = ⟨some escaped, scan.depth⟩ by rw [Scan.level, hmode]; rfl]
    simp [Level.afterAll, Level.after, Scan.level, Scan.within]
  | inLine hmode hfeed => rfl
  | endsLine hmode =>
    have hliteral : scan.mode.literal? = none := by rw [hmode]; rfl
    rw [afterAll_lineEnd hliteral, level_lineTerminated]
    exact hlevel .code hliteral rfl
  | inBlock hmode hfeed hend => rfl
  | lineInBlock hmode =>
    have hliteral : scan.mode.literal? = none := by rw [hmode]; rfl
    rw [afterAll_lineEnd hliteral, level_lineTerminated]
  | endsBlock hmode => exact hlevel .code (by rw [hmode]; rfl) rfl
  | opensBlock hmode => exact hlevel .blockComment (by rw [hmode]; rfl) rfl
  | opensLine hmode => exact hlevel .lineComment (by rw [hmode]; rfl) rfl
  | hash hmode => exact hlevel .lineComment (by rw [hmode]; rfl) rfl
  | plain hmode hhash hblock hline => exact level_codeStep hmode _

end Step

/-! ## Before a line feed -/

/-- Whether a text is another one, or that one with a line feed and more after it. -/
def Continues (rest rest' : List Char) : Prop :=
  rest' = rest ∨ ∃ more, rest' = rest ++ '\n' :: more

theorem Continues.ne_cons (h : Continues rest rest') {d : Char} (hd : d ≠ '\n')
    (hne : ∀ tail, rest ≠ d :: tail) : ∀ tail, rest' ≠ d :: tail := by
  rintro tail rfl
  rcases h with rfl | ⟨more, heq⟩
  · exact hne tail rfl
  · cases rest with
    | nil =>
      injection heq with heq
      exact hd heq
    | cons e rest =>
      injection heq with heq
      exact hne rest (by rw [heq])

/-- Whether the scan writes `out` for a text, whether it ends or a line feed follows, and what is
known about literals and brackets follows from `out`. -/
structure Writes (scan : Scan) (cs out : List Char) (last : Scan) : Prop where
  ends : terminateFrom scan cs = out ++ last.terminator
  goesOn : ∀ more,
    terminateFrom scan (cs ++ '\n' :: more) = out ++ terminateFrom last ('\n' :: more)
  level : scan.level.afterAll out = last.level

/-- The scan writes something for the front of a text, and goes on. -/
theorem Writes.turn (front written : List Char)
    (hturn : ∀ rest', Continues rest rest' →
      terminateFrom scan (front ++ rest') = written ++ terminateFrom scan' rest')
    (hlevel : scan.level.afterAll written = scan'.level) (h : Writes scan' rest out last) :
    Writes scan (front ++ rest) (written ++ out) last where
  ends := by rw [hturn rest (Or.inl rfl), h.ends, List.append_assoc]
  goesOn more := by
    rw [List.append_assoc, hturn _ (Or.inr ⟨more, rfl⟩), h.goesOn, List.append_assoc]
  level := by rw [Level.afterAll_append, hlevel, h.level]

/-- What the scan has written and knows at the end of a text. -/
theorem writes_scanFrom (scan : Scan) (cs : List Char) :
    ∃ out, Writes scan cs out (scanFrom scan cs) := by
  fun_induction scanFrom scan cs with
  | case1 scan => exact ⟨[], rfl, fun more => rfl, rfl⟩
  | case2 scan c rest escaped hmode ih =>
    obtain ⟨out, h⟩ := ih
    exact ⟨_, h.turn [c] [c] (fun rest' _ => (Step.text hmode c rest').writes)
      (Step.text hmode c rest).level⟩
  | case3 scan rest hmode ih =>
    obtain ⟨out, h⟩ := ih
    exact ⟨_, h.turn ['\n'] _ (fun rest' _ => (Step.endsLine hmode rest').writes)
      (Step.endsLine hmode rest).level⟩
  | case4 scan c rest hmode hfeed ih =>
    obtain ⟨out, h⟩ := ih
    exact ⟨_, h.turn [c] [] (fun rest' _ => (Step.inLine hmode hfeed rest').writes) rfl⟩
  | case5 scan hmode rest ih =>
    obtain ⟨out, h⟩ := ih
    exact ⟨_, h.turn ['*', '/'] [] (fun rest' _ => (Step.endsBlock hmode rest').writes)
      (Step.endsBlock hmode rest).level⟩
  | case6 scan hmode rest ih =>
    obtain ⟨out, h⟩ := ih
    exact ⟨_, h.turn ['\n'] _ (fun rest' _ => (Step.lineInBlock hmode rest').writes)
      (Step.lineInBlock hmode rest).level⟩
  | case7 scan c hmode rest hend hfeed ih =>
    obtain ⟨out, h⟩ := ih
    refine ⟨_, h.turn [c] [] (fun rest' hrest' => ?_) rfl⟩
    refine (Step.inBlock hmode hfeed fun tail hc => ?_).writes
    exact hrest'.ne_cons (by decide) (fun tail heq => hend tail hc heq) tail
  | case8 scan hmode rest ih =>
    obtain ⟨out, h⟩ := ih
    exact ⟨_, h.turn ['/', '*'] [] (fun rest' _ => (Step.opensBlock hmode rest').writes)
      (Step.opensBlock hmode rest).level⟩
  | case9 scan hmode rest ih =>
    obtain ⟨out, h⟩ := ih
    exact ⟨_, h.turn ['/', '/'] [] (fun rest' _ => (Step.opensLine hmode rest').writes)
      (Step.opensLine hmode rest).level⟩
  | case10 scan hmode rest ih =>
    obtain ⟨out, h⟩ := ih
    exact ⟨_, h.turn ['#'] [] (fun rest' _ => (Step.hash hmode rest').writes)
      (Step.hash hmode rest).level⟩
  | case11 scan hmode c rest hblock hline hhash ih =>
    obtain ⟨out, h⟩ := ih
    refine ⟨_, h.turn [c] _ (fun rest' hrest' => ?_) (level_codeStep hmode c)⟩
    refine (Step.plain hmode hhash (fun tail hc => ?_) fun tail hc => ?_).writes
    · exact hrest'.ne_cons (by decide) (fun tail heq => hblock tail hc heq) tail
    · exact hrest'.ne_cons (by decide) (fun tail heq => hline tail hc heq) tail

/-! ## Scans that go on alike -/

/-- Whether two scans differ in nothing that matters to what is written. -/
structure Scan.Agrees (scan scan' : Scan) : Prop where
  mode : scan.mode = scan'.mode
  depth : scan.depth = scan'.depth
  isOpen : scan.isOpen = scan'.isOpen

namespace Scan.Agrees

variable (h : scan.Agrees scan')
include h

theorem terminator : scan.terminator = scan'.terminator := by
  rw [Scan.terminator, Scan.terminator, h.isOpen]

theorem lineTerminator : scan.lineTerminator = scan'.lineTerminator := by
  rw [Scan.lineTerminator, Scan.lineTerminator, h.depth, h.terminator]

theorem within (mode : Mode) : (scan.within mode).Agrees (scan'.within mode) :=
  ⟨rfl, h.depth, h.isOpen⟩

theorem wrote (c : Char) : (scan.wrote c).Agrees (scan'.wrote c) := by
  unfold Scan.wrote
  split
  · exact h
  · exact ⟨h.mode, h.depth, rfl⟩

theorem opened : scan.opened.Agrees scan'.opened :=
  ⟨h.mode, congrArg (· + 1) h.depth, h.isOpen⟩

theorem closed : scan.closed.Agrees scan'.closed :=
  ⟨h.mode, congrArg (· - 1) h.depth, h.isOpen⟩

theorem terminated : scan.terminated.Agrees scan'.terminated := by
  unfold Scan.terminated
  rw [← h.isOpen]
  split
  · exact ⟨h.mode, h.depth, rfl⟩
  · exact h

theorem lineTerminated : scan.lineTerminated.Agrees scan'.lineTerminated := by
  unfold Scan.lineTerminated
  rw [← h.depth]
  split
  · exact h.terminated
  · exact h

theorem codeStep (c : Char) : (codeStep scan c).1 = (codeStep scan' c).1 ∧
    (codeStep scan c).2.Agrees (codeStep scan' c).2 := by
  unfold Source.codeStep
  split_ifs
  · exact ⟨rfl, (h.wrote c).within _⟩
  · exact ⟨rfl, h.opened.wrote c⟩
  · exact ⟨rfl, h.closed.wrote c⟩
  · exact ⟨by rw [h.terminator], h.terminated.wrote c⟩
  · exact ⟨by rw [h.lineTerminator], h.lineTerminated⟩
  · exact ⟨rfl, h.wrote c⟩

end Scan.Agrees

theorem terminateFrom_congr (h : scan.Agrees scan') :
    terminateFrom scan cs = terminateFrom scan' cs := by
  fun_induction terminateFrom scan cs generalizing scan' with
  | case1 scan => exact h.terminator
  | case2 scan c rest escaped hmode ih =>
    rw [terminateFrom_text (h.mode.symm.trans hmode), ih ((h.wrote c).within _)]
  | case3 scan rest hmode =>
    next inner ih =>
    rw [terminateFrom_endsLine (h.mode.symm.trans hmode), ih (h.within .code).lineTerminated,
      ← h.lineTerminator, List.append_assoc]
    rfl
  | case4 scan c rest hmode hfeed ih =>
    rw [terminateFrom_lineComment (h.mode.symm.trans hmode) hfeed, ih h]
  | case5 scan hmode rest ih =>
    rw [terminateFrom_endsBlock (h.mode.symm.trans hmode), ih (h.within .code)]
  | case6 scan hmode rest ih =>
    rw [terminateFrom_lineInBlock (h.mode.symm.trans hmode), ih h.lineTerminated, h.lineTerminator,
      List.append_assoc]
    rfl
  | case7 scan c hmode rest hend hfeed ih =>
    rw [terminateFrom_blockComment (h.mode.symm.trans hmode) hfeed hend, ih h]
  | case8 scan hmode rest ih =>
    rw [terminateFrom_opensBlock (h.mode.symm.trans hmode), ih (h.within .blockComment)]
  | case9 scan hmode rest ih =>
    rw [terminateFrom_opensLine (h.mode.symm.trans hmode), ih (h.within .lineComment)]
  | case10 scan hmode rest ih =>
    rw [terminateFrom_hash (h.mode.symm.trans hmode), ih (h.within .lineComment)]
  | case11 scan hmode c rest hblock hline hhash out next hstep ih =>
    obtain ⟨hout, hnext⟩ := h.codeStep c
    rw [hstep] at hout hnext
    rw [terminateFrom_plain (h.mode.symm.trans hmode) hhash hblock hline, ih hnext, ← hout]

end ScriptLang.Source
