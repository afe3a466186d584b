import ScriptLang.Proofs.Scanning
import ScriptLang.Proofs.Stretches

set_option autoImplicit false

/-! # Comments out, then semicolons in

The scan that ends the statements of a program text does two things at once. It comes to the same as
taking all comments out first (`Source.strip`) and then adding semicolons, by looking at what is
written so far and at the brackets only (`Source.insert`): `Source.terminate_eq_insert_strip`. What
is written has no comment, and no semicolon is missing in it, so ending its statements once more
changes nothing (`Source.terminate_settled`). -/

namespace ScriptLang.Source

/-! ## Adding semicolons -/

/-- The last character of a text that is not white space. -/
def lastSolid (cs : List Char) : Option Char :=
  (cs.filter (!Text.isBlank ·)).getLast?

/-- The semicolon that is added after what is written, unless that has no solid character, or the
last of them is a semicolon or a brace. -/
def missing (written : List Char) : List Char :=
  match lastSolid written with
  | none => []
  | some c => if c = ';' ∨ c = '\x7b' ∨ c = '\x7d' then [] else [';']

/-- The number of open brackets after a character outside literals. -/
def depthAfter (depth : Nat) (c : Char) : Nat :=
  if c = '(' ∨ c = '[' then depth + 1
  else if c = ')' ∨ c = ']' then depth - 1
  else depth

/-- What is added before a character outside literals: a closing brace ends a statement, and so does
a line feed outside brackets. -/
def addedBefore (written : List Char) (depth : Nat) (c : Char) : List Char :=
  if c = '\x7d' ∨ (c = '\n' ∧ depth = 0) then missing written else []

/-- The rest of a text with its semicolons, after what is written and inside so many brackets. The
end of the text ends a statement, even inside a literal. -/
def insertFrom (written : List Char) (depth : Nat) : List Char → List Char
  | [] => missing written
  | '"' :: rest =>
    let literal := '"' :: (split literalEnd? rest).1
    literal ++ insertFrom (written ++ literal) depth (split literalEnd? rest).2
  | c :: rest =>
    let added := addedBefore written depth c
    added ++ c :: insertFrom (written ++ (added ++ [c])) (depthAfter depth c) rest
termination_by cs => cs.length
decreasing_by
  · exact Nat.lt_succ_of_le (cuts_literalEnd?.length_le rest)
  · exact Nat.lt_succ_self _

/-- The text with a semicolon at each end of a statement. -/
def insert (cs : List Char) : List Char :=
  insertFrom [] 0 cs

variable {scan : Scan} {written cs rest : List Char} {depth : Nat} {c : Char}

theorem insertFrom_quote (written : List Char) (depth : Nat) (rest : List Char) :
    insertFrom written depth ('"' :: rest)
      = '"' :: (split literalEnd? rest).1 ++ insertFrom
          (written ++ '"' :: (split literalEnd? rest).1) depth (split literalEnd? rest).2 := by
  rw [insertFrom]

theorem insertFrom_code (hquote : c ≠ '"') (written : List Char) (depth : Nat) (rest : List Char) :
    insertFrom written depth (c :: rest)
      = addedBefore written depth c ++ c :: insertFrom
          (written ++ (addedBefore written depth c ++ [c])) (depthAfter depth c) rest := by
  rw [insertFrom]
  exact hquote

theorem lastSolid_concat (written : List Char) (c : Char) :
    lastSolid (written ++ [c]) = if Text.isBlank c then lastSolid written else some c := by
  cases h : Text.isBlank c <;> simp [lastSolid, h]

theorem missing_eq (written : List Char) : missing written = [] ∨ missing written = [';'] := by
  unfold missing
  split
  · exact Or.inl rfl
  · split
    · exact Or.inl rfl
    · exact Or.inr rfl

theorem missing_semicolon (written : List Char) : missing (written ++ [';']) = [] := by
  have hlast : lastSolid (written ++ [';']) = some ';' := by
    rw [lastSolid_concat, if_neg (by decide)]
  rw [missing, hlast]
  rfl

theorem addedBefore_of_ne (hbrace : c ≠ '\x7d') (hfeed : c ≠ '\n') (written : List Char)
    (depth : Nat) : addedBefore written depth c = [] := by
  simp [addedBefore, hbrace, hfeed]

theorem addedBefore_eq (written : List Char) (depth : Nat) (c : Char) :
    addedBefore written depth c = [] ∨ addedBefore written depth c = [';'] := by
  unfold addedBefore
  split
  · exact missing_eq written
  · exact Or.inl rfl

theorem addedBefore_semicolon (written : List Char) (depth : Nat) (c : Char) :
    addedBefore (written ++ [';']) depth c = [] := by
  unfold addedBefore
  split
  · exact missing_semicolon written
  · rfl

theorem insertFrom_semicolon (written : List Char) (depth : Nat) (rest : List Char) :
    insertFrom written depth (';' :: rest) = ';' :: insertFrom (written ++ [';']) depth rest := by
  rw [insertFrom_code (by decide), addedBefore_of_ne (by decide) (by decide)]
  rfl

/-! ## The scan adds the same semicolons -/

/-- Whether the scan knows the last solid character of what is written. -/
def Scan.Tracks (scan : Scan) (written : List Char) : Prop :=
  scan.last = lastSolid written

namespace Scan.Tracks

variable (h : scan.Tracks written)
include h

theorem terminator_eq : scan.terminator = missing written := by
  rw [Scan.Tracks] at h
  unfold Scan.terminator Scan.isOpen missing
  rw [h]
  cases lastSolid written with
  | none => rfl
  | some c =>
    by_cases hc : c = ';' ∨ c = '\x7b' ∨ c = '\x7d'
    · rcases hc with rfl | rfl | rfl <;> rfl
    · have hne := not_or.1 hc
      simp_all

theorem wrote (c : Char) : (scan.wrote c).Tracks (written ++ [c]) := by
  rw [Scan.Tracks, lastSolid_concat]
  unfold Scan.wrote
  split
  · exact h
  · rfl

theorem terminated : scan.terminated.Tracks (written ++ missing written) := by
  rw [← h.terminator_eq]
  unfold Scan.terminator Scan.terminated
  split
  · rw [Scan.Tracks, lastSolid_concat, if_neg (by decide)]
  · rwa [List.append_nil]

theorem lineTerminator_eq : scan.lineTerminator = addedBefore written scan.depth '\n' := by
  unfold Scan.lineTerminator addedBefore
  simp [h.terminator_eq]

theorem lineTerminated :
    scan.lineTerminated.Tracks (written ++ (addedBefore written scan.depth '\n' ++ ['\n'])) := by
  rw [← List.append_assoc, Scan.Tracks, lastSolid_concat, if_pos (by decide)]
  unfold Scan.lineTerminated addedBefore
  by_cases hdepth : scan.depth = 0
  · simpa [Scan.Tracks, hdepth] using h.terminated
  · simpa [Scan.Tracks, hdepth] using h

end Scan.Tracks

theorem depth_lineTerminated (scan : Scan) : scan.lineTerminated.depth = scan.depth :=
  congrArg Level.depth (level_lineTerminated scan)

theorem depth_terminated (scan : Scan) : scan.terminated.depth = scan.depth :=
  congrArg Level.depth (level_terminated scan)

/-- A character of code is written after what is added before it. -/
theorem codeStep_eq (htracks : scan.Tracks written) (hquote : c ≠ '"') :
    (codeStep scan c).1 = addedBefore written scan.depth c ++ [c] ∧
      (codeStep scan c).2.Tracks (written ++ (addedBefore written scan.depth c ++ [c])) ∧
      (codeStep scan c).2.depth = depthAfter scan.depth c ∧
      (codeStep scan c).2.mode = scan.mode := by
  unfold codeStep
  rw [if_neg hquote]
  split_ifs with hopening hclosing hbrace hfeed
  · simp only [Bool.or_eq_true, decide_eq_true_eq] at hopening
    have hadded : addedBefore written scan.depth c = [] := by
      rcases hopening with rfl | rfl <;> exact addedBefore_of_ne (by decide) (by decide) ..
    have hopened : scan.opened.Tracks written := htracks
    rw [hadded, depth_wrote, mode_wrote, depthAfter, if_pos hopening]
    exact ⟨rfl, hopened.wrote c, rfl, rfl⟩
  · simp only [Bool.or_eq_true, decide_eq_true_eq] at hopening hclosing
    have hadded : addedBefore written scan.depth c = [] := by
      rcases hclosing with rfl | rfl <;> exact addedBefore_of_ne (by decide) (by decide) ..
    have hclosed : scan.closed.Tracks written := htracks
    rw [hadded, depth_wrote, mode_wrote, depthAfter, if_neg hopening, if_pos hclosing]
    exact ⟨rfl, hclosed.wrote c, rfl, rfl⟩
  · have hadded : addedBefore written scan.depth c = missing written := if_pos (Or.inl hbrace)
    have hdepth : depthAfter scan.depth c = scan.depth := by
      rw [hbrace]
      rfl
    rw [hadded, htracks.terminator_eq, depth_wrote, mode_wrote, depth_terminated, hdepth,
      ← List.append_assoc]
    exact ⟨rfl, htracks.terminated.wrote c, rfl, mode_terminated scan⟩
  · subst hfeed
    rw [htracks.lineTerminator_eq, depth_lineTerminated]
    exact ⟨rfl, htracks.lineTerminated, rfl, mode_lineTerminated scan⟩
  · simp only [Bool.or_eq_true, decide_eq_true_eq] at hopening hclosing
    rw [addedBefore_of_ne hbrace hfeed, depth_wrote, mode_wrote, depthAfter, if_neg hopening,
      if_neg hclosing]
    exact ⟨rfl, htracks.wrote c, rfl, rfl⟩

/-- The scan copies the rest of a literal. -/
theorem terminateFrom_literal (hmode : scan.mode = .text false) (htracks : scan.Tracks written)
    (rest : List Char) :
    ∃ scan' : Scan, terminateFrom scan rest
        = (split literalEnd? rest).1 ++ terminateFrom scan' (split literalEnd? rest).2 ∧
      scan'.Tracks (written ++ (split literalEnd? rest).1) ∧ scan'.depth = scan.depth ∧
      (scan'.mode = .code ∨ (split literalEnd? rest).2 = []) := by
  have hstep {scan : Scan} {written : List Char} {escaped : Bool} (c : Char) (rest : List Char)
      (hmode : scan.mode = .text escaped) (htracks : scan.Tracks written) :
      ∃ scan' : Scan, terminateFrom scan (c :: rest) = c :: terminateFrom scan' rest ∧
        scan'.Tracks (written ++ [c]) ∧ scan'.depth = scan.depth ∧
        scan'.mode = textMode escaped c := by
    refine ⟨_, terminateFrom_text hmode c rest, htracks.wrote c, depth_wrote scan c, rfl⟩
  fun_induction literalEnd? rest generalizing scan written with
  | case1 => exact ⟨scan, rfl, by rwa [split_of_none rfl, List.append_nil], rfl, Or.inr rfl⟩
  | case2 rest =>
    obtain ⟨scan', heq, htracks', hdepth, hmode'⟩ := hstep '"' rest hmode htracks
    exact ⟨scan', heq, htracks', hdepth, Or.inl hmode'⟩
  | case3 c rest ih =>
    obtain ⟨scan₁, heq₁, htracks₁, hdepth₁, hmode₁⟩ := hstep '\\' (c :: rest) hmode htracks
    obtain ⟨scan₂, heq₂, htracks₂, hdepth₂, hmode₂⟩ := hstep c rest hmode₁ htracks₁
    obtain ⟨scan₃, heq₃, htracks₃, hdepth₃, hmode₃⟩ := ih hmode₂ htracks₂
    rw [split_literal_escape, heq₁, heq₂, heq₃]
    refine ⟨scan₃, rfl, ?_, by rw [hdepth₃, hdepth₂, hdepth₁], hmode₃⟩
    simpa using htracks₃
  | case4 c rest hquote hslash ih =>
    obtain ⟨scan₁, heq₁, htracks₁, hdepth₁, hmode₁⟩ := hstep c rest hmode htracks
    rw [split_literal_cons hquote hslash, heq₁]
    by_cases hc : c = '\\'
    · -- a backslash at the very end
      have hrest : rest = [] := by
        cases rest with
        | nil => rfl
        | cons d tail => exact (hslash d tail hc rfl).elim
      subst hrest
      exact ⟨scan₁, rfl, htracks₁, hdepth₁, Or.inr rfl⟩
    · have hmode₁' : scan₁.mode = .text false := by
        have hne : c ≠ '"' := hquote
        rw [hmode₁]
        simp [textMode, hc, hne]
      obtain ⟨scan₂, heq₂, htracks₂, hdepth₂, hmode₂⟩ := ih hmode₁' htracks₁
      refine ⟨scan₂, by rw [heq₂]; rfl, ?_, hdepth₂.trans hdepth₁, hmode₂⟩
      simpa using htracks₂

/-- The scan writes the line feeds of a block comment as it writes them in code. -/
theorem terminateFrom_block (hmode : scan.mode = .blockComment) (htracks : scan.Tracks written)
    {tail : List Char} (rest : List Char)
    (hafter : ∀ (scan : Scan) (written : List Char),
      scan.mode = .code ∨ (split blockEnd? rest).2 = [] → scan.Tracks written →
        terminateFrom scan (split blockEnd? rest).2 = insertFrom written scan.depth tail) :
    terminateFrom scan rest = insertFrom written scan.depth
      ((split blockEnd? rest).1.filter (· = '\n') ++ tail) := by
  fun_induction blockEnd? rest generalizing scan written with
  | case1 => exact hafter scan written (Or.inr rfl) htracks
  | case2 rest =>
    rw [terminateFrom_endsBlock hmode]
    exact hafter (scan.within .code) written (Or.inl rfl) htracks
  | case3 c rest hend ih =>
    rw [split_block_cons hend] at hafter ⊢
    by_cases hfeed : c = '\n'
    · subst hfeed
      have hrest := ih ((mode_lineTerminated scan).trans hmode) htracks.lineTerminated hafter
      rw [depth_lineTerminated] at hrest
      rw [terminateFrom_lineInBlock hmode, hrest, htracks.lineTerminator_eq]
      rw [List.filter_cons_of_pos (by decide), List.cons_append, insertFrom_code (by decide),
        List.append_assoc]
      rfl
    · rw [terminateFrom_blockComment hmode hfeed hend,
        List.filter_cons_of_neg (by simpa using hfeed)]
      exact ih hmode htracks hafter

/-- A comment up to the end of the line is not there for the scan. -/
theorem terminateFrom_dropWhile (hmode : scan.mode = .lineComment) (rest : List Char) :
    terminateFrom scan rest = terminateFrom (scan.within .code) (rest.dropWhile (· != '\n')) := by
  induction rest with
  | nil => rfl
  | cons c rest ih =>
    by_cases hfeed : c = '\n'
    · subst hfeed
      rw [List.dropWhile_cons_of_neg (by decide), terminateFrom_endsLine hmode,
        terminateFrom_code rfl (by decide) (by decide)]
      rfl
    · rw [terminateFrom_lineComment hmode hfeed, ih,
        List.dropWhile_cons_of_pos (by simpa using hfeed)]

/-- The scan writes a text as semicolons are added to it without comments. -/
theorem terminateFrom_eq_insertFrom (hmode : scan.mode = .code ∨ cs = [])
    (htracks : scan.Tracks written) :
    terminateFrom scan cs = insertFrom written scan.depth (strip cs) := by
  fun_induction stretches cs generalizing scan written with
  | case1 =>
    rw [strip_nil, insertFrom, ← htracks.terminator_eq]
    rfl
  | case2 rest ih =>
    have hcode : scan.mode = .code := hmode.resolve_right (by simp)
    have hquoted : scan.quoted.Tracks (written ++ ['"']) := htracks.wrote '"'
    obtain ⟨scan', heq, htracks', hdepth, hmode'⟩ :=
      terminateFrom_literal scan.mode_quoted hquoted rest
    have hwrote : scan.quoted.depth = scan.depth := depth_wrote scan '"'
    rw [terminateFrom_quote hcode, heq, ih hmode' htracks', hdepth, hwrote, strip_quote,
      List.cons_append, insertFrom_quote, split_literal_strip, List.append_assoc]
    rfl
  | case3 rest ih =>
    have hcode : scan.mode = .code := hmode.resolve_right (by simp)
    have hinside : (scan.within .blockComment).Tracks written := htracks
    rw [terminateFrom_opensBlock hcode, strip_block]
    exact terminateFrom_block rfl hinside rest fun scan' written' hmode' htracks' =>
      ih hmode' htracks'
  | case4 rest ih =>
    have hcode : scan.mode = .code := hmode.resolve_right (by simp)
    rw [terminateFrom_opensLine hcode, terminateFrom_dropWhile rfl, strip_slashes]
    exact ih (Or.inl rfl) htracks
  | case5 rest ih =>
    have hcode : scan.mode = .code := hmode.resolve_right (by simp)
    rw [terminateFrom_hash hcode, terminateFrom_dropWhile rfl, strip_hash]
    exact ih (Or.inl rfl) htracks
  | case6 c rest hquote hblock hline hhash ih =>
    have hcode : scan.mode = .code := hmode.resolve_right (by simp)
    obtain ⟨hout, htracks', hdepth, hmode'⟩ := codeStep_eq (c := c) htracks hquote
    rw [terminateFrom_plain hcode hhash hblock hline,
      strip_code hquote (startsComment_of_forall hblock hline hhash), insertFrom_code hquote, hout,
      ih (Or.inl (hmode'.trans hcode)) htracks', hdepth, List.append_assoc]
    rfl

theorem toList_terminate (source : String) :
    (terminate source).toList = insert (strip source.toList) := by
  have hstart : ({} : Scan).Tracks [] := rfl
  rw [terminate, terminateFrom_eq_insertFrom (Or.inl rfl) hstart, String.toList_ofList]
  rfl

/-- **Two phases.** Ending the statements of a program text is taking its comments out and then
adding semicolons. -/
theorem terminate_eq_insert_strip (source : String) :
    terminate source = String.ofList (insert (strip source.toList)) := by
  rw [← toList_terminate, String.ofList_toList]

/-! ## Ending statements twice -/

theorem split_literal_insertFrom (written rest : List Char) (depth : Nat) :
    let inner := (split literalEnd? rest).1
    let out := insertFrom written depth (split literalEnd? rest).2
    split literalEnd? (inner ++ out) = (inner, out) ∨
      out = [';'] ∧ split literalEnd? (inner ++ out) = (inner ++ out, []) := by
  intro inner out
  cases hend : literalEnd? rest with
  | some found => exact Or.inl (split_literal_append (by simp [hend]))
  | none =>
    -- a literal without an end takes in the semicolon at the end of the text
    have hout : out = missing written := by
      rw [show out = insertFrom written depth [] by simp only [out, split_of_none hend], insertFrom]
    rcases missing_eq written with hnone | hsome
    · exact Or.inl (split_literal_append fun _ => hout.trans hnone)
    · refine Or.inr ⟨hout.trans hsome, ?_⟩
      rw [hout, hsome]
      have hsemicolon := literalEnd?_semicolon hend
      exact split_of_none (by simpa only [inner, split_of_none hend] using hsemicolon)

/-- No semicolon is missing where all have been added. -/
theorem insertFrom_settled (written : List Char) (depth : Nat) (cs : List Char) :
    insertFrom written depth (insertFrom written depth cs) = insertFrom written depth cs := by
  fun_induction insertFrom written depth cs with
  | case1 written depth =>
    rcases missing_eq written with hnone | hsome
    · rw [hnone, insertFrom, hnone]
    · rw [hsome, insertFrom_semicolon, insertFrom, missing_semicolon]
  | case2 written depth rest literal ih =>
    rw [List.cons_append, insertFrom_quote]
    rcases split_literal_insertFrom (written ++ literal) rest depth with hsplit | ⟨hout, hsplit⟩
    · rw [hsplit, ih]
      rfl
    · have hend : written ++ '"' :: ((split literalEnd? rest).1 ++ [';'])
          = written ++ literal ++ [';'] := by
        simp [literal]
      rw [hsplit, hout, hend, insertFrom, missing_semicolon, List.append_nil]
  | case3 written depth c rest hquote added ih =>
    rcases addedBefore_eq written depth c with hadded | hadded
    · simp only [added, hadded, List.nil_append] at ih ⊢
      rw [insertFrom_code hquote, hadded, List.nil_append, List.nil_append, ih]
    · simp only [added, hadded, List.cons_append, List.nil_append] at ih ⊢
      rw [insertFrom_semicolon, insertFrom_code hquote, addedBefore_semicolon, List.nil_append,
        List.append_assoc]
      exact congrArg (';' :: c :: ·) ih

/-- A text with its semicolons starts as before, or with a semicolon. -/
theorem head?_insertFrom {d : Char} (h : (insertFrom written depth cs).head? = some d) :
    cs.head? = some d ∨ d = ';' := by
  cases cs with
  | nil =>
    rw [insertFrom] at h
    rcases missing_eq written with hnone | hsome
    · rw [hnone] at h
      cases h
    · rw [hsome] at h
      exact Or.inr (Option.some.inj h).symm
  | cons c rest =>
    by_cases hquote : c = '"'
    · subst hquote
      rw [insertFrom_quote] at h
      exact Or.inl h
    · rw [insertFrom_code hquote] at h
      rcases addedBefore_eq written depth c with hadded | hadded
      · rw [hadded] at h
        exact Or.inl h
      · rw [hadded] at h
        exact Or.inr (Option.some.inj h).symm

/-- Adding semicolons to a text without comments makes none. -/
theorem commentFree_insertFrom (written : List Char) (depth : Nat) (h : CommentFree cs) :
    CommentFree (insertFrom written depth cs) := by
  have hsemicolon {rest : List Char} (hrest : CommentFree rest) : CommentFree (';' :: rest) :=
    (commentFree_code (by decide)).2 ⟨rfl, hrest⟩
  fun_induction insertFrom written depth cs with
  | case1 written depth =>
    rcases missing_eq written with hnone | hsome
    · rw [hnone]
      exact h
    · rw [hsome]
      exact hsemicolon h
  | case2 written depth rest literal ih =>
    rw [List.cons_append, commentFree_quote]
    rcases split_literal_insertFrom (written ++ literal) rest depth with hsplit | ⟨-, hsplit⟩
    · rw [hsplit]
      exact ih (commentFree_quote.1 h)
    · rw [hsplit]
      exact commentFree_nil
  | case3 written depth c rest hquote added ih =>
    obtain ⟨hstarts, hrest⟩ := (commentFree_code hquote).1 h
    have hcode :
        CommentFree (c :: insertFrom (written ++ (added ++ [c])) (depthAfter depth c) rest) := by
      refine (commentFree_code hquote).2 ⟨startsComment_congr hstarts ?_, ih hrest⟩
      rintro rfl d hd
      rw [startsComment_slash] at hstarts
      rcases head?_insertFrom hd with hhead | rfl
      · simpa [hhead] using hstarts
      · decide
    rcases addedBefore_eq written depth c with hadded | hadded
    · rw [show added = [] from hadded] at hcode ⊢
      exact hcode
    · rw [show added = [';'] from hadded] at hcode ⊢
      exact hsemicolon hcode

/-- **Settled.** Ending the statements of what is written changes nothing: there is no comment in
it, outside literals, and no semicolon is missing. -/
theorem terminate_settled (source : String) :
    terminate (terminate source) = terminate source ∧
      CommentFree (terminate source).toList ∧
      insert (terminate source).toList = (terminate source).toList := by
  have hfree : CommentFree (terminate source).toList := by
    rw [toList_terminate]
    exact commentFree_insertFrom [] 0 (commentFree_strip _)
  have hsettled : insert (terminate source).toList = (terminate source).toList := by
    rw [toList_terminate]
    exact insertFrom_settled [] 0 _
  refine ⟨?_, hfree, hsettled⟩
  rw [← String.toList_inj, toList_terminate, strip_of_commentFree hfree, hsettled]

end ScriptLang.Source
