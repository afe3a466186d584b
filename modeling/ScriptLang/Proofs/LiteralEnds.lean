import ScriptLang.Proofs.Brackets
import ScriptLang.Proofs.Patterns

set_option autoImplicit false

/-! # Text literals in the scan and in the lexer

The scan that ends statements keeps track of text literals by a flag for the backslash before a
character; the lexer has a pattern for them. Both see a literal end at the same quote, as long as
there is no line feed in it (`Pattern.matchLength?_eq_some_iff`). A literal is written as it is, so
the text tokens of a program that can be read are just the literals that the scan has copied
(`Program.literals_agree`). -/

namespace ScriptLang

namespace Source

variable {scan scan' : Scan} {c : Char} {cs rest out written : List Char} {m n : Nat}

/-! ## Leaving a literal -/

/-- Whether the scan, before a text literal or inside one, is outside it for the first time after so
many characters. -/
structure LeavesAfter (scan : Scan) (cs : List Char) (n : Nat) : Prop where
  pos : 0 < n
  le_length : n ≤ cs.length
  inside : ∀ m, 0 < m → m < n → ∃ escaped, (scanFrom scan (cs.take m)).mode = .text escaped
  outside : (scanFrom scan (cs.take n)).mode = .code

theorem not_leavesAfter_zero : ¬ LeavesAfter scan cs 0 :=
  fun h => absurd h.pos (Nat.lt_irrefl 0)

theorem not_leavesAfter_nil : ¬ LeavesAfter scan [] n :=
  fun h => absurd (Nat.lt_of_lt_of_le h.pos h.le_length) (Nat.lt_irrefl 0)

theorem LeavesAfter.unique (h : LeavesAfter scan cs m) (h' : LeavesAfter scan cs n) : m = n := by
  have hnot {m n : Nat} (h : LeavesAfter scan cs m) (h' : LeavesAfter scan cs n) : ¬ m < n := by
    intro hlt
    obtain ⟨escaped, hmode⟩ := h'.inside m h.pos hlt
    rw [h.outside] at hmode
    cases hmode
  have := hnot h h'
  have := hnot h' h
  omega

/-- The scan leaves a literal with the next character, or later. -/
theorem leavesAfter_cons (hstep : ∀ rest, scanFrom scan (c :: rest) = scanFrom scan' rest) :
    LeavesAfter scan (c :: cs) (n + 1) ↔
      (n = 0 ∧ scan'.mode = .code) ∨ ((∃ escaped, scan'.mode = .text escaped) ∧
        LeavesAfter scan' cs n) := by
  constructor
  · intro h
    have houtside := h.outside
    rw [List.take_succ_cons, hstep] at houtside
    by_cases hn : n = 0
    · subst hn
      exact Or.inl ⟨rfl, houtside⟩
    · have hfirst := h.inside 1 (by omega) (by omega)
      rw [List.take_succ_cons, hstep] at hfirst
      refine Or.inr ⟨hfirst, by omega, Nat.le_of_succ_le_succ h.le_length, ?_, houtside⟩
      intro m hpos hlt
      have hinside := h.inside (m + 1) (by omega) (by omega)
      rwa [List.take_succ_cons, hstep] at hinside
  · rintro (⟨rfl, hcode⟩ | ⟨htext, h⟩)
    · refine ⟨by omega, by simp, fun m hpos hlt => by omega, ?_⟩
      rwa [List.take_succ_cons, hstep]
    · refine ⟨by omega, Nat.succ_le_succ h.le_length, fun m hpos hlt => ?_, ?_⟩
      · obtain ⟨m, rfl⟩ : ∃ k, m = k + 1 := ⟨m - 1, by omega⟩
        rw [List.take_succ_cons, hstep]
        cases m with
        | zero => exact htext
        | succ m => exact h.inside (m + 1) (by omega) (by omega)
      · rw [List.take_succ_cons, hstep]
        exact h.outside

theorem scanFrom_text {escaped : Bool} (hmode : scan.mode = .text escaped) (c : Char)
    (rest : List Char) :
    scanFrom scan (c :: rest) = scanFrom ((scan.wrote c).within (textMode escaped c)) rest := by
  rw [scanFrom.eq_def]
  simp only [hmode]

theorem scanFrom_quote (hmode : scan.mode = .code) (rest : List Char) :
    scanFrom scan ('"' :: rest) = scanFrom scan.quoted rest := by
  rw [scanFrom.eq_def]
  simp only [hmode]
  rfl

/-- At the quote that opens a literal, the scan does not leave it. -/
theorem leavesAfter_quote (hmode : scan.mode = .code) :
    LeavesAfter scan ('"' :: cs) n ↔
      ∃ k, n = k + 1 ∧ LeavesAfter scan.quoted cs k := by
  cases n with
  | zero => simp [not_leavesAfter_zero]
  | succ n =>
    rw [leavesAfter_cons (scanFrom_quote hmode)]
    simp [scan.mode_quoted]

theorem textMode_eq {odd : Bool} (hquote : (c = '"' && !odd) = false) :
    textMode odd c = .text (c = '\\' && !odd) := by
  cases odd <;> by_cases hslash : c = '\\' <;> simp_all [textMode]

/-- The lexer finds the end of a literal where the scan leaves it, if there is no line feed in
it. -/
theorem textTail?_eq_some_iff {odd : Bool} (hmode : scan.mode = .text odd) :
    Lexer.textTail? odd cs = some n ↔ LeavesAfter scan cs n ∧ '\n' ∉ cs.take n := by
  induction cs generalizing scan odd n with
  | nil => simp [Lexer.textTail?, not_leavesAfter_nil]
  | cons c cs ih =>
    cases n with
    | zero =>
      have hzero : Lexer.textTail? odd (c :: cs) ≠ some 0 := by
        rw [Lexer.textTail?]
        split
        · simp
        · split <;> simp
      simp [hzero, not_leavesAfter_zero]
    | succ n =>
      rw [Lexer.textTail?, leavesAfter_cons (scanFrom_text hmode c), List.take_succ_cons,
        List.mem_cons, not_or]
      by_cases hfeed : c = '\n'
      · simp [hfeed]
      rw [if_neg hfeed]
      cases hquote : (c = '"' && !odd) with
      | true =>
        simp only [Bool.and_eq_true, decide_eq_true_eq, Bool.not_eq_true'] at hquote
        obtain ⟨rfl, rfl⟩ := hquote
        cases n <;> simp [Scan.within, textMode, not_leavesAfter_zero]
      | false =>
        have hmode' : ((scan.wrote c).within (textMode odd c)).mode = .text (c = '\\' && !odd) :=
          textMode_eq hquote
        simp only [hmode', Bool.false_eq_true, if_false, Option.map_eq_some_iff]
        simp [ih hmode', Ne.symm hfeed]

/-! ## The scan, step by step -/

namespace Step

theorem quote_notMem_lineEnd (scan : Scan) : '"' ∉ scan.lineTerminator ++ ['\n'] := by
  intro h
  rcases List.mem_append.1 h with h | h
  · exact absurd (eq_of_mem_lineTerminator h) (by decide)
  · exact absurd (List.mem_singleton.1 h) (by decide)

theorem eq_of_quote_mem_codeStep {c : Char} (h : '"' ∈ (codeStep scan c).1) : c = '"' := by
  unfold codeStep at h
  split_ifs at h with hquote hopening hclosing hbrace hfeed
  · exact hquote
  · exact (List.mem_singleton.1 h).symm
  · exact (List.mem_singleton.1 h).symm
  · rcases List.mem_append.1 h with h | h
    · exact absurd (eq_of_mem_terminator h) (by decide)
    · exact (List.mem_singleton.1 h).symm
  · rw [hfeed] at h
    exact absurd h (quote_notMem_lineEnd scan)
  · exact (List.mem_singleton.1 h).symm

/-- A quote is written for a quote in code or in a literal, and nothing else is written then. -/
theorem quote (h : Step scan cs out scan' rest) (hquote : '"' ∈ out) :
    out = ['"'] ∧ cs = '"' :: rest ∧
      (scan.mode = .code ∨ ∃ escaped, scan.mode = .text escaped) := by
  cases h with
  | @text escaped hmode c =>
    rw [← List.mem_singleton.1 hquote]
    exact ⟨rfl, rfl, Or.inr ⟨escaped, hmode⟩⟩
  | plain hmode hhash hblock hline =>
    obtain rfl := eq_of_quote_mem_codeStep hquote
    exact ⟨rfl, rfl, Or.inl hmode⟩
  | endsLine hmode => exact absurd hquote (quote_notMem_lineEnd scan)
  | lineInBlock hmode => exact absurd hquote (quote_notMem_lineEnd scan)
  | inLine | inBlock | endsBlock | opensBlock | opensLine | hash => simp at hquote

end Step

/-- As long as there is text left, the scan takes a step. -/
theorem exists_step (scan : Scan) (c : Char) (rest : List Char) :
    ∃ out scan' rest', Step scan (c :: rest) out scan' rest' := by
  cases hmode : scan.mode with
  | text escaped => exact ⟨_, _, _, .text hmode c rest⟩
  | lineComment =>
    by_cases hfeed : c = '\n'
    · subst hfeed
      exact ⟨_, _, _, .endsLine hmode rest⟩
    · exact ⟨_, _, _, .inLine hmode hfeed rest⟩
  | blockComment =>
    by_cases hfeed : c = '\n'
    · subst hfeed
      exact ⟨_, _, _, .lineInBlock hmode rest⟩
    by_cases hend : ∃ tail, c = '*' ∧ rest = '/' :: tail
    · obtain ⟨tail, rfl, rfl⟩ := hend
      exact ⟨_, _, _, .endsBlock hmode tail⟩
    · exact ⟨_, _, _, .inBlock hmode hfeed fun tail hc hrest => hend ⟨tail, hc, hrest⟩⟩
  | code =>
    by_cases hhash : c = '#'
    · subst hhash
      exact ⟨_, _, _, .hash hmode rest⟩
    by_cases hblock : ∃ tail, c = '/' ∧ rest = '*' :: tail
    · obtain ⟨tail, rfl, rfl⟩ := hblock
      exact ⟨_, _, _, .opensBlock hmode tail⟩
    by_cases hline : ∃ tail, c = '/' ∧ rest = '/' :: tail
    · obtain ⟨tail, rfl, rfl⟩ := hline
      exact ⟨_, _, _, .opensLine hmode tail⟩
    · exact ⟨_, _, _, .plain hmode hhash (fun tail hc hrest => hblock ⟨tail, hc, hrest⟩)
        fun tail hc hrest => hline ⟨tail, hc, hrest⟩⟩

/-- Whether the scan of a program text, after some steps, has written a text and stands before what
is left. -/
inductive Reaches (source : List Char) : List Char → Scan → List Char → Prop where
  | start : Reaches source [] {} source
  | step {written out rest rest' : List Char} {scan scan' : Scan}
      (h : Reaches source written scan rest) (hstep : Step scan rest out scan' rest') :
      Reaches source (written ++ out) scan' rest'

namespace Reaches

variable {source : List Char}

theorem writes (h : Reaches source written scan rest) :
    terminateFrom {} source = written ++ terminateFrom scan rest := by
  induction h with
  | start => rfl
  | step h hstep ih => rw [ih, hstep.writes, List.append_assoc]

theorem level (h : Reaches source written scan rest) : Level.afterAll {} written = scan.level := by
  induction h with
  | start => rfl
  | step h hstep ih => rw [Level.afterAll_append, ih, hstep.level]

/-- A quote that is written was reached by the scan, in code or in a literal. -/
theorem exists_quote (h : Reaches source written scan rest) {front back : List Char}
    (hquote : terminateFrom scan rest = front ++ '"' :: back) :
    ∃ scan' rest', Reaches source (written ++ front) scan' ('"' :: rest') ∧
      (scan'.mode = .code ∨ ∃ escaped, scan'.mode = .text escaped) := by
  induction hlength : rest.length using Nat.strong_induction_on
    generalizing written scan rest front with
  | _ length ih =>
    cases rest with
    | nil =>
      have hmem : '"' ∈ scan.terminator := by
        rw [show scan.terminator = front ++ '"' :: back from hquote]
        simp
      exact absurd (eq_of_mem_terminator hmem) (by decide)
    | cons c rest =>
      obtain ⟨out, scan', rest', hstep⟩ := exists_step scan c rest
      rw [hstep.writes] at hquote
      rcases List.append_eq_append_iff.1 hquote with ⟨front', rfl, hrest⟩ | ⟨out', rfl, hout⟩
      · -- the quote is written in a later step
        have hlater := ih rest'.length (hlength ▸ hstep.length_lt) (h.step hstep) hrest rfl
        rwa [List.append_assoc] at hlater
      · cases out' with
        | nil =>
          have hrest : terminateFrom scan' rest' = [] ++ '"' :: back := hout.symm
          have hlater := ih rest'.length (hlength ▸ hstep.length_lt) (h.step hstep) hrest rfl
          simpa using hlater
        | cons d out' =>
          obtain rfl : '"' = d := by
            injection hout
          obtain ⟨hout', hcs, hmode⟩ := hstep.quote (by simp)
          obtain rfl : front = [] := by
            cases front with
            | nil => rfl
            | cons e front => simp at hout'
          rw [hcs] at h
          rw [List.append_nil]
          exact ⟨scan, rest', h, hmode⟩

end Reaches

/-- Whether the scan of a program text copies a text literal to an offset of what it writes. -/
def Copies (source : List Char) (offset : Nat) (text : List Char) : Prop :=
  ∃ written scan rest n, Reaches source written scan ('"' :: rest) ∧ scan.mode = .code ∧
    LeavesAfter scan ('"' :: rest) n ∧ written.length = offset ∧ ('"' :: rest).take n = text

/-- The end of a literal is where it was after the scan has written it. -/
theorem textTail?_terminateFrom {odd : Bool} (hmode : scan.mode = .text odd) (cs : List Char) :
    Lexer.textTail? odd (terminateFrom scan cs) = Lexer.textTail? odd cs ∧
      ∀ n, Lexer.textTail? odd cs = some n → (terminateFrom scan cs).take n = cs.take n := by
  induction cs generalizing scan odd with
  | nil =>
    have hnone : Lexer.textTail? odd scan.terminator = none := by
      unfold Scan.terminator
      split <;> rfl
    exact ⟨hnone, fun n h => by cases h⟩
  | cons c cs ih =>
    rw [terminateFrom_text hmode, Lexer.textTail?, Lexer.textTail?]
    by_cases hfeed : c = '\n'
    · simp [hfeed]
    rw [if_neg hfeed, if_neg hfeed]
    cases hquote : (c = '"' && !odd) with
    | true =>
      refine ⟨rfl, fun n hn => ?_⟩
      cases hn
      rfl
    | false =>
      have hmode' : ((scan.wrote c).within (textMode odd c)).mode = .text (c = '\\' && !odd) :=
        textMode_eq hquote
      obtain ⟨hend, htake⟩ := ih hmode'
      refine ⟨by rw [hend], fun n hn => ?_⟩
      obtain ⟨k, hk, rfl⟩ := Option.map_eq_some_iff.1 hn
      rw [List.take_succ_cons, List.take_succ_cons, htake k hk]

end Source

/-! ## Text tokens -/

namespace Lexer

variable {accepts : Terminal → Bool} {cs back : List Char} {n : Nat}

theorem match?_quote (accepts : Terminal → Bool) (back : List Char) :
    match? accepts ('"' :: back)
      = if accepts .text then (textTail? false back).map fun tail => (.text, tail + 1)
        else none := by
  rw [match?, if_neg (by decide), if_neg (by decide), if_pos rfl]

/-- A text token starts with a quote, and goes on to the end of the literal. -/
theorem exists_of_match?_text (h : match? accepts cs = some (.text, n)) :
    ∃ back k, cs = '"' :: back ∧ textTail? false back = some k ∧ n = k + 1 := by
  obtain ⟨inner, k, htake, -, -⟩ := (match?_matches h).2
  cases cs with
  | nil => cases h
  | cons c back =>
    cases n with
    | zero => cases htake
    | succ n =>
      obtain rfl : c = '"' := by injection htake
      rw [match?_quote] at h
      split at h
      · obtain ⟨k, hk, heq⟩ := Option.map_eq_some_iff.1 h
        cases heq
        exact ⟨back, n, rfl, hk, rfl⟩
      · cases h

end Lexer

namespace Source.Level

open Lexer

/-- Before the end of a literal, the literal is open. -/
theorem literal?_ne_none {odd : Bool} {cs : List Char} {m n : Nat} (h : textTail? odd cs = some n)
    (hm : m < n) (depth : Nat) :
    (Level.afterAll ⟨some odd, depth⟩ (cs.take m)).literal? ≠ none := by
  induction cs generalizing odd m n with
  | nil => cases h
  | cons c cs ih =>
    cases m with
    | zero => simp [afterAll]
    | succ m =>
      rw [textTail?] at h
      split at h
      · cases h
      cases hquote : (c = '"' && !odd) with
      | true =>
        rw [hquote] at h
        cases h
        omega
      | false =>
        rw [hquote, if_neg (by decide)] at h
        obtain ⟨k, hk, rfl⟩ := Option.map_eq_some_iff.1 h
        have hafter : Level.after ⟨some odd, depth⟩ c = ⟨some (c = '\\' && !odd), depth⟩ := by
          simp [Level.after, textMode_eq hquote, Mode.literal?]
        rw [List.take_succ_cons, afterAll, List.foldl_cons, hafter]
        exact ih hk (by omega)

end Source.Level

namespace Reader

open Source Lexer

variable {state final : State} {position after : Position} {cs rest front back : List Char}
  {t : Token} {ts : List Token} {accepts : Terminal → Bool}

/-- The next token after white space, with what is open after each of them. -/
structure IsNext (position : Position) (cs gap : List Char) (t : Token) (rest : List Char)
    (after : Position) : Prop where
  text_eq : cs = gap ++ (t.text.toList ++ rest)
  quote_notMem : '"' ∉ gap
  level_gap : ∀ depth, Level.afterAll ⟨none, depth⟩ gap = ⟨none, depth⟩
  level_token : ∀ depth,
    Level.afterAll ⟨none, depth⟩ t.text.toList = ⟨none, t.terminal.depthAfter depth⟩
  start : t.start.offset = position.offset + gap.length
  stop : after.offset = position.offset + (gap ++ t.text.toList).length
  literal : t.terminal = .text → ∃ back n, t.text.toList ++ rest = '"' :: back ∧
    textTail? false back = some n ∧ t.text.toList = '"' :: back.take n
  other : t.terminal ≠ .text → '"' ∉ t.text.toList

theorem exists_isNext (h : next accepts position cs = .token t rest after) :
    ∃ gap, IsNext position cs gap t rest after := by
  obtain ⟨length, hmatch, htext, rfl, hstart, rfl⟩ := next_eq_token_iff.1 h
  have hgap : ∀ c ∈ cs.takeWhile isGap, isGap c = true := fun c hc => List.mem_takeWhile_imp hc
  have hbody : t.text.toList ++ (cs.dropWhile isGap).drop length = cs.dropWhile isGap := by
    rw [htext, List.take_append_drop]
  refine ⟨cs.takeWhile isGap, ?_, ?_, ?_, ?_, ?_, ?_, ?_, ?_⟩
  · rw [hbody, List.takeWhile_append_dropWhile]
  · intro hmem
    exact absurd (hgap _ hmem) (by decide)
  · exact fun depth => Level.afterAll_gap hgap depth
  · intro depth
    rw [htext]
    exact Level.afterAll_match? hmatch depth
  · rw [hstart, Position.offset_advanceBy]
  · rw [hstart, Position.offset_advanceBy, Position.offset_advanceBy, List.length_append]
    omega
  · intro hterminal
    rw [hterminal] at hmatch
    obtain ⟨back, k, hback, htail, rfl⟩ := exists_of_match?_text hmatch
    refine ⟨back, k, by rw [hbody, hback], htail, ?_⟩
    rw [htext, hback, List.take_succ_cons]
  · intro hterminal hmem
    rw [htext] at hmem
    exact absurd (isTokenCharacter_of_matches (match?_matches hmatch).2 hterminal _ hmem)
      (by decide)

/-- A text token is a literal that is open nowhere before. -/
theorem Takes.literal_of_mem (h : Takes state position cs ts final) (depth : Nat) (ht : t ∈ ts)
    (htext : t.terminal = .text) :
    ∃ front back n, cs = front ++ '"' :: back ∧
      (Level.afterAll ⟨none, depth⟩ front).literal? = none ∧
      t.start.offset = position.offset + front.length ∧ textTail? false back = some n ∧
      t.text.toList = '"' :: back.take n := by
  induction h generalizing depth with
  | finish hgap => cases ht
  | @token state state' final position after cs rest u ts hnext hstep hrest ih =>
    obtain ⟨gap, hu⟩ := exists_isNext hnext
    rcases List.mem_cons.1 ht with rfl | ht
    · obtain ⟨back, n, hback, htail, htake⟩ := hu.literal htext
      exact ⟨gap, back, n, by rw [hu.text_eq, hback], by rw [hu.level_gap], hu.start, htail, htake⟩
    · obtain ⟨front, back, n, rfl, hlevel, hoffset, htail, htake⟩ :=
        ih (u.terminal.depthAfter depth) ht
      refine ⟨gap ++ u.text.toList ++ front, back, n, ?_, ?_, ?_, htail, htake⟩
      · rw [hu.text_eq]
        simp only [List.append_assoc]
      · rw [Level.afterAll_append, Level.afterAll_append, hu.level_gap, hu.level_token]
        exact hlevel
      · rw [hoffset, hu.stop]
        simp only [List.length_append]
        omega

/-- What has no quote in it stands before the first quote of a text. -/
theorem exists_of_append_quote {xs zs : List Char} (hxs : '"' ∉ xs)
    (h : xs ++ zs = front ++ '"' :: back) :
    ∃ front', front = xs ++ front' ∧ zs = front' ++ '"' :: back := by
  rcases List.append_eq_append_iff.1 h with hfront | ⟨xs', rfl, hxs'⟩
  · exact hfront
  · cases xs' with
    | nil => exact ⟨[], by simp, by simpa using hxs'.symm⟩
    | cons d xs' =>
      obtain rfl : '"' = d := by injection hxs'
      simp at hxs

/-- A quote where no literal is open starts a text token. -/
theorem Takes.exists_literal (h : Takes state position cs ts final) (depth : Nat)
    (hcs : cs = front ++ '"' :: back)
    (hlevel : (Level.afterAll ⟨none, depth⟩ front).literal? = none) :
    ∃ t ∈ ts, t.terminal = .text ∧ t.start.offset = position.offset + front.length ∧
      ∃ n, textTail? false back = some n ∧ t.text.toList = '"' :: back.take n := by
  induction h generalizing depth front with
  | finish hgap => exact absurd (hgap '"' (by simp [hcs])) (by decide)
  | @token state state' final position after cs rest u ts hnext hstep hrest ih =>
    obtain ⟨gap, hu⟩ := exists_isNext hnext
    rw [hu.text_eq] at hcs
    obtain ⟨front, rfl, hbody⟩ := exists_of_append_quote hu.quote_notMem hcs
    rw [Level.afterAll_append, hu.level_gap] at hlevel
    -- where the token ends before the quote, the quote is one of the text behind it
    have hbehind (front' : List Char) (hfront : front = u.text.toList ++ front')
        (hrest : rest = front' ++ '"' :: back) : ∃ t ∈ u :: ts, t.terminal = .text ∧
          t.start.offset = position.offset + (gap ++ front).length ∧
          ∃ n, textTail? false back = some n ∧ t.text.toList = '"' :: back.take n := by
      rw [hfront, Level.afterAll_append, hu.level_token] at hlevel
      obtain ⟨t, ht, htext, hoffset, hliteral⟩ := ih _ hrest hlevel
      refine ⟨t, List.mem_cons_of_mem _ ht, htext, ?_, hliteral⟩
      rw [hoffset, hu.stop, hfront]
      simp only [List.length_append]
      omega
    by_cases htext : u.terminal = .text
    · obtain ⟨back', n, hback', htail, htake⟩ := hu.literal htext
      have hbacks : '"' :: back' = front ++ '"' :: back := hback'.symm.trans hbody
      cases front with
      | nil =>
        obtain rfl : back' = back := by injection hbacks
        exact ⟨u, List.mem_cons_self .., htext, by simpa using hu.start, n, htail, htake⟩
      | cons d front =>
        obtain ⟨rfl, rfl⟩ : '"' = d ∧ back' = front ++ '"' :: back := by simpa using hbacks
        -- inside the literal of the token it would be open
        have hlength : n ≤ front.length := by
          by_contra hlt
          refine Level.literal?_ne_none htail (Nat.lt_of_not_le hlt) depth ?_
          rwa [List.take_left]
        rw [List.take_append_of_le_length hlength] at htake
        have hfront : '"' :: front = u.text.toList ++ front.drop n := by
          rw [htake, List.cons_append, List.take_append_drop]
        refine hbehind (front.drop n) hfront ?_
        rw [hfront, List.append_assoc] at hbody
        exact List.append_cancel_left hbody
    · obtain ⟨front', hfront, hrest⟩ := exists_of_append_quote (hu.other htext) hbody
      exact hbehind front' hfront hrest

end Reader

/-! ## Agreement -/

namespace Source

variable {source : String} {tree : Tree} {offset : Nat} {text : List Char}

/-- A text token of a text that can be read is a literal that the scan has copied. -/
theorem copies_of_token {t : Token} (h : Tree.read (terminate source) = .ok tree)
    (ht : t ∈ Tree.tokens (terminate source)) (htext : t.terminal = .text) :
    Copies source.toList t.start.offset t.text.toList := by
  obtain ⟨final, htakes, -⟩ := Tree.takes_of_read h
  obtain ⟨front, back, n, hwritten, hlevel, hoffset, htail, htoken⟩ :=
    htakes.literal_of_mem 0 ht htext
  rw [terminate, String.toList_ofList] at hwritten
  obtain ⟨scan, rest, hreaches, hmode⟩ := Reaches.start.exists_quote hwritten
  rw [List.nil_append] at hreaches
  have hcode : scan.mode = .code := by
    have hscan : scan.mode.literal? = none := by
      rw [← hlevel]
      exact congrArg Level.literal? hreaches.level.symm
    rcases hmode with hcode | ⟨escaped, hescaped⟩
    · exact hcode
    · rw [hescaped] at hscan
      cases hscan
  have hback : back = terminateFrom scan.quoted rest := by
    rw [hreaches.writes, terminateFrom_quote hcode] at hwritten
    simpa using hwritten.symm
  obtain ⟨hsame, htake⟩ := textTail?_terminateFrom scan.mode_quoted rest
  rw [hback, hsame] at htail
  rw [hback, htake n htail] at htoken
  have hleaves := ((textTail?_eq_some_iff scan.mode_quoted).1 htail).1
  refine ⟨front, scan, rest, n + 1, hreaches, hcode, (leavesAfter_quote hcode).2 ⟨n, rfl, hleaves⟩,
    ?_, ?_⟩
  · rw [hoffset]
    exact (Nat.zero_add _).symm
  · rw [htoken, List.take_succ_cons]

/-- A literal that the scan has copied is a text token, if the text can be read. -/
theorem exists_token_of_copies (h : Tree.read (terminate source) = .ok tree)
    (hcopies : Copies source.toList offset text) :
    ∃ t ∈ Tree.tokens (terminate source), t.terminal = .text ∧ t.start.offset = offset ∧
      t.text.toList = text := by
  obtain ⟨written, scan, rest, n, hreaches, hcode, hleaves, rfl, rfl⟩ := hcopies
  obtain ⟨final, htakes, -⟩ := Tree.takes_of_read h
  have hwritten : (terminate source).toList
      = written ++ '"' :: terminateFrom scan.quoted rest := by
    rw [terminate, String.toList_ofList, hreaches.writes, terminateFrom_quote hcode]
  have hlevel : (Level.afterAll ⟨none, 0⟩ written).literal? = none := by
    rw [show Level.afterAll ⟨none, 0⟩ written = scan.level from hreaches.level, Scan.level, hcode]
    rfl
  obtain ⟨t, ht, htext, hoffset, k, htail, htoken⟩ := htakes.exists_literal 0 hwritten hlevel
  obtain ⟨hsame, htake⟩ := textTail?_terminateFrom scan.mode_quoted rest
  rw [hsame] at htail
  -- the scan leaves a literal only once
  have hleaves' : LeavesAfter scan ('"' :: rest) (k + 1) :=
    (leavesAfter_quote hcode).2 ⟨k, rfl, ((textTail?_eq_some_iff scan.mode_quoted).1 htail).1⟩
  obtain rfl := hleaves.unique hleaves'
  refine ⟨t, ht, htext, by rw [hoffset]; exact Nat.zero_add _, ?_⟩
  rw [htoken, htake k htail, List.take_succ_cons]

end Source

/-- A text literal matches its pattern up to where the scan leaves it, if there is no line feed in
it. -/
theorem Pattern.matchLength?_eq_some_iff {scan : Source.Scan} (hmode : scan.mode = .code)
    (cs : List Char) (n : Nat) :
    textLiteral.matchLength? ('"' :: cs) = some n ↔
      Source.LeavesAfter scan ('"' :: cs) n ∧ '\n' ∉ ('"' :: cs).take n := by
  rw [matchLength?_textLiteral, Source.leavesAfter_quote hmode, Option.map_eq_some_iff]
  constructor
  · rintro ⟨k, hk, rfl⟩
    obtain ⟨hleaves, hfeed⟩ := (Source.textTail?_eq_some_iff scan.mode_quoted).1 hk
    exact ⟨⟨k, rfl, hleaves⟩, by simpa using hfeed⟩
  · rintro ⟨⟨k, rfl, hleaves⟩, hfeed⟩
    refine ⟨k, (Source.textTail?_eq_some_iff scan.mode_quoted).2 ⟨hleaves, ?_⟩, rfl⟩
    simpa using hfeed

/-- The lexer finds a text token just where the pattern of text literals matches. -/
theorem Lexer.match?_eq_matchLength? {accepts : Terminal → Bool} (h : accepts .text = true)
    (cs : List Char) :
    match? accepts ('"' :: cs)
      = (Pattern.textLiteral.matchLength? ('"' :: cs)).map fun n => (.text, n) := by
  rw [match?_quote, if_pos h, Pattern.matchLength?_textLiteral, Option.map_map]
  rfl

/-- **Literals.** From a quote on, the pattern of text literals matches so many characters exactly
if the scan leaves the literal after so many and none of them is a line feed; and the lexer takes a
text token of this length there. So in a program text that can be read, the text tokens are exactly
the literals that the scan has copied, each at the offset where it was copied to. -/
theorem Program.literals_agree (names : Text.Names) :
    (∀ scan : Source.Scan, scan.mode = .code → ∀ (cs : List Char) (n : Nat),
      Pattern.textLiteral.matchLength? ('"' :: cs) = some n ↔
        Source.LeavesAfter scan ('"' :: cs) n ∧ '\n' ∉ ('"' :: cs).take n) ∧
    (∀ accepts : Terminal → Bool, accepts .text = true → ∀ cs : List Char,
      Lexer.match? accepts ('"' :: cs)
        = (Pattern.textLiteral.matchLength? ('"' :: cs)).map fun n => (.text, n)) ∧
    ∀ (source : String) (body : List Node), Program.parse names source = .ok body →
      ∀ (offset : Nat) (text : List Char),
        (∃ t ∈ Tree.tokens (Source.terminate source), t.terminal = .text ∧
          t.start.offset = offset ∧ t.text.toList = text) ↔
        Source.Copies source.toList offset text := by
  refine ⟨fun scan hmode => Pattern.matchLength?_eq_some_iff hmode,
    fun accepts haccepts => Lexer.match?_eq_matchLength? haccepts, ?_⟩
  intro source body hparse offset text
  obtain ⟨tree, hread, -⟩ := Program.read_of_parse hparse
  constructor
  · rintro ⟨t, ht, htext, rfl, rfl⟩
    exact Source.copies_of_token hread ht htext
  · exact Source.exists_token_of_copies hread

/-- A literal with an escaped backslash at its end and one with an escaped quote and two slashes are
copied, and the quotes in the comment are not. -/
theorem Program.literals_agree_escapes :
    let source := "print \"\\\\\" + \"a\\\"//\" # \"x\""
    Program.parse Text.unnamed source = .ok [.print [.binary (.arithmetic .sum)
        (.literal (.string "\\")) (.literal (.string "a\"//"))]] ∧
      Pattern.textLiteral.matchLength? "\"\\\\\" + \"a\\\"//\"".toList = some 4 ∧
      Source.Copies source.toList 6 "\"\\\\\"".toList ∧
      Source.Copies source.toList 13 "\"a\\\"//\"".toList ∧
      ∀ offset, ¬ Source.Copies source.toList offset "\"x\"".toList := by
  intro source
  have htext : Source.terminate source = "print \"\\\\\" + \"a\\\"//\" ;" := by decide +kernel
  have hread : Tree.read "print \"\\\\\" + \"a\\\"//\" ;" = .ok (.branch .program (some ⟨0, 22⟩)
      [.branch .print (some ⟨0, 22⟩)
        [.branch .add (some ⟨6, 20⟩)
          [.branch .textLiteral (some ⟨6, 10⟩) [.leaf "\"\\\\\""],
            .branch .textLiteral (some ⟨13, 20⟩) [.leaf "\"a\\\"//\""]]]]) := by
    rfl
  have hparse : Program.parse Text.unnamed source = .ok [.print [.binary (.arithmetic .sum)
      (.literal (.string "\\")) (.literal (.string "a\"//"))]] :=
    Program.parse_of_meaning htext hread rfl
  have htokens : Tree.tokens (Source.terminate source)
      = [⟨.keyword .print, "print", ⟨0, 1, 1⟩⟩, ⟨.text, "\"\\\\\"", ⟨6, 1, 7⟩⟩,
        ⟨.symbol .plus, "+", ⟨11, 1, 12⟩⟩, ⟨.text, "\"a\\\"//\"", ⟨13, 1, 14⟩⟩,
        ⟨.symbol .semicolon, ";", ⟨21, 1, 22⟩⟩] := by
    rw [htext]
    decide +kernel
  have hagree := (Program.literals_agree _).2.2 source _ hparse
  rw [htokens] at hagree
  have hfirst : Source.Copies source.toList 6 "\"\\\\\"".toList :=
    (hagree 6 _).1 ⟨⟨.text, "\"\\\\\"", ⟨6, 1, 7⟩⟩, by simp, rfl, rfl, rfl⟩
  have hsecond : Source.Copies source.toList 13 "\"a\\\"//\"".toList :=
    (hagree 13 _).1 ⟨⟨.text, "\"a\\\"//\"", ⟨13, 1, 14⟩⟩, by simp, rfl, rfl, rfl⟩
  refine ⟨hparse, by decide +kernel, hfirst, hsecond, fun offset hcopies => ?_⟩
  obtain ⟨t, ht, hterminal, -, hcommented⟩ := (hagree offset _).2 hcopies
  simp only [List.mem_cons, List.not_mem_nil, or_false] at ht
  rcases ht with rfl | rfl | rfl | rfl | rfl
  · cases hterminal
  · exact absurd hcommented (by decide)
  · cases hterminal
  · exact absurd hcommented (by decide)
  · cases hterminal

end ScriptLang
