import ScriptLang.Proofs.Lexemes
import ScriptLang.Proofs.Scanning
import ScriptLang.Proofs.Tokens

set_option autoImplicit false

/-! # Brackets in a text that can be read

The scan counts brackets and looks for the ends of text literals character by character, the reader
takes tokens. The two agree on what is open after each token (`Reader.Takes.level`). In the grammar
every parenthesis that is opened is closed within the same phrase (`Grammar.balanced_form`), so
nothing is open at the end of a text that can be read (`Source.level_of_read`). -/

namespace ScriptLang

/-! ## Tokens -/

/-- The number of open parentheses after one more token. -/
def Terminal.depthAfter (depth : Nat) : Terminal → Nat
  | .symbol .leftParen => depth + 1
  | .symbol .rightParen => depth - 1
  | _ => depth

/-- The number of open parentheses after some more tokens. -/
def Token.depthAfterAll (depth : Nat) (ts : List Token) : Nat :=
  ts.foldl (fun depth t => t.terminal.depthAfter depth) depth

theorem Token.depthAfterAll_append (depth : Nat) (ts ts' : List Token) :
    depthAfterAll depth (ts ++ ts') = depthAfterAll (depthAfterAll depth ts) ts' :=
  List.foldl_append

namespace Source.Level

/-- The characters that change what is open. -/
def marks : List Char :=
  ['"', '(', ')', '[', ']']

/-- Characters of a class that has none of them change nothing. -/
theorem afterAll_class {test : Char → Bool} (hmarks : marks.all (!test ·) = true)
    {cs : List Char} (h : ∀ c ∈ cs, test c = true) (depth : Nat) :
    Level.afterAll ⟨none, depth⟩ cs = ⟨none, depth⟩ := by
  induction cs with
  | nil => rfl
  | cons c cs ih =>
    have hc : c ∉ marks := by
      intro hmark
      have htest := List.all_eq_true.1 hmarks c hmark
      rw [h c (List.mem_cons_self ..)] at htest
      cases htest
    simp only [marks, List.mem_cons, List.not_mem_nil, or_false, not_or] at hc
    have hafter : Level.after ⟨none, depth⟩ c = ⟨none, depth⟩ := by
      simp [Level.after, hc]
    rw [afterAll, List.foldl_cons, hafter]
    exact ih fun d hd => h d (List.mem_cons_of_mem _ hd)

theorem afterAll_gap {gap : List Char} (h : ∀ c ∈ gap, Lexer.isGap c = true) (depth : Nat) :
    Level.afterAll ⟨none, depth⟩ gap = ⟨none, depth⟩ :=
  afterAll_class (by decide) h depth

theorem afterAll_numeral {digits : List Char} (h : IsNumeral digits) (depth : Nat) :
    Level.afterAll ⟨none, depth⟩ digits = ⟨none, depth⟩ :=
  afterAll_class (by decide) h.2 depth

/-- The scan and the lexer see a text literal end at the same quote. -/
theorem afterAll_textTail {odd : Bool} {cs : List Char} {n : Nat}
    (h : Lexer.textTail? odd cs = some n) (depth : Nat) :
    Level.afterAll ⟨some odd, depth⟩ (cs.take n) = ⟨none, depth⟩ := by
  induction cs generalizing odd n with
  | nil => cases h
  | cons c rest ih =>
    rw [Lexer.textTail?] at h
    split_ifs at h with hfeed hquote
    · cases h
      simp only [Bool.and_eq_true, decide_eq_true_eq, Bool.not_eq_true'] at hquote
      obtain ⟨rfl, rfl⟩ := hquote
      rfl
    · obtain ⟨m, hm, rfl⟩ := Option.map_eq_some_iff.1 h
      have hafter : Level.after ⟨some odd, depth⟩ c = ⟨some (c = '\\' && !odd), depth⟩ := by
        cases odd <;> by_cases hslash : c = '\\' <;>
          simp_all [Level.after, textMode, Mode.literal?]
      rw [List.take_succ_cons, afterAll, List.foldl_cons, hafter]
      exact ih hm

theorem afterAll_matches {terminal : Terminal} {cs : List Char} (h : terminal.Matches cs)
    (htext : terminal ≠ .text) (depth : Nat) :
    Level.afterAll ⟨none, depth⟩ cs = ⟨none, terminal.depthAfter depth⟩ := by
  cases terminal with
  | symbol s =>
    cases h
    cases s <;> rfl
  | keyword k =>
    cases h
    cases k <;> rfl
  | comparison =>
    obtain ⟨sign, hsign, rfl⟩ : ∃ sign ∈ Lexer.comparisons, cs = sign.toList :=
      ⟨_, h, String.toList_ofList.symm⟩
    simp only [Lexer.comparisons, List.mem_cons, List.not_mem_nil, or_false] at hsign
    rcases hsign with rfl | rfl | rfl | rfl | rfl | rfl | rfl <;> rfl
  | decimal =>
    obtain ⟨whole, fraction, rfl, hwhole, hfraction⟩ := h
    rw [afterAll_append, afterAll_numeral hwhole]
    exact afterAll_numeral hfraction depth
  | whole => exact afterAll_numeral h depth
  | word => exact afterAll_class (by decide) (Lexer.word_characters h) depth
  | text => exact absurd rfl htext
  | finish => exact h.elim

/-- What is open after a token that the lexer finds. -/
theorem afterAll_match? {accepts : Terminal → Bool} {cs : List Char} {terminal : Terminal} {n : Nat}
    (h : Lexer.match? accepts cs = some (terminal, n)) (depth : Nat) :
    Level.afterAll ⟨none, depth⟩ (cs.take n) = ⟨none, terminal.depthAfter depth⟩ := by
  have hmatches := (Lexer.match?_matches h).2
  by_cases htext : terminal = .text
  · subst htext
    obtain ⟨inner, k, htake, -, -⟩ := hmatches
    cases cs with
    | nil => cases h
    | cons c rest =>
      have hquote : c = '"' := by
        cases n with
        | zero => cases htake
        | succ n =>
          injection htake
      subst hquote
      rw [Lexer.match?, if_neg (by decide), if_neg (by decide), if_pos rfl] at h
      split_ifs at h
      obtain ⟨m, hm, heq⟩ := Option.map_eq_some_iff.1 h
      cases heq
      exact afterAll_textTail hm depth
  · exact afterAll_matches hmatches htext depth

theorem literal?_of_terminator {level : Level} {scan : Scan}
    (h : (level.afterAll scan.terminator).literal? = none) : level.literal? = none := by
  cases hliteral : level.literal? with
  | none => rfl
  | some escaped =>
    unfold Scan.terminator at h
    split at h
    · cases escaped <;> simp [afterAll, Level.after, hliteral, textMode, Mode.literal?] at h
    · simp [afterAll, hliteral] at h

end Source.Level

/-- What is open after the tokens that the reader takes is open after their text. -/
theorem Reader.Takes.level {s final : State} {q : Position} {cs : List Char} {ts : List Token}
    (h : Takes s q cs ts final) (depth : Nat) :
    Source.Level.afterAll ⟨none, depth⟩ cs = ⟨none, Token.depthAfterAll depth ts⟩ := by
  induction h generalizing depth with
  | finish hgap => exact Source.Level.afterAll_gap hgap depth
  | @token s s' final q after cs rest t ts hnext _ _ ih =>
    obtain ⟨length, hmatch, -, rfl, -, -⟩ := Lexer.next_eq_token_iff.1 hnext
    have hgap : ∀ c ∈ cs.takeWhile Lexer.isGap, Lexer.isGap c = true :=
      fun c hc => List.mem_takeWhile_imp hc
    have hcs : cs = cs.takeWhile Lexer.isGap
        ++ ((cs.dropWhile Lexer.isGap).take length ++ (cs.dropWhile Lexer.isGap).drop length) := by
      rw [List.take_append_drop, List.takeWhile_append_dropWhile]
    rw [hcs, Source.Level.afterAll_append, Source.Level.afterAll_gap hgap,
      Source.Level.afterAll_append, Source.Level.afterAll_match? hmatch, ih]
    rfl

/-! ## The grammar -/

namespace Grammar

open Form

/-- The number of parentheses that are open after a form, if it is the same each time and the form
closes none that it did not find open. -/
def Form.depth? (depth : Nat) : Form → Option Nat
  | token (.symbol .rightParen) => if depth = 0 then none else some (depth - 1)
  | token terminal => some (terminal.depthAfter depth)
  | phrase _ | empty => some depth
  | seq f g => do g.depth? (← f.depth? depth)
  | either f g => if f.depth? depth = g.depth? depth then f.depth? depth else none
  | many f => if f.depth? depth = some depth then some depth else none
  | branch _ f => f.depth? depth

/-- Whether a phrase leaves as many parentheses open as it finds. -/
def Balanced (_ : Phrase) (ts : List Token) (_ : List Tree) : Prop :=
  ∀ depth, Token.depthAfterAll depth ts = depth

theorem depthAfter_add {terminal : Terminal} {m n : Nat} (h : (token terminal).depth? m = some n)
    (depth : Nat) : terminal.depthAfter (depth + m) = depth + n := by
  cases terminal with
  | symbol s =>
    cases s with
    | rightParen =>
      simp only [depth?] at h
      split at h
      · cases h
      · cases h
        simp only [Terminal.depthAfter]
        omega
    | _ =>
      cases h
      rfl
  | _ =>
    cases h
    rfl

/-- However many parentheses are open around a form, it leaves so many open. -/
theorem depth_of_yields {f : Form} {ts : List Token} {trees : List Tree} {m n : Nat}
    (h : f.Yields Balanced ts trees) (hn : f.depth? m = some n) (depth : Nat) :
    Token.depthAfterAll (depth + m) ts = depth + n := by
  induction f generalizing ts trees m n with
  | token terminal =>
    obtain ⟨t, rfl, rfl, rfl⟩ := h
    exact depthAfter_add hn depth
  | phrase p =>
    cases hn
    exact h _
  | empty =>
    cases hn
    rw [h.1]
    rfl
  | seq f g ihf ihg =>
    obtain ⟨_, _, _, _, hf, hg, rfl, rfl⟩ := h
    simp only [depth?, Option.bind_eq_bind, Option.bind_eq_some_iff] at hn
    obtain ⟨k, hk, hn⟩ := hn
    rw [Token.depthAfterAll_append, ihf hf hk, ihg hg hn]
  | either f g ihf ihg =>
    simp only [depth?] at hn
    split at hn
    · next hsame => exact h.elim (fun h => ihf h hn) fun h => ihg h (hsame ▸ hn)
    · cases hn
  | many f ih =>
    simp only [depth?] at hn
    split at hn
    · next hsame =>
      cases hn
      simp only [Form.Yields] at h
      induction h with
      | none => rfl
      | more hitem _ ihrest => rw [Token.depthAfterAll_append, ih hitem hsame, ihrest]
    · cases hn
  | branch rule f ih =>
    obtain ⟨_, _, rfl, h⟩ := h
    exact ih h hn

/-- Every rule of the grammar closes the parentheses that it opens. -/
theorem balanced_form (p : Phrase) : p.form.depth? 0 = some 0 := by
  cases p <;> rfl

theorem Derives.balanced {p : Phrase} {ts : List Token} {trees : List Tree}
    (h : Derives (.phrase p) ts trees) (depth : Nat) : Token.depthAfterAll depth ts = depth := by
  have hphrases : ∀ p ts trees, p.form.Yields Balanced ts trees → Balanced p ts trees :=
    fun p ts trees h => depth_of_yields h (balanced_form p)
  exact h.yields hphrases depth

end Grammar

/-! ## Texts -/

/-- The tokens that the reader takes complete what stands for those before them. -/
theorem Reader.Represents.takes {s final : State} {q : Position} {cs : List Char}
    {ts ts' : List Token} (hstate : Represents s ts) (h : Takes s q cs ts' final) :
    Represents final (ts ++ ts') := by
  induction h generalizing ts with
  | finish _ => rwa [List.append_nil]
  | token _ hstep _ ih =>
    have hrest := ih (hstate.step hstep)
    rwa [List.append_assoc] at hrest

/-- No literal and no bracket is open at the end of a text that can be read. -/
theorem Source.level_of_read {source : String} {tree : Tree}
    (h : Tree.read (terminate source) = .ok tree) : (scanFrom {} source.toList).level = {} := by
  obtain ⟨final, htakes, hfinish⟩ := Tree.takes_of_read h
  have hderives := (Reader.represents_initial.takes htakes).finish hfinish
  have hlevel := htakes.level 0
  rw [List.nil_append] at hderives
  rw [hderives.balanced, terminate, String.toList_ofList] at hlevel
  obtain ⟨out, hwrites⟩ := writes_scanFrom {} source.toList
  have hout : Level.afterAll ⟨none, 0⟩ out = (scanFrom {} source.toList).level := hwrites.level
  rw [hwrites.ends, Level.afterAll_append, hout] at hlevel
  -- a semicolon at the very end closes no literal
  have hliteral := Level.literal?_of_terminator (congrArg Level.literal? hlevel)
  rwa [afterAll_terminator hliteral] at hlevel

end ScriptLang
