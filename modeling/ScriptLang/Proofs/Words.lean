import ScriptLang.Proofs.Lexemes
import ScriptLang.Proofs.Tokens

set_option autoImplicit false

/-! # How words are taken

Where a name may stand, a word is taken as a whole, and it is a keyword only if all of it is spelled
like one. Where no name may stand, the reader looks for keywords only, and a word that starts with
one is cut: `a orb` is read like `a or b`. This can happen at two kinds of places, after an operand
and after `else` (`Terminal.cutting`), and there it happens to every word that is longer than its
keyword (`Program.words_taken`). -/

namespace ScriptLang

/-! ## What may follow a token -/

/-- The keywords that are cut off the front of a word after a token: the grammar has no place for a
name there. -/
def Terminal.cutting : Terminal → List Keyword
  | .word | .whole | .decimal | .text | .keyword .trueWord | .keyword .falseWord
  | .symbol .rightParen => [.or, .and]
  | .keyword .elseWord => [.ifWord]
  | _ => []

namespace Reader

/-- Whether the reader can expect this right after a token. -/
def Expectation.comesAfter (t : Terminal) : Expectation → Bool
  | .statement false => t = .symbol .semicolon || t = .symbol .leftBrace
  | .statement true => t = .symbol .rightBrace
  | .afterName _ | .afterOperandName _ | .functionOpen .. | .afterParameter .. => t = .word
  | .operand =>
    (binaryRule? t).isSome || [.keyword .print, .keyword .returnWord, .keyword .ifWord,
      .keyword .whileWord, .symbol .define, .symbol .equal, .symbol .leftParen, .symbol .minus,
      .symbol .comma].contains t
  | .operator _ =>
    [.whole, .decimal, .text, .keyword .trueWord, .keyword .falseWord,
      .symbol .rightParen].contains t
  | .readOpen .. => t = .keyword .readNumber || t = .keyword .readText
  | .readClose .. => t = .symbol .leftParen
  | .functionName _ => t = .keyword .fn || t = .keyword .function
  | .parameter .. => t = .symbol .leftParen || t = .symbol .comma
  | .functionBrace .. => t = .symbol .rightParen
  | .elseBranch => t = .keyword .elseWord

variable {state state' : State} {t : Token} {frames : List Frame} {tree : Tree}

theorem comesAfter_operandStep (h : operandStep frames t = some state') :
    state'.expectation.comesAfter t.terminal = true := by
  unfold operandStep at h
  split at h <;> cases h <;> simp [*, finished, Expectation.comesAfter, binaryRule?]

theorem comesAfter_endExpression (h : endExpression tree frames t = some state') :
    state'.expectation.comesAfter t.terminal = true := by
  unfold endExpression at h
  split at h <;> cases h <;> simp [*, finished, Expectation.comesAfter, binaryRule?]

theorem comesAfter_operatorStep (h : operatorStep tree frames t = some state') :
    state'.expectation.comesAfter t.terminal = true := by
  unfold operatorStep at h
  split at h
  · next rule hrule =>
    obtain ⟨rfl, -⟩ := pushBinary_eq_some h
    simp [Expectation.comesAfter, hrule]
  · exact comesAfter_endExpression h

theorem comesAfter_nameStep {name : Token} (h : nameStep name frames t = some state') :
    state'.expectation.comesAfter t.terminal = true := by
  unfold nameStep at h
  split at h
  · next hparen =>
    cases h
    simp [hparen, Expectation.comesAfter]
  · exact comesAfter_operatorStep h

theorem comesAfter_startStatement (h : startStatement frames t = some state') :
    state'.expectation.comesAfter t.terminal = true := by
  unfold startStatement at h
  split at h
  case h_8 =>
    unfold finishBlock at h
    split at h <;> cases h <;> simp [*, Expectation.comesAfter]
  case h_10 => exact comesAfter_operandStep h
  all_goals
    cases h
    simp [*, finished, Expectation.comesAfter, binaryRule?]

/-- What the reader expects next fits the token that it has taken. -/
theorem comesAfter_step (h : step state t = some state') :
    state'.expectation.comesAfter t.terminal = true := by
  unfold step at h
  dsimp only at h
  split at h
  case h_1 =>
    unfold statementStep at h
    split at h
    · cases h
      simp [*, Expectation.comesAfter]
    · exact comesAfter_startStatement h
  case h_4 => exact comesAfter_nameStep h
  case h_5 => exact comesAfter_operandStep h
  case h_6 => exact comesAfter_nameStep h
  case h_7 => exact comesAfter_operatorStep h
  all_goals cases h <;> simp [*, Expectation.comesAfter, binaryRule?]

/-- The keywords that are cut off the front of a word after some tokens. -/
def cuttingAfter (ts : List Token) : List Keyword :=
  (ts.getLast?.map (·.terminal.cutting)).getD []

/-- Whether the reader accepts a name and cuts no word, or accepts no word but those that start with
one of the keywords. -/
def Expectation.Cuts (expectation : Expectation) (ks : List Keyword) : Prop :=
  (accepts expectation .word = true ∧ ks = []) ∨
    (accepts expectation .word = false ∧ ∀ k, accepts expectation (.keyword k) = true → k ∈ ks)

/-- What comes after a token cuts the words that the token says. -/
theorem Expectation.cuts_of_comesAfter {expectation : Expectation} {terminal : Terminal}
    (h : expectation.comesAfter terminal = true) : expectation.Cuts terminal.cutting := by
  have hbinary : (binaryRule? terminal).isSome = true → terminal.cutting = [] := by
    unfold binaryRule?
    split <;> simp [Terminal.cutting]
  have hnone {e : Expectation} (hword : accepts e .word = false)
      (hkeyword : ∀ k, accepts e (.keyword k) = false) : e.Cuts terminal.cutting :=
    Or.inr ⟨hword, fun k hk => by simp [hkeyword] at hk⟩
  have hoperand {e : Expectation} (hword : accepts e .word = false)
      (hkeyword : ∀ k, accepts e (.keyword k) = followsOperand (.keyword k))
      (hcutting : terminal.cutting = [.or, .and]) : e.Cuts terminal.cutting := by
    refine Or.inr ⟨hword, fun k hk => ?_⟩
    rw [hkeyword] at hk
    rw [hcutting]
    cases k <;> first | decide | cases hk
  cases expectation with
  | statement afterBlock =>
    refine Or.inl ⟨rfl, ?_⟩
    cases afterBlock with
    | false =>
      simp only [comesAfter, Bool.or_eq_true, decide_eq_true_eq] at h
      rcases h with rfl | rfl <;> rfl
    | true =>
      simp only [comesAfter, decide_eq_true_eq] at h
      rw [h]
      rfl
  | operand =>
    refine Or.inl ⟨rfl, ?_⟩
    simp only [comesAfter, Bool.or_eq_true, List.contains_eq_mem, decide_eq_true_eq, List.mem_cons,
      List.not_mem_nil, or_false] at h
    rcases h with h | rfl | rfl | rfl | rfl | rfl | rfl | rfl | rfl | rfl
    · exact hbinary h
    all_goals rfl
  | functionName word =>
    refine Or.inl ⟨rfl, ?_⟩
    simp only [comesAfter, Bool.or_eq_true, decide_eq_true_eq] at h
    rcases h with rfl | rfl <;> rfl
  | parameter word name parameters =>
    refine Or.inl ⟨rfl, ?_⟩
    simp only [comesAfter, Bool.or_eq_true, decide_eq_true_eq] at h
    rcases h with rfl | rfl <;> rfl
  | afterName name =>
    simp only [comesAfter, decide_eq_true_eq] at h
    exact hoperand rfl (fun k => by simp [accepts]) (by rw [h]; rfl)
  | afterOperandName name =>
    simp only [comesAfter, decide_eq_true_eq] at h
    exact hoperand rfl (fun k => by simp [accepts]) (by rw [h]; rfl)
  | operator operand =>
    simp only [comesAfter, List.contains_eq_mem, decide_eq_true_eq, List.mem_cons,
      List.not_mem_nil, or_false] at h
    refine hoperand rfl (fun k => rfl) ?_
    rcases h with rfl | rfl | rfl | rfl | rfl | rfl <;> rfl
  | elseBranch =>
    simp only [comesAfter, decide_eq_true_eq] at h
    refine Or.inr ⟨rfl, fun k hk => ?_⟩
    have hif : k = .ifWord := by simpa [accepts] using hk
    rw [h, hif]
    exact List.mem_singleton.2 rfl
  | readOpen rule word => exact hnone rfl fun _ => rfl
  | readClose rule word => exact hnone rfl fun _ => rfl
  | functionOpen word name => exact hnone rfl fun _ => rfl
  | afterParameter word name parameters => exact hnone rfl fun _ => rfl
  | functionBrace word name parameters => exact hnone rfl fun _ => rfl

end Reader

/-! ## Words in a text -/

namespace Lexer

/-- Whether a word stands alone between two texts: neither makes it longer. -/
structure IsWordIn (before word after : List Char) : Prop where
  word : Terminal.word.Matches word
  left : ∀ c, before.getLast? = some c → isWordCharacter c = false
  right : endsWord after = true

/-- How a word is taken: a keyword is cut off, or the word is taken as a whole. -/
def IsTakenAs (ks : List Keyword) (word : List Char) (t : Token) : Prop :=
  (∃ k ∈ ks, t.terminal = .keyword k ∧ t.text = k.text ∧ k.text.toList <+: word) ∨
    (ks = [] ∧ t.text.toList = word ∧ (t.terminal = .word ∨ ∃ k, t.terminal = .keyword k))

variable {word after : List Char} {t : Token}

/-- A keyword at the start of a text lies in its first word. -/
theorem prefix_of_startsWith {k : Keyword} (hafter : endsWord after = true)
    (h : startsWith (word ++ after) k.text = true) : k.text.toList <+: word := by
  obtain ⟨-, -, -, -, hcharacters⟩ := keyword_characters k
  rw [startsWith, List.isPrefixOf_iff_prefix] at h
  obtain ⟨tail, htail⟩ := h
  rcases List.append_eq_append_iff.1 htail with ⟨rest, rfl, -⟩ | ⟨rest, hlist, rfl⟩
  · exact List.prefix_append ..
  · -- what the keyword has beyond the word would be a character of a word after it
    cases rest with
    | nil =>
      rw [List.append_nil] at hlist
      exact hlist ▸ List.prefix_refl _
    | cons d rest =>
      have hd := hcharacters d (by simp [hlist])
      simp [endsWord, hd] at hafter

theorem isTakenAs_of_match? {accepts : Terminal → Bool} {ks : List Keyword} {length : Nat}
    (hcuts : (accepts .word = true ∧ ks = []) ∨
      (accepts .word = false ∧ ∀ k, accepts (.keyword k) = true → k ∈ ks))
    (hword : Terminal.word.Matches word) (hafter : endsWord after = true)
    (hmatch : match? accepts (word ++ after) = some (t.terminal, length))
    (htext : t.text.toList = (word ++ after).take length) : IsTakenAs ks word t := by
  have hwhole : (word ++ after).takeWhile isWordCharacter = word :=
    takeWhile_word (word_characters hword) hafter
  have hmatch' : matchWord? accepts (word ++ after) = some (t.terminal, length) := by
    obtain ⟨c, rest, rfl, hc, -⟩ := hword
    rw [← hmatch, List.cons_append, match?_of_isWordStart hc]
  unfold matchWord? at hmatch'
  rw [hwhole] at hmatch'
  rcases hcuts with ⟨haccepts, hks⟩ | ⟨haccepts, hks⟩
  · rw [if_pos haccepts] at hmatch'
    dsimp only at hmatch'
    refine Or.inr ⟨hks, ?_⟩
    split at hmatch'
    · next k _ =>
      simp only [Option.some.injEq, Prod.mk.injEq] at hmatch'
      obtain ⟨hterminal, rfl⟩ := hmatch'
      exact ⟨by rw [htext, List.take_left], Or.inr ⟨k, hterminal.symm⟩⟩
    · simp only [Option.some.injEq, Prod.mk.injEq] at hmatch'
      obtain ⟨hterminal, rfl⟩ := hmatch'
      exact ⟨by rw [htext, List.take_left], Or.inl hterminal.symm⟩
  · rw [if_neg (by simp [haccepts])] at hmatch'
    obtain ⟨k, hfind, heq⟩ := Option.map_eq_some_iff.1 hmatch'
    simp only [Prod.mk.injEq] at heq
    obtain ⟨hterminal, rfl⟩ := heq
    have hfound := List.find?_some hfind
    rw [Bool.and_eq_true] at hfound
    refine Or.inl ⟨k, hks k hfound.1, hterminal.symm, ?_, prefix_of_startsWith hafter hfound.2⟩
    rw [← String.toList_inj, htext, take_of_startsWith hfound.2]

/-- Only in a text literal does the start of a word follow a character that belongs to no word. -/
theorem terminal_eq_text {xs ys : List Char} {c d : Char} (h : t.IsProper)
    (htext : t.text.toList = xs ++ c :: d :: ys) (hc : isWordCharacter c = false)
    (hd : isWordStart d = true) : t.terminal = .text := by
  have hcmem : c ∈ t.text.toList := by simp [htext]
  have hdmem : d ∈ t.text.toList := by simp [htext]
  have hdigit := isDigit_of_isWordStart hd
  unfold Token.IsProper at h
  generalize t.text.toList = cs at h hcmem hdmem
  cases hterminal : t.terminal with
  | text => rfl
  | symbol s =>
    have hsymbols : Symbol.all.all (fun s => s.text.toList.all fun d => !isWordStart d) = true := by
      decide
    rw [hterminal, Terminal.Matches] at h
    have hs := List.all_eq_true.1 (List.all_eq_true.1 hsymbols s (mem_symbols s)) d (h ▸ hdmem)
    simp [hd] at hs
  | keyword k =>
    obtain ⟨-, -, -, -, hcharacters⟩ := keyword_characters k
    rw [hterminal, Terminal.Matches] at h
    rw [hcharacters c (h ▸ hcmem)] at hc
    cases hc
  | comparison =>
    have hsigns : comparisons.all (fun s => s.toList.all fun d => !isWordStart d) = true := by
      decide
    rw [hterminal, Terminal.Matches] at h
    have hs := List.all_eq_true.1 (List.all_eq_true.1 hsigns _ h) d (by simpa using hdmem)
    simp [hd] at hs
  | decimal =>
    rw [hterminal, Terminal.Matches] at h
    obtain ⟨whole, fraction, rfl, hwhole, hfraction⟩ := h
    rcases List.mem_append.1 hdmem with hmem | hmem
    · rw [hwhole.2 d hmem] at hdigit
      cases hdigit
    · rcases List.mem_cons.1 hmem with rfl | hmem
      · exact absurd hd (by decide)
      · rw [hfraction.2 d hmem] at hdigit
        cases hdigit
  | whole =>
    rw [hterminal, Terminal.Matches] at h
    rw [h.2 d hdmem] at hdigit
    cases hdigit
  | word =>
    rw [hterminal] at h
    rw [word_characters h c hcmem] at hc
    cases hc
  | finish =>
    rw [hterminal] at h
    exact h.elim

theorem isGap_of_isWordStart {c : Char} (h : isWordStart c = true) : isGap c = false := by
  obtain ⟨hlow, -⟩ := toNat_of_isWordStart h
  cases hgap : isGap c with
  | false => rfl
  | true =>
    simp only [isGap, Bool.or_eq_true, decide_eq_true_eq] at hgap
    rcases hgap with (((rfl | rfl) | rfl) | rfl) | rfl <;> exact absurd hlow (by decide)

/-- A token that starts before a word ends before it, too, unless it is a text literal that goes on
across the start of the word. -/
theorem ends_before_word {before rest : List Char} (h : t.IsProper) (hne : before ≠ [])
    (htoken : t.text.toList ++ rest = before ++ (word ++ after))
    (hword : Terminal.word.Matches word)
    (hleft : ∀ c, before.getLast? = some c → isWordCharacter c = false)
    (hends : t.terminal = .text → t.text.toList.length ≤ before.length) :
    ∃ between, before = t.text.toList ++ between ∧ rest = between ++ (word ++ after) := by
  rcases List.append_eq_append_iff.1 htoken with hbetween | ⟨excess, htext, hexcess⟩
  · exact hbetween
  · cases excess with
    | nil => exact ⟨[], by simpa using htext.symm, by simpa using hexcess.symm⟩
    | cons d excess =>
      exfalso
      obtain ⟨c, tail, rfl, hc, -⟩ := hword
      obtain rfl : c = d := by simpa using congrArg List.head? hexcess
      obtain ⟨front, e, rfl⟩ : ∃ front e, before = front ++ [e] :=
        ⟨_, _, (List.dropLast_append_getLast hne).symm⟩
      have he := hleft e (by simp)
      have hlength := hends (terminal_eq_text h (by simpa using htext) he hc)
      simp [htext] at hlength

end Lexer

/-- Whether a token covers the character at an offset. -/
def Token.Covers (t : Token) (offset : Nat) : Prop :=
  t.start.offset ≤ offset ∧ offset < t.stop

namespace Reader

open Lexer

theorem cuttingAfter_concat (ts : List Token) (t : Token) :
    cuttingAfter (ts ++ [t]) = t.terminal.cutting := by
  simp [cuttingAfter]

/-- A word outside text literals has a token of its own, or one that a keyword is cut off by. The
tokens in `read` have been taken before. -/
theorem Takes.word {state final : State} {position : Position} {cs : List Char} {ts : List Token}
    (h : Takes state position cs ts final) {read : List Token}
    (hcuts : state.expectation.Cuts (cuttingAfter read)) {before word after : List Char}
    (hcs : cs = before ++ (word ++ after)) (hword : IsWordIn before word after)
    (houtside : ∀ t ∈ ts, t.terminal = .text → ¬ t.Covers (position.offset + before.length)) :
    ∃ earlier t later, ts = earlier ++ t :: later ∧
      t.start.offset = position.offset + before.length ∧
      IsTakenAs (cuttingAfter (read ++ earlier)) word t := by
  obtain ⟨c, tail, hlist, hc, -⟩ := hword.word
  have hgapc : isGap c = false := isGap_of_isWordStart hc
  induction h generalizing read before with
  | finish hgap =>
    have := hgap c (by simp [hcs, hlist])
    rw [hgapc] at this
    cases this
  | @token state state' final position place cs rest t ts hnext hstep hrest ih =>
    obtain ⟨length, hmatch, htext, hdrop, hstart, hplace⟩ := next_eq_token_iff.1 hnext
    obtain ⟨-, hproper, -⟩ := next_token hnext
    have htoken : t.text.toList ++ rest = cs.dropWhile isGap := by
      rw [htext, hdrop, List.take_append_drop]
    have hwordgap : (word ++ after).dropWhile isGap = word ++ after := by
      simp [hlist, hgapc]
    have hoffset : t.start.offset = position.offset + (cs.takeWhile isGap).length := by
      rw [hstart, Position.offset_advanceBy]
    by_cases hskip : before.dropWhile isGap = []
    · -- nothing but white space stands before the word, so the token starts with it
      have hgap := List.dropWhile_eq_nil_iff.1 hskip
      have hbody : cs.dropWhile isGap = word ++ after := by
        rw [hcs, List.dropWhile_append_of_pos hgap, hwordgap]
      have hspace : cs.takeWhile isGap = before := by
        rw [hcs, List.takeWhile_append_of_pos hgap]
        simp [hlist, hgapc]
      rw [hbody] at hmatch htext
      refine ⟨[], t, ts, rfl, by rw [hoffset, hspace], ?_⟩
      rw [List.append_nil]
      exact isTakenAs_of_match? hcuts hword.word hword.right hmatch htext
    · -- the token starts before the word, and unless it is a text literal, it ends there, too
      have hbefore := List.takeWhile_append_dropWhile (p := isGap) (l := before)
      have hspace := takeWhile_gap_append hskip (word ++ after)
      have hbody := dropWhile_gap_append hskip (word ++ after)
      rw [hcs, hspace] at hoffset
      rw [hcs, hbody] at htoken
      generalize before.takeWhile isGap = gap at hbefore hoffset
      generalize before.dropWhile isGap = inner at hbefore htoken hskip
      subst hbefore
      have hleft : ∀ d, inner.getLast? = some d → isWordCharacter d = false := by
        intro d hd
        refine hword.left d ?_
        rw [List.getLast?_append, hd]
        rfl
      have hends : t.terminal = .text → t.text.toList.length ≤ inner.length := by
        intro hliteral
        have hcovers := houtside t (List.mem_cons_self ..) hliteral
        rw [Token.Covers, Token.stop, List.length_append, ← String.length_toList] at hcovers
        omega
      have hbetween := ends_before_word hproper hskip htoken hword.word hleft hends
      obtain ⟨inner', rfl, rfl⟩ := hbetween
      have hplaced : place.offset + inner'.length
          = position.offset + (gap ++ (t.text.toList ++ inner')).length := by
        rw [hplace, Position.offset_advanceBy, hoffset]
        simp only [List.length_append]
        omega
      have hword' : IsWordIn inner' word after := by
        refine ⟨hword.word, fun d hd => hword.left d ?_, hword.right⟩
        rw [← List.append_assoc, List.getLast?_append, hd]
        rfl
      have hcuts' : state'.expectation.Cuts (cuttingAfter (read ++ [t])) := by
        rw [cuttingAfter_concat]
        exact Expectation.cuts_of_comesAfter (comesAfter_step hstep)
      obtain ⟨earlier, u, later, rfl, hu, htaken⟩ := ih hcuts' rfl hword' fun u hu hliteral => by
        rw [hplaced]
        exact houtside u (List.mem_cons_of_mem _ hu) hliteral
      refine ⟨t :: earlier, u, later, rfl, by rw [hu, hplaced], ?_⟩
      rwa [List.append_assoc] at htaken

end Reader

/-- **How words are taken.** In a program text that can be read, a word outside text literals has a
token that starts with it. After an operand and after `else` that token is a keyword that the word
starts with; everywhere else it is the whole word. So the word is one token exactly if it is no
longer than the keyword that is cut off there. -/
theorem Program.words_taken {names : Text.Names} {source : String} {body : List Node}
    (h : Program.parse names source = .ok body) {before word after : List Char}
    (htext : (Source.terminate source).toList = before ++ (word ++ after))
    (hword : Lexer.IsWordIn before word after)
    (houtside : ∀ t ∈ Tree.tokens (Source.terminate source),
      t.terminal = .text → ¬ t.Covers before.length) :
    ∃ earlier t later, Tree.tokens (Source.terminate source) = earlier ++ t :: later ∧
      t.start.offset = before.length ∧
      Lexer.IsTakenAs (Reader.cuttingAfter earlier) word t ∧
      (t.text.toList = word ↔ ∀ k ∈ Reader.cuttingAfter earlier,
        k.text.toList <+: word → k.text.toList = word) := by
  obtain ⟨tree, hread, -⟩ := Program.read_of_parse h
  obtain ⟨final, htakes, -⟩ := Tree.takes_of_read hread
  have hstart : Reader.State.initial.expectation.Cuts (Reader.cuttingAfter []) :=
    Or.inl ⟨rfl, rfl⟩
  have hoffset : ({} : Position).offset + before.length = before.length := Nat.zero_add _
  obtain ⟨earlier, t, later, hts, hplace, htaken⟩ := htakes.word hstart htext hword
    (by rwa [hoffset])
  rw [hoffset] at hplace
  refine ⟨earlier, t, later, hts, hplace, htaken, ?_⟩
  rcases htaken with ⟨k, hk, -, htext', hprefix⟩ | ⟨hnone, hwhole, -⟩
  · rw [htext']
    constructor
    · intro heq k' hk' hprefix'
      -- no keyword is the beginning of another
      have hstarts : Lexer.startsWith (k.text.toList ++ []) k'.text = true := by
        rwa [Lexer.startsWith, List.isPrefixOf_iff_prefix, List.append_nil, heq]
      rw [Lexer.keyword_eq_of_startsWith hstarts, heq]
    · intro hall
      exact hall k hk hprefix
  · have hnil : Reader.cuttingAfter earlier = [] := hnone
    simp [hnil, hwhole]

/-- The word `orb` after a name is cut, and an `or` is read. -/
theorem Program.words_taken_orb :
    let text := Source.terminate "print a orb"
    Program.parse Text.unnamed "print a orb"
        = .ok [.print [.binary .or (.reference "a") (.reference "b")]] ∧
      text.toList = "print a ".toList ++ ("orb".toList ++ ";".toList) ∧
      Lexer.IsWordIn "print a ".toList "orb".toList ";".toList ∧
      (Tree.tokens text).map (·.text) = ["print", "a", "or", "b", ";"] ∧
      ∃ earlier t later, Tree.tokens text = earlier ++ t :: later ∧ t.start.offset = 8 ∧
        Lexer.IsTakenAs (Reader.cuttingAfter earlier) "orb".toList t ∧
        (t.text.toList = "orb".toList ↔ ∀ k ∈ Reader.cuttingAfter earlier,
          k.text.toList <+: "orb".toList → k.text.toList = "orb".toList) := by
  intro text
  have htext : text = "print a orb;" := by decide +kernel
  have hread : Tree.read "print a orb;" = .ok (.branch .program (some ⟨0, 12⟩)
      [.branch .print (some ⟨0, 12⟩)
        [.branch .or (some ⟨6, 11⟩)
          [.branch .reference (some ⟨6, 7⟩) [.leaf "a"],
            .branch .reference (some ⟨10, 11⟩) [.leaf "b"]]]]) := by
    rfl
  have hparse : Program.parse Text.unnamed "print a orb"
      = .ok [.print [.binary .or (.reference "a") (.reference "b")]] :=
    Program.parse_of_meaning htext hread rfl
  have hlist : text.toList = "print a ".toList ++ ("orb".toList ++ ";".toList) := by
    rw [htext]
    decide +kernel
  have hword : Lexer.IsWordIn "print a ".toList "orb".toList ";".toList := by
    refine ⟨⟨'o', ['r', 'b'], rfl, by decide, by simp; decide⟩, fun c hc => ?_, by decide⟩
    cases hc
    decide
  have htokens : (Tree.tokens text).map (·.terminal)
      = [.keyword .print, .word, .keyword .or, .word, .symbol .semicolon] := by
    rw [htext]
    decide +kernel
  have houtside : ∀ t ∈ Tree.tokens text, t.terminal = .text →
      ¬ t.Covers "print a ".toList.length := by
    intro t ht hliteral
    have hmem := List.mem_map_of_mem (f := (·.terminal)) ht
    rw [htokens, hliteral] at hmem
    exact absurd hmem (by decide)
  refine ⟨hparse, hlist, hword, ?_, Program.words_taken hparse hlist hword houtside⟩
  rw [htext]
  decide +kernel

end ScriptLang
