import ScriptLang.Proofs.Lines
import ScriptLang.Proofs.Numerals
import ScriptLang.Text.Escape
import Mathlib.Data.List.Basic

set_option autoImplicit false

/-! # Finding the tokens that are written

Each sort of token is found where it is written, if it is accepted there and what follows it cannot
make it longer. -/

namespace ScriptLang

namespace Lexer

variable {accepts : Terminal → Bool} {rest : List Char}

/-- The only entry of a list that a test accepts is the one that is found. -/
theorem find?_eq_some_of_unique {α : Type} {test : α → Bool} {a : α} {as : List α} (ha : a ∈ as)
    (htest : test a = true) (hunique : ∀ b ∈ as, test b = true → b = a) :
    as.find? test = some a := by
  cases hfound : as.find? test with
  | none => exact absurd htest (by simpa using List.find?_eq_none.1 hfound a ha)
  | some b => rw [hunique b (List.mem_of_find?_eq_some hfound) (List.find?_some hfound)]

/-! ## Words -/

/-- Whether the text goes on with no character of a word. -/
def endsWord (rest : List Char) : Bool :=
  !rest.head?.any isWordCharacter

/-- Whether the text goes on with nothing that makes a word or a number longer. -/
def endsToken (rest : List Char) : Bool :=
  !rest.head?.any fun c => isWordCharacter c || Text.isDigit c || c = '.'

theorem endsWord_of_endsToken (h : endsToken rest = true) : endsWord rest = true := by
  cases rest with
  | nil => rfl
  | cons c rest =>
    simp only [endsToken, endsWord, List.head?_cons, Option.any_some, Bool.not_or,
      Bool.and_eq_true] at h ⊢
    exact h.1.1

theorem takeWhile_word {word : List Char} (hword : ∀ c ∈ word, isWordCharacter c = true)
    (hrest : endsWord rest = true) : (word ++ rest).takeWhile isWordCharacter = word := by
  rw [List.takeWhile_append_of_pos hword]
  cases rest with
  | nil => simp
  | cons c rest =>
    have hc : isWordCharacter c = false := by simpa [endsWord] using hrest
    simp [hc]

theorem word_characters {word : List Char} (h : Terminal.word.Matches word) :
    ∀ c ∈ word, isWordCharacter c = true := by
  obtain ⟨c, rest, rfl, hc, hrest⟩ := h
  intro d hd
  rcases List.mem_cons.1 hd with rfl | hd
  · exact Source.isWordCharacter_of_isWordStart hc
  · exact hrest d hd

/-- The characters that start words lie between `A` and `z`. -/
theorem toNat_of_isWordStart {c : Char} (h : isWordStart c = true) :
    65 ≤ c.toNat ∧ c.toNat ≤ 122 := by
  simp only [isWordStart, Bool.or_eq_true, decide_eq_true_eq] at h
  rcases h with h | rfl
  · have := Text.toNat_of_isAlpha h
    omega
  · decide

theorem isDigit_of_isWordStart {c : Char} (h : isWordStart c = true) :
    Text.isDigit c = false := by
  obtain ⟨hlow, hhigh⟩ := toNat_of_isWordStart h
  have hruns : ∀ first ∈ Text.digitZeros, first + 10 ≤ 65 ∨ 122 < first := by decide
  rw [← Bool.not_eq_true, Text.isDigit_iff]
  rintro ⟨first, hfirst, hle, hlt⟩
  have := hruns first hfirst
  omega

/-- A text that starts like a word is matched as one. -/
theorem match?_of_isWordStart {c : Char} (h : isWordStart c = true) (cs : List Char) :
    match? accepts (c :: cs) = matchWord? accepts (c :: cs) := by
  rw [match?, if_neg (by simp [isDigit_of_isWordStart h]), if_pos h]

theorem match?_name {name : String} (hname : isName name = true) (hword : accepts .word = true)
    (hrest : endsWord rest = true) :
    match? accepts (name.toList ++ rest) = some (.word, name.toList.length) := by
  unfold isName at hname
  split at hname
  · cases hname
  · next c cs hlist =>
    simp only [Bool.and_eq_true, List.all_eq_true, bne_iff_ne] at hname
    obtain ⟨⟨hc, hcs⟩, hkeyword⟩ := hname
    have hcharacters : ∀ d ∈ c :: cs, isWordCharacter d = true := by
      intro d hd
      rcases List.mem_cons.1 hd with rfl | hd
      · exact Source.isWordCharacter_of_isWordStart hc
      · exact hcs d hd
    have hnone : Keyword.all.find? (fun k => accepts (.keyword k) && k.text.toList == c :: cs)
        = none := by
      refine List.find?_eq_none.2 fun k hk htest => hkeyword k hk ?_
      simp only [Bool.and_eq_true, beq_iff_eq, ← hlist] at htest
      exact String.toList_inj.1 htest.2
    rw [hlist, List.cons_append, match?_of_isWordStart hc, matchWord?, if_pos hword,
      ← List.cons_append, takeWhile_word hcharacters hrest]
    simp only [hnone]

theorem mem_keywords (k : Keyword) : k ∈ Keyword.all := by
  cases k <;> decide

theorem keyword_characters (k : Keyword) :
    ∃ c cs, k.text.toList = c :: cs ∧ isWordStart c = true ∧
      ∀ d ∈ k.text.toList, isWordCharacter d = true := by
  cases k <;> exact ⟨_, _, rfl, by decide, List.all_eq_true.1 (by decide)⟩

/-- Whether the character can stand in a token that is no text literal. -/
def isTokenCharacter (c : Char) : Bool :=
  isWordCharacter c || Text.isDigit c || c = '.' || Symbol.all.any (·.text.toList.contains c) ||
    comparisons.any (·.toList.contains c)

theorem isTokenCharacter_of_matches {terminal : Terminal} {cs : List Char}
    (h : terminal.Matches cs) (htext : terminal ≠ .text) : ∀ c ∈ cs, isTokenCharacter c = true := by
  have hnumeral {digits : List Char} (hdigits : IsNumeral digits) :
      ∀ c ∈ digits, isTokenCharacter c = true := fun c hc => by
    simp [isTokenCharacter, hdigits.2 c hc]
  have hword {word : List Char} (hcharacters : ∀ c ∈ word, isWordCharacter c = true) :
      ∀ c ∈ word, isTokenCharacter c = true := fun c hc => by
    simp [isTokenCharacter, hcharacters c hc]
  cases terminal with
  | symbol s =>
    cases h
    cases s <;> exact List.all_eq_true.1 (by decide)
  | keyword k =>
    cases h
    obtain ⟨-, -, -, -, hcharacters⟩ := keyword_characters k
    exact hword hcharacters
  | comparison =>
    have hsigns : comparisons.all (·.toList.all isTokenCharacter) = true := by decide
    have hsign := List.all_eq_true.1 hsigns (String.ofList cs) h
    rw [String.toList_ofList] at hsign
    exact List.all_eq_true.1 hsign
  | decimal =>
    obtain ⟨whole, fraction, rfl, hwhole, hfraction⟩ := h
    exact List.forall_mem_append.2
      ⟨hnumeral hwhole, List.forall_mem_cons.2 ⟨by decide, hnumeral hfraction⟩⟩
  | whole => exact hnumeral h
  | word => exact hword (word_characters h)
  | text => exact absurd rfl htext
  | finish => exact h.elim

theorem match?_keyword {k : Keyword} (hkeyword : accepts (.keyword k) = true)
    (hword : accepts .word = true) (hrest : endsWord rest = true) :
    match? accepts (k.text.toList ++ rest) = some (.keyword k, k.text.toList.length) := by
  obtain ⟨c, cs, hlist, hc, hcharacters⟩ := keyword_characters k
  have hfound : Keyword.all.find?
      (fun k' => accepts (.keyword k') && k'.text.toList == k.text.toList) = some k := by
    refine find?_eq_some_of_unique (mem_keywords k) (by simp [hkeyword]) fun k' hk' htest => ?_
    have hinjective : ∀ k ∈ Keyword.all, ∀ k' ∈ Keyword.all,
        k'.text.toList = k.text.toList → k' = k := by decide
    simp only [Bool.and_eq_true, beq_iff_eq] at htest
    exact hinjective k (mem_keywords k) k' hk' htest.2
  rw [hlist, List.cons_append, match?_of_isWordStart hc, matchWord?, if_pos hword,
    ← List.cons_append, ← hlist, takeWhile_word hcharacters hrest]
  simp only [hfound]

/-- No keyword is the beginning of another. -/
theorem keyword_eq_of_startsWith {k k' : Keyword}
    (h : startsWith (k.text.toList ++ rest) k'.text = true) : k' = k := by
  cases k <;> cases k' <;> first | rfl | cases h

/-- Where no name is accepted, the text need only start with a keyword. -/
theorem match?_keyword_of_not_word {k : Keyword} (hkeyword : accepts (.keyword k) = true)
    (hword : accepts .word = false) :
    match? accepts (k.text.toList ++ rest) = some (.keyword k, k.text.toList.length) := by
  obtain ⟨c, cs, hlist, hc, -⟩ := keyword_characters k
  have hfound : Keyword.all.find?
      (fun k' => accepts (.keyword k') && startsWith (k.text.toList ++ rest) k'.text) = some k := by
    refine find?_eq_some_of_unique (mem_keywords k) ?_ fun k' _ htest => ?_
    · simp [hkeyword, startsWith]
    · simp only [Bool.and_eq_true] at htest
      exact keyword_eq_of_startsWith htest.2
  rw [hlist, List.cons_append] at hfound
  rw [hlist, List.cons_append, match?_of_isWordStart hc, matchWord?, if_neg (by simp [hword]),
    hfound, ← hlist]
  rfl

/-! ## Signs -/

/-- A text that starts with no digit, letter or quote is matched as a sign. -/
theorem match?_of_sign {c : Char} (hdigit : Text.isDigit c = false) (hword : isWordStart c = false)
    (hquote : c ≠ '"') (cs : List Char) :
    match? accepts (c :: cs) = matchSign? accepts (c :: cs) := by
  rw [match?, if_neg (by simp [hdigit]), if_neg (by simp [hword]), if_neg hquote]

theorem mem_symbols (s : Symbol) : s ∈ Symbol.all := by
  cases s <;> decide

theorem symbol_characters (s : Symbol) :
    ∃ c cs, s.text.toList = c :: cs ∧ Text.isDigit c = false ∧ isWordStart c = false ∧ c ≠ '"' := by
  cases s <;> exact ⟨_, _, rfl, by decide, by decide, by decide⟩

theorem head?_of_startsWith {c : Char} {cs : List Char} {word : String} (hne : word.toList ≠ [])
    (h : startsWith (c :: cs) word = true) : word.toList.head? = some c := by
  obtain ⟨d, ds, hlist⟩ := List.exists_cons_of_ne_nil hne
  rw [startsWith, hlist] at h
  simp only [List.isPrefixOf, Bool.and_eq_true, beq_iff_eq] at h
  rw [hlist, h.1]
  rfl

theorem match?_symbol {s : Symbol} (hsymbol : accepts (.symbol s) = true)
    (hequal : s = .equal → rest.head? ≠ some '=') :
    match? accepts (s.text.toList ++ rest) = some (.symbol s, s.text.toList.length) := by
  obtain ⟨c, cs, hlist, hdigit, hword, hquote⟩ := symbol_characters s
  -- the first character tells symbols apart, and all but `=` from the comparison signs
  have hhead {word : String} (hne : word.toList ≠ [])
      (h : startsWith (s.text.toList ++ rest) word = true) :
      word.toList.head? = s.text.toList.head? := by
    rw [hlist, List.cons_append] at h
    rw [head?_of_startsWith hne h, hlist]
    rfl
  have hcomparison : comparisons.find?
      (fun sign => accepts .comparison && startsWith (s.text.toList ++ rest) sign) = none := by
    refine List.find?_eq_none.2 fun sign hsign htest => ?_
    have honly : ∀ s ∈ Symbol.all, ∀ sign ∈ comparisons, sign.toList ≠ [] ∧
        (sign.toList.head? = s.text.toList.head? → s = .equal ∧ sign = "==") := by decide
    obtain ⟨hne, hfirst⟩ := honly s (mem_symbols s) sign hsign
    rw [Bool.and_eq_true] at htest
    obtain ⟨rfl, rfl⟩ := hfirst (hhead hne htest.2)
    cases rest with
    | nil => exact absurd htest.2 (by decide)
    | cons d rest =>
      have hd : startsWith ('=' :: d :: rest) "==" = ('=' == d) := by
        show ('=' == '=' && ('=' == d && true)) = ('=' == d)
        simp
      have htrue := htest.2
      change startsWith ('=' :: d :: rest) "==" = true at htrue
      rw [hd, beq_iff_eq] at htrue
      exact hequal rfl (by rw [← htrue]; rfl)
  have hfound : Symbol.all.find?
      (fun s' => accepts (.symbol s') && startsWith (s.text.toList ++ rest) s'.text) = some s := by
    refine find?_eq_some_of_unique (mem_symbols s) (by simp [hsymbol, startsWith]) ?_
    intro s' hs' htest
    have hinjective : ∀ s ∈ Symbol.all, ∀ s' ∈ Symbol.all, s'.text.toList ≠ [] ∧
        (s'.text.toList.head? = s.text.toList.head? → s' = s) := by decide
    obtain ⟨hne, hfirst⟩ := hinjective s (mem_symbols s) s' hs'
    rw [Bool.and_eq_true] at htest
    exact hfirst (hhead hne htest.2)
  have hmatch : matchSign? accepts (s.text.toList ++ rest) = some (.symbol s, s.text.length) := by
    rw [matchSign?, hcomparison, hfound]
    rfl
  rw [hlist, List.cons_append] at hmatch ⊢
  rw [match?_of_sign hdigit hword hquote, hmatch, ← hlist]
  rfl

/-- A comparison sign before a space is found whole. -/
theorem match?_comparison {sign : String} (hsign : sign ∈ comparisons)
    (haccepts : accepts .comparison = true) :
    match? accepts (sign.toList ++ ' ' :: rest) = some (.comparison, sign.toList.length) := by
  simp only [comparisons, List.mem_cons, List.not_mem_nil, or_false] at hsign
  -- the longer signs are tried first, and the space keeps `<` from being taken for `<=`
  have hmatch : matchSign? accepts (sign.toList ++ ' ' :: rest)
      = some (.comparison, sign.toList.length) := by
    simp only [matchSign?, haccepts, Bool.true_and]
    rcases hsign with rfl | rfl | rfl | rfl | rfl | rfl | rfl <;> rfl
  rw [← hmatch]
  rcases hsign with rfl | rfl | rfl | rfl | rfl | rfl | rfl <;>
    exact match?_of_sign (by decide) (by decide) (by decide) _

/-! ## Literals -/

theorem match?_whole {digits : List Char} (hdigits : IsNumeral digits)
    (haccepts : accepts .whole = true) (hrest : endsToken rest = true) :
    match? accepts (digits ++ rest) = some (.whole, digits.length) := by
  obtain ⟨hne, hall⟩ := hdigits
  obtain ⟨hnodigit, hnopoint⟩ : rest.head?.any Text.isDigit = false ∧ rest.head? ≠ some '.' := by
    cases rest with
    | nil => simp
    | cons c rest => simp_all [endsToken]
  have hdecimal : decimalLength? (digits ++ rest) = none := by
    rw [decimalLength?, Text.dropWhile_isDigit_append hall hnodigit]
    split
    · simp at hnopoint
    · rfl
  obtain ⟨c, cs, rfl⟩ := List.exists_cons_of_ne_nil hne
  rw [List.cons_append, match?, if_pos (hall c (List.mem_cons_self ..)), ← List.cons_append,
    matchNumber?, hdecimal]
  simp only [haccepts, if_true, wholeLength, Text.takeWhile_isDigit_append hall hnodigit]

/-- The literal of a text does not end inside the escape of one of its characters. -/
theorem textTail?_escape (c : Char) (cs : List Char) :
    textTail? false (Text.escape c ++ cs)
      = (textTail? false cs).map (· + (Text.escape c).length) := by
  have hpair {d : Char} (hd : d ≠ '\n') :
      textTail? false ('\\' :: d :: cs) = (textTail? false cs).map (· + 2) := by
    simp [textTail?, hd, Function.comp_def]
  unfold Text.escape
  split
  · next h =>
    refine hpair ?_
    rintro rfl
    cases h
  · next h =>
    simp only [Bool.or_eq_true, decide_eq_true_eq, not_or] at h
    split
    · exact hpair (by decide)
    · next hfeed =>
      split
      · exact hpair (by decide)
      · split
        · simp [textTail?, Function.comp_def]
        · simp [textTail?, h, hfeed]

theorem textTail?_flatMap_escape (cs : List Char) :
    textTail? false (cs.flatMap Text.escape ++ '"' :: rest)
      = some ((cs.flatMap Text.escape).length + 1) := by
  induction cs with
  | nil => rfl
  | cons c cs ih =>
    rw [List.flatMap_cons, List.append_assoc, textTail?_escape, ih]
    simp only [Option.map_some, List.length_append, Option.some.injEq]
    omega

theorem match?_text (text : String) (haccepts : accepts .text = true) :
    match? accepts ((Value.string text).write ++ rest)
      = some (.text, (Value.string text).write.length) := by
  rw [Value.write, List.cons_append, List.append_assoc, match?, if_neg (by decide),
    if_neg (by decide), if_pos rfl, if_pos haccepts]
  rw [List.singleton_append, textTail?_flatMap_escape]
  simp

/-! ## The next token -/

/-- White space is no token. -/
theorem isGap_of_match? {c : Char} {cs : List Char} {found : Terminal × Nat}
    (h : match? accepts (c :: cs) = some found) : isGap c = false := by
  cases hgap : isGap c with
  | false => rfl
  | true =>
    exfalso
    have hsign : match? accepts (c :: cs) = matchSign? accepts (c :: cs) := by
      simp only [isGap, Bool.or_eq_true, decide_eq_true_eq] at hgap
      rcases hgap with (((rfl | rfl) | rfl) | rfl) | rfl <;>
        exact match?_of_sign (by decide) (by decide) (by decide) _
    have hword {word : String} (hne : word.toList ≠ [])
        (hhead : word.toList.head?.any isGap = false) : startsWith (c :: cs) word = false := by
      rw [← Bool.not_eq_true]
      intro hstarts
      rw [head?_of_startsWith hne hstarts, Option.any_some, hgap] at hhead
      cases hhead
    have hcomparisons : ∀ sign ∈ comparisons, sign.toList ≠ [] ∧
        sign.toList.head?.any isGap = false := by decide
    have hsymbols : ∀ s ∈ Symbol.all, s.text.toList ≠ [] ∧
        s.text.toList.head?.any isGap = false := by decide
    have hnone : matchSign? accepts (c :: cs) = none := by
      rw [matchSign?, List.find?_eq_none.2, List.find?_eq_none.2, Option.map_none]
      · intro s hs
        simp [hword (hsymbols s hs).1 (hsymbols s hs).2]
      · intro sign hsign
        simp [hword (hcomparisons sign hsign).1 (hcomparisons sign hsign).2]
    rw [hsign, hnone] at h
    cases h

theorem next_of_match? {position : Position} {lexeme : List Char} {terminal : Terminal}
    (hne : lexeme ≠ [])
    (hmatch : match? accepts (lexeme ++ rest) = some (terminal, lexeme.length)) :
    next accepts position (lexeme ++ rest) =
      .token ⟨terminal, String.ofList lexeme, position⟩ rest (position.advanceBy lexeme) := by
  obtain ⟨c, lexeme, rfl⟩ := List.exists_cons_of_ne_nil hne
  rw [List.cons_append] at hmatch
  have hgap := isGap_of_match? hmatch
  rw [next, List.cons_append, List.takeWhile_cons_of_neg (by simp [hgap]),
    List.dropWhile_cons_of_neg (by simp [hgap])]
  dsimp only
  rw [hmatch]
  dsimp only
  rw [← List.cons_append, List.take_left, List.drop_left]
  rfl

/-- White space only moves the place of the next token. -/
theorem next_gap {c : Char} (hgap : isGap c = true) (position : Position) (cs : List Char) :
    next accepts position (c :: cs) = next accepts (position.advance c) cs := by
  rw [next, next, List.takeWhile_cons_of_pos hgap, List.dropWhile_cons_of_pos hgap]
  rfl

end Lexer

/-! ## What literals denote -/

namespace Text

variable {names : Names}

theorem decodeFrom_cons {state next : Literal.State} {c : Char} {out : List Char}
    (h : Literal.step names '"' state c = some (out, next)) (cs : List Char) :
    Literal.decodeFrom names '"' state (c :: cs)
      = (Literal.decodeFrom names '"' next cs).map (out ++ ·) := by
  rw [Literal.decodeFrom, h]
  cases hrest : Literal.decodeFrom names '"' next cs <;> simp [hrest]

/-- The escape of a character denotes that character. -/
theorem decodeFrom_escape (c : Char) (cs : List Char) :
    Literal.decodeFrom names '"' .plain (escape c ++ cs)
      = (Literal.decodeFrom names '"' .plain cs).map (c :: ·) := by
  have hbackslash : Literal.step names '"' .plain '\\' = some ([], .escape) := rfl
  have hpair {d : Char} (hd : Literal.step names '"' .escape d = some ([c], .plain)) :
      Literal.decodeFrom names '"' .plain ('\\' :: d :: cs)
        = (Literal.decodeFrom names '"' .plain cs).map (c :: ·) := by
    rw [decodeFrom_cons hbackslash, decodeFrom_cons hd, Option.map_map]
    rfl
  unfold escape
  split
  · next h =>
    simp only [Bool.or_eq_true, decide_eq_true_eq] at h
    rcases h with rfl | rfl
    · exact hpair rfl
    · exact hpair rfl
  · next h =>
    simp only [Bool.or_eq_true, decide_eq_true_eq, not_or] at h
    split
    · next hfeed =>
      subst hfeed
      exact hpair rfl
    · next hfeed =>
      split
      · next hreturn =>
        subst hreturn
        exact hpair rfl
      · next hreturn =>
        split
        · next hzero =>
          subst hzero
          have hmark : Literal.step names '"' .escape 'x' = some ([], .hexadecimal 1 0) := rfl
          have hfirst : Literal.step names '"' (.hexadecimal 1 0) '0'
              = some ([], .hexadecimal 0 0) := rfl
          have hsecond : Literal.step names '"' (.hexadecimal 0 0) '0'
              = some (['\x00'], .plain) := rfl
          simp only [List.cons_append, List.nil_append]
          rw [decodeFrom_cons hbackslash, decodeFrom_cons hmark, decodeFrom_cons hfirst,
            decodeFrom_cons hsecond]
          simp only [Option.map_map, Function.comp_def, List.nil_append, List.cons_append]
        · next hzero =>
          have hplain : Literal.step names '"' .plain c = some ([c], .plain) := by
            simp [Literal.step, Literal.plainStep, Literal.isForbidden, h, hfeed, hreturn, hzero]
          exact decodeFrom_cons hplain cs

theorem decodeFrom_flatMap_escape (cs : List Char) :
    Literal.decodeFrom names '"' .plain (cs.flatMap escape ++ ['"']) = some cs := by
  induction cs with
  | nil => rfl
  | cons c cs ih =>
    rw [List.flatMap_cons, List.append_assoc, decodeFrom_escape, ih]
    rfl

/-- The literal of a text denotes the text. -/
theorem decodeLiteral?_write (text : String) :
    decodeLiteral? names (String.ofList (Value.string text).write) = some text := by
  rw [decodeLiteral?, String.toList_ofList, Value.write]
  dsimp only
  rw [if_pos (by decide), decodeFrom_flatMap_escape]
  simp

end Text

namespace Integer

theorem digitValue?_of_isDigit {c : Char} (h : c.isDigit = true) :
    Text.digitValue? c = some (c.toNat - '0'.toNat) := by
  have hrange := Text.toNat_of_isDigit h
  rw [Text.digitValue?, Text.digitZeros, List.find?_cons_of_pos]
  · rfl
  · simp only [Bool.and_eq_true, decide_eq_true_eq]
    omega

theorem isNumeral_toDigits (n : Nat) : IsNumeral (Nat.toDigits 10 n) := by
  refine ⟨Nat.toDigits_ne_nil, fun c hc => ?_⟩
  have hc : c.isDigit = true := Nat.isDigit_of_mem_toDigits (by decide) (by decide) hc
  rw [Text.isDigit, digitValue?_of_isDigit hc]
  rfl

theorem numeral_toDigits (n : Nat) : numeral (Nat.toDigits 10 n) = n := by
  have hdigits : ∀ c ∈ Nat.toDigits 10 n, c.isDigit = true := fun c hc =>
    Nat.isDigit_of_mem_toDigits (by decide) (by decide) hc
  have hvalues : (Nat.toDigits 10 n).filterMap Text.digitValue?
      = (Nat.toDigits 10 n).map fun c => c.toNat - '0'.toNat := by
    rw [← List.filterMap_eq_map]
    exact List.filterMap_congr fun c hc => digitValue?_of_isDigit (hdigits c hc)
  rw [numeral, hvalues, Text.ofDigits, List.foldl_map]
  rw [← Nat.ofDigitChars_eq_foldl, Nat.ofDigitChars_ten_toDigits]

/-- An integer has few enough digits to be read. -/
theorem length_toDigits_le {n : Nat} (h : n ≤ 2147483647) :
    (Nat.toDigits 10 n).length ≤ maxDigits := by
  have hlength : (Nat.toDigits 10 n).length ≤ 10 :=
    (Nat.length_toDigits_le_iff (by decide) (by decide)).2 (by omega)
  exact hlength.trans (by decide)

end Integer

/-- The digits of numbers mean nothing to the scan for statement ends. -/
theorem Source.isOrdinary_of_isNumeral {digits : List Char} (h : IsNumeral digits) :
    ∀ c ∈ digits, isOrdinary c = true := by
  intro c hc
  have hspecial : specials.all (fun d => !Text.isDigit d) = true := by decide
  simp only [isOrdinary, Text.isBlank_of_isDigit (h.2 c hc), Bool.not_false, Bool.true_and,
    Bool.not_eq_true', List.contains_eq_mem, decide_eq_false_iff_not]
  intro hmem
  have hnot := List.all_eq_true.1 hspecial c hmem
  rw [h.2 c hc] at hnot
  cases hnot

end ScriptLang
