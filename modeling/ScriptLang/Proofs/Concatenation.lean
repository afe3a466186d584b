import ScriptLang.Proofs.Brackets
import ScriptLang.Proofs.LineBoundaries
import ScriptLang.Proofs.Relocation
import Mathlib.Data.List.Find

set_option autoImplicit false

/-! # Two programs in one text

Two program texts with a line feed between them are the text of both programs, one after the other
(`Program.parse_lineFeed`). The text with statement ends is that of the first and that of the second
with the line feed between them, since nothing is open at the end of the first
(`Source.terminate_lineFeed`). No token goes on across the line feed (`Reader.Takes.append`), and
the second program is read behind the first as it is read alone (`Reader.takes_behind`). Two things
are asked for: that the first text does not end in a comment that swallows the second, and that the
second does not start with an `else`, which a conditional at the end of the first could take. -/

namespace ScriptLang

/-! ## No token goes on across a line feed -/

namespace Lexer

variable {accepts : Terminal → Bool} {cs : List Char}

theorem takeWhile_lineFeed {test : Char → Bool} (h : test '\n' = false) (cs rest : List Char) :
    (cs ++ '\n' :: rest).takeWhile test = cs.takeWhile test := by
  induction cs with
  | nil => simp [h]
  | cons c cs ih => rw [List.cons_append, List.takeWhile_cons, List.takeWhile_cons, ih]

theorem dropWhile_lineFeed {test : Char → Bool} (h : test '\n' = false) (cs rest : List Char) :
    (cs ++ '\n' :: rest).dropWhile test = cs.dropWhile test ++ '\n' :: rest := by
  induction cs with
  | nil => simp [h]
  | cons c cs ih =>
    rw [List.cons_append, List.dropWhile_cons, List.dropWhile_cons]
    split
    · exact ih
    · rfl

theorem startsWith_lineFeed {word : String} (h : '\n' ∉ word.toList) (cs rest : List Char) :
    startsWith (cs ++ '\n' :: rest) word = startsWith cs word := by
  unfold startsWith
  generalize word.toList = letters at h
  induction letters generalizing cs with
  | nil => rfl
  | cons d letters ih =>
    simp only [List.mem_cons, not_or] at h
    cases cs with
    | nil => simp [List.isPrefixOf, Ne.symm h.1]
    | cons c cs => rw [List.cons_append, List.isPrefixOf, List.isPrefixOf, ih cs h.2]

theorem decimalLength?_lineFeed (cs rest : List Char) :
    decimalLength? (cs ++ '\n' :: rest) = decimalLength? cs := by
  have hdigit : Text.isDigit '\n' = false := by decide
  unfold decimalLength? wholeLength
  rw [dropWhile_lineFeed hdigit, takeWhile_lineFeed hdigit]
  cases hdrop : cs.dropWhile Text.isDigit with
  | nil => rfl
  | cons c tail =>
    rw [List.cons_append]
    by_cases hpoint : c = '.'
    · subst hpoint
      simp only [takeWhile_lineFeed hdigit]
    · simp [hpoint]

theorem textTail?_lineFeed (odd : Bool) (cs rest : List Char) :
    textTail? odd (cs ++ '\n' :: rest) = textTail? odd cs := by
  induction cs generalizing odd with
  | nil => rfl
  | cons c cs ih => rw [List.cons_append, textTail?, textTail?, ih]

theorem matchNumber?_lineFeed (cs rest : List Char) :
    matchNumber? accepts (cs ++ '\n' :: rest) = matchNumber? accepts cs := by
  unfold matchNumber? wholeLength
  rw [decimalLength?_lineFeed, takeWhile_lineFeed (by decide)]

theorem matchWord?_lineFeed (cs rest : List Char) :
    matchWord? accepts (cs ++ '\n' :: rest) = matchWord? accepts cs := by
  have hkeywords : ∀ k : Keyword, '\n' ∉ k.text.toList := by
    intro k
    cases k <;> decide
  unfold matchWord?
  simp only [takeWhile_lineFeed (show isWordCharacter '\n' = false by decide),
    startsWith_lineFeed (hkeywords _)]

theorem matchSign?_lineFeed (cs rest : List Char) :
    matchSign? accepts (cs ++ '\n' :: rest) = matchSign? accepts cs := by
  have hsigns : ∀ sign ∈ comparisons, '\n' ∉ sign.toList := by decide
  have hsymbols : ∀ s : Symbol, '\n' ∉ s.text.toList := by
    intro s
    cases s <;> decide
  unfold matchSign?
  rw [List.find?_congr fun sign hsign => by rw [startsWith_lineFeed (hsigns sign hsign)]]
  simp only [startsWith_lineFeed (hsymbols _)]

/-- What is found at the start of a text is found if a line feed follows it, too. -/
theorem match?_lineFeed (hne : cs ≠ []) (rest : List Char) :
    match? accepts (cs ++ '\n' :: rest) = match? accepts cs := by
  obtain ⟨c, cs, rfl⟩ := List.exists_cons_of_ne_nil hne
  rw [List.cons_append, match?, match?, textTail?_lineFeed, ← List.cons_append,
    matchNumber?_lineFeed, matchWord?_lineFeed, matchSign?_lineFeed]

/-- No token has a line feed in it. -/
theorem lineFeed_notMem_of_matches {terminal : Terminal} (h : terminal.Matches cs) : '\n' ∉ cs := by
  intro hmem
  by_cases htext : terminal = .text
  · subst htext
    obtain ⟨inner, n, rfl, hinner, -⟩ := h
    simp [hinner] at hmem
  · exact absurd (isTokenCharacter_of_matches h htext _ hmem) (by decide)

theorem length_of_match? {terminal : Terminal} {n : Nat}
    (h : match? accepts cs = some (terminal, n)) : n ≤ cs.length := by
  have hne : cs ≠ [] := by
    rintro rfl
    cases h
  rw [← match?_lineFeed hne []] at h
  have hlineFeed := lineFeed_notMem_of_matches (match?_matches h).2
  by_contra hlength
  rw [List.take_of_length_le (by simp; omega)] at hlineFeed
  simp at hlineFeed

/-- The next token of a text is that of the text with a line feed and more after it. -/
theorem next_lineFeed {q after : Position} {rest : List Char} {t : Token}
    (h : next accepts q cs = .token t rest after) (more : List Char) :
    next accepts q (cs ++ '\n' :: more) = .token t (rest ++ '\n' :: more) after := by
  obtain ⟨length, hmatch, htext, rfl, hstart, hafter⟩ := next_eq_token_iff.1 h
  have hne : cs.dropWhile isGap ≠ [] := by
    intro hnil
    rw [hnil] at hmatch
    cases hmatch
  have hlength := length_of_match? hmatch
  have hdrop := dropWhile_gap_append hne ('\n' :: more)
  have htake := takeWhile_gap_append hne ('\n' :: more)
  refine next_eq_token_iff.2 ⟨length, ?_, ?_, ?_, ?_, hafter⟩
  · rw [hdrop, match?_lineFeed hne, hmatch]
  · rw [hdrop, List.take_append_of_le_length hlength, htext]
  · rw [hdrop, List.drop_append_of_le_length hlength]
  · rw [htake, hstart]

/-- A token and what follows it take up all of the text. -/
theorem advanceBy_of_next {q after : Position} {rest : List Char} {t : Token}
    (h : next accepts q cs = .token t rest after) : after.advanceBy rest = q.advanceBy cs := by
  obtain ⟨length, -, htext, rfl, hstart, rfl⟩ := next_eq_token_iff.1 h
  rw [htext, hstart, ← Position.advanceBy_append, ← Position.advanceBy_append,
    List.take_append_drop, List.takeWhile_append_dropWhile]

/-- The word that a text starts with, after white space. -/
def firstWord (cs : List Char) : List Char :=
  (cs.dropWhile isGap).takeWhile isWordCharacter

end Lexer

namespace Reader

variable {s mid final : State} {q : Position} {cs rest : List Char} {ts ts' : List Token}

theorem Takes.gap {gap : List Char} (hgap : ∀ c ∈ gap, Lexer.isGap c = true)
    (h : Takes s (q.advanceBy gap) cs ts final) : Takes s q (gap ++ cs) ts final := by
  induction gap generalizing q with
  | nil => exact h
  | cons c gap ih =>
    have hc := hgap c (List.mem_cons_self ..)
    have hrest : Takes s (q.advance c) (gap ++ cs) ts final :=
      ih (fun d hd => hgap d (List.mem_cons_of_mem _ hd)) h
    cases hrest with
    | finish hcs => exact .finish (List.forall_mem_cons.2 ⟨hc, hcs⟩)
    | token hnext hstep hrest =>
      exact .token ((Lexer.next_gap hc q _).trans hnext) hstep hrest

/-- What is taken from one text and then from another is taken from both with a line feed between
them. -/
theorem Takes.append (h : Takes s q cs ts mid)
    (h' : Takes mid (q.advanceBy (cs ++ ['\n'])) rest ts' final) :
    Takes s q (cs ++ '\n' :: rest) (ts ++ ts') final := by
  induction h with
  | @finish s q gap hgap =>
    have hgaps : ∀ c ∈ gap ++ ['\n'], Lexer.isGap c = true := by
      intro c hc
      rcases List.mem_append.1 hc with hc | hc
      · exact hgap c hc
      · rw [List.mem_singleton.1 hc]
        rfl
    have hrest := Takes.gap hgaps h'
    rwa [List.append_assoc] at hrest
  | token hnext hstep _ ih =>
    refine .token (Lexer.next_lineFeed hnext rest) hstep (ih ?_)
    rwa [Position.advanceBy_append, Lexer.advanceBy_of_next hnext, ← Position.advanceBy_append]

/-! ## The second text -/

/-- Where the text does not start with an `else`, it does not matter that one would be accepted. -/
theorem match?_statement (afterBlock : Bool)
    (h : cs.takeWhile Lexer.isWordCharacter ≠ Keyword.elseWord.text.toList) :
    Lexer.match? (accepts (.statement afterBlock)) cs
      = Lexer.match? (accepts (.statement false)) cs := by
  cases afterBlock with
  | false => rfl
  | true =>
    have hsame : ∀ t : Terminal, t ≠ .keyword .elseWord →
        accepts (.statement true) t = accepts (.statement false) t := by
      intro t ht
      simp [accepts, ht]
    have hkeywords : ∀ k : Keyword,
        (accepts (.statement true) (.keyword k)
            && k.text.toList == cs.takeWhile Lexer.isWordCharacter)
          = (accepts (.statement false) (.keyword k)
            && k.text.toList == cs.takeWhile Lexer.isWordCharacter) := by
      intro k
      by_cases hk : k = .elseWord
      · rw [hk, beq_eq_false_iff_ne.2 (Ne.symm h), Bool.and_false, Bool.and_false]
      · rw [hsame _ (by simpa using hk)]
    have hword : Lexer.matchWord? (accepts (.statement true)) cs
        = Lexer.matchWord? (accepts (.statement false)) cs := by
      have haccepts (afterBlock : Bool) : accepts (.statement afterBlock) .word = true := rfl
      unfold Lexer.matchWord?
      simp only [haccepts, if_true, hkeywords]
    have hsign : Lexer.matchSign? (accepts (.statement true)) cs
        = Lexer.matchSign? (accepts (.statement false)) cs := by
      have hsymbols (symbol : Symbol) := hsame (.symbol symbol) (by simp)
      unfold Lexer.matchSign?
      simp only [hsymbols, hsame .comparison (by simp)]
    cases cs with
    | nil => rfl
    | cons c rest =>
      rw [Lexer.match?, Lexer.match?, hword, hsign]
      rfl

theorem next_statement (afterBlock : Bool) {after : Position} {t : Token}
    (h : Lexer.next (accepts (.statement false)) q cs = .token t rest after)
    (helse : Lexer.firstWord cs ≠ Keyword.elseWord.text.toList) :
    Lexer.next (accepts (.statement afterBlock)) q cs = .token t rest after := by
  obtain ⟨length, hmatch, hplaced⟩ := Lexer.next_eq_token_iff.1 h
  rw [← match?_statement afterBlock helse] at hmatch
  exact Lexer.next_eq_token_iff.2 ⟨length, hmatch, hplaced⟩

/-- A program that does not start with an `else` is read behind another as it is read alone, and its
statements stand after those of the other. -/
theorem takes_behind (p : Preface) {afterBlock : Bool} {trees : List Tree}
    (hexpectation : s.expectation = .statement afterBlock)
    (hframes : settle s.frames = [.program p.statements])
    (helse : Lexer.firstWord cs ≠ Keyword.elseWord.text.toList)
    (h : Takes .initial {} cs ts final)
    (hfinish : finish? final = some (Tree.ofChildren .program trees)) :
    ∃ last, Takes s (p.position {}) cs (ts.map p.token) last ∧
      finish? last
        = some (Tree.ofChildren .program (p.statements.reverse ++ trees.map p.tree)) := by
  obtain ⟨afterBlock', statements, hexpectation', hframes', htree⟩ := finish?_eq_some_iff.1 hfinish
  obtain rfl : trees = statements.reverse := by injection htree
  cases h with
  | finish hgap =>
    -- nothing but white space
    injection hframes' with hstatements
    injection hstatements with hstatements
    subst hstatements
    exact ⟨s, .finish hgap, finish?_eq_some_iff.2 ⟨_, _, hexpectation, hframes, by simp⟩⟩
  | @token _ s' _ _ after _ rest t ts hnext hstep hrest =>
    have hterminal : t.terminal ≠ .keyword .elseWord := by
      intro hterminal
      have haccepts := (Lexer.next_token hnext).1
      rw [hterminal] at haccepts
      cases haccepts
    have hmoved : step s (p.token t) = some (p.state s') := by
      rw [step_statement rfl hterminal] at hstep
      rw [step_statement (t := p.token t) hexpectation hterminal, hframes]
      exact p.startStatement hstep
    refine ⟨p.state final, .token ?_ hmoved (hrest.moved p), ?_⟩
    · rw [hexpectation]
      exact p.next (next_statement afterBlock hnext helse)
    · refine finish?_eq_some_iff.2 ⟨afterBlock', statements.map p.tree ++ p.statements, ?_, ?_, ?_⟩
      · rw [Preface.state, hexpectation']
        rfl
      · rw [Preface.state, p.settle, hframes']
        rfl
      · rw [List.reverse_append, List.map_reverse]

end Reader

/-! ## Both programs -/

/-- A program means the statements that its trees mean. -/
theorem Tree.meaning_ofChildren_program {names : Text.Names} {source : List Char}
    {trees : List Tree} {body : List Node} :
    (ofChildren .program trees).meaning names source = .ok (.node (.program body)) ↔
      ∃ parts, meanings names source trees = .ok parts ∧ body = parts.filterMap Part.toNode? := by
  rw [ofChildren, meaning]
  constructor
  · intro h
    obtain ⟨parts, hparts, hbody⟩ := exists_of_bind_eq_ok h
    cases hbody
    exact ⟨parts, hparts, rfl⟩
  · rintro ⟨parts, hparts, rfl⟩
    rw [hparts]
    rfl

theorem Tree.meaning_append_program {names : Text.Names} {source source' : List Char}
    {trees trees' : List Tree} {body body' : List Node} (f : Span → Span)
    (h : (ofChildren .program trees).meaning names source = .ok (.node (.program body)))
    (h' : (ofChildren .program trees').meaning names source' = .ok (.node (.program body')))
    (both : List Char) :
    (ofChildren .program (trees ++ trees'.map (mapSpan f))).meaning names both
      = .ok (.node (.program (body ++ body'))) := by
  obtain ⟨parts, hparts, rfl⟩ := meaning_ofChildren_program.1 h
  obtain ⟨parts', hparts', rfl⟩ := meaning_ofChildren_program.1 h'
  have hfirst : meanings names both trees = .ok parts := by
    rw [← mapSpans_id trees]
    exact meanings_mapSpans hparts
  have hsecond : meanings names both (trees'.map (mapSpan f)) = .ok parts' := by
    rw [← mapSpans_eq_map]
    exact meanings_mapSpans hparts'
  refine meaning_ofChildren_program.2 ⟨parts ++ parts', ?_, List.filterMap_append.symm⟩
  rw [meanings_append, hfirst, hsecond]
  rfl

/-- Two texts that can be read can be read with a line feed between them, if the second does not
start with an `else`. The statements of the second stand in other places then. -/
theorem Tree.read_lineFeed {first second : String} {tree tree' : Tree}
    (h : read first = .ok tree) (h' : read second = .ok tree')
    (helse : Lexer.firstWord second.toList ≠ Keyword.elseWord.text.toList) :
    ∃ trees trees' f, tree = ofChildren .program trees ∧ tree' = ofChildren .program trees' ∧
      read (first ++ "\n" ++ second)
        = .ok (ofChildren .program (trees ++ trees'.map (mapSpan f))) := by
  obtain ⟨final, htakes, hfinish⟩ := takes_of_read h
  obtain ⟨final', htakes', hfinish'⟩ := takes_of_read h'
  obtain ⟨afterBlock, statements, hexpectation, hframes, rfl⟩ :=
    Reader.finish?_eq_some_iff.1 hfinish
  obtain ⟨_, statements', -, -, rfl⟩ := Reader.finish?_eq_some_iff.1 hfinish'
  -- the second text starts in the line after the first
  let place := Position.advanceBy {} first.toList
  let p : Reader.Preface := ⟨place.offset + 1, place.line, statements⟩
  have hplace : p.position {} = Position.advanceBy {} (first.toList ++ ['\n']) := by
    rw [Position.advanceBy_append]
    rfl
  obtain ⟨last, hbehind, hlast⟩ :=
    Reader.takes_behind p hexpectation hframes helse htakes' hfinish'
  rw [hplace] at hbehind
  have htext : (first ++ "\n" ++ second).toList = first.toList ++ '\n' :: second.toList := by
    simp
  refine ⟨statements.reverse, statements'.reverse, p.span, rfl, rfl, ?_⟩
  have hboth := htakes.append hbehind
  rw [← htext] at hboth
  exact hboth.readFrom hlast {} (Nat.le_refl _)

/-- Statement ends are found apart in two texts, if the first can be read and does not end in a
block comment. -/
theorem Source.terminate_lineFeed {first : String} {tree : Tree}
    (h : Tree.read (terminate first) = .ok tree) (hcomment : endsInComment first = false)
    (second : String) :
    terminate (first ++ "\n" ++ second) = terminate first ++ "\n" ++ terminate second := by
  have hlevel := level_of_read h
  have hrest : (scanFrom {} first.toList).AtRest :=
    ⟨congrArg Level.depth hlevel, congrArg Level.literal? hlevel,
      by simpa [endsInComment] using hcomment⟩
  exact terminate_lineFeed_iff.2 (hrest.restarts second.toList)

/-- **Concatenation.** A program text with a line feed and a second one after it is the text of both
programs, one after the other, if the first does not end in a block comment and the second does not
start with an `else`. -/
theorem Program.parse_lineFeed {names : Text.Names} {first second : String}
    {body body' : List Node}
    (h : parse names first = .ok body) (h' : parse names second = .ok body')
    (hcomment : Source.endsInComment first = false)
    (helse : Lexer.firstWord (Source.terminate second).toList ≠ Keyword.elseWord.text.toList) :
    parse names (first ++ "\n" ++ second) = .ok (body ++ body') := by
  obtain ⟨tree, hread, hmeaning⟩ := read_of_parse h
  obtain ⟨tree', hread', hmeaning'⟩ := read_of_parse h'
  have htext := Source.terminate_lineFeed hread hcomment second
  obtain ⟨trees, trees', f, rfl, rfl, hboth⟩ := Tree.read_lineFeed hread hread' helse
  exact parse_of_meaning htext hboth (Tree.meaning_append_program f hmeaning hmeaning' _)

/-- After a conditional with a comment behind it, a name that starts with `else` is a name. -/
theorem Program.parse_lineFeed_elsewhere :
    let first := "if b \x7b print \"(\" \x7d # ("
    let second := "elsewhere = 1"
    let body : List Node :=
      [.conditional (.reference "b") (.block [.print [.literal (.string "(")]]) none]
    let body' : List Node := [.assignment "elsewhere" (.literal (.integer 1))]
    Program.parse Text.unnamed first = .ok body ∧ Program.parse Text.unnamed second = .ok body' ∧
      Source.endsInComment first = false ∧
      Lexer.firstWord (Source.terminate second).toList ≠ Keyword.elseWord.text.toList ∧
      Program.parse Text.unnamed (first ++ "\n" ++ second) = .ok (body ++ body') := by
  intro first second body body'
  have htext : Source.terminate first = "if b \x7b print \"(\" ;\x7d " := by decide +kernel
  have htext' : Source.terminate second = "elsewhere = 1;" := by decide +kernel
  have hread : Tree.read "if b \x7b print \"(\" ;\x7d " = .ok (.branch .program (some ⟨0, 19⟩)
      [.branch .conditional (some ⟨0, 19⟩)
        [.branch .reference (some ⟨3, 4⟩) [.leaf "b"],
          .branch .block (some ⟨5, 19⟩)
            [.branch .print (some ⟨7, 18⟩)
              [.branch .textLiteral (some ⟨13, 16⟩) [.leaf "\"(\""]]]]]) := by
    rfl
  have hread' : Tree.read "elsewhere = 1;" = .ok (.branch .program (some ⟨0, 14⟩)
      [.branch .assignment (some ⟨0, 14⟩)
        [.leaf "elsewhere", .branch .wholeLiteral (some ⟨12, 13⟩) [.leaf "1"]]]) := by
    rfl
  have h : Program.parse Text.unnamed first = .ok body :=
    Program.parse_of_meaning htext hread rfl
  have h' : Program.parse Text.unnamed second = .ok body' :=
    Program.parse_of_meaning htext' hread' rfl
  have hcomment : Source.endsInComment first = false := by decide +kernel
  have helse : Lexer.firstWord (Source.terminate second).toList
      ≠ Keyword.elseWord.text.toList := by
    rw [htext']
    decide +kernel
  exact ⟨h, h', hcomment, helse, Program.parse_lineFeed h h' hcomment helse⟩

end ScriptLang
