import ScriptLang.Proofs.Grammar
import Mathlib.Data.List.TakeWhile
import Mathlib.Tactic.SplitIfs
import Mathlib.Tactic.Tauto

set_option autoImplicit false

/-! # Tokens and the text they stand in

A token that the lexer finds has a text of its terminal (`Lexer.match?_matches`), and it stands at
the front of the text, after nothing but white space (`Lexer.next_token`). So nothing is skipped,
and every token takes at least one character. -/

namespace ScriptLang

theorem Terminal.Matches.ne_nil {terminal : Terminal} {cs : List Char}
    (h : terminal.Matches cs) : cs ≠ [] := by
  rintro rfl
  cases terminal with
  | symbol s => cases s <;> simp [Matches, Symbol.text] at h
  | keyword k => cases k <;> simp [Matches, Keyword.text] at h
  | comparison => simp [Matches] at h
  | decimal =>
    obtain ⟨whole, fraction, hcs, _⟩ := h
    simp at hcs
  | whole => exact h.1 rfl
  | word =>
    obtain ⟨c, rest, hcs, _⟩ := h
    simp at hcs
  | text =>
    obtain ⟨inner, n, hcs, _⟩ := h
    simp at hcs
  | finish => exact h

namespace Lexer

/-! ## The length of a token -/

theorem take_wholeLength (cs : List Char) :
    cs.take (wholeLength cs) = cs.takeWhile Text.isDigit := by
  rw [wholeLength]
  exact (List.prefix_iff_eq_take.1 (List.takeWhile_prefix _)).symm

theorem isNumeral_takeWhile {cs : List Char} (h : wholeLength cs ≠ 0) :
    IsNumeral (cs.takeWhile Text.isDigit) :=
  ⟨fun hnil => h (by simp [wholeLength, hnil]), fun _ hc => List.mem_takeWhile_imp hc⟩

theorem decimalLength?_matches {cs : List Char} {n : Nat} (hwhole : wholeLength cs ≠ 0)
    (h : decimalLength? cs = some n) : Terminal.decimal.Matches (cs.take n) := by
  unfold decimalLength? at h
  split at h
  · next rest hdrop =>
    dsimp only at h
    split_ifs at h with hfraction
    cases h
    refine ⟨cs.takeWhile Text.isDigit, rest.takeWhile Text.isDigit, ?_,
      isNumeral_takeWhile hwhole, isNumeral_takeWhile hfraction⟩
    rw [← take_wholeLength rest]
    calc cs.take (wholeLength cs + 1 + wholeLength rest)
        = (cs.takeWhile Text.isDigit ++ '.' :: rest).take
            (wholeLength cs + (wholeLength rest + 1)) := by
          rw [← hdrop, List.takeWhile_append_dropWhile, Nat.add_assoc, Nat.add_comm 1]
      _ = cs.takeWhile Text.isDigit ++ '.' :: rest.take (wholeLength rest) := by
          rw [List.take_append, wholeLength, List.take_of_length_le (by omega),
            Nat.add_sub_cancel_left, List.take_succ_cons]
  · cases h

/-- The text up to the quote that ends it. What stands before counts only by its last backslash. -/
theorem textTail?_take {odd : Bool} {cs : List Char} {n : Nat} (h : textTail? odd cs = some n) :
    ∃ inner k, (if odd then ['\\'] else []) ++ cs.take n
        = inner ++ List.replicate (2 * k) '\\' ++ ['"'] ∧
      '\n' ∉ inner ∧ inner.getLast? ≠ some '\\' := by
  induction cs generalizing odd n with
  | nil => simp [textTail?] at h
  | cons c rest ih =>
    rw [textTail?] at h
    split_ifs at h with hline hquote
    · cases h
      simp only [Bool.and_eq_true, decide_eq_true_eq, Bool.not_eq_true'] at hquote
      obtain ⟨rfl, rfl⟩ := hquote
      exact ⟨[], 0, by simp⟩
    · obtain ⟨m, hm, rfl⟩ := Option.map_eq_some_iff.1 h
      obtain ⟨inner, k, hinner, hfeed, hlast⟩ := ih hm
      by_cases hslash : c = '\\'
      · subst hslash
        cases odd with
        | false => exact ⟨inner, k, by simpa using hinner, hfeed, hlast⟩
        | true =>
          -- two backslashes: they belong to the run at the end if nothing comes between
          simp only [decide_true, Bool.not_true, Bool.and_false, Bool.false_eq_true, if_false,
            List.nil_append] at hinner
          cases inner with
          | nil =>
            refine ⟨[], k + 1, ?_, by simp, by simp⟩
            simp [List.take_succ_cons, hinner, Nat.mul_add, List.replicate_succ]
          | cons d inner =>
            refine ⟨'\\' :: '\\' :: d :: inner, k, ?_, ?_, ?_⟩
            · simp [List.take_succ_cons, hinner]
            · simpa using hfeed
            · simpa [List.getLast?_cons_cons] using hlast
      · simp only [hslash, decide_false, Bool.false_and, Bool.false_eq_true, if_false,
          List.nil_append] at hinner
        refine ⟨(if odd then ['\\'] else []) ++ c :: inner, k, ?_, ?_, ?_⟩
        · simp [List.take_succ_cons, hinner]
        · have hne : ¬ '\n' = c := fun he => hline he.symm
          cases odd <;> simp [hne, hfeed]
        · rw [List.getLast?_append, List.getLast?_cons, Option.some_or]
          cases inner with
          | nil => simpa using hslash
          | cons d inner => simpa [List.getLast?_cons] using hlast

/-! ## Matching -/

theorem take_of_startsWith {cs : List Char} {word : String} (h : startsWith cs word = true) :
    cs.take word.length = word.toList := by
  rw [startsWith, List.isPrefixOf_iff_prefix] at h
  rw [List.prefix_iff_eq_take.1 h, String.length_toList]

theorem matchNumber?_matches {accepts : Terminal → Bool} {c : Char} {cs : List Char}
    {terminal : Terminal} {n : Nat} (hc : Text.isDigit c = true)
    (h : matchNumber? accepts (c :: cs) = some (terminal, n)) :
    accepts terminal = true ∧ terminal.Matches ((c :: cs).take n) := by
  have hwhole : wholeLength (c :: cs) ≠ 0 := by
    simp [wholeLength, hc]
  have hnumeral : Terminal.whole.Matches ((c :: cs).take (wholeLength (c :: cs))) := by
    rw [take_wholeLength]
    exact isNumeral_takeWhile hwhole
  unfold matchNumber? at h
  split at h
  · next length hlength =>
    split_ifs at h with hdecimal hinteger
    · cases h
      exact ⟨hdecimal, decimalLength?_matches hwhole hlength⟩
    · cases h
      exact ⟨hinteger, hnumeral⟩
  · split_ifs at h with hinteger
    cases h
    exact ⟨hinteger, hnumeral⟩

theorem matchWord?_matches {accepts : Terminal → Bool} {c : Char} {cs : List Char}
    {terminal : Terminal} {n : Nat} (hc : isWordStart c = true)
    (h : matchWord? accepts (c :: cs) = some (terminal, n)) :
    accepts terminal = true ∧ terminal.Matches ((c :: cs).take n) := by
  have hcharacter : isWordCharacter c = true := by
    simp only [isWordStart, isWordCharacter, Char.isAlphanum, Bool.or_eq_true] at hc ⊢
    tauto
  have htake : (c :: cs).take ((c :: cs).takeWhile isWordCharacter).length
      = (c :: cs).takeWhile isWordCharacter :=
    (List.prefix_iff_eq_take.1 (List.takeWhile_prefix _)).symm
  unfold matchWord? at h
  split_ifs at h with hword
  · dsimp only at h
    split at h
    · next k hk =>
      cases h
      have hfound := List.find?_some hk
      simp only [Bool.and_eq_true, beq_iff_eq] at hfound
      rw [htake]
      exact ⟨hfound.1, hfound.2.symm⟩
    · cases h
      rw [htake]
      refine ⟨hword, c, cs.takeWhile isWordCharacter, ?_, hc,
        fun d hd => List.mem_takeWhile_imp hd⟩
      rw [List.takeWhile_cons, if_pos hcharacter]
  · obtain ⟨k, hk, heq⟩ := Option.map_eq_some_iff.1 h
    cases heq
    have hfound := List.find?_some hk
    rw [Bool.and_eq_true] at hfound
    exact ⟨hfound.1, take_of_startsWith hfound.2⟩

theorem matchSign?_matches {accepts : Terminal → Bool} {cs : List Char} {terminal : Terminal}
    {n : Nat} (h : matchSign? accepts cs = some (terminal, n)) :
    accepts terminal = true ∧ terminal.Matches (cs.take n) := by
  unfold matchSign? at h
  split at h
  · next sign hsign =>
    cases h
    have hfound := List.find?_some hsign
    rw [Bool.and_eq_true] at hfound
    refine ⟨hfound.1, ?_⟩
    rw [Terminal.Matches, take_of_startsWith hfound.2, String.ofList_toList]
    exact List.mem_of_find?_eq_some hsign
  · obtain ⟨s, hs, heq⟩ := Option.map_eq_some_iff.1 h
    cases heq
    have hfound := List.find?_some hs
    rw [Bool.and_eq_true] at hfound
    exact ⟨hfound.1, take_of_startsWith hfound.2⟩

/-- A token that is found is an accepted one, and its text is one of its terminal's. -/
theorem match?_matches {accepts : Terminal → Bool} {cs : List Char} {terminal : Terminal} {n : Nat}
    (h : match? accepts cs = some (terminal, n)) :
    accepts terminal = true ∧ terminal.Matches (cs.take n) := by
  cases cs with
  | nil => simp [match?] at h
  | cons c rest =>
    rw [match?] at h
    split_ifs at h with hdigit hword hquote htext
    · exact matchNumber?_matches hdigit h
    · exact matchWord?_matches hword h
    · obtain ⟨m, hm, heq⟩ := Option.map_eq_some_iff.1 h
      cases heq
      obtain ⟨inner, k, hinner, hfeed, hlast⟩ := textTail?_take hm
      refine ⟨htext, inner, k, ?_, hfeed, hlast⟩
      rw [List.take_succ_cons, hquote, ← hinner]
      rfl
    · exact matchSign?_matches h

/-! ## The next token -/

/-- Before a token stands white space, after it what is still to be read. -/
theorem next_token {accepts : Terminal → Bool} {position after : Position} {cs rest : List Char}
    {t : Token} (h : next accepts position cs = .token t rest after) :
    accepts t.terminal = true ∧ t.IsProper ∧
      ∃ gap, (∀ c ∈ gap, isGap c = true) ∧ cs = gap ++ t.text.toList ++ rest := by
  unfold next at h
  dsimp only at h
  split at h
  · cases h
  · next c cs' hdrop =>
    split at h
    · next terminal length hmatch =>
      cases h
      obtain ⟨haccepts, hmatches⟩ := match?_matches hmatch
      refine ⟨haccepts, ?_, cs.takeWhile isGap, fun d hd => List.mem_takeWhile_imp hd, ?_⟩
      · simpa [Token.IsProper] using hmatches
      · rw [String.toList_ofList, List.append_assoc, List.take_append_drop, ← hdrop,
          List.takeWhile_append_dropWhile]
    · split at h <;> cases h

theorem next_finish {accepts : Terminal → Bool} {position : Position} {cs : List Char}
    (h : next accepts position cs = .finish) : ∀ c ∈ cs, isGap c = true := by
  unfold next at h
  dsimp only at h
  split at h
  · next hdrop => exact List.dropWhile_eq_nil_iff.1 hdrop
  · split at h
    · cases h
    · split at h <;> cases h

theorem next_failed {accepts : Terminal → Bool} {position : Position} {cs : List Char}
    {e : ScriptError} (h : next accepts position cs = .failed e) : e.isGrammatical = true := by
  unfold next at h
  dsimp only at h
  split at h
  · cases h
  · split at h
    · cases h
    · split at h <;> (cases h; rfl)

end Lexer

end ScriptLang
