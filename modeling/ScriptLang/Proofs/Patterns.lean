import ScriptLang.Token.Lexer
import Mathlib.Data.List.Basic

set_option autoImplicit false

/-! # The pattern of text literals

A text literal is a quote, then as few characters as possible, then pairs of backslashes behind
something that is no backslash, then a quote. `Pattern.ends` says where a match of such a pattern
ends, for all ways to match it in the order in which they are tried; the first one counts. The lexer
finds the same end without going back, by counting whether the backslashes are even or odd
(`Pattern.matchLength?_textLiteral`). -/

namespace ScriptLang

/-- What a text can be matched with. -/
inductive Pattern where
  /-- One character of a class. -/
  | one (test : Char → Bool)
  /-- Nothing, but not right after this character. -/
  | notAfter (c : Char)
  | seq (first second : Pattern)
  /-- A pattern any number of times, fewer times first. -/
  | fewest (pattern : Pattern)

namespace Pattern

/-- A place in a text: what stands before it, from back to front, and what comes after it. -/
structure Cursor where
  before : List Char
  after : List Char

/-- The places after some turns, fewer turns first. A turn that takes nothing is none. -/
def repeats (once : Cursor → List Cursor) : (turns : Nat) → Cursor → List Cursor
  | 0, cursor => [cursor]
  | turns + 1, cursor =>
    cursor :: ((once cursor).filter (·.after.length < cursor.after.length)).flatMap
      (repeats once turns)

/-- The places where a match from here on can end, in the order in which they are tried. -/
def ends : Pattern → Cursor → List Cursor
  | one _, ⟨_, []⟩ => []
  | one test, ⟨before, c :: after⟩ => if test c then [⟨c :: before, after⟩] else []
  | notAfter c, cursor => if cursor.before.head? = some c then [] else [cursor]
  | seq first second, cursor => (first.ends cursor).flatMap second.ends
  | fewest pattern, cursor => repeats pattern.ends cursor.after.length cursor

/-- The length of the match at the start of a text. -/
def matchLength? (pattern : Pattern) (cs : List Char) : Option Nat :=
  (pattern.ends ⟨[], cs⟩).head?.map (·.before.length)

/-- A double quote. -/
def quote : Pattern := one (· = '"')

/-- Two backslashes. -/
def backslashes : Pattern := (one (· = '\\')).seq (one (· = '\\'))

/-- What ends a text literal, after its characters. -/
def closing : Pattern := (fewest backslashes).seq quote

/-- The characters of a text literal and what ends it. -/
def inside : Pattern := (fewest (one (· ≠ '\n'))).seq ((notAfter '\\').seq closing)

/-- A text literal. -/
def textLiteral : Pattern := quote.seq inside

variable {after : List Char} {c : Char}

/-! ## Repetition -/

/-- More turns than there are characters make no difference. -/
theorem repeats_of_le (once : Cursor → List Cursor) {m n : Nat} {cursor : Cursor}
    (hm : cursor.after.length ≤ m) (hn : cursor.after.length ≤ n) :
    repeats once m cursor = repeats once n cursor := by
  have hnone {n : Nat} {cursor : Cursor} (h : cursor.after.length = 0) :
      repeats once n cursor = [cursor] := by
    cases n with
    | zero => rfl
    | succ n => simp [repeats, h]
  induction m generalizing n cursor with
  | zero => rw [hnone (by omega), hnone (by omega)]
  | succ m ih =>
    cases n with
    | zero => rw [hnone (by omega), hnone (by omega)]
    | succ n =>
      rw [repeats, repeats]
      congr 1
      refine List.flatMap_congr fun next hnext => ?_
      have hshorter : next.after.length < cursor.after.length := by
        simpa using List.of_mem_filter hnext
      exact ih (by omega) (by omega)

theorem ends_fewest (pattern : Pattern) (cursor : Cursor) :
    (fewest pattern).ends cursor = cursor ::
      ((pattern.ends cursor).filter (·.after.length < cursor.after.length)).flatMap
        (fewest pattern).ends := by
  cases hlength : cursor.after.length with
  | zero => simp [ends, repeats, hlength]
  | succ turns =>
    rw [ends, hlength, repeats, hlength]
    congr 1
    refine List.flatMap_congr fun next hnext => ?_
    have hshorter : next.after.length < turns + 1 := by
      simpa using List.of_mem_filter hnext
    exact repeats_of_le _ (by omega) (Nat.le_refl _)

/-- Before what follows a repetition, one more turn may be taken. -/
theorem ends_fewest_seq (pattern second : Pattern) (cursor : Cursor) :
    ((fewest pattern).seq second).ends cursor = second.ends cursor ++
      ((pattern.ends cursor).filter (·.after.length < cursor.after.length)).flatMap
        ((fewest pattern).seq second).ends := by
  rw [ends, ends_fewest, List.flatMap_cons, List.flatMap_assoc]
  rfl

/-! ## Text literals -/

theorem ends_one_cons (test : Char → Bool) (before : List Char) (c : Char) (after : List Char) :
    (one test).ends ⟨before, c :: after⟩ = if test c then [⟨c :: before, after⟩] else [] :=
  rfl

theorem ends_closing_nil (before : List Char) : closing.ends ⟨before, []⟩ = [] := by
  rw [closing, ends_fewest_seq]
  rfl

theorem ends_closing_quote (before after : List Char) :
    closing.ends ⟨before, '"' :: after⟩ = [⟨'"' :: before, after⟩] := by
  rw [closing, ends_fewest_seq]
  rfl

theorem ends_closing_backslashes (before after : List Char) :
    closing.ends ⟨before, '\\' :: '\\' :: after⟩
      = closing.ends ⟨'\\' :: '\\' :: before, after⟩ := by
  have hpair : backslashes.ends ⟨before, '\\' :: '\\' :: after⟩
      = [⟨'\\' :: '\\' :: before, after⟩] := rfl
  have hshorter : after.length < ('\\' :: '\\' :: after).length :=
    Nat.lt_succ_of_lt (Nat.lt_succ_self _)
  rw [closing, ends_fewest_seq, hpair, List.filter_cons_of_pos (by exact decide_eq_true hshorter)]
  simp [quote, ends_one_cons]

/-- A single backslash starts no end of a literal. -/
theorem ends_closing_backslash (hc : after.head? ≠ some '\\') (before : List Char) :
    closing.ends ⟨before, '\\' :: after⟩ = [] := by
  have hpair : backslashes.ends ⟨before, '\\' :: after⟩ = [] := by
    cases after with
    | nil => rfl
    | cons c after =>
      have hne : c ≠ '\\' := by simpa using hc
      simp [backslashes, ends, hne]
  rw [closing, ends_fewest_seq, hpair]
  simp [quote, ends_one_cons]

theorem ends_closing_of_ne (hquote : c ≠ '"') (hslash : c ≠ '\\') (before after : List Char) :
    closing.ends ⟨before, c :: after⟩ = [] := by
  have hpair : backslashes.ends ⟨before, c :: after⟩ = [] := by
    simp [backslashes, ends, hslash]
  rw [closing, ends_fewest_seq, hpair]
  simp [quote, ends_one_cons, hquote]

/-- The places where a literal can end if one more of its characters is taken first. -/
def later : Cursor → List Cursor
  | ⟨_, []⟩ => []
  | ⟨before, c :: after⟩ => if c = '\n' then [] else inside.ends ⟨c :: before, after⟩

theorem ends_inside (cursor : Cursor) :
    inside.ends cursor = (if cursor.before.head? = some '\\' then [] else closing.ends cursor)
      ++ later cursor := by
  obtain ⟨before, after⟩ := cursor
  have hclosing : ((notAfter '\\').seq closing).ends ⟨before, after⟩
      = if before.head? = some '\\' then [] else closing.ends ⟨before, after⟩ := by
    rw [ends, ends]
    split <;> simp
  rw [inside, ends_fewest_seq, hclosing]
  congr 1
  cases after with
  | nil => rfl
  | cons c after =>
    rw [ends_one_cons, later]
    by_cases hc : c = '\n'
    · simp [hc]
    · simp [hc, inside]

theorem later_cons (hc : c ≠ '\n') (before after : List Char) :
    later ⟨before, c :: after⟩ = (if c = '\\' then [] else closing.ends ⟨c :: before, after⟩)
      ++ later ⟨c :: before, after⟩ := by
  rw [later, if_neg hc, ends_inside]
  simp

theorem map_textTail?_cons {odd : Bool} (hfeed : c ≠ '\n') (hquote : (c = '"' && !odd) = false)
    (cs : List Char) (n : Nat) :
    (Lexer.textTail? odd (c :: cs)).map (· + n)
      = (Lexer.textTail? (c = '\\' && !odd) cs).map (· + (n + 1)) := by
  rw [Lexer.textTail?, if_neg hfeed, hquote, if_neg (by decide), Option.map_map]
  exact congrArg (Option.map · _) (funext fun m => by simp only [Function.comp]; omega)

/-- Where a literal ends, at a place with an even or an odd number of backslashes before it. At an
odd number the pairs of backslashes are tried from the one before the place on. -/
theorem head?_ends (cs before : List Char) :
    (closing.ends ⟨before, cs⟩ ++ later ⟨before, cs⟩).head?.map (·.before.length)
        = (Lexer.textTail? false cs).map (· + before.length) ∧
      (closing.ends ⟨before, '\\' :: cs⟩ ++ later ⟨'\\' :: before, cs⟩).head?.map (·.before.length)
        = (Lexer.textTail? true cs).map (· + (before.length + 1)) := by
  induction cs generalizing before with
  | nil =>
    constructor
    · rw [ends_closing_nil]
      rfl
    · rw [ends_closing_backslash (by simp)]
      rfl
  | cons c cs ih =>
    by_cases hfeed : c = '\n'
    · subst hfeed
      constructor
      · rw [ends_closing_of_ne (by decide) (by decide)]
        rfl
      · rw [ends_closing_backslash (by simp)]
        rfl
    by_cases hslash : c = '\\'
    · subst hslash
      constructor
      · rw [later_cons hfeed, if_pos rfl, map_textTail?_cons hfeed rfl]
        exact (ih before).2
      · rw [ends_closing_backslashes, later_cons hfeed, if_pos rfl,
          map_textTail?_cons hfeed (by decide)]
        exact (ih _).1
    · constructor
      · by_cases hquote : c = '"'
        · subst hquote
          rw [ends_closing_quote]
          simp [Lexer.textTail?, Nat.add_comm]
        · rw [ends_closing_of_ne hquote hslash, later_cons hfeed, if_neg hslash,
            map_textTail?_cons hfeed (by simp [hquote])]
          simpa [hslash] using (ih (c :: before)).1
      · rw [ends_closing_backslash (by simpa using hslash), later_cons hfeed, if_neg hslash,
          map_textTail?_cons hfeed (by simp)]
        simpa [hslash] using (ih (c :: '\\' :: before)).1

/-- The lexer finds the end of a text literal. -/
theorem matchLength?_textLiteral (cs : List Char) :
    textLiteral.matchLength? ('"' :: cs) = (Lexer.textTail? false cs).map (· + 1) := by
  have hends : textLiteral.ends ⟨[], '"' :: cs⟩ = inside.ends ⟨['"'], cs⟩ := by
    simp [textLiteral, ends, quote]
  have hhead := (head?_ends cs ['"']).1
  rw [matchLength?, hends, ends_inside]
  simpa using hhead

end Pattern

end ScriptLang
