import ScriptLang.Error
import ScriptLang.Text.Digit

set_option autoImplicit false

/-! # From characters to tokens

Which tokens are tried at a place depends on what the grammar accepts there. Where a name is
accepted, a whole word is taken and is a keyword only if it is spelled like an accepted one; where
only keywords are accepted, the text need only start with one. So a keyword is an ordinary name
wherever the grammar has no place for it. -/

namespace ScriptLang.Lexer

/-! ## Character classes -/

/-- The characters that may stand between tokens. -/
def isGap (c : Char) : Bool :=
  c = ' ' || c = '\t' || c = '\x0c' || c = '\r' || c = '\n'

/-- The characters that start a word. -/
def isWordStart (c : Char) : Bool :=
  c.isAlpha || c = '_'

/-- The characters of a word. -/
def isWordCharacter (c : Char) : Bool :=
  c.isAlphanum || c = '_'

/-! ## The length of a token

Each function gives the number of characters of the token of its sort at the start of a text. -/

/-- A whole number is a run of digits. -/
def wholeLength (cs : List Char) : Nat :=
  (cs.takeWhile Text.isDigit).length

/-- A decimal is two runs of digits with a point between them. -/
def decimalLength? (cs : List Char) : Option Nat :=
  match cs.dropWhile Text.isDigit with
  | '.' :: rest =>
    let fraction := wholeLength rest
    if fraction = 0 then none else some (wholeLength cs + 1 + fraction)
  | _ => none

/-- A text ends at the first double quote before which stands an even number of backslashes. It
holds no line feed. `odd` says that an odd number of backslashes stands right before. -/
def textTail? (odd : Bool) : List Char → Option Nat
  | [] => none
  | c :: rest =>
    if c = '\n' then none
    else if c = '"' && !odd then some 1
    else (textTail? (c = '\\' && !odd) rest).map (· + 1)

/-- The comparison signs, the longer ones first. -/
def comparisons : List String :=
  ["==", "!=", "<=", ">=", "<>", "<", ">"]

/-- Whether the text starts with `word`. -/
def startsWith (cs : List Char) (word : String) : Bool :=
  word.toList.isPrefixOf cs

/-! ## Matching -/

/-- The token at the start of a text that starts with a digit. -/
def matchNumber? (accepts : Terminal → Bool) (cs : List Char) : Option (Terminal × Nat) :=
  match decimalLength? cs with
  | some length =>
    if accepts .decimal then some (.decimal, length)
    else if accepts .whole then some (.whole, wholeLength cs)
    else none
  | none => if accepts .whole then some (.whole, wholeLength cs) else none

/-- The token at the start of a text that starts with a letter. -/
def matchWord? (accepts : Terminal → Bool) (cs : List Char) : Option (Terminal × Nat) :=
  if accepts .word then
    let word := cs.takeWhile isWordCharacter
    match Keyword.all.find? fun k => accepts (.keyword k) && k.text.toList == word with
    | some k => some (.keyword k, word.length)
    | none => some (.word, word.length)
  else
    (Keyword.all.find? fun k => accepts (.keyword k) && startsWith cs k.text).map fun k =>
      (.keyword k, k.text.length)

/-- The comparison sign or symbol at the start of a text. -/
def matchSign? (accepts : Terminal → Bool) (cs : List Char) : Option (Terminal × Nat) :=
  match comparisons.find? fun sign => accepts .comparison && startsWith cs sign with
  | some sign => some (.comparison, sign.length)
  | none =>
    (Symbol.all.find? fun s => accepts (.symbol s) && startsWith cs s.text).map fun s =>
      (.symbol s, s.text.length)

/-- The accepted token at the start of a text, and its length. -/
def match? (accepts : Terminal → Bool) : List Char → Option (Terminal × Nat)
  | [] => none
  | c :: rest =>
    if Text.isDigit c then matchNumber? accepts (c :: rest)
    else if isWordStart c then matchWord? accepts (c :: rest)
    else if c = '"' then
      if accepts .text then (textTail? false rest).map fun tail => (.text, tail + 1) else none
    else matchSign? accepts (c :: rest)

/-! ## The next token -/

/-- What comes next in a text. -/
inductive Next where
  /-- An accepted token, what follows it and the place after it. -/
  | token (token : Token) (rest : List Char) (position : Position)
  /-- Nothing but white space. -/
  | finish
  | failed (error : ScriptError)

/-- The next token in a text at a place. If no accepted token is there, the error names the token of
any sort that is there, or else the character. -/
def next (accepts : Terminal → Bool) (position : Position) (cs : List Char) : Next :=
  let start := position.advanceBy (cs.takeWhile isGap)
  match cs.dropWhile isGap with
  | [] => .finish
  | c :: rest =>
    match match? accepts (c :: rest) with
    | some (terminal, length) =>
      let lexeme := (c :: rest).take length
      .token ⟨terminal, String.ofList lexeme, start⟩ ((c :: rest).drop length)
        (start.advanceBy lexeme)
    | none =>
      match match? (fun _ => true) (c :: rest) with
      | some (terminal, length) =>
        .failed (.unexpectedToken ⟨terminal, String.ofList ((c :: rest).take length), start⟩)
      | none => .failed (.unexpectedCharacter c start)

end ScriptLang.Lexer
