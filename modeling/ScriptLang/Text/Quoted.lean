import ScriptLang.Text.Printable

set_option autoImplicit false

/-! # Quoted text

Names and texts inside messages and traces are quoted. Single quotes are used, unless the text holds
a single quote and no double quote. Inside, the backslash, the quote in use and the characters that
cannot be shown as they are become escape sequences. -/

namespace ScriptLang.Text

/-- The hexadecimal digits of `n` in lower case, with zeros in front up to `width` digits. -/
def hexDigits (width n : Nat) : List Char :=
  let digits := Nat.toDigits 16 n
  List.replicate (width - digits.length) '0' ++ digits

namespace Quoted

/-- The quote that encloses the text. -/
def mark (cs : List Char) : Char :=
  if cs.contains '\'' && !cs.contains '"' then '"' else '\''

/-- How a character is written between the quotes `quote`. -/
def escape (quote c : Char) : List Char :=
  if c = '\\' || c = quote then ['\\', c]
  else if c = '\n' then ['\\', 'n']
  else if c = '\r' then ['\\', 'r']
  else if c = '\t' then ['\\', 't']
  else if isPrintable c then [c]
  else if c.toNat ≤ 0xFF then '\\' :: 'x' :: hexDigits 2 c.toNat
  else if c.toNat ≤ 0xFFFF then '\\' :: 'u' :: hexDigits 4 c.toNat
  else '\\' :: 'U' :: hexDigits 8 c.toNat

end Quoted

/-- The text in quotes. -/
def quote (text : String) : String :=
  let cs := text.toList
  let mark := Quoted.mark cs
  String.ofList (mark :: cs.flatMap (Quoted.escape mark) ++ [mark])

/-- A sequence of written items in parentheses; a single item is followed by a comma. -/
def parenthesized : List String → String
  | [] => "()"
  | [item] => "(" ++ item ++ ",)"
  | items => "(" ++ ", ".intercalate items ++ ")"

end ScriptLang.Text
