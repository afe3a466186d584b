set_option autoImplicit false

/-! # Text literals

A text literal stands between quotes. A backslash starts an escape sequence: a control character, an
octal number of up to three digits, a hexadecimal number of exactly two, four or eight digits, or
the name of a character in braces. A backslash before a line end joins the lines, and an unknown
escape sequence stands for itself.

Which names characters have is a parameter here. A text consists of characters, so an escape
sequence with the number of a surrogate denotes nothing and is refused. -/

namespace ScriptLang.Text

/-- The characters that names denote. -/
abbrev Names := String → Option Char

/-- No character has a name. -/
def unnamed : Names := fun _ => none

namespace Literal

/-- How far the reading of a literal has come. -/
inductive State where
  /-- Between two characters of the text. -/
  | plain
  /-- After a backslash. -/
  | escape
  /-- Inside an octal number that may have some more digits. -/
  | octal (remaining value : Nat)
  /-- Inside a hexadecimal number that needs one digit and some more. -/
  | hexadecimal (remaining value : Nat)
  /-- Before the brace that opens a name. -/
  | opening
  /-- Inside the braces around a name. -/
  | name (letters : List Char)
  /-- After the closing quote. -/
  | closed
  deriving DecidableEq

/-- The characters that a backslash and one letter or sign denote. -/
def simpleEscape? : Char → Option Char
  | '\\' => some '\\'
  | '\'' => some '\''
  | '"' => some '"'
  | 'a' => some '\x07'
  | 'b' => some '\x08'
  | 'f' => some '\x0c'
  | 'n' => some '\n'
  | 'r' => some '\r'
  | 't' => some '\t'
  | 'v' => some '\x0b'
  | _ => none

/-- The value of a hexadecimal digit in either case. -/
def hexValue? (c : Char) : Option Nat :=
  if '0' ≤ c ∧ c ≤ '9' then some (c.toNat - '0'.toNat)
  else if 'a' ≤ c ∧ c ≤ 'f' then some (c.toNat - 'a'.toNat + 10)
  else if 'A' ≤ c ∧ c ≤ 'F' then some (c.toNat - 'A'.toNat + 10)
  else none

/-- The value of an octal digit. -/
def octalValue? (c : Char) : Option Nat :=
  if '0' ≤ c ∧ c ≤ '7' then some (c.toNat - '0'.toNat) else none

/-- The character with a given number, if there is one. -/
def character? (n : Nat) : Option Char :=
  if n.isValidChar then some (Char.ofNat n) else none

/-- Whether a literal cannot hold the character as it is. -/
def isForbidden (c : Char) : Bool :=
  c = '\n' || c = '\r' || c = '\x00'

/-- One character outside escape sequences. -/
def plainStep (quote c : Char) : Option (List Char × State) :=
  if c = quote then some ([], .closed)
  else if c = '\\' then some ([], .escape)
  else if isForbidden c then none
  else some ([c], .plain)

/-- The character after a backslash. -/
def escapeStep (c : Char) : Option (List Char × State) :=
  match simpleEscape? c, octalValue? c with
  | some d, _ => some ([d], .plain)
  | none, some value => some ([], .octal 2 value)
  | none, none =>
    if c = 'x' then some ([], .hexadecimal 1 0)
    else if c = 'u' then some ([], .hexadecimal 3 0)
    else if c = 'U' then some ([], .hexadecimal 7 0)
    else if c = 'N' then some ([], .opening)
    else if c = '\n' || c = '\r' then some ([], .plain)
    else if c = '\x00' then none
    else some (['\\', c], .plain)

/-- One character of a name. A name is not empty and ends at the brace. -/
def nameStep (names : Names) (quote : Char) (letters : List Char) (c : Char) :
    Option (List Char × State) :=
  if c = '\x7d' then
    if letters.isEmpty then none
    else (names (String.ofList letters)).map fun d => ([d], .plain)
  else if c = quote || isForbidden c then none
  else some ([], .name (letters ++ [c]))

/-- One character of a literal: what it adds to the text, and where the reading goes on. -/
def step (names : Names) (quote : Char) (state : State) (c : Char) :
    Option (List Char × State) :=
  match state with
  | .plain => plainStep quote c
  | .escape => escapeStep c
  | .octal remaining value =>
    match remaining, octalValue? c with
    | more + 1, some digit => some ([], .octal more (8 * value + digit))
    | _, _ => do
      let (out, next) ← plainStep quote c
      return ((← character? value) :: out, next)
  | .hexadecimal remaining value => do
    let total := 16 * value + (← hexValue? c)
    match remaining with
    | more + 1 => some ([], .hexadecimal more total)
    | 0 => return ([← character? total], .plain)
  | .opening => if c = '\x7b' then some ([], .name []) else none
  | .name letters => nameStep names quote letters c
  | .closed => none

/-- The text that the characters after the opening quote denote. -/
def decodeFrom (names : Names) (quote : Char) : State → List Char → Option (List Char)
  | .closed, [] => some []
  | _, [] => none
  | state, c :: rest => do
    let (out, next) ← step names quote state c
    return out ++ (← decodeFrom names quote next rest)

end Literal

/-- The text that a literal denotes, if it is one. -/
def decodeLiteral? (names : Names) (literal : String) : Option String :=
  match literal.toList with
  | [] => none
  | quote :: rest =>
    if quote = '"' || quote = '\'' then
      (Literal.decodeFrom names quote .plain rest).map String.ofList
    else none

end ScriptLang.Text
