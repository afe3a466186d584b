import ScriptLang.Text.Blank

set_option autoImplicit false

/-! # Statement ends and comments

A line end ends a statement, except inside parentheses and brackets; so do a closing brace and the
end of the program text. `Source.terminate` makes these ends visible as semicolons and takes the
comments out, in one pass. It keeps every line feed, so that lines keep their numbers. -/

namespace ScriptLang.Source

/-- What the scan is inside of. -/
inductive Mode where
  | code
  /-- A text literal; `escaped` says that a backslash stands right before. -/
  | text (escaped : Bool)
  /-- A comment up to the end of the line. -/
  | lineComment
  /-- A comment up to the next `*/`. -/
  | blockComment
  deriving DecidableEq

/-- The state of the scan. -/
structure Scan where
  mode : Mode := .code
  /-- How many parentheses and brackets are open. -/
  depth : Nat := 0
  /-- The last character written that is not white space. -/
  last : Option Char := none
  deriving DecidableEq

namespace Scan

/-- Whether a statement is still open: something is written that is no end of a statement and no
brace. -/
def isOpen (scan : Scan) : Bool :=
  match scan.last with
  | none => false
  | some c => c ≠ ';' && c ≠ '\x7b' && c ≠ '\x7d'

/-- The scan after writing `c`. -/
def wrote (scan : Scan) (c : Char) : Scan :=
  if Text.isBlank c then scan else { scan with last := some c }

/-- The semicolon that ends an open statement. -/
def terminator (scan : Scan) : List Char :=
  if scan.isOpen then [';'] else []

/-- The scan after the terminator. -/
def terminated (scan : Scan) : Scan :=
  if scan.isOpen then { scan with last := some ';' } else scan

/-- The semicolon that a line end calls for. -/
def lineTerminator (scan : Scan) : List Char :=
  if scan.depth = 0 then scan.terminator else []

/-- The scan after a line end. -/
def lineTerminated (scan : Scan) : Scan :=
  if scan.depth = 0 then scan.terminated else scan

/-- The scan inside one more pair of brackets. -/
def opened (scan : Scan) : Scan :=
  { scan with depth := scan.depth + 1 }

/-- The scan outside the innermost pair of brackets, if there is one. -/
def closed (scan : Scan) : Scan :=
  { scan with depth := scan.depth - 1 }

/-- The scan in another mode. -/
def within (scan : Scan) (mode : Mode) : Scan :=
  { scan with mode }

end Scan

/-- What is written for one character of code, and the scan after it. -/
def codeStep (scan : Scan) (c : Char) : List Char × Scan :=
  if c = '"' then ([c], (scan.wrote c).within (.text false))
  else if c = '(' || c = '[' then ([c], scan.opened.wrote c)
  else if c = ')' || c = ']' then ([c], scan.closed.wrote c)
  else if c = '\x7d' then (scan.terminator ++ [c], scan.terminated.wrote c)
  else if c = '\n' then (scan.lineTerminator ++ [c], scan.lineTerminated)
  else ([c], scan.wrote c)

/-- The mode after one character of a text literal. -/
def textMode (escaped : Bool) (c : Char) : Mode :=
  if escaped then .text false
  else if c = '\\' then .text true
  else if c = '"' then .code
  else .text false

/-- What is written for the rest of a program text. -/
def terminateFrom (scan : Scan) : List Char → List Char
  | [] => scan.terminator
  | c :: rest =>
    match scan.mode with
    | .text escaped => c :: terminateFrom ((scan.wrote c).within (textMode escaped c)) rest
    | .lineComment =>
      if c = '\n' then
        let scan := scan.within .code
        scan.lineTerminator ++ c :: terminateFrom scan.lineTerminated rest
      else terminateFrom scan rest
    | .blockComment =>
      match c, rest with
      | '*', '/' :: rest => terminateFrom (scan.within .code) rest
      | '\n', rest => scan.lineTerminator ++ c :: terminateFrom scan.lineTerminated rest
      | _, rest => terminateFrom scan rest
    | .code =>
      match c, rest with
      | '/', '*' :: rest => terminateFrom (scan.within .blockComment) rest
      | '/', '/' :: rest => terminateFrom (scan.within .lineComment) rest
      | '#', rest => terminateFrom (scan.within .lineComment) rest
      | c, rest =>
        let (out, next) := codeStep scan c
        out ++ terminateFrom next rest

/-- The program text with a semicolon at each end of a statement and without comments. -/
def terminate (source : String) : String :=
  String.ofList (terminateFrom {} source.toList)

end ScriptLang.Source
