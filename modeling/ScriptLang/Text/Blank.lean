import ScriptLang.Text.CodeRanges

set_option autoImplicit false

/-! # White space

The characters that separate, and never end, a statement, and that are dropped around a line of
input. The zero-width space (U+200B) and the byte order mark (U+FEFF) are not among them. -/

namespace ScriptLang.Text

/-- The white space characters. -/
def blankRanges : CodeRanges :=
  [(0x0009, 0x000D), (0x001C, 0x0020), (0x0085, 0x0085), (0x00A0, 0x00A0), (0x1680, 0x1680),
    (0x2000, 0x200A), (0x2028, 0x2029), (0x202F, 0x202F), (0x205F, 0x205F), (0x3000, 0x3000)]

/-- Whether `c` is white space. -/
def isBlank (c : Char) : Bool :=
  blankRanges.contains c

/-- The text without white space at either end. -/
def trim (cs : List Char) : List Char :=
  ((cs.dropWhile isBlank).reverse.dropWhile isBlank).reverse

end ScriptLang.Text
