import ScriptLang.Number.Floating
import ScriptLang.Text.Blank
import ScriptLang.Text.Digit

set_option autoImplicit false

/-! # Decimal numbers

Integers of any size and their 32-bit remainders, decimal texts and the numbers they denote, and the
fewest decimal digits that identify a floating-point number. -/

namespace ScriptLang

/-! ## Integers -/

namespace Integer

/-- The 32-bit number that agrees with `n` up to a multiple of `2 ^ 32`. -/
def wrap (n : Int) : Int32 :=
  Int32.ofInt n

/-- The quotient rounded toward zero; there is none by zero. -/
def quotient? (m n : Int) : Option Int :=
  if n = 0 then none else some (m.tdiv n)

/-- The longest sequence of digits that is read as an integer. -/
def maxDigits : Nat := 4300

/-- One or more digits, with single underscores allowed between them. -/
def groupedDigits? : List Char → Option (List Nat)
  | [] => none
  | [c] => (Text.digitValue? c).map ([·])
  | c :: '_' :: rest => do
    let digit ← Text.digitValue? c
    return digit :: (← groupedDigits? rest)
  | c :: rest => do
    let digit ← Text.digitValue? c
    return digit :: (← groupedDigits? rest)

/-- The natural number written by grouped digits, unless there are too many of them. -/
def natural? (cs : List Char) : Option Nat := do
  let digits ← groupedDigits? cs
  if digits.length ≤ maxDigits then some (Text.ofDigits digits) else none

/-- The integer that a text denotes: white space around it, a sign and grouped digits. -/
def read? (text : String) : Option Int :=
  match Text.trim text.toList with
  | '-' :: digits => (natural? digits).map fun n => -(n : Int)
  | '+' :: digits => (natural? digits).map fun n => (n : Int)
  | digits => (natural? digits).map fun n => (n : Int)

end Integer

/-! ## Decimals -/

/-- The number `coefficient * 10 ^ exponent`. -/
structure Decimal where
  coefficient : Nat
  exponent : Int
  deriving DecidableEq

namespace Decimal

/-- The digits of the coefficient. -/
def digits (d : Decimal) : List Char :=
  Nat.toDigits 10 d.coefficient

/-- How many digits stand before the decimal point; none or a negative number of them if the
number is below one. -/
def pointPosition (d : Decimal) : Int :=
  Text.digitCount d.coefficient + d.exponent

/-- The numerator of the decimal as a fraction. -/
def num (d : Decimal) : Nat :=
  d.coefficient * Nat.pow 10 d.exponent.toNat

/-- The denominator of the decimal as a fraction. -/
def den (d : Decimal) : Nat :=
  Nat.pow 10 (-d.exponent).toNat

/-- A decimal of this magnitude or above exceeds every number of the formats in use, and one below
its reciprocal is nearer to zero than to any other of their numbers. -/
def magnitudeBound : Int := 400

/-- The floating-point number nearest to the decimal, negated if `negative`. -/
def round {f : Format} (negative : Bool) (d : Decimal) : Floating f :=
  if d.coefficient = 0 || d.pointPosition < -magnitudeBound then Floating.zero negative
  else if magnitudeBound < d.pointPosition then .infinite negative
  else Floating.ofRatio negative d.num d.den

/-! ### Reading -/

/-- An exponent: a sign and at least one digit, and nothing after them. -/
def readExponent? (cs : List Char) : Option Int :=
  match cs with
  | '-' :: rest => (exponentDigits? rest).map fun n => -(n : Int)
  | '+' :: rest => (exponentDigits? rest).map fun n => (n : Int)
  | rest => (exponentDigits? rest).map fun n => (n : Int)
where
  exponentDigits? (cs : List Char) : Option Nat :=
    match Text.spanDigits cs with
    | ([], _) => none
    | (digits, []) => some (Text.ofDigits digits)
    | (_, _ :: _) => none

/-- What may follow the digits of a decimal: nothing, or an exponent. -/
def readScale? : List Char → Option Int
  | [] => some 0
  | c :: rest => if c = 'e' || c = 'E' then readExponent? rest else none

/-- An unsigned decimal: digits with at most one point among or around them, and an exponent. -/
def read? (cs : List Char) : Option Decimal :=
  let (whole, rest) := Text.spanDigits cs
  let (fraction, rest) :=
    match rest with
    | '.' :: afterPoint => Text.spanDigits afterPoint
    | _ => ([], rest)
  if whole.isEmpty && fraction.isEmpty then none
  else (readScale? rest).map fun scale =>
    ⟨Text.ofDigits (whole ++ fraction), scale - fraction.length⟩

end Decimal

namespace Double

/-- An unsigned number text: a decimal, or a word for infinity or for no number, in any case. -/
def readUnsigned? (negative : Bool) (cs : List Char) : Option Double :=
  let word := String.ofList (cs.map Char.toLower)
  if word = "inf" || word = "infinity" then some (.infinite negative)
  else if word = "nan" then some .nan
  else (Decimal.read? cs).map (Decimal.round negative)

/-- The double nearest to the number that a text denotes: white space around it, a sign, and an
unsigned number. -/
def read? (text : String) : Option Double :=
  match Text.trim text.toList with
  | '-' :: rest => readUnsigned? true rest
  | '+' :: rest => readUnsigned? false rest
  | rest => readUnsigned? false rest

/-- The text without its underscores, each of which has to stand between two digits. -/
def dropUnderscores? (afterDigit : Bool) : List Char → Option (List Char)
  | [] => some []
  | ['_'] => none
  | '_' :: c :: rest =>
    if afterDigit && Text.isDigit c then (dropUnderscores? true rest).map (c :: ·) else none
  | c :: rest => (dropUnderscores? (Text.isDigit c) rest).map (c :: ·)

/-- The double nearest to the number that a text with grouped digits denotes. -/
def readGrouped? (text : String) : Option Double :=
  (dropUnderscores? false text.toList).bind fun cs => read? (String.ofList cs)

end Double

/-! ## The fewest digits that read back -/

namespace Floating

variable {f : Format}

/-- The `k` with `10 ^ (k - 1) ≤ num / den < 10 ^ k`, for a positive quotient. -/
def decimalMagnitude (num den : Nat) : Int :=
  if den ≤ num then Text.digitCount (num / den)
  else 1 - Text.digitCount ((den - 1) / num)

/-- The decimal with `count` digits nearest to the positive number `x = num / den` among the two
neighbours of `x` that read back as `x`, if there is one. An exact tie goes to the even digit. -/
def neighbour? (x : Floating f) (num den count : Nat) : Option Decimal :=
  let magnitude := decimalMagnitude num den
  let exponent := magnitude - count
  let num' := num * Nat.pow 10 (-exponent).toNat
  let den' := den * Nat.pow 10 exponent.toNat
  let below := num' / den'
  let twice := 2 * (num' % den')
  let lower : Decimal := ⟨below, exponent⟩
  let upper : Decimal :=
    if below + 1 = Nat.pow 10 count then ⟨1, magnitude⟩ else ⟨below + 1, exponent⟩
  match decide (lower.round false = x), decide (upper.round false = x) with
  | false, false => none
  | true, false => some lower
  | false, true => some upper
  | true, true =>
    if twice < den' || (twice = den' && below % 2 = 0) then some lower else some upper

/-- No number of the formats in use needs more digits than this to be identified. -/
def maxDigits : Nat := 17

/-- The decimal with the fewest digits that reads back as the positive number `x`, and of those the
nearest to `x`. -/
def shortest (x : Floating f) : Decimal :=
  let num := x.toRat.num.natAbs
  let den := x.toRat.den
  match (List.range maxDigits).findSome? fun n => neighbour? x num den (n + 1) with
  | some decimal => decimal
  | none => ⟨num, 0⟩

end Floating

/-! ## Writing -/

/-- How floating-point numbers are written. -/
structure FloatLayout where
  /-- The exponents `e` of the leading digit for which the number is written without an exponent. -/
  isPositional : Int → Bool
  /-- What is written after a whole number that has no exponent. -/
  afterWhole : String
  /-- The text of `nan`. -/
  nan : String

namespace FloatLayout

/-- Digits with a decimal point after the first `position` of them, zeros filling the gaps. -/
def positional (layout : FloatLayout) (digits : List Char) (position : Int) : String :=
  if position ≤ 0 then
    "0." ++ String.ofList (List.replicate (-position).toNat '0' ++ digits)
  else if digits.length ≤ position.toNat then
    String.ofList (digits ++ List.replicate (position.toNat - digits.length) '0')
      ++ layout.afterWhole
  else
    String.ofList (digits.take position.toNat) ++ "." ++ String.ofList (digits.drop position.toNat)

/-- Digits with a point after the first one, and the exponent with a sign and two digits or more. -/
def exponential (digits : List Char) (exponent : Int) : String :=
  let fraction := if digits.length ≤ 1 then "" else "." ++ String.ofList (digits.drop 1)
  let sign := if exponent < 0 then "-" else "+"
  let size := toString exponent.natAbs
  String.ofList (digits.take 1) ++ fraction ++ "e" ++ sign
    ++ (if size.length < 2 then "0" ++ size else size)

/-- An unsigned decimal. -/
def decimal (layout : FloatLayout) (d : Decimal) : String :=
  let exponent := d.pointPosition - 1
  if layout.isPositional exponent then layout.positional d.digits d.pointPosition
  else exponential d.digits exponent

/-- The text of a number. -/
def write {f : Format} (layout : FloatLayout) : Floating f → String
  | .nan => layout.nan
  | .infinite negative => (if negative then "-" else "") ++ "inf"
  | .finite negative significand exponent h =>
    let size : Floating f := .finite false significand exponent h
    (if negative then "-" else "")
      ++ layout.decimal (if significand = 0 then ⟨0, 0⟩ else size.shortest)

end FloatLayout

end ScriptLang
