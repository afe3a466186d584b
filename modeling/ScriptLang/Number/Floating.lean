set_option autoImplicit false

/-! # Binary floating point

Numbers of a binary floating-point format are exact data: a sign, a significand and an exponent of
two. The operations compute the exact rational result and round it once, to the nearest number of
the format, a half going to the even significand. Nothing here depends on the machine's own
arithmetic. -/

namespace ScriptLang

/-! ## Formats -/

/-- A binary format: the bits of a significand and the least and greatest exponent of its unit. -/
structure Format where
  precision : Nat
  minExponent : Int
  maxExponent : Int

namespace Format

/-- The 32-bit format. -/
def single : Format := ⟨24, -149, 104⟩

/-- The 64-bit format. -/
def double : Format := ⟨53, -1074, 971⟩

/-- `significand * 2 ^ exponent` is a number of the format, and no other pair of the format denotes
the same number: the significand uses all its bits unless the exponent is the least one. -/
def Canonical (f : Format) (significand : Nat) (exponent : Int) : Prop :=
  significand < Nat.pow 2 f.precision ∧ f.minExponent ≤ exponent ∧ exponent ≤ f.maxExponent ∧
    (Nat.pow 2 (f.precision - 1) ≤ significand ∨ exponent = f.minExponent)

instance (f : Format) (significand : Nat) (exponent : Int) :
    Decidable (f.Canonical significand exponent) :=
  inferInstanceAs (Decidable (_ ∧ _ ∧ _ ∧ _))

end Format

/-- A number of the format `f`. All results that are not a number are the same `nan`. -/
inductive Floating (f : Format) where
  | nan
  | infinite (negative : Bool)
  | finite (negative : Bool) (significand : Nat) (exponent : Int)
      (canonical : f.Canonical significand exponent)
  deriving DecidableEq

/-- A 32-bit floating-point number. -/
abbrev Single := Floating Format.single

/-- A 64-bit floating-point number. -/
abbrev Double := Floating Format.double

/-! ## Rounding -/

/-- The integer nearest to `num / den`; a half goes to the even neighbour. -/
def roundHalfEven (num den : Nat) : Nat :=
  let quotient := num / den
  let twice := 2 * (num % den)
  if twice < den then quotient
  else if den < twice then quotient + 1
  else if quotient % 2 = 0 then quotient
  else quotient + 1

/-- The greatest `k` with `2 ^ k ≤ num / den`, for a positive quotient. -/
def floorLog2 (num den : Nat) : Int :=
  let k : Int := num.log2 - den.log2
  if den * Nat.pow 2 k.toNat ≤ num * Nat.pow 2 (-k).toNat then k else k - 1

/-- `significand * 2 ^ exponent` as an exact fraction. -/
def scaled (significand : Nat) (exponent : Int) : Rat :=
  mkRat (significand * Nat.pow 2 exponent.toNat : Nat) (Nat.pow 2 (-exponent).toNat)

namespace Floating

variable {f : Format}

/-- The number with the given parts; what lies outside the format is infinite. -/
def ofParts (negative : Bool) (significand : Nat) (exponent : Int) : Floating f :=
  if h : f.Canonical significand exponent then .finite negative significand exponent h
  else .infinite negative

/-- Zero with a sign. -/
def zero (negative : Bool) : Floating f :=
  ofParts negative 0 f.minExponent

/-- The number nearest to `num / den`, negated if `negative`; a half goes to the even significand,
and what is too large for the format is infinite. -/
def ofRatio (negative : Bool) (num den : Nat) : Floating f :=
  if num = 0 then zero negative
  else
    let exponent := max f.minExponent (floorLog2 num den - (f.precision - 1))
    let significand := roundHalfEven (num * Nat.pow 2 (-exponent).toNat)
      (den * Nat.pow 2 exponent.toNat)
    if significand = Nat.pow 2 f.precision then ofParts negative (significand / 2) (exponent + 1)
    else ofParts negative significand exponent

/-- The number nearest to a rational number. -/
def ofRat (q : Rat) : Floating f :=
  ofRatio (q < 0) q.num.natAbs q.den

/-- The number nearest to an integer. -/
def ofInt (n : Int) : Floating f :=
  ofRatio (n < 0) n.natAbs 1

/-! ## Views -/

/-- Whether the sign is negative; `nan` has none. -/
def isNegative : Floating f → Bool
  | .nan => false
  | .infinite negative => negative
  | .finite negative _ _ _ => negative

/-- The exact value of a finite number, and zero for the others. -/
def toRat : Floating f → Rat
  | .finite true significand exponent _ => -scaled significand exponent
  | .finite false significand exponent _ => scaled significand exponent
  | _ => 0

/-- The number of the format `g` nearest to a number of the format `f`. -/
def convert {g : Format} : Floating f → Floating g
  | .nan => .nan
  | .infinite negative => .infinite negative
  | .finite negative significand exponent _ =>
    let q := scaled significand exponent
    ofRatio negative q.num.natAbs q.den

/-- The bit pattern: the sign bit, the exponent field and the significand without its leading bit.
A `nan` has no distinguished pattern. -/
def toBits? : Floating f → Option Nat
  | .nan => none
  | .infinite negative =>
    some (signBit negative + (exponents + 1) * Nat.pow 2 (f.precision - 1))
  | .finite negative significand exponent _ =>
    some (signBit negative + (exponent - f.minExponent).toNat * Nat.pow 2 (f.precision - 1)
      + significand)
where
  /-- How many exponents normal numbers have. -/
  exponents : Nat := (f.maxExponent - f.minExponent).toNat + 1
  signBit (negative : Bool) : Nat :=
    if negative then (exponents + 2) * Nat.pow 2 (f.precision - 1) else 0

/-! ## Arithmetic -/

/-- The number with the other sign. -/
def neg : Floating f → Floating f
  | .nan => .nan
  | .infinite negative => .infinite (!negative)
  | .finite negative significand exponent h => .finite (!negative) significand exponent h

/-- The sum. A sum that is exactly zero is negative only if both terms are. -/
def add (x y : Floating f) : Floating f :=
  match x, y with
  | .nan, _ | _, .nan => .nan
  | .infinite s, .infinite t => if s = t then .infinite s else .nan
  | .infinite s, _ => .infinite s
  | _, .infinite t => .infinite t
  | .finite s _ _ _, .finite t _ _ _ =>
    let q := x.toRat + y.toRat
    if q = 0 then zero (s && t) else ofRat q

/-- The difference. -/
def sub (x y : Floating f) : Floating f :=
  x.add y.neg

/-- The product. -/
def mul (x y : Floating f) : Floating f :=
  match x, y with
  | .nan, _ | _, .nan => .nan
  | .infinite s, .infinite t => .infinite (s != t)
  | .infinite s, .finite t n _ _ | .finite t n _ _, .infinite s =>
    if n = 0 then .nan else .infinite (s != t)
  | .finite s _ _ _, .finite t _ _ _ =>
    let q := x.toRat * y.toRat
    ofRatio (s != t) q.num.natAbs q.den

/-- The quotient. A quotient by zero is infinite, or `nan` for a zero dividend. -/
def div (x y : Floating f) : Floating f :=
  match x, y with
  | .nan, _ | _, .nan => .nan
  | .infinite _, .infinite _ => .nan
  | .infinite s, .finite t _ _ _ => .infinite (s != t)
  | .finite s _ _ _, .infinite t => zero (s != t)
  | .finite s m _ _, .finite t n _ _ =>
    if n = 0 then if m = 0 then .nan else .infinite (s != t)
    else
      let q := x.toRat / y.toRat
      ofRatio (s != t) q.num.natAbs q.den

/-! ## Comparison -/

/-- Equality of numbers: the two zeros are equal, and `nan` equals nothing. -/
def equal (x y : Floating f) : Bool :=
  match x, y with
  | .infinite s, .infinite t => s == t
  | .finite .., .finite .. => x.toRat == y.toRat
  | _, _ => false

/-- The order of numbers; `nan` stands in no order. -/
def less (x y : Floating f) : Bool :=
  match x, y with
  | .nan, _ | _, .nan => false
  | .infinite s, .infinite t => s && !t
  | .infinite s, .finite .. => s
  | .finite .., .infinite t => !t
  | .finite .., .finite .. => x.toRat < y.toRat

/-- Whether the number is a zero of either sign. -/
def isZero : Floating f → Bool
  | .finite _ significand _ _ => significand == 0
  | _ => false

end Floating

/-! ## Single precision by way of double precision -/

namespace Single

/-- A sum of singles: formed in double precision, then rounded to single. -/
def add (x y : Single) : Single :=
  ((x.convert : Double).add y.convert).convert

/-- A difference of singles: formed in double precision, then rounded to single. -/
def sub (x y : Single) : Single :=
  ((x.convert : Double).sub y.convert).convert

/-- A product of singles: formed in double precision, then rounded to single. -/
def mul (x y : Single) : Single :=
  ((x.convert : Double).mul y.convert).convert

/-- A quotient of singles: formed in double precision, then rounded to single. -/
def div (x y : Single) : Single :=
  ((x.convert : Double).div y.convert).convert

end Single

end ScriptLang
