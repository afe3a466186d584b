import ScriptLang.Error

set_option autoImplicit false

/-! # Applying operators

Arithmetic gives way to the other operand where one is `void`, joins texts with `+`, wraps integers
around at 32 bits and turns an integer into a float where the other operand is one. Equality is
defined for all values; order only for two numbers, two texts or two truth values. -/

namespace ScriptLang

/-! ## Arithmetic -/

namespace Arithmetic

/-- An operation on integers: the exact result, wrapped to 32 bits. -/
def onIntegers (operation : Arithmetic) (m n : Int32) : Except ScriptError Value :=
  match operation with
  | .sum => .ok (Value.ofInt (m.toInt + n.toInt))
  | .sub => .ok (Value.ofInt (m.toInt - n.toInt))
  | .mult => .ok (Value.ofInt (m.toInt * n.toInt))
  | .div =>
    match Integer.quotient? m.toInt n.toInt with
    | none => .error .divideByZero
    | some quotient => .ok (Value.ofInt quotient)

/-- An operation on floats. -/
def onFloats (operation : Arithmetic) (x y : Single) : Except ScriptError Value :=
  match operation with
  | .sum => .ok (.float (Single.add x y))
  | .sub => .ok (.float (Single.sub x y))
  | .mult => .ok (.float (Single.mul x y))
  | .div => if y.isZero then .error .divideByZero else .ok (.float (Single.div x y))

/-- An operation on any two values. -/
def apply (operation : Arithmetic) (a b : Value) : Except ScriptError Value :=
  match a, b with
  | .void, _ => .ok b
  | _, .void => .ok a
  | .bool _, _ | _, .bool _ => .error (.illegalArithmetic operation .bool)
  | .string _, _ | _, .string _ =>
    if operation = .sum then .ok (.string (a.display ++ b.display))
    else .error (.illegalArithmetic operation .string)
  | .integer m, .integer n => operation.onIntegers m n
  | .integer m, .float y => operation.onFloats (Floating.ofInt m.toInt) y
  | .float x, .integer n => operation.onFloats x (Floating.ofInt n.toInt)
  | .float x, .float y => operation.onFloats x y

end Arithmetic

/-! ## Comparison -/

namespace Value

/-- Equality of values. Numbers are compared as floats if one of them is a float; other values are
equal if they are the same. -/
def equals : Value → Value → Bool
  | .void, .void => true
  | .string s, .string t => s == t
  | .integer m, .integer n => m == n
  | .integer m, .float y => (Floating.ofInt m.toInt : Single).equal y
  | .float x, .integer n => x.equal (Floating.ofInt n.toInt)
  | .float x, .float y => x.equal y
  | .bool b, .bool c => b == c
  | _, _ => false

/-- The truth value itself; other kinds have none. -/
def toBool : Value → Except ScriptError Bool
  | .bool truth => .ok truth
  | v => .error (.notBool v)

end Value

namespace Order

/-- A relation on floats; none holds for `nan`. -/
def onFloats (relation : Order) (x y : Single) : Bool :=
  match relation with
  | .smaller => x.less y
  | .bigger => y.less x
  | .smallerOrEqual => x.less y || x.equal y
  | .biggerOrEqual => y.less x || x.equal y

/-- A relation on integers. -/
def onIntegers (relation : Order) (m n : Int) : Bool :=
  match relation with
  | .smaller => m < n
  | .bigger => n < m
  | .smallerOrEqual => m ≤ n
  | .biggerOrEqual => n ≤ m

/-- A relation on texts, by code points. -/
def onTexts (relation : Order) (s t : String) : Bool :=
  match relation with
  | .smaller => s < t
  | .bigger => t < s
  | .smallerOrEqual => s < t || s == t
  | .biggerOrEqual => t < s || s == t

/-- A relation on any two values; `false` is below `true`. -/
def apply (relation : Order) (a b : Value) : Except ScriptError Bool :=
  match a, b with
  | .integer m, .integer n => .ok (relation.onIntegers m.toInt n.toInt)
  | .integer m, .float y => .ok (relation.onFloats (Floating.ofInt m.toInt) y)
  | .float x, .integer n => .ok (relation.onFloats x (Floating.ofInt n.toInt))
  | .float x, .float y => .ok (relation.onFloats x y)
  | .string s, .string t => .ok (relation.onTexts s t)
  | .bool b, .bool c => .ok (relation.onIntegers b.toInt c.toInt)
  | _, _ => .error (.illegalComparison a.kind b.kind)

end Order

/-! ## All operators -/

/-- The result of an operator. Both operands of `and` and `or` must be truth values, the left one is
looked at first. -/
def Operator.apply (operator : Operator) (a b : Value) : Except Failure Value :=
  match operator with
  | .arithmetic operation => (operation.apply a b).mapError .script
  | .is => .ok (.bool (a.equals b))
  | .isNot => .ok (.bool (!a.equals b))
  | .order relation => ((relation.apply a b).map .bool).mapError .script
  | .and => Except.mapError .script do
    let left ← a.toBool
    let right ← b.toBool
    return .bool (right && left)
  | .or => Except.mapError .script do
    let left ← a.toBool
    let right ← b.toBool
    return .bool (right || left)
  | .unknown name => .error (.fault (.unknownOperator name))

end ScriptLang
