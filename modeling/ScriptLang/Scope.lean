import ScriptLang.Bindings
import ScriptLang.Error
import ScriptLang.Node

set_option autoImplicit false

/-! # Scopes

Variables and functions live in scopes, and scopes are nested: a name that a scope does not bind is
looked up in the scope around it. A `Scope` is the chain of scopes from the innermost outward;
`Scopes` holds what each of them binds. -/

namespace ScriptLang

/-- A function that a script declares. -/
structure Function where
  name : String
  parameters : List String
  body : Node

/-- The text of a function in a listing. -/
def Function.describe (f : Function) : String :=
  "<function " ++ f.name ++ "(" ++ ", ".intercalate f.parameters ++ ")>"

/-- The names that one scope binds itself. -/
structure Frame where
  values : Bindings Value := []
  functions : Bindings Function := []

/-- A scope, as its own number and the numbers of the scopes around it, the nearest first. -/
structure Scope where
  here : Nat
  above : List Nat
  deriving DecidableEq

namespace Scope

/-- The scope that no other scope encloses. -/
def root : Scope := ⟨0, []⟩

/-- The numbers of the scopes in which a name is looked up, in this order. -/
def chain (scope : Scope) : List Nat :=
  scope.here :: scope.above

/-- How many scopes enclose this one. -/
def depth (scope : Scope) : Nat :=
  scope.above.length

end Scope

/-- What all scopes bind. In strict scopes a name cannot be defined twice. -/
structure Scopes where
  strict : Bool
  frames : Array Frame

namespace Scopes

/-- A root scope that binds nothing. -/
def new (strict : Bool) : Scopes :=
  ⟨strict, #[{}]⟩

/-- What the scope with a given number binds. -/
def frame (scopes : Scopes) (number : Nat) : Frame :=
  scopes.frames[number]?.getD {}

/-- The value that one scope itself binds to a name. -/
def valueAt? (scopes : Scopes) (number : Nat) (name : String) : Option Value :=
  (scopes.frame number).values.find? name

/-- The function that one scope itself binds to a name. -/
def functionAt? (scopes : Scopes) (number : Nat) (name : String) : Option Function :=
  (scopes.frame number).functions.find? name

/-- A new scope inside another. -/
def child (scopes : Scopes) (scope : Scope) : Scope × Scopes :=
  (⟨scopes.frames.size, scope.chain⟩, { scopes with frames := scopes.frames.push {} })

/-! ## Variables -/

/-- The scopes after one of them binds a variable. -/
def bindVariable (scopes : Scopes) (number : Nat) (name : String) (value : Value) : Scopes :=
  { scopes with
    frames := scopes.frames.modify number fun frame =>
      { frame with values := frame.values.insert name value } }

/-- The value of a variable: that of the nearest scope that binds it. -/
def lookup? (scopes : Scopes) (scope : Scope) (name : String) : Option Value :=
  scope.chain.findSome? fun number => scopes.valueAt? number name

/-- Defines a variable in a scope itself. A strict scope that binds it already stays as it is. -/
def define (scopes : Scopes) (scope : Scope) (name : String) (value : Value) :
    Except ScriptError Unit × Scopes :=
  if scopes.strict && (scopes.valueAt? scope.here name).isSome then
    (.error (.alreadyDefined name), scopes)
  else (.ok (), scopes.bindVariable scope.here name value)

/-- Gives a variable a new value in the nearest scope that binds it. -/
def assign (scopes : Scopes) (scope : Scope) (name : String) (value : Value) :
    Except ScriptError Unit × Scopes :=
  match scope.chain.find? fun number => (scopes.valueAt? number name).isSome with
  | none => (.error (.undefinedVariable name), scopes)
  | some number => (.ok (), scopes.bindVariable number name value)

/-! ## Functions -/

/-- Declares a function in a scope itself, also over an earlier one. -/
def declare (scopes : Scopes) (scope : Scope) (f : Function) : Scopes :=
  { scopes with
    frames := scopes.frames.modify scope.here fun frame =>
      { frame with functions := frame.functions.insert f.name f } }

/-- The nearest of the scopes `here :: above` that declares a function, and the function. -/
def declarationFrom? (scopes : Scopes) (name : String) (here : Nat) :
    List Nat → Option (Scope × Function)
  | [] => (scopes.functionAt? here name).map fun f => (⟨here, []⟩, f)
  | next :: above =>
    match scopes.functionAt? here name with
    | some f => some (⟨here, next :: above⟩, f)
    | none => declarationFrom? scopes name next above

/-- The nearest scope that declares a function, and the function. -/
def declaration? (scopes : Scopes) (scope : Scope) (name : String) : Option (Scope × Function) :=
  scopes.declarationFrom? name scope.here scope.above

/-- The nearest scope that declares a function. -/
def functionScope? (scopes : Scopes) (scope : Scope) (name : String) : Option Scope :=
  (scopes.declaration? scope name).map Prod.fst

/-- The function that a name denotes in a scope. -/
def resolve? (scopes : Scopes) (scope : Scope) (name : String) : Option Function :=
  (scopes.declaration? scope name).map Prod.snd

/-! ## Listings -/

/-- The names of a table in quotes, sorted. -/
def describeNames {α : Type} (table : Bindings α) : String :=
  "[" ++ ", ".intercalate (table.sorted.map fun (name, _) => Text.quote name) ++ "]"

/-- The text of a scope in a listing. -/
def describe (scopes : Scopes) (scope : Scope) : String :=
  let frame := scopes.frame scope.here
  "<Scope depth=" ++ toString scope.depth ++ " vars=" ++ describeNames frame.values ++ " fns="
    ++ describeNames frame.functions ++ ">"

end Scopes

end ScriptLang
