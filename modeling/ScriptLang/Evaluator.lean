import ScriptLang.Machine
import ScriptLang.Operator.Apply
import ScriptLang.Program

set_option autoImplicit false

/-! # Running programs

Expressions are evaluated and statements executed by recursion on the syntax tree. The two things
that this recursion does not bound, calls and loops, are bounded by `fuel`: a call runs the body of
its function with less fuel, and a loop makes no more turns than it has fuel. A run that ends gives
the same result with any fuel that is large enough.

The recursion takes place on the stack of the host, whose frames are limited. Each function here
gets the number of frames in use, and each evaluation, statement, block and call inside another one
takes one more. A chain of operators that leans to the left takes one frame, however long it is, and
one for its operands, because it is walked down to its first operand and back. An operator needs
some frames when it is applied, the same number for all of them. The other elementary actions are
taken to need none; a program that leaves no more than a handful of frames for them is judged
without them. -/

namespace ScriptLang

namespace Exec

/-- Applies an operator, for which there must be frames. -/
def operate (frames : Nat) (operator : Operator) (a b : Value) : Exec Value := do
  demand fun stack => frames + stack.operation
  match operator.apply a b with
  | .ok value => pure value
  | .error failure => throw failure

/-- The truth value of a condition. -/
def truth (value : Value) : Exec Bool :=
  ofExcept value.toBool

/-- A computation in one more frame. -/
def nested {α : Type} (frames : Nat) (inner : Nat → Exec α) : Exec α := do
  demand fun _ => frames + 1
  inner (frames + 1)

/-- Passes a value through computations, one after the other. -/
def resume : List (Value → Exec Value) → Value → Exec Value
  | [], value => pure value
  | first :: rest, value => do resume rest (← first value)

/-- Evaluates an operand and passes its value to what is pending. If operations are pending, it is
the first operand of a chain and has a frame of its own. -/
def operand (frames : Nat) (pending : List (Value → Exec Value)) (inner : Nat → Exec Value) :
    Exec Value :=
  match pending with
  | [] => inner frames
  | first :: rest => do resume (first :: rest) (← nested frames inner)

/-- Repeats a body as long as the condition holds and the body returns nothing. -/
def repeatWhile (condition : Exec Bool) (body : Exec (Option Value)) :
    (fuel : Nat) → Exec (Option Value)
  | 0 => throw .outOfFuel
  | fuel + 1 => do
    if ← condition then
      match ← body with
      | some value => return some value
      | none => repeatWhile condition body fuel
    else return none

/-- How a program ends: the file for traces is closed, and an error gives up all active calls. An
evaluation without enough frames counts as an error, other failures leave the calls as they are. -/
def finish {α : Type} : Except Failure α × Machine → Except Failure α × Machine
  | (.ok a, m) => (.ok a, m.closeTrace)
  | (.error (.script e), m) => (.error (.script e), m.resetCalls.closeTrace)
  | (.error .exhausted, m) =>
    (.error (.script (.recursionLimit m.calls.limit)), m.resetCalls.closeTrace)
  | (.error failure, m) => (.error failure, m.closeTrace)

/-- The outcome, with the stack put back. -/
def restore {α : Type} (stack : Stack) (outcome : Except Failure α × Machine) :
    Except Failure α × Machine :=
  (outcome.1, { outcome.2 with stack })

/-- Runs a program, which may use the file for traces. The stack is afterwards as it was before. -/
def guarded {α : Type} (body : Exec α) : Exec α := fun m =>
  match m.openTrace with
  | .error e => (.error (.fault (.file e)), m)
  | .ok opened => restore m.stack (finish (body opened))

end Exec

namespace Evaluator

open Exec

/-- How a function is called: with so many frames in use, by its name, its arguments and the scope
of the call. -/
abbrev Callee := (frames : Nat) → String → List Value → Scope → Exec Value

/-! ## Expressions -/

mutual

/-- Evaluates an expression and passes its value to what is pending. The left operand of an operator
is evaluated first, with the rest of the operation pending. -/
def evaluate (call : Callee) (scope : Scope) (frames : Nat) :
    Node → List (Value → Exec Value) → Exec Value
  | .literal value, pending => operand frames pending fun _ => return value
  | .reference name, pending => operand frames pending fun _ => lookup scope name
  | .binary operator left right, pending =>
    let operation (a : Value) : Exec Value := do
      let b ← nested frames fun frames => evaluate call scope frames right []
      operate frames operator a b
    evaluate call scope frames left (operation :: pending)
  | .call name arguments, pending => operand frames pending fun frames => do
    let values ← nested frames fun frames => evaluateAll call scope frames arguments
    nested frames fun frames => call frames name values scope
  | .input kind, pending => operand frames pending fun _ => readInput kind
  | node, pending => operand frames pending fun _ => throw (.fault (.notEvaluable node.typeName))
termination_by structural node _ => node

/-- Evaluates expressions from left to right. -/
def evaluateAll (call : Callee) (scope : Scope) (frames : Nat) : List Node → Exec (List Value)
  | [] => pure []
  | node :: nodes => do
    let value ← nested frames fun frames => evaluate call scope frames node []
    let values ← evaluateAll call scope frames nodes
    return value :: values
termination_by structural nodes => nodes

end

/-- Evaluates an expression of a statement. -/
def value (call : Callee) (scope : Scope) (frames : Nat) (node : Node) : Exec Value :=
  nested frames fun frames => evaluate call scope frames node []

/-- Evaluates the expressions of a statement. -/
def values (call : Callee) (scope : Scope) (frames : Nat) (nodes : List Node) : Exec (List Value) :=
  nested frames fun frames => evaluateAll call scope frames nodes

/-! ## Statements -/

/-- The text of a call in traces. -/
def describeCall (name : String) (arguments : List Value) : String :=
  name ++ Text.parenthesized (arguments.map fun a => Text.quote a.display)

mutual

/-- Executes a statement. The result is the value that a `return` in it gives, if one is reached. -/
def execute (call : Callee) (fuel : Nat) (scope : Scope) (frames : Nat) :
    Node → Exec (Option Value)
  | .print expressions => do
    print (← values call scope frames expressions)
    return none
  | .definition name expression => do
    let v ← value call scope frames expression
    updateScopes fun scopes => scopes.define scope name v
    trace 2 fun _ => "define " ++ name ++ " = " ++ v.inspect
    return none
  | .assignment name expression => do
    let v ← value call scope frames expression
    updateScopes fun scopes => scopes.assign scope name v
    trace 2 fun _ => "assign " ++ name ++ " = " ++ v.inspect
    return none
  | .conditional condition thenBlock elseBlock => do
    let holds ← truth (← value call scope frames condition)
    trace 3 fun _ => "if condition -> " ++ Value.inspectBool holds
    if holds then
      let inner ← openScope scope
      nested frames fun frames => executeBlock call fuel inner frames thenBlock
    else
      match elseBlock with
      | none => return none
      | some block =>
        let inner ← openScope scope
        nested frames fun frames => executeBlock call fuel inner frames block
  | .loop condition body =>
    let holds : Exec Bool := do
      let holds ← truth (← value call scope frames condition)
      trace 3 fun _ => "while condition -> " ++ Value.inspectBool holds
      return holds
    let turn : Exec (Option Value) := do
      let inner ← openScope scope
      nested frames fun frames => executeBlock call fuel inner frames body
    repeatWhile holds turn fuel
  | .function name parameters body => do
    updateScopes fun scopes => (.ok (), scopes.declare scope ⟨name, parameters, body⟩)
    trace 2 fun _ => "define function " ++ name ++ "(" ++ ", ".intercalate parameters ++ ")"
    return none
  | .callStatement name arguments => do
    let values ← values call scope frames arguments
    let _ ← nested frames fun frames => call frames name values scope
    return none
  | .returning expression => do
    return some (← value call scope frames expression)
  | .expressionStatement expression => do
    let _ ← value call scope frames expression
    return none
  | .valueStatement _ => return none
  | node => throw (.fault (.notAStatement node.typeName))
termination_by structural node => node

/-- Executes the statements of a block. -/
def executeBlock (call : Callee) (fuel : Nat) (scope : Scope) (frames : Nat) :
    Node → Exec (Option Value)
  | .block statements => executeAll call fuel scope frames statements
  | node => throw (.fault (.notABlock node.typeName))
termination_by structural node => node

/-- Executes statements in order, up to the first that returns. A statement has a frame of its own,
which matters to what is evaluated in it. -/
def executeAll (call : Callee) (fuel : Nat) (scope : Scope) (frames : Nat) :
    List Node → Exec (Option Value)
  | [] => return none
  | statement :: statements => do
    match ← execute call fuel scope (frames + 1) statement with
    | some value => return some value
    | none => executeAll call fuel scope frames statements
termination_by structural statements => statements

end

/-! ## Calls -/

/-- Defines the parameters of a function in the scope of a call. -/
def defineAll (scope : Scope) : List (String × Value) → Exec Unit
  | [] => return
  | (name, v) :: rest => do
    updateScopes fun scopes => scopes.define scope name v
    defineAll scope rest

/-- Does what a function of the host does; `run` runs a program text. -/
def act (run : Text.Names → String → Exec (Option Value)) : HostAction → Exec (Option Value)
  | .done result => return result
  | .fail failure => throw failure
  | .depth next => do act run (next (← get).calls.depth)
  | .run names source next => do act run (next (← run names source))

/-- Fails unless a function of the host takes as many arguments as it is given. -/
def checkArity (f : HostFunction) (arguments : List Value) : Exec Unit :=
  match f.arity with
  | some arity =>
    if arity ≠ arguments.length then
      throw (.script (.wrongArgumentCount f.name arity arguments.length))
    else return
  | none => return

/-- Calls a function of the host. The number of arguments is checked in a frame of its own, before
the function takes its frames. A function that returns nothing gives `void`. -/
def callHost (run : (frames : Nat) → Text.Names → String → Exec (Option Value)) (frames : Nat)
    (f : HostFunction) (arguments : List Value) : Exec Value := do
  trace 1 fun _ => "call builtin " ++ describeCall f.name arguments
  nested frames fun frames => do
    checkArity f arguments
    demand fun _ => frames + f.frames
    return (← act (run (frames + f.frames)) (f.body arguments)).getD .void

/-- Runs the body of a declared function once its call is counted, and ends the call. Frames are
reserved for the body. The parameters live in a new scope inside the one that declares the function,
and a body without `return` gives `void`. -/
def activate (body : (frames : Nat) → Scope → Node → Exec (Option Value)) (frames : Nat)
    (owner : Scope) (f : Function) (name : String) (arguments : List Value) : Exec Value := do
  reserve frames
  trace 1 fun m => "call " ++ describeCall name arguments ++ " depth=" ++ toString m.calls.depth
  let inner ← openScope owner
  defineAll inner (f.parameters.zip arguments)
  let result := (← nested frames fun frames => body frames inner f.body).getD .void
  leaveCall
  trace 1 fun _ => "return " ++ name ++ " -> " ++ result.inspect
  return result

/-- Whether a declared function takes as many arguments as it is given. -/
def checkCount (f : Function) (name : String) (arguments : List Value) : Exec Unit :=
  if arguments.length ≠ f.parameters.length then
    throw (.script (.wrongArgumentCount name f.parameters.length arguments.length))
  else return

/-- Calls a declared function. -/
def callDeclared (body : (frames : Nat) → Scope → Node → Exec (Option Value)) (frames : Nat)
    (owner : Scope) (f : Function) (name : String) (arguments : List Value) : Exec Value := do
  checkCount f name arguments
  enterCall
  activate body frames owner f name arguments

/-- Executes the statements of a program in the root scope. Frames are reserved for them. -/
def executeProgram (call : Callee) (fuel frames : Nat) (body : List Node) :
    Exec (Option Value) := do
  reserve frames
  nested frames fun frames => executeAll call fuel Scope.root frames body

/-- Runs the statements of a program, with so many frames in use. -/
def runBody (call : Callee) (fuel frames : Nat) (body : List Node) : Exec (Option Value) :=
  guarded (executeProgram call fuel frames body)

/-- Reads a program text and runs its statements. -/
def runText (run : List Node → Exec (Option Value)) (names : Text.Names) (source : String) :
    Exec (Option Value) :=
  match Program.parse names source with
  | .ok body => run body
  | .error failure => throw failure

/-- Reads and runs a program text for a function of the host. -/
def runSource (call : Callee) (fuel frames : Nat) (names : Text.Names) (source : String) :
    Exec (Option Value) :=
  runText (fun body => nested frames fun frames => runBody call fuel frames body) names source

/-- Calls a function by its name. Functions of the host take precedence over declared ones. -/
def call : (fuel : Nat) → Callee
  | 0, _, _, _, _ => throw .outOfFuel
  | fuel + 1, frames, name, arguments, scope => do
    let m ← get
    match m.hosts.find? name with
    | some f => callHost (runSource (call fuel) fuel) frames f arguments
    | none =>
      match m.scopes.declaration? scope name with
      | none => throw (.script (.undefinedFunction name))
      | some (owner, f) =>
        callDeclared (fun frames inner => executeBlock (call fuel) fuel inner frames) frames owner f
          name arguments

end Evaluator

namespace Machine

/-- Runs the statements of a program. The result is the value of a `return` outside functions, if
one is reached. -/
def run (fuel : Nat) (body : List Node) : Exec (Option Value) := fun m =>
  Evaluator.runBody (Evaluator.call fuel) fuel m.stack.base body m

/-- Reads and runs a program text. A text that cannot be read leaves the machine as it is. -/
def runSource (fuel : Nat) (names : Text.Names) (source : String) : Exec (Option Value) :=
  Evaluator.runText (run fuel) names source

/-- More turns of a loop, and more calls inside each other, than any computer gets through. -/
def ampleFuel : Nat := Nat.pow 2 62

end Machine

end ScriptLang
