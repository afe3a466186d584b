import ScriptLang.Proofs.Progress

set_option autoImplicit false

/-! # The interpreter by plain recursion

`Evaluator.evaluate` walks a chain of operators down its left side and keeps the operations that are
still to be done. The interpreter here recurses on the tree alone: an operator evaluates its left
operand, then its right one, and is applied. What it takes from the stack is the same: an operator
on the left goes on with a chain and has no frame of its own. It is written once for all ways to
carry out the elementary actions of a run (an `Interpretation`); the `direct` one carries them out
on the machine. Then the two interpreters are the same, also in the bodies of functions and in
programs that the host runs (`Plain.walk_agrees`). -/

namespace ScriptLang

/-! ## Actions -/

/-- What a name denotes where it is called. -/
inductive Resolved where
  | host (f : HostFunction)
  | declared (owner : Scope) (f : Function)
  | unknown

/-- What a name denotes in a scope. Functions of the host take precedence over declared ones. -/
def Machine.resolve (m : Machine) (scope : Scope) (name : String) : Resolved :=
  match m.hosts.find? name with
  | some f => .host f
  | none =>
    match m.scopes.declaration? scope name with
    | some (owner, f) => .declared owner f
    | none => .unknown

/-- The elementary actions of a run, each with the sort of its result. -/
inductive Action : Type → Type 1 where
  | fail {α : Type} (failure : Failure) : Action α
  | lookup (scope : Scope) (name : String) : Action Value
  | operate (frames : Nat) (operator : Operator) (a b : Value) : Action Value
  | truth (value : Value) : Action Bool
  | read (kind : InputKind) : Action Value
  /-- Traces a line that may name the number of active calls. -/
  | trace (level : Nat) (line : Int → String) : Action Unit
  | openScope (scope : Scope) : Action Scope
  | define (scope : Scope) (name : String) (value : Value) : Action Unit
  | assign (scope : Scope) (name : String) (value : Value) : Action Unit
  | declare (scope : Scope) (f : Function) : Action Unit
  /-- Fails unless a function that takes `count` arguments is given as many. -/
  | checkCount (count : Nat) (name : String) (arguments : List Value) : Action Unit
  /-- Gives the number of active calls. -/
  | depth : Action Int
  /-- Fails unless there may be as many frames as are needed. -/
  | demand (needed : Stack → Nat) : Action Unit
  | reserve (frames : Nat) : Action Unit

namespace Action

/-- What an action does on the machine. -/
def exec {α : Type} : Action α → Exec α
  | fail failure => throw failure
  | lookup scope name => Exec.lookup scope name
  | operate frames operator a b => Exec.operate frames operator a b
  | truth value => Exec.truth value
  | read kind => Exec.readInput kind
  | trace level line => Exec.trace level fun m => line m.calls.depth
  | openScope scope => Exec.openScope scope
  | define scope name value => Exec.updateScopes fun scopes => scopes.define scope name value
  | assign scope name value => Exec.updateScopes fun scopes => scopes.assign scope name value
  | declare scope f => Exec.updateScopes fun scopes => (.ok (), scopes.declare scope f)
  | checkCount count name arguments =>
    if arguments.length ≠ count then
      throw (.script (.wrongArgumentCount name count arguments.length))
    else return
  | depth => do return (← get).calls.depth
  | demand needed => Exec.demand needed
  | reserve frames => Exec.reserve frames

end Action

/-- A way to carry out what a run does. -/
structure Interpretation (M : Type → Type) where
  perform {α : Type} : Action α → M α
  /-- Prints the values of the expressions of a statement. -/
  print (expressions : List Node) (values : List Value) : M Unit
  /-- Finds out what a name denotes where it is called. -/
  resolve (scope : Scope) (name : String) : M Resolved
  /-- Counts a call, does what is done in it and counts its end. -/
  calling : M (Option Value) → M (Option Value)
  /-- Runs a program. -/
  guarded : M (Option Value) → M (Option Value)

/-- Counts a call, does what is done in it and counts its end. -/
def Exec.calling (body : Exec (Option Value)) : Exec (Option Value) := do
  enterCall
  let returned ← body
  leaveCall
  return returned

/-- All is done on the machine. -/
def Interpretation.direct : Interpretation Exec where
  perform := Action.exec
  print _ values := Exec.print values
  resolve scope name := do return (← get).resolve scope name
  calling := Exec.calling
  guarded := Exec.guarded

/-! ## The interpreter -/

namespace Plain

variable {M : Type → Type} [Monad M] (I : Interpretation M)

/-- How a function is called. -/
abbrev Callee (M : Type → Type) := (frames : Nat) → String → List Value → Scope → M Value

/-- A computation in one more frame. -/
def nested {α : Type} (frames : Nat) (inner : Nat → M α) : M α := do
  I.perform (.demand fun _ => frames + 1)
  inner (frames + 1)

/-- The evaluation of a left operand, which has a frame of its own unless it is an operator. -/
def leftmost {α : Type} (frames : Nat) (node : Node) (inner : Nat → M α) : M α :=
  match node with
  | .binary _ _ _ => inner frames
  | _ => nested I frames inner

/-- Repeats a body as long as the condition holds and the body returns nothing. -/
def repeatWhile (condition : M Bool) (body : M (Option Value)) : (fuel : Nat) → M (Option Value)
  | 0 => I.perform (.fail .outOfFuel)
  | fuel + 1 => do
    if ← condition then
      match ← body with
      | some value => return some value
      | none => repeatWhile condition body fuel
    else return none

section

variable (call : Callee M)

mutual

/-- Evaluates an expression. An operator evaluates its left operand, then its right one. -/
def evaluate (scope : Scope) (frames : Nat) : Node → M Value
  | .literal value => return value
  | .reference name => I.perform (.lookup scope name)
  | .binary operator left right => do
    let a ← leftmost I frames left fun frames => evaluate scope frames left
    let b ← nested I frames fun frames => evaluate scope frames right
    I.perform (.operate frames operator a b)
  | .call name arguments => do
    let values ← nested I frames fun frames => evaluateAll scope frames arguments
    nested I frames fun frames => call frames name values scope
  | .input kind => I.perform (.read kind)
  | node => I.perform (.fail (.fault (.notEvaluable node.typeName)))
termination_by structural node => node

/-- Evaluates expressions from left to right. -/
def evaluateAll (scope : Scope) (frames : Nat) : List Node → M (List Value)
  | [] => return []
  | node :: nodes => do
    let value ← nested I frames fun frames => evaluate scope frames node
    let values ← evaluateAll scope frames nodes
    return value :: values
termination_by structural nodes => nodes

end

/-- Evaluates an expression of a statement. -/
def value (scope : Scope) (frames : Nat) (node : Node) : M Value :=
  nested I frames fun frames => evaluate I call scope frames node

/-- Evaluates the expressions of a statement. -/
def values (scope : Scope) (frames : Nat) (nodes : List Node) : M (List Value) :=
  nested I frames fun frames => evaluateAll I call scope frames nodes

mutual

/-- Executes a statement. -/
def execute (fuel : Nat) (scope : Scope) (frames : Nat) : Node → M (Option Value)
  | .print expressions => do
    let values ← values I call scope frames expressions
    I.print expressions values
    return none
  | .definition name expression => do
    let v ← value I call scope frames expression
    I.perform (.define scope name v)
    I.perform (.trace 2 fun _ => "define " ++ name ++ " = " ++ v.inspect)
    return none
  | .assignment name expression => do
    let v ← value I call scope frames expression
    I.perform (.assign scope name v)
    I.perform (.trace 2 fun _ => "assign " ++ name ++ " = " ++ v.inspect)
    return none
  | .conditional condition thenBlock elseBlock => do
    let v ← value I call scope frames condition
    let holds ← I.perform (.truth v)
    I.perform (.trace 3 fun _ => "if condition -> " ++ Value.inspectBool holds)
    if holds then
      let inner ← I.perform (.openScope scope)
      nested I frames fun frames => executeBlock fuel inner frames thenBlock
    else
      match elseBlock with
      | none => return none
      | some block =>
        let inner ← I.perform (.openScope scope)
        nested I frames fun frames => executeBlock fuel inner frames block
  | .loop condition body =>
    let holds : M Bool := do
      let v ← value I call scope frames condition
      let holds ← I.perform (.truth v)
      I.perform (.trace 3 fun _ => "while condition -> " ++ Value.inspectBool holds)
      return holds
    let turn : M (Option Value) := do
      let inner ← I.perform (.openScope scope)
      nested I frames fun frames => executeBlock fuel inner frames body
    repeatWhile I holds turn fuel
  | .function name parameters body => do
    I.perform (.declare scope ⟨name, parameters, body⟩)
    I.perform (.trace 2 fun _ =>
      "define function " ++ name ++ "(" ++ ", ".intercalate parameters ++ ")")
    return none
  | .callStatement name arguments => do
    let values ← values I call scope frames arguments
    let _ ← nested I frames fun frames => call frames name values scope
    return none
  | .returning expression => do
    let v ← value I call scope frames expression
    return some v
  | .expressionStatement expression => do
    let _ ← value I call scope frames expression
    return none
  | .valueStatement _ => return none
  | node => I.perform (.fail (.fault (.notAStatement node.typeName)))
termination_by structural node => node

/-- Executes the statements of a block. -/
def executeBlock (fuel : Nat) (scope : Scope) (frames : Nat) : Node → M (Option Value)
  | .block statements => executeAll fuel scope frames statements
  | node => I.perform (.fail (.fault (.notABlock node.typeName)))
termination_by structural node => node

/-- Executes statements in order, up to the first that returns. -/
def executeAll (fuel : Nat) (scope : Scope) (frames : Nat) : List Node → M (Option Value)
  | [] => return none
  | statement :: statements => do
    match ← execute fuel scope (frames + 1) statement with
    | some value => return some value
    | none => executeAll fuel scope frames statements
termination_by structural statements => statements

end

/-- Executes the statements of a program in the root scope. -/
def executeProgram (fuel frames : Nat) (body : List Node) : M (Option Value) := do
  I.perform (.reserve frames)
  nested I frames fun frames => executeAll I call fuel Scope.root frames body

/-- Runs the statements of a program. -/
def runBody (fuel frames : Nat) (body : List Node) : M (Option Value) :=
  I.guarded (executeProgram I call fuel frames body)

/-- Reads and runs a program text for a function of the host. -/
def runSource (fuel frames : Nat) (names : Text.Names) (source : String) : M (Option Value) :=
  match Program.parse names source with
  | .ok body => nested I frames fun frames => runBody I call fuel frames body
  | .error failure => I.perform (.fail failure)

end

/-- Defines the parameters of a function in the scope of a call. -/
def defineAll (scope : Scope) : List (String × Value) → M Unit
  | [] => return
  | (name, v) :: rest => do
    I.perform (.define scope name v)
    defineAll scope rest

/-- Does what a function of the host does; `run` runs a program text. -/
def act (run : Text.Names → String → M (Option Value)) : HostAction → M (Option Value)
  | .done result => return result
  | .fail failure => I.perform (.fail failure)
  | .depth next => do
    let n ← I.perform .depth
    act run (next n)
  | .run names source next => do
    let result ← run names source
    act run (next result)

/-- Fails unless a function of the host takes as many arguments as it is given. -/
def checkArity (f : HostFunction) (arguments : List Value) : M Unit :=
  match f.arity with
  | some arity =>
    if arity ≠ arguments.length then
      I.perform (.fail (.script (.wrongArgumentCount f.name arity arguments.length)))
    else return
  | none => return

/-- Calls a function of the host. -/
def callHost (run : (frames : Nat) → Text.Names → String → M (Option Value)) (frames : Nat)
    (f : HostFunction) (arguments : List Value) : M Value := do
  I.perform (.trace 1 fun _ => "call builtin " ++ Evaluator.describeCall f.name arguments)
  nested I frames fun frames => do
    checkArity I f arguments
    I.perform (.demand fun _ => frames + f.frames)
    let result ← act I (run (frames + f.frames)) (f.body arguments)
    return result.getD .void

/-- What is done in a call of a declared function. -/
def activate (body : (frames : Nat) → Scope → Node → M (Option Value)) (frames : Nat)
    (owner : Scope) (f : Function) (name : String) (arguments : List Value) :
    M (Option Value) := do
  I.perform (.reserve frames)
  I.perform (.trace 1 fun depth =>
    "call " ++ Evaluator.describeCall name arguments ++ " depth=" ++ toString depth)
  let inner ← I.perform (.openScope owner)
  defineAll I inner (f.parameters.zip arguments)
  nested I frames fun frames => body frames inner f.body

/-- Calls a declared function. -/
def callDeclared (body : (frames : Nat) → Scope → Node → M (Option Value)) (frames : Nat)
    (owner : Scope) (f : Function) (name : String) (arguments : List Value) : M Value := do
  I.perform (.checkCount f.parameters.length name arguments)
  let returned ← I.calling (activate I body frames owner f name arguments)
  I.perform (.trace 1 fun _ => "return " ++ name ++ " -> " ++ (returned.getD .void).inspect)
  return returned.getD .void

/-- Calls a function by its name. -/
def call : (fuel : Nat) → Callee M
  | 0, _, _, _, _ => I.perform (.fail .outOfFuel)
  | fuel + 1, frames, name, arguments, scope => do
    match ← I.resolve scope name with
    | .host f => callHost I (runSource I (call fuel) fuel) frames f arguments
    | .declared owner f =>
      callDeclared I (fun frames inner => executeBlock I (call fuel) fuel inner frames) frames owner
        f name arguments
    | .unknown => I.perform (.fail (.script (.undefinedFunction name)))

/-- Runs the statements of a program, with so many frames in use. -/
def run (fuel frames : Nat) (body : List Node) : M (Option Value) :=
  runBody I (call I fuel) fuel frames body

theorem execute_conditional (call : Callee M) (fuel : Nat) (scope : Scope) (frames : Nat)
    (condition thenBlock : Node) (elseBlock : Option Node) :
    execute I call fuel scope frames (.conditional condition thenBlock elseBlock) = (do
      let v ← value I call scope frames condition
      let holds ← I.perform (.truth v)
      I.perform (.trace 3 fun _ => "if condition -> " ++ Value.inspectBool holds)
      if holds then
        let inner ← I.perform (.openScope scope)
        nested I frames fun frames => executeBlock I call fuel inner frames thenBlock
      else
        match elseBlock with
        | none => return none
        | some block =>
          let inner ← I.perform (.openScope scope)
          nested I frames fun frames => executeBlock I call fuel inner frames block) := by
  cases elseBlock <;> rfl

/-! ## Actions carried out on the machine -/

open Interpretation (direct)

theorem nested_direct {α : Type} (frames : Nat) (inner : Nat → Exec α) :
    nested direct frames inner = Exec.nested frames inner := rfl

theorem leftmost_direct {α : Type} (frames : Nat) (node : Node) (inner : Nat → Exec α) :
    leftmost direct frames node inner = Evaluator.leftmost frames node inner := by
  cases node <;> rfl

theorem repeatWhile_direct (condition : Exec Bool) (body : Exec (Option Value)) (fuel : Nat) :
    repeatWhile direct condition body fuel = Exec.repeatWhile condition body fuel := by
  induction fuel with
  | zero => rfl
  | succ fuel ih =>
    rw [repeatWhile, ih]
    rfl

section

variable (call : Evaluator.Callee)

mutual

/-- By recursion on the tree, because the walk down a chain of operators can be cut at each of them
(`Evaluator.evaluate_binary`). -/
theorem evaluate_direct (scope : Scope) (frames : Nat) : ∀ node : Node,
    evaluate direct call scope frames node = Evaluator.evaluate call scope frames node []
  | .literal value => by
    rw [evaluate, Evaluator.evaluate_literal]
  | .reference name => by
    rw [evaluate, Evaluator.evaluate_reference]
    rfl
  | .binary operator left right => by
    have hleft : (fun frames => evaluate direct call scope frames left)
        = fun frames => Evaluator.evaluate call scope frames left [] :=
      funext fun frames => evaluate_direct scope frames left
    have hright : (fun frames => evaluate direct call scope frames right)
        = fun frames => Evaluator.evaluate call scope frames right [] :=
      funext fun frames => evaluate_direct scope frames right
    rw [evaluate, Evaluator.evaluate_binary, leftmost_direct, hleft, nested_direct, hright]
    rfl
  | .call name arguments => by
    have harguments : (fun frames => evaluateAll direct call scope frames arguments)
        = fun frames => Evaluator.evaluateAll call scope frames arguments :=
      funext fun frames => evaluateAll_direct scope frames arguments
    rw [evaluate, Evaluator.evaluate_call, Evaluator.values, nested_direct, harguments]
    rfl
  | .input kind => by
    rw [evaluate, Evaluator.evaluate_input]
    rfl
  | .block _ | .program _ | .print _ | .definition _ _ | .assignment _ _ | .conditional _ _ _
  | .loop _ _ | .function _ _ _ | .callStatement _ _ | .returning _ | .expressionStatement _
  | .valueStatement _ | .fragment _ => rfl
termination_by structural node => node

theorem evaluateAll_direct (scope : Scope) (frames : Nat) : ∀ nodes : List Node,
    evaluateAll direct call scope frames nodes = Evaluator.evaluateAll call scope frames nodes
  | [] => by
    rw [evaluateAll, Evaluator.evaluateAll]
  | node :: nodes => by
    have hnode : (fun frames => evaluate direct call scope frames node)
        = fun frames => Evaluator.evaluate call scope frames node [] :=
      funext fun frames => evaluate_direct scope frames node
    rw [evaluateAll, Evaluator.evaluateAll, nested_direct, hnode,
      evaluateAll_direct scope frames nodes]
termination_by structural nodes => nodes

end

theorem value_direct (scope : Scope) (frames : Nat) (node : Node) :
    value direct call scope frames node = Evaluator.value call scope frames node := by
  rw [value, Evaluator.value, nested_direct]
  exact congrArg (Exec.nested frames) (funext fun frames => evaluate_direct call scope frames node)

theorem values_direct (scope : Scope) (frames : Nat) (nodes : List Node) :
    values direct call scope frames nodes = Evaluator.values call scope frames nodes := by
  rw [values, Evaluator.values, nested_direct]
  exact congrArg (Exec.nested frames)
    (funext fun frames => evaluateAll_direct call scope frames nodes)

mutual

theorem execute_direct (fuel : Nat) (scope : Scope) (frames : Nat) : ∀ node : Node,
    execute direct call fuel scope frames node = Evaluator.execute call fuel scope frames node
  | .print expressions => by
    rw [execute, Evaluator.execute, values_direct]
    rfl
  | .definition name expression => by
    rw [execute, Evaluator.execute, value_direct]
    rfl
  | .assignment name expression => by
    rw [execute, Evaluator.execute, value_direct]
    rfl
  | .conditional condition thenBlock elseBlock => by
    have hthen (inner : Scope) :
        (fun frames => executeBlock direct call fuel inner frames thenBlock)
        = fun frames => Evaluator.executeBlock call fuel inner frames thenBlock :=
      funext fun frames => executeBlock_direct fuel inner frames thenBlock
    rw [execute_conditional, Evaluator.execute_conditional, value_direct]
    rcases elseBlock with _ | block
    · simp only [nested_direct, hthen]
      rfl
    · have helse (inner : Scope) : (fun frames => executeBlock direct call fuel inner frames block)
          = fun frames => Evaluator.executeBlock call fuel inner frames block :=
        funext fun frames => executeBlock_direct fuel inner frames block
      simp only [nested_direct, hthen, helse]
      rfl
  | .loop condition body => by
    have hbody (inner : Scope) : (fun frames => executeBlock direct call fuel inner frames body)
        = fun frames => Evaluator.executeBlock call fuel inner frames body :=
      funext fun frames => executeBlock_direct fuel inner frames body
    rw [execute, Evaluator.execute, value_direct]
    simp only [nested_direct, repeatWhile_direct, hbody]
    rfl
  | .function name parameters body => by
    rw [execute, Evaluator.execute]
    rfl
  | .callStatement name arguments => by
    rw [execute, Evaluator.execute, values_direct]
    rfl
  | .returning expression => by
    rw [execute, Evaluator.execute, value_direct]
  | .expressionStatement expression => by
    rw [execute, Evaluator.execute, value_direct]
  | .valueStatement _ => by
    rw [execute, Evaluator.execute]
  | .reference _ | .literal _ | .binary _ _ _ | .call _ _ | .input _ | .block _ | .program _
  | .fragment _ => rfl
termination_by structural node => node

theorem executeBlock_direct (fuel : Nat) (scope : Scope) (frames : Nat) : ∀ node : Node,
    executeBlock direct call fuel scope frames node
      = Evaluator.executeBlock call fuel scope frames node
  | .block statements => by
    rw [executeBlock, Evaluator.executeBlock, executeAll_direct fuel scope frames statements]
  | .reference _ | .literal _ | .binary _ _ _ | .call _ _ | .input _ | .program _ | .print _
  | .definition _ _ | .assignment _ _ | .conditional _ _ _ | .loop _ _ | .function _ _ _
  | .callStatement _ _ | .returning _ | .expressionStatement _ | .valueStatement _
  | .fragment _ => rfl
termination_by structural node => node

theorem executeAll_direct (fuel : Nat) (scope : Scope) (frames : Nat) : ∀ statements : List Node,
    executeAll direct call fuel scope frames statements
      = Evaluator.executeAll call fuel scope frames statements
  | [] => by
    rw [executeAll, Evaluator.executeAll]
  | statement :: statements => by
    rw [executeAll, execute_direct fuel scope (frames + 1) statement,
      executeAll_direct fuel scope frames statements]
    rfl
termination_by structural statements => statements

end

theorem executeProgram_direct (fuel frames : Nat) (body : List Node) :
    executeProgram direct call fuel frames body
      = Evaluator.executeProgram call fuel frames body := by
  have hbody : (fun frames => executeAll direct call fuel Scope.root frames body)
      = fun frames => Evaluator.executeAll call fuel Scope.root frames body :=
    funext fun frames => executeAll_direct call fuel Scope.root frames body
  rw [executeProgram, Evaluator.executeProgram, nested_direct, hbody]
  rfl

theorem runBody_direct (fuel frames : Nat) (body : List Node) :
    runBody direct call fuel frames body = Evaluator.runBody call fuel frames body := by
  rw [runBody, Evaluator.runBody, executeProgram_direct]
  rfl

theorem runSource_direct (fuel : Nat) :
    runSource direct call fuel = Evaluator.runSource call fuel := by
  funext frames names source
  unfold runSource Evaluator.runSource Evaluator.runText
  cases Program.parse names source with
  | ok body =>
    exact congrArg (Exec.nested frames) (funext fun frames => runBody_direct call fuel frames body)
  | error failure => rfl

end

theorem defineAll_direct (scope : Scope) (bindings : List (String × Value)) :
    defineAll direct scope bindings = Evaluator.defineAll scope bindings := by
  induction bindings with
  | nil => rfl
  | cons binding rest ih =>
    rw [defineAll, Evaluator.defineAll, ih]
    rfl

theorem act_direct (run : Text.Names → String → Exec (Option Value)) (action : HostAction) :
    act direct run action = Evaluator.act run action := by
  induction action with
  | done result => rfl
  | fail failure => rfl
  | depth next ih =>
    have hnext : (fun n => act direct run (next n)) = fun n => Evaluator.act run (next n) :=
      funext ih
    rw [act, Evaluator.act, hnext]
    rfl
  | run names source next ih =>
    have hnext : (fun r => act direct run (next r)) = fun r => Evaluator.act run (next r) :=
      funext ih
    rw [act, Evaluator.act, hnext]

theorem checkArity_direct (f : HostFunction) (arguments : List Value) :
    checkArity direct f arguments = Evaluator.checkArity f arguments := by
  unfold checkArity Evaluator.checkArity
  cases f.arity <;> rfl

theorem callHost_direct (run : (frames : Nat) → Text.Names → String → Exec (Option Value))
    (frames : Nat) (f : HostFunction) (arguments : List Value) :
    callHost direct run frames f arguments = Evaluator.callHost run frames f arguments := by
  rw [callHost, Evaluator.callHost]
  simp only [act_direct, checkArity_direct, nested_direct]
  rfl

theorem callDeclared_direct (body : (frames : Nat) → Scope → Node → Exec (Option Value))
    (frames : Nat) (owner : Scope) (f : Function) (name : String) (arguments : List Value) :
    callDeclared direct body frames owner f name arguments
      = Evaluator.callDeclared body frames owner f name arguments := by
  have hcalling (x : Exec (Option Value)) : direct.calling x = Exec.calling x := rfl
  rw [callDeclared, Evaluator.callDeclared, hcalling, Exec.calling, activate, Evaluator.activate]
  simp only [defineAll_direct, nested_direct, bind_assoc, pure_bind]
  rfl

theorem call_direct (fuel : Nat) : call direct fuel = Evaluator.call fuel := by
  induction fuel with
  | zero => rfl
  | succ fuel ih =>
    funext frames name arguments scope m
    have hresolve : direct.resolve scope name m
        = (.ok (m.resolve scope name), m) := rfl
    rw [call, Exec.bind_of_ok hresolve, Evaluator.call, Exec.bind_of_ok (Exec.get_apply m),
      Machine.resolve]
    cases m.hosts.find? name with
    | some f =>
      dsimp only
      rw [ih, runSource_direct, callHost_direct]
    | none =>
      cases m.scopes.declaration? scope name with
      | none => rfl
      | some found =>
        have hbody : (fun frames inner =>
              executeBlock direct (Evaluator.call fuel) fuel inner frames)
            = fun frames inner => Evaluator.executeBlock (Evaluator.call fuel) fuel inner frames :=
          funext fun frames => funext fun inner => funext fun node => executeBlock_direct ..
        dsimp only
        rw [ih, callDeclared_direct, hbody]

theorem run_direct (fuel : Nat) (body : List Node) (m : Machine) :
    run direct fuel m.stack.base body m = Machine.run fuel body m := by
  rw [run, Machine.run, call_direct, runBody_direct]

/-- **The walk agrees with plain recursion.** To evaluate an expression by walking down its chains
of operators is to evaluate it by recursion on the tree, where each operator evaluates its left
operand, then its right one, and is applied; also in the functions that are called. The two are the
same computation, so from each machine, whatever its stack is, they give the same value or the same
failure and leave the same machine: its variables, calls, input, output and traces. The same holds
for whole runs. -/
theorem walk_agrees (fuel : Nat) (scope : Scope) (frames : Nat) (node : Node) (body : List Node)
    (m : Machine) :
    Evaluator.evaluate (Evaluator.call fuel) scope frames node [] m
        = evaluate direct (call direct fuel) scope frames node m ∧
      Machine.run fuel body m = run direct fuel m.stack.base body m := by
  rw [run_direct, call_direct, evaluate_direct]
  exact ⟨rfl, rfl⟩

end Plain

end ScriptLang
