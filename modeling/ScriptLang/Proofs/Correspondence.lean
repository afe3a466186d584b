import ScriptLang.Proofs.PlainRecursion
import ScriptLang.Proofs.Traces

set_option autoImplicit false

/-! # Interpretations that correspond

The interpreter of `Plain` treats all interpretations alike. So a relation between the computations
of two interpretations that holds for each action, and that sequences and calls respect, holds for
all that the interpreter does with the same code (`Correspondence`). What remains to be shown for a
particular relation is how calls find their functions, and how programs are run. -/

namespace ScriptLang

open Plain

/-- A relation between the computations of two interpretations. -/
structure Correspondence {M N : Type → Type} [Monad M] [Monad N] (I : Interpretation M)
    (J : Interpretation N) where
  related {α : Type} : M α → N α → Prop
  pure {α : Type} (a : α) : related (pure a) (pure a)
  bind {α β : Type} {x : M α} {y : N α} {f : α → M β} {g : α → N β} :
    related x y → (∀ a, related (f a) (g a)) → related (x >>= f) (y >>= g)
  perform {α : Type} (action : Action α) : related (I.perform action) (J.perform action)
  calling {x : M (Option Value)} {y : N (Option Value)} :
    related x y → related (I.calling x) (J.calling y)

namespace Correspondence

variable {M N : Type → Type} [Monad M] [Monad N] {I : Interpretation M} {J : Interpretation N}
  (C : Correspondence I J)

/-- Whether two ways to call functions correspond, and with them the statements that print. -/
structure Callees (c : Callee M) (d : Callee N) : Prop where
  calls (frames : Nat) (name : String) (arguments : List Value) (scope : Scope) :
    C.related (c frames name arguments scope) (d frames name arguments scope)
  prints {fuel : Nat} {scope : Scope} {frames : Nat} {expressions : List Node} :
    C.related (values I c scope frames expressions) (values J d scope frames expressions) →
      C.related (execute I c fuel scope frames (.print expressions))
        (execute J d fuel scope frames (.print expressions))

theorem nested {α : Type} {frames : Nat} {f : Nat → M α} {g : Nat → N α}
    (h : ∀ frames, C.related (f frames) (g frames)) :
    C.related (Plain.nested I frames f) (Plain.nested J frames g) :=
  C.bind (C.perform (.demand fun _ => frames + 1)) fun _ => h (frames + 1)

theorem leftmost {α : Type} {frames : Nat} {f : Nat → M α} {g : Nat → N α} (node : Node)
    (h : ∀ frames, C.related (f frames) (g frames)) :
    C.related (Plain.leftmost I frames node f) (Plain.leftmost J frames node g) := by
  unfold Plain.leftmost
  split
  · exact h frames
  · exact C.nested h

theorem repeatWhile {condition : M Bool} {condition' : N Bool} {body : M (Option Value)}
    {body' : N (Option Value)} (hc : C.related condition condition') (hb : C.related body body')
    (fuel : Nat) :
    C.related (Plain.repeatWhile I condition body fuel)
      (Plain.repeatWhile J condition' body' fuel) := by
  induction fuel with
  | zero => exact C.perform (.fail .outOfFuel)
  | succ fuel ih =>
    refine C.bind hc fun holds => ?_
    cases holds with
    | false => exact C.pure none
    | true =>
      refine C.bind hb fun result => ?_
      cases result with
      | none => exact ih
      | some value => exact C.pure (some value)

/-! ## Evaluation -/

variable {C} {c : Callee M} {d : Callee N}

mutual

theorem Callees.evaluate (h : C.Callees c d) (scope : Scope) (frames : Nat) : ∀ node : Node,
    C.related (Plain.evaluate I c scope frames node) (Plain.evaluate J d scope frames node)
  | .literal value => C.pure value
  | .reference name => C.perform (.lookup scope name)
  | .binary operator left right => by
    rw [Plain.evaluate, Plain.evaluate]
    refine C.bind (C.leftmost left fun frames => Callees.evaluate h scope frames left) fun a => ?_
    refine C.bind (C.nested fun frames => Callees.evaluate h scope frames right) fun b => ?_
    exact C.perform (.operate frames operator a b)
  | .call name arguments => by
    rw [Plain.evaluate, Plain.evaluate]
    refine C.bind (C.nested fun frames => Callees.evaluateAll h scope frames arguments)
      fun values => ?_
    exact C.nested fun frames => h.calls frames name values scope
  | .input kind => C.perform (.read kind)
  | .block _ | .program _ | .print _ | .definition _ _ | .assignment _ _ | .conditional _ _ _
  | .loop _ _ | .function _ _ _ | .callStatement _ _ | .returning _ | .expressionStatement _
  | .valueStatement _ | .fragment _ => C.perform (.fail _)
termination_by structural node => node

theorem Callees.evaluateAll (h : C.Callees c d) (scope : Scope) (frames : Nat) :
    ∀ nodes : List Node,
      C.related (Plain.evaluateAll I c scope frames nodes)
        (Plain.evaluateAll J d scope frames nodes)
  | [] => C.pure []
  | node :: nodes => by
    rw [Plain.evaluateAll, Plain.evaluateAll]
    refine C.bind (C.nested fun frames => Callees.evaluate h scope frames node) fun value => ?_
    exact C.bind (Callees.evaluateAll h scope frames nodes) fun values => C.pure (value :: values)
termination_by structural nodes => nodes

end

theorem Callees.value (h : C.Callees c d) (scope : Scope) (frames : Nat) (node : Node) :
    C.related (Plain.value I c scope frames node) (Plain.value J d scope frames node) :=
  C.nested fun frames => h.evaluate scope frames node

theorem Callees.values (h : C.Callees c d) (scope : Scope) (frames : Nat) (nodes : List Node) :
    C.related (Plain.values I c scope frames nodes) (Plain.values J d scope frames nodes) :=
  C.nested fun frames => h.evaluateAll scope frames nodes

/-! ## Execution -/

mutual

theorem Callees.execute (h : C.Callees c d) (fuel : Nat) (scope : Scope) (frames : Nat) :
    ∀ node : Node,
      C.related (Plain.execute I c fuel scope frames node)
        (Plain.execute J d fuel scope frames node)
  | .print expressions => h.prints (h.values scope frames expressions)
  | .definition name expression => by
    rw [Plain.execute, Plain.execute]
    refine C.bind (h.value scope frames expression) fun v => ?_
    refine C.bind (C.perform (.define scope name v)) fun _ => ?_
    exact C.bind (C.perform (.trace 2 _)) fun _ => C.pure none
  | .assignment name expression => by
    rw [Plain.execute, Plain.execute]
    refine C.bind (h.value scope frames expression) fun v => ?_
    refine C.bind (C.perform (.assign scope name v)) fun _ => ?_
    exact C.bind (C.perform (.trace 2 _)) fun _ => C.pure none
  | .conditional condition thenBlock elseBlock => by
    rw [execute_conditional, execute_conditional]
    refine C.bind (h.value scope frames condition) fun v => ?_
    refine C.bind (C.perform (.truth v)) fun holds => ?_
    refine C.bind (C.perform (.trace 3 _)) fun _ => ?_
    cases holds with
    | true =>
      refine C.bind (C.perform (.openScope scope)) fun inner => ?_
      exact C.nested fun frames => Callees.executeBlock h fuel inner frames thenBlock
    | false =>
      rcases elseBlock with _ | block
      · exact C.pure none
      · refine C.bind (C.perform (.openScope scope)) fun inner => ?_
        exact C.nested fun frames => Callees.executeBlock h fuel inner frames block
  | .loop condition body => by
    rw [Plain.execute, Plain.execute]
    refine C.repeatWhile ?_ ?_ fuel
    · refine C.bind (h.value scope frames condition) fun v => ?_
      refine C.bind (C.perform (.truth v)) fun holds => ?_
      exact C.bind (C.perform (.trace 3 _)) fun _ => C.pure holds
    · refine C.bind (C.perform (.openScope scope)) fun inner => ?_
      exact C.nested fun frames => Callees.executeBlock h fuel inner frames body
  | .function name parameters body => by
    rw [Plain.execute, Plain.execute]
    refine C.bind (C.perform (.declare scope ⟨name, parameters, body⟩)) fun _ => ?_
    exact C.bind (C.perform (.trace 2 _)) fun _ => C.pure none
  | .callStatement name arguments => by
    rw [Plain.execute, Plain.execute]
    refine C.bind (h.values scope frames arguments) fun values => ?_
    exact C.bind (C.nested fun frames => h.calls frames name values scope) fun _ => C.pure none
  | .returning expression => by
    rw [Plain.execute, Plain.execute]
    exact C.bind (h.value scope frames expression) fun v => C.pure (some v)
  | .expressionStatement expression => by
    rw [Plain.execute, Plain.execute]
    exact C.bind (h.value scope frames expression) fun _ => C.pure none
  | .valueStatement _ => C.pure none
  | .reference _ | .literal _ | .binary _ _ _ | .call _ _ | .input _ | .block _ | .program _
  | .fragment _ => C.perform (.fail _)
termination_by structural node => node

theorem Callees.executeBlock (h : C.Callees c d) (fuel : Nat) (scope : Scope) (frames : Nat) :
    ∀ node : Node, C.related (Plain.executeBlock I c fuel scope frames node)
      (Plain.executeBlock J d fuel scope frames node)
  | .block statements => Callees.executeAll h fuel scope frames statements
  | .reference _ | .literal _ | .binary _ _ _ | .call _ _ | .input _ | .program _ | .print _
  | .definition _ _ | .assignment _ _ | .conditional _ _ _ | .loop _ _ | .function _ _ _
  | .callStatement _ _ | .returning _ | .expressionStatement _ | .valueStatement _
  | .fragment _ => C.perform (.fail _)
termination_by structural node => node

theorem Callees.executeAll (h : C.Callees c d) (fuel : Nat) (scope : Scope) (frames : Nat) :
    ∀ statements : List Node, C.related (Plain.executeAll I c fuel scope frames statements)
      (Plain.executeAll J d fuel scope frames statements)
  | [] => C.pure none
  | statement :: statements => by
    rw [Plain.executeAll, Plain.executeAll]
    refine C.bind (Callees.execute h fuel scope (frames + 1) statement) fun result => ?_
    cases result with
    | none => exact Callees.executeAll h fuel scope frames statements
    | some value => exact C.pure (some value)
termination_by structural statements => statements

end

theorem Callees.executeProgram (h : C.Callees c d) (fuel frames : Nat) (body : List Node) :
    C.related (Plain.executeProgram I c fuel frames body)
      (Plain.executeProgram J d fuel frames body) :=
  C.bind (C.perform (.reserve frames)) fun _ =>
    C.nested fun frames => h.executeAll fuel Scope.root frames body

/-- Programs correspond if to run them respects the relation. -/
theorem Callees.runSource (h : C.Callees c d)
    (hguarded : ∀ {x : M (Option Value)} {y : N (Option Value)}, C.related x y →
      C.related (I.guarded x) (J.guarded y)) (fuel frames : Nat) (names : Text.Names)
    (source : String) :
    C.related (Plain.runSource I c fuel frames names source)
      (Plain.runSource J d fuel frames names source) := by
  unfold Plain.runSource
  cases Program.parse names source with
  | ok body => exact C.nested fun frames => hguarded (h.executeProgram fuel frames body)
  | error failure => exact C.perform (.fail failure)

/-! ## Calls -/

variable (C)

theorem defineAll (scope : Scope) (bindings : List (String × Value)) :
    C.related (Plain.defineAll I scope bindings) (Plain.defineAll J scope bindings) := by
  induction bindings with
  | nil => exact C.pure ()
  | cons binding rest ih => exact C.bind (C.perform (.define scope binding.1 binding.2)) fun _ => ih

theorem act {run : Text.Names → String → M (Option Value)}
    {run' : Text.Names → String → N (Option Value)}
    (hrun : ∀ names source, C.related (run names source) (run' names source))
    (action : HostAction) : C.related (Plain.act I run action) (Plain.act J run' action) := by
  induction action with
  | done result => exact C.pure result
  | fail failure => exact C.perform (.fail failure)
  | depth next ih => exact C.bind (C.perform .depth) ih
  | run names source next ih => exact C.bind (hrun names source) ih

/-- A function of the host that leaves the interpreter alone runs nothing. -/
theorem act_of_quiet (run : Text.Names → String → M (Option Value))
    (run' : Text.Names → String → N (Option Value)) {action : HostAction} (h : action.Quiet) :
    C.related (Plain.act I run action) (Plain.act J run' action) := by
  induction h with
  | done result => exact C.pure result
  | fail failure => exact C.perform (.fail failure)
  | depth _ ih => exact C.bind (C.perform .depth) ih

theorem checkArity (f : HostFunction) (arguments : List Value) :
    C.related (Plain.checkArity I f arguments) (Plain.checkArity J f arguments) := by
  unfold Plain.checkArity
  cases f.arity with
  | none => exact C.pure ()
  | some arity =>
    dsimp only
    split
    · exact C.perform (.fail _)
    · exact C.pure ()

theorem callHost {run : Nat → Text.Names → String → M (Option Value)}
    {run' : Nat → Text.Names → String → N (Option Value)} {f : HostFunction}
    {arguments : List Value}
    (hact : ∀ frames, C.related (Plain.act I (run frames) (f.body arguments))
      (Plain.act J (run' frames) (f.body arguments))) (frames : Nat) :
    C.related (Plain.callHost I run frames f arguments)
      (Plain.callHost J run' frames f arguments) := by
  refine C.bind (C.perform (.trace 1 _)) fun _ => C.nested fun frames => ?_
  refine C.bind (C.checkArity f arguments) fun _ => ?_
  refine C.bind (C.perform (.demand fun _ => frames + f.frames)) fun _ => ?_
  exact C.bind (hact (frames + f.frames)) fun result => C.pure (result.getD .void)

/-- The two functions may differ in their bodies. -/
theorem callDeclared {body : Nat → Scope → Node → M (Option Value)}
    {body' : Nat → Scope → Node → N (Option Value)} (frames : Nat) (owner : Scope)
    (f f' : Function) (hparameters : f'.parameters = f.parameters)
    (hbody : ∀ frames inner, C.related (body frames inner f.body) (body' frames inner f'.body))
    (name : String) (arguments : List Value) :
    C.related (Plain.callDeclared I body frames owner f name arguments)
      (Plain.callDeclared J body' frames owner f' name arguments) := by
  rw [Plain.callDeclared, Plain.callDeclared, Plain.activate, Plain.activate, hparameters]
  refine C.bind (C.perform (.checkCount f.parameters.length name arguments)) fun _ => ?_
  refine C.bind (C.calling ?_) fun returned => ?_
  · refine C.bind (C.perform (.reserve frames)) fun _ => ?_
    refine C.bind (C.perform (.trace 1 _)) fun _ => ?_
    refine C.bind (C.perform (.openScope owner)) fun inner => ?_
    exact C.bind (C.defineAll inner _) fun _ => C.nested fun frames => hbody frames inner
  · exact C.bind (C.perform (.trace 1 _)) fun _ => C.pure (returned.getD .void)

end Correspondence

/-! ## Actions and changes of the machine

The simplest correspondence is between runs on a machine and on a change of it that the actions do
not notice. -/

/-- Whether a change of the machine has nothing to do with its calls, its stack and its traces. -/
structure Machine.IsAside (change : Machine → Machine) : Prop where
  calls (m : Machine) : (change m).calls = m.calls
  withCalls (m : Machine) (calls : Calls) : change { m with calls } = { change m with calls }
  stack (m : Machine) : (change m).stack = m.stack
  withStack (m : Machine) (stack : Stack) : change { m with stack } = { change m with stack }
  traces (m : Machine) : (change m).traces = m.traces
  withTraces (m : Machine) (t : Traces) : change (m.withTraces t) = (change m).withTraces t

/-- Whether a computation does the same on the changed machine. -/
def Exec.Ignores {α : Type} (change : Machine → Machine) (x : Exec α) : Prop :=
  ∀ m, x (change m) = ((x m).1, change (x m).2)

namespace Exec

variable {α β : Type} {change : Machine → Machine}

theorem Ignores.bind {x : Exec α} {f : α → Exec β} (hx : x.Ignores change)
    (hf : ∀ a, (f a).Ignores change) : (x >>= f).Ignores change := by
  intro m
  have hchanged := hx m
  rcases hxm : x m with ⟨r, m'⟩
  rw [hxm] at hchanged
  cases r with
  | ok a =>
    rw [bind_of_ok hxm, bind_of_ok hchanged]
    exact hf a m'
  | error e => rw [bind_of_error hxm, bind_of_error hchanged]

theorem ignores_pure (a : α) : (pure a : Exec α).Ignores change :=
  fun _ => rfl

theorem ignores_throw (e : Failure) : (throw e : Exec α).Ignores change :=
  fun _ => rfl

theorem ignores_truth (value : Value) : (truth value).Ignores change := by
  unfold truth
  cases value.toBool with
  | ok holds => exact ignores_pure holds
  | error e => exact ignores_throw (.script e)

theorem ignores_checkCount (count : Nat) (name : String) (arguments : List Value) :
    (Action.exec (.checkCount count name arguments)).Ignores change := by
  unfold Action.exec
  dsimp only
  split
  · exact ignores_throw _
  · exact ignores_pure ()

theorem ignores_lookup {scope : Scope} {name : String}
    (h : ∀ m, (change m).scopes.lookup? scope name = m.scopes.lookup? scope name) :
    (lookup scope name).Ignores change := by
  intro m
  rw [lookup_apply, lookup_apply, h]

theorem ignores_updateScopes {update : Scopes → Except ScriptError Unit × Scopes}
    (hresult : ∀ m, (update (change m).scopes).1 = (update m.scopes).1)
    (hscopes : ∀ m, { change m with scopes := (update (change m).scopes).2 }
      = change { m with scopes := (update m.scopes).2 }) :
    (updateScopes update).Ignores change := by
  intro m
  rw [updateScopes_apply, updateScopes_apply, hresult, hscopes]

variable (h : Machine.IsAside change)

include h

theorem ignores_trace (level : Nat) (line : Int → String) :
    (trace level fun m => line m.calls.depth).Ignores change := by
  intro m
  show (Except.ok (), (change m).noted level (line (change m).calls.depth))
    = (Except.ok (), change (m.noted level (line m.calls.depth)))
  rw [Machine.noted_eq_withTraces, Machine.noted_eq_withTraces, h.calls, h.traces, h.withTraces]

theorem ignores_enterCall : enterCall.Ignores change := by
  intro m
  rw [enterCall_apply, enterCall_apply, h.calls]
  exact congrArg (Prod.mk _) (h.withCalls m _).symm

theorem ignores_leaveCall : leaveCall.Ignores change := by
  intro m
  show (Except.ok (), { change m with calls := (change m).calls.leave })
    = (Except.ok (), change { m with calls := m.calls.leave })
  rw [h.calls]
  exact congrArg (Prod.mk _) (h.withCalls m _).symm

theorem ignores_depth : (Action.exec .depth).Ignores change := by
  intro m
  show (Except.ok (change m).calls.depth, change m) = (Except.ok m.calls.depth, change m)
  rw [h.calls]

theorem ignores_demand (needed : Stack → Nat) : (demand needed).Ignores change := by
  intro m
  rw [demand_apply, demand_apply, h.stack]

theorem ignores_operate (frames : Nat) (operator : Operator) (a b : Value) :
    (operate frames operator a b).Ignores change := by
  refine (ignores_demand h _).bind fun _ => ?_
  cases operator.apply a b with
  | ok value => exact ignores_pure value
  | error e => exact ignores_throw e

theorem ignores_reserve (frames : Nat) : (reserve frames).Ignores change := by
  refine (ignores_demand h _).bind fun _ m => ?_
  show (Except.ok (), { change m with stack := (change m).stack.reserve (frames + 2) })
    = (Except.ok (), change { m with stack := m.stack.reserve (frames + 2) })
  rw [h.stack]
  exact congrArg (Prod.mk _) (h.withStack m _).symm

theorem restore_change (stack : Stack) (r : Except Failure α) (m : Machine) :
    restore stack (r, change m)
      = ((restore stack (r, m)).1, change (restore stack (r, m)).2) :=
  congrArg (Prod.mk r) (h.withStack m stack).symm

theorem finish_change (r : Except Failure α) (m : Machine) :
    finish (r, change m) = ((finish (r, m)).1, change (finish (r, m)).2) := by
  have hclose (m : Machine) : (change m).closeTrace = change m.closeTrace := by
    have heq (m : Machine) : m.closeTrace = m.withTraces m.traces.closed := rfl
    rw [heq, heq, h.traces, h.withTraces]
  have hreset : (change m).resetCalls = change m.resetCalls := by
    unfold Machine.resetCalls
    rw [h.calls]
    exact (h.withCalls m _).symm
  cases r with
  | ok a => simp only [finish, hclose]
  | error e => cases e <;> simp only [finish, hclose, hreset, h.calls]

theorem openTrace_change (m : Machine) : (change m).openTrace = m.openTrace.map change := by
  rw [Machine.openTrace_eq_withTraces, Machine.openTrace_eq_withTraces, h.traces]
  cases m.traces.opened with
  | error e => rfl
  | ok t => exact congrArg Except.ok (h.withTraces m t).symm

end Exec

/-- Every action only moves the machine on. -/
theorem Action.forward_exec {α : Type} (action : Action α) : action.exec.Forward := by
  cases action with
  | fail failure => exact Exec.forward_throw failure
  | lookup scope name => exact Exec.forward_lookup scope name
  | operate frames operator a b => exact Exec.forward_operate frames operator a b
  | truth value => exact Exec.forward_ofExcept _
  | read kind => exact Exec.forward_readInput kind
  | trace level line => exact Exec.forward_trace level _
  | openScope scope => exact Exec.forward_openScope scope
  | define scope name value =>
    show (Exec.updateScopes fun scopes => scopes.define scope name value).Forward
    exact Exec.forward_updateScopes fun scopes => scopes.later_define scope name value
  | assign scope name value =>
    show (Exec.updateScopes fun scopes => scopes.assign scope name value).Forward
    exact Exec.forward_updateScopes fun scopes => scopes.later_assign scope name value
  | declare scope f => exact Exec.forward_updateScopes fun scopes => scopes.later_declare scope f
  | checkCount count name arguments =>
    unfold exec
    dsimp only
    split
    · exact Exec.forward_throw _
    · exact Exec.forward_pure ()
  | depth => exact Exec.forward_get.bind fun m => Exec.forward_pure _
  | demand needed => exact Exec.forward_demand needed
  | reserve frames => exact Exec.forward_reserve frames

end ScriptLang
