import ScriptLang.Proofs.Meaning
import ScriptLang.Proofs.Progress
import ScriptLang.Proofs.Rounding
import ScriptLang.Proofs.Scopes

set_option autoImplicit false

/-! # Parsed programs do not go wrong

A program that was read from a text runs into script errors at worst. A machine is orderly if the
bodies of all its declared functions are blocks of statements, and neither functions of the host nor
a file for traces come into play; a computation is orderly if it keeps machines so and causes no
fault. Every node that fits its place is executed in an orderly way (`Evaluator.orderly_execute`),
and the functions it declares fit again, so the property passes from one run to the next
(`Machine.programs_safe`). -/

namespace ScriptLang

/-! ## Orderly machines -/

/-- Whether the bodies of all declared functions are blocks of statements. -/
def Scopes.FunctionsFit (scopes : Scopes) : Prop :=
  ∀ number name f, scopes.functionAt? number name = some f → f.body.Fits .block

/-- Whether the machine has neither functions of the host nor a file for traces, and all its
functions fit. -/
structure Machine.Orderly (m : Machine) : Prop where
  hosts : m.hosts = []
  file : m.config.debugFile = none
  functions : m.scopes.FunctionsFit

namespace Scopes

variable {scopes : Scopes}

theorem functionsFit_new (strict : Bool) : (Scopes.new strict).FunctionsFit :=
  forallBodies_new strict

theorem FunctionsFit.child (h : scopes.FunctionsFit) (scope : Scope) :
    (scopes.child scope).2.FunctionsFit :=
  ForallBodies.child h scope

theorem FunctionsFit.define (h : scopes.FunctionsFit) (scope : Scope) (name : String)
    (value : Value) : (scopes.define scope name value).2.FunctionsFit :=
  ForallBodies.define h scope name value

theorem FunctionsFit.assign (h : scopes.FunctionsFit) (scope : Scope) (name : String)
    (value : Value) : (scopes.assign scope name value).2.FunctionsFit :=
  ForallBodies.assign h scope name value

theorem FunctionsFit.declare (h : scopes.FunctionsFit) (scope : Scope) {f : Function}
    (hf : f.body.Fits .block) : (scopes.declare scope f).FunctionsFit :=
  ForallBodies.declare h scope hf

end Scopes

namespace Machine.Orderly

variable {m : Machine}

theorem of_scopes (h : m.Orderly) {scopes : Scopes} (hscopes : scopes.FunctionsFit) :
    ({ m with scopes } : Machine).Orderly :=
  ⟨h.hosts, h.file, hscopes⟩

theorem of_stack (h : m.Orderly) (stack : Stack) : ({ m with stack } : Machine).Orderly :=
  ⟨h.hosts, h.file, h.functions⟩

theorem traced (h : m.Orderly) (line : String) : (m.traced line).Orderly := by
  unfold Machine.traced
  split
  · exact ⟨h.hosts, h.file, h.functions⟩
  · exact ⟨h.hosts, h.file, h.functions⟩

theorem openTrace (h : m.Orderly) : m.openTrace = .ok m := by
  have hfile : m.tracesToFile = false := by simp [tracesToFile, h.file]
  simp [Machine.openTrace, hfile]

end Machine.Orderly

/-! ## Operators -/

/-- An operator of the language gives a value or a script error, whatever its operands are. -/
theorem Operator.apply_cases {operator : Operator} (hknown : operator ∈ Operator.all)
    (a b : Value) :
    (∃ v, operator.apply a b = .ok v) ∨ ∃ e, operator.apply a b = .error (.script e) := by
  have hscript (r : Except ScriptError Value) :
      (∃ v, r.mapError Failure.script = .ok v) ∨
        ∃ e, r.mapError Failure.script = .error (.script e) := by
    cases r with
    | ok v => exact .inl ⟨v, rfl⟩
    | error e => exact .inr ⟨e, rfl⟩
  cases operator with
  | arithmetic operation => exact hscript _
  | is => exact .inl ⟨_, rfl⟩
  | isNot => exact .inl ⟨_, rfl⟩
  | order relation => exact hscript _
  | and => exact hscript _
  | or => exact hscript _
  | unknown name => simp [Operator.all] at hknown

/-- Whether a value is the number zero. -/
def Value.isZero : Value → Bool
  | .integer n => n.toInt == 0
  | .float x => x.isZero
  | _ => false

/-- The single that a number is in an operation with a float. -/
def Value.toSingle? : Value → Option Single
  | .integer n => some (Floating.ofInt n.toInt)
  | .float x => some x
  | _ => none

/-- A number is zero in single precision only if it is zero. -/
theorem Value.isZero_of_toSingle? {v : Value} {y : Single} (hy : v.toSingle? = some y) :
    y.isZero = v.isZero := by
  cases v with
  | integer n =>
    cases hy
    by_cases hn : n.toInt = 0
    · simp only [isZero, hn]
      decide
    · rw [Floating.isZero_ofInt hn]
      simp [isZero, hn]
  | float x =>
    cases hy
    rfl
  | _ => cases hy

/-- Zero is refused as a divisor, and no other number is. -/
theorem Arithmetic.div_apply {a b : Value} (ha : a.kind.isNumeric = true)
    (hb : b.kind.isNumeric = true) :
    (b.isZero = true → Arithmetic.div.apply a b = .error .divideByZero) ∧
      (b.isZero = false → ∃ v, Arithmetic.div.apply a b = .ok v) := by
  have hfloats {x y : Single} (hy : b.toSingle? = some y)
      (happly : Arithmetic.div.apply a b = Arithmetic.div.onFloats x y) :
      (b.isZero = true → Arithmetic.div.apply a b = .error .divideByZero) ∧
        (b.isZero = false → ∃ v, Arithmetic.div.apply a b = .ok v) := by
    rw [happly, onFloats, ← Value.isZero_of_toSingle? hy]
    exact ⟨fun h => by rw [if_pos h], fun h => ⟨_, by rw [h]; rfl⟩⟩
  match a, b with
  | .integer m, .integer n =>
    by_cases hn : n.toInt = 0
    · simp [Value.isZero, hn, apply, onIntegers, Integer.quotient?]
    · simp [Value.isZero, hn, apply, onIntegers, Integer.quotient?]
  | .integer _, .float _ | .float _, .integer _ | .float _, .float _ => exact hfloats rfl rfl
  | .void, _ | .string _, _ | .bool _, _ => cases ha
  | .integer _, .void | .integer _, .string _ | .integer _, .bool _
  | .float _, .void | .float _, .string _ | .float _, .bool _ => cases hb

/-! ## Orderly computations -/

/-- Whether a computation keeps machines orderly and causes no fault in them. -/
def Exec.Orderly {α : Type} (x : Exec α) : Prop :=
  ∀ m : Machine, m.Orderly → (x m).2.Orderly ∧ ∀ fault, (x m).1 ≠ .error (.fault fault)

namespace Exec

variable {α β : Type}

theorem orderly_pure (a : α) : (pure a : Exec α).Orderly :=
  fun _ hm => ⟨hm, fun _ h => by cases h⟩

theorem orderly_script (e : ScriptError) : (throw (.script e) : Exec α).Orderly :=
  fun _ hm => ⟨hm, fun _ h => by cases h⟩

theorem orderly_exhausted : (throw .exhausted : Exec α).Orderly :=
  fun _ hm => ⟨hm, fun _ h => by cases h⟩

theorem orderly_outOfFuel : (throw .outOfFuel : Exec α).Orderly :=
  fun _ hm => ⟨hm, fun _ h => by cases h⟩

theorem Orderly.bind {x : Exec α} {f : α → Exec β} (hx : x.Orderly) (hf : ∀ a, (f a).Orderly) :
    (x >>= f).Orderly := by
  intro m hm
  obtain ⟨hm', hfault⟩ := hx m hm
  rcases hxm : x m with ⟨r, m'⟩
  rw [hxm] at hm' hfault
  cases r with
  | ok a =>
    rw [bind_of_ok hxm]
    exact hf a m' hm'
  | error e =>
    rw [bind_of_error hxm]
    exact ⟨hm', fun fault h => hfault fault (by cases h; rfl)⟩

theorem orderly_ofExcept (r : Except ScriptError α) : (ofExcept r).Orderly := by
  cases r with
  | ok a => exact orderly_pure a
  | error e => exact orderly_script e

/-- A change of the machine that keeps it orderly. -/
theorem orderly_modify {change : Machine → Machine} (h : ∀ m, m.Orderly → (change m).Orderly) :
    (modify change : Exec Unit).Orderly :=
  fun m hm => ⟨h m hm, fun _ h => by cases h⟩

theorem orderly_trace (level : Nat) (line : Machine → String) : (trace level line).Orderly := by
  refine orderly_modify fun m hm => ?_
  split
  · exact hm.traced _
  · exact hm

theorem orderly_print (values : List Value) : (print values).Orderly :=
  orderly_modify fun _ hm => ⟨hm.hosts, hm.file, hm.functions⟩

theorem orderly_readLine : readLine.Orderly := by
  intro m hm
  rw [readLine_apply]
  split
  · exact ⟨hm, fun _ h => by cases h⟩
  · exact ⟨⟨hm.hosts, hm.file, hm.functions⟩, fun _ h => by cases h⟩

theorem orderly_readInput (kind : InputKind) : (readInput kind).Orderly := by
  refine orderly_readLine.bind fun line => ?_
  cases kind with
  | number =>
    dsimp only
    cases Double.read? (String.ofList (Text.trim line)) with
    | some number => exact orderly_pure _
    | none => exact orderly_script _
  | text => exact orderly_pure _
  | other name => exact orderly_pure _

theorem orderly_openScope (scope : Scope) : (openScope scope).Orderly :=
  fun _ hm => ⟨hm.of_scopes (hm.functions.child scope), fun _ h => by cases h⟩

theorem orderly_lookup (scope : Scope) (name : String) : (lookup scope name).Orderly := by
  intro m hm
  rw [lookup_apply]
  refine ⟨hm, fun fault h => ?_⟩
  dsimp only at h
  split at h <;> cases h

theorem orderly_updateScopes {update : Scopes → Except ScriptError Unit × Scopes}
    (h : ∀ scopes : Scopes, scopes.FunctionsFit → (update scopes).2.FunctionsFit) :
    (updateScopes update).Orderly := by
  intro m hm
  rw [updateScopes_apply]
  refine ⟨hm.of_scopes (h m.scopes hm.functions), fun fault => ?_⟩
  cases (update m.scopes).1 <;> exact fun h => by cases h

theorem orderly_enterCall : enterCall.Orderly := by
  intro m hm
  rw [enterCall_apply]
  refine ⟨⟨hm.hosts, hm.file, hm.functions⟩, fun fault => ?_⟩
  cases m.calls.enter.1 <;> exact fun h => by cases h

theorem orderly_leaveCall : leaveCall.Orderly :=
  orderly_modify fun _ hm => ⟨hm.hosts, hm.file, hm.functions⟩

theorem orderly_demand (needed : Stack → Nat) : (demand needed).Orderly := by
  intro m hm
  cases hroom : m.stack.allows (needed m.stack) with
  | false =>
    rw [demand_of_not_allows hroom]
    exact orderly_exhausted m hm
  | true =>
    rw [demand_of_allows hroom]
    exact orderly_pure () m hm

theorem orderly_reserve (frames : Nat) : (reserve frames).Orderly :=
  (orderly_demand _).bind fun _ => orderly_modify fun _ hm => hm.of_stack _

theorem orderly_nested {frames : Nat} {inner : Nat → Exec α}
    (h : ∀ frames, (inner frames).Orderly) : (nested frames inner).Orderly :=
  (orderly_demand _).bind fun _ => h _

theorem orderly_leftmost {frames : Nat} {inner : Nat → Exec α} (node : Node)
    (h : ∀ frames, (inner frames).Orderly) : (Evaluator.leftmost frames node inner).Orderly := by
  unfold Evaluator.leftmost
  split
  · exact h frames
  · exact orderly_nested h

theorem orderly_repeatWhile {condition : Exec Bool} {body : Exec (Option Value)}
    (hc : condition.Orderly) (hb : body.Orderly) (fuel : Nat) :
    (repeatWhile condition body fuel).Orderly := by
  induction fuel with
  | zero => exact orderly_outOfFuel
  | succ fuel ih =>
    refine hc.bind fun holds => ?_
    cases holds with
    | false => exact orderly_pure none
    | true =>
      refine hb.bind fun result => ?_
      cases result with
      | none => exact ih
      | some value => exact orderly_pure _

/-- An operator of the language gives a value or a script error, whatever its operands are. -/
theorem orderly_operate (frames : Nat) {operator : Operator} (hknown : operator ∈ Operator.all)
    (a b : Value) : (operate frames operator a b).Orderly := by
  refine Orderly.bind (orderly_demand _) fun _ => ?_
  rcases operator.apply_cases hknown a b with ⟨v, hv⟩ | ⟨e, he⟩
  · rw [hv]
    exact orderly_pure v
  · rw [he]
    exact orderly_script e

end Exec

/-! ## Evaluation and execution -/

namespace Evaluator

open Exec

/-- Whether all calls are orderly. -/
def Callee.Orderly (call : Callee) : Prop :=
  ∀ frames name arguments scope, (call frames name arguments scope).Orderly

mutual

/-- An expression in its place is evaluated without a fault. -/
theorem orderly_evaluate {call : Callee} (hcall : call.Orderly) (scope : Scope) (frames : Nat) :
    ∀ node : Node, node.Fits .expression → (evaluate call scope frames node []).Orderly
  | .literal value, _ => orderly_pure value
  | .reference name, _ => by
    rw [evaluate_reference]
    exact orderly_lookup scope name
  | .binary operator left right, h => by
    rw [evaluate_binary]
    cases h with
    | binary hknown hleft hright =>
      refine Orderly.bind (orderly_leftmost left fun frames => ?_) fun a => ?_
      · exact orderly_evaluate hcall scope frames left hleft
      refine Orderly.bind (orderly_nested fun frames => ?_) fun b =>
        orderly_operate frames hknown a b
      exact orderly_evaluate hcall scope frames right hright
  | .call name arguments, h => by
    rw [evaluate_call]
    cases h with
    | call _ harguments =>
      refine Orderly.bind (orderly_nested fun frames => ?_) fun values => ?_
      · exact orderly_evaluateAll hcall scope frames arguments harguments
      · exact orderly_nested fun frames => hcall frames name values scope
  | .input kind, _ => by
    rw [evaluate_input]
    exact orderly_readInput kind
  | .block _, h | .program _, h | .print _, h | .definition _ _, h | .assignment _ _, h
  | .conditional _ _ _, h | .loop _ _, h | .function _ _ _, h | .callStatement _ _, h
  | .returning _, h | .expressionStatement _, h | .valueStatement _, h | .fragment _, h => by
    cases h
termination_by structural node => node

theorem orderly_evaluateAll {call : Callee} (hcall : call.Orderly) (scope : Scope) (frames : Nat) :
    ∀ nodes : List Node, (∀ node ∈ nodes, node.Fits .expression) →
      (evaluateAll call scope frames nodes).Orderly
  | [], _ => orderly_pure []
  | node :: nodes, h => by
    rw [evaluateAll]
    have hnode := h node (List.mem_cons_self ..)
    have hnodes := fun n hn => h n (List.mem_cons_of_mem _ hn)
    refine Orderly.bind (orderly_nested fun frames => ?_) fun value => ?_
    · exact orderly_evaluate hcall scope frames node hnode
    · exact (orderly_evaluateAll hcall scope frames nodes hnodes).bind fun values => orderly_pure _
termination_by structural nodes => nodes

end

theorem orderly_value {call : Callee} (hcall : call.Orderly) (scope : Scope) (frames : Nat)
    {node : Node} (h : node.Fits .expression) : (value call scope frames node).Orderly :=
  orderly_nested fun frames => orderly_evaluate hcall scope frames node h

theorem orderly_values {call : Callee} (hcall : call.Orderly) (scope : Scope) (frames : Nat)
    {nodes : List Node} (h : ∀ node ∈ nodes, node.Fits .expression) :
    (values call scope frames nodes).Orderly :=
  orderly_nested fun frames => orderly_evaluateAll hcall scope frames nodes h

mutual

/-- A statement in its place is executed without a fault, and the functions that it declares fit. -/
theorem orderly_execute {call : Callee} (hcall : call.Orderly) (fuel : Nat) (scope : Scope)
    (frames : Nat) :
    ∀ node : Node, node.Fits .statement → (execute call fuel scope frames node).Orderly
  | .print expressions, h => by
    rw [execute]
    cases h with
    | print hexpressions =>
      refine (orderly_values hcall scope frames hexpressions).bind fun values => ?_
      exact (orderly_print values).bind fun _ => orderly_pure none
  | .definition name expression, h => by
    rw [execute]
    cases h with
    | definition _ hexpression =>
      refine (orderly_value hcall scope frames hexpression).bind fun v => ?_
      refine Orderly.bind (orderly_updateScopes fun _ hfit => hfit.define scope name v) fun _ => ?_
      exact (orderly_trace _ _).bind fun _ => orderly_pure none
  | .assignment name expression, h => by
    rw [execute]
    cases h with
    | assignment _ hexpression =>
      refine (orderly_value hcall scope frames hexpression).bind fun v => ?_
      refine Orderly.bind (orderly_updateScopes fun _ hfit => hfit.assign scope name v) fun _ => ?_
      exact (orderly_trace _ _).bind fun _ => orderly_pure none
  | .conditional condition thenBlock elseBlock, h => by
    rw [execute_conditional]
    cases h with
    | conditional hcondition hthen helse =>
      refine (orderly_value hcall scope frames hcondition).bind fun v => ?_
      refine (orderly_ofExcept v.toBool).bind fun holds => ?_
      refine (orderly_trace _ _).bind fun _ => ?_
      cases holds with
      | true =>
        refine (orderly_openScope scope).bind fun inner => orderly_nested fun frames => ?_
        exact orderly_executeBlock hcall fuel inner frames thenBlock hthen
      | false =>
        match elseBlock with
        | none => exact orderly_pure none
        | some block =>
          refine (orderly_openScope scope).bind fun inner => orderly_nested fun frames => ?_
          exact orderly_executeBlock hcall fuel inner frames block (helse block rfl)
  | .loop condition body, h => by
    rw [execute]
    cases h with
    | loop hcondition hbody =>
      refine orderly_repeatWhile ?_ ?_ fuel
      · refine (orderly_value hcall scope frames hcondition).bind fun v => ?_
        refine (orderly_ofExcept v.toBool).bind fun holds => ?_
        exact (orderly_trace _ _).bind fun _ => orderly_pure holds
      · refine (orderly_openScope scope).bind fun inner => orderly_nested fun frames => ?_
        exact orderly_executeBlock hcall fuel inner frames body hbody
  | .function name parameters body, h => by
    rw [execute]
    cases h with
    | function _ _ hbody =>
      refine Orderly.bind (orderly_updateScopes fun _ hfit => hfit.declare scope hbody) fun _ => ?_
      exact (orderly_trace _ _).bind fun _ => orderly_pure none
  | .callStatement name arguments, h => by
    rw [execute]
    cases h with
    | callStatement _ harguments =>
      refine (orderly_values hcall scope frames harguments).bind fun values => ?_
      refine Orderly.bind (orderly_nested fun frames => ?_) fun _ => orderly_pure none
      exact hcall frames name values scope
  | .returning expression, h => by
    rw [execute]
    cases h with
    | returning hvalue =>
      exact (orderly_value hcall scope frames hvalue).bind fun v => orderly_pure _
  | .expressionStatement expression, h => by
    rw [execute]
    cases h with
    | expressionStatement hexpression =>
      exact (orderly_value hcall scope frames hexpression).bind fun _ => orderly_pure none
  | .reference _, h | .literal _, h | .binary _ _ _, h | .call _ _, h | .input _, h | .block _, h
  | .program _, h | .valueStatement _, h | .fragment _, h => by cases h
termination_by structural node => node

theorem orderly_executeBlock {call : Callee} (hcall : call.Orderly) (fuel : Nat) (scope : Scope)
    (frames : Nat) :
    ∀ node : Node, node.Fits .block → (executeBlock call fuel scope frames node).Orderly
  | .block statements, h => by
    rw [executeBlock]
    cases h with
    | block hstatements => exact orderly_executeAll hcall fuel scope frames statements hstatements
  | .reference _, h | .literal _, h | .binary _ _ _, h | .call _ _, h | .input _, h | .program _, h
  | .print _, h | .definition _ _, h | .assignment _ _, h | .conditional _ _ _, h | .loop _ _, h
  | .function _ _ _, h | .callStatement _ _, h | .returning _, h | .expressionStatement _, h
  | .valueStatement _, h | .fragment _, h => by cases h
termination_by structural node => node

theorem orderly_executeAll {call : Callee} (hcall : call.Orderly) (fuel : Nat) (scope : Scope)
    (frames : Nat) :
    ∀ statements : List Node, (∀ s ∈ statements, s.Fits .statement) →
      (executeAll call fuel scope frames statements).Orderly
  | [], _ => orderly_pure none
  | statement :: statements, h => by
    rw [executeAll]
    have hstatement := h statement (List.mem_cons_self ..)
    have hstatements := fun s hs => h s (List.mem_cons_of_mem _ hs)
    refine (orderly_execute hcall fuel scope (frames + 1) statement hstatement).bind
      fun result => ?_
    cases result with
    | none => exact orderly_executeAll hcall fuel scope frames statements hstatements
    | some value => exact orderly_pure _
termination_by structural statements => statements

end

/-! ## Calls -/

theorem orderly_defineAll (scope : Scope) (bindings : List (String × Value)) :
    (defineAll scope bindings).Orderly := by
  induction bindings with
  | nil => exact orderly_pure ()
  | cons binding rest ih =>
    obtain ⟨name, v⟩ := binding
    exact Orderly.bind (orderly_updateScopes fun _ hfit => hfit.define scope name v) fun _ => ih

theorem orderly_callDeclared {body : (frames : Nat) → Scope → Node → Exec (Option Value)}
    {f : Function} (hbody : ∀ frames scope, (body frames scope f.body).Orderly) (frames : Nat)
    (owner : Scope) (name : String) (arguments : List Value) :
    (callDeclared body frames owner f name arguments).Orderly := by
  have hcount : (checkCount f name arguments).Orderly := by
    unfold checkCount
    split
    · exact orderly_script _
    · exact orderly_pure ()
  refine hcount.bind fun _ => ?_
  refine orderly_enterCall.bind fun _ => (orderly_reserve frames).bind fun _ => ?_
  refine (orderly_trace _ _).bind fun _ => (orderly_openScope owner).bind fun inner => ?_
  refine (orderly_defineAll inner _).bind fun _ => ?_
  refine (orderly_nested fun frames => hbody frames inner).bind fun result => ?_
  refine orderly_leaveCall.bind fun _ => ?_
  exact (orderly_trace _ _).bind fun _ => orderly_pure _

/-- Calls are orderly, because the bodies of the functions they find fit. -/
theorem orderly_call (fuel : Nat) : (call fuel).Orderly := by
  induction fuel with
  | zero => exact fun _ _ _ _ => orderly_outOfFuel
  | succ fuel ih =>
    intro frames name arguments scope m hm
    rw [call, bind_of_ok (get_apply m), hm.hosts]
    cases hfound : m.scopes.declaration? scope name with
    | none => exact orderly_script _ m hm
    | some found =>
      obtain ⟨owner, f⟩ := found
      have hbody : f.body.Fits .block := Scopes.ForallBodies.declaration? hm.functions hfound
      exact orderly_callDeclared
        (fun frames inner => orderly_executeBlock ih fuel inner frames f.body hbody) frames owner
        name arguments m hm

/-- A program of statements in their places is executed without a fault. -/
theorem orderly_executeProgram (fuel frames : Nat) {body : List Node}
    (h : ∀ s ∈ body, s.Fits .statement) :
    (executeProgram (call fuel) fuel frames body).Orderly :=
  (orderly_reserve frames).bind fun _ => orderly_nested fun frames =>
    orderly_executeAll (orderly_call fuel) fuel Scope.root frames body h

end Evaluator

/-! ## Runs -/

namespace Machine

/-- An orderly program ends normally or in a script error, or goes on beyond its fuel, and leaves
the machine orderly. -/
theorem orderly_guarded {α : Type} {x : Exec α} (hx : x.Orderly) {m : Machine} (hm : m.Orderly) :
    (Exec.guarded x m).2.Orderly ∧
      ((Exec.guarded x m).1 = .error .outOfFuel ∨ (∃ a, (Exec.guarded x m).1 = .ok a) ∨
        ∃ e, (Exec.guarded x m).1 = .error (.script e)) := by
  obtain ⟨hafter, hfault⟩ := hx m hm
  have hclosed (m' : Machine) (h : m'.Orderly) : m'.closeTrace.Orderly :=
    ⟨h.hosts, h.file, h.functions⟩
  have hreset (m' : Machine) (h : m'.Orderly) : m'.resetCalls.Orderly :=
    ⟨h.hosts, h.file, h.functions⟩
  simp only [Exec.guarded, hm.openTrace]
  rcases hxm : x m with ⟨r, m'⟩
  rw [hxm] at hafter hfault
  match r with
  | .ok a => exact ⟨(hclosed m' hafter).of_stack _, .inr (.inl ⟨a, rfl⟩)⟩
  | .error (.script e) => exact ⟨(hclosed _ (hreset m' hafter)).of_stack _, .inr (.inr ⟨e, rfl⟩)⟩
  | .error .exhausted => exact ⟨(hclosed _ (hreset m' hafter)).of_stack _, .inr (.inr ⟨_, rfl⟩)⟩
  | .error .outOfFuel => exact ⟨(hclosed m' hafter).of_stack _, .inl rfl⟩
  | .error (.fault fault) => exact absurd rfl (hfault fault)

/-- The results of program texts that run one after the other on one machine, each with a fuel of
its own. -/
def runAll (names : Text.Names) :
    List (Nat × String) → Machine → List (Except Failure (Option Value) × Machine)
  | [], _ => []
  | (fuel, source) :: rest, m =>
    runSource fuel names source m :: runAll names rest (runSource fuel names source m).2

/-- What one run keeps, all runs keep. -/
theorem orderly_runAll {names : Text.Names} {runs : List (Nat × String)}
    (hruns : ∀ r ∈ runs, ∃ body, Program.parse names r.2 = .ok body) {m : Machine}
    (hm : m.Orderly) :
    ∀ result ∈ runAll names runs m, result.2.Orderly ∧
      (result.1 = .error .outOfFuel ∨ (∃ value, result.1 = .ok value) ∨
        ∃ e, result.1 = .error (.script e)) := by
  induction runs generalizing m with
  | nil => simp [runAll]
  | cons first rest ih =>
    obtain ⟨fuel, source⟩ := first
    obtain ⟨body, hbody⟩ := hruns (fuel, source) (List.mem_cons_self ..)
    have hrest := fun r hr => hruns r (List.mem_cons_of_mem _ hr)
    have hrun : runSource fuel names source m = Exec.guarded (Evaluator.executeProgram
        (Evaluator.call fuel) fuel m.stack.base body) m := by
      simp only [runSource, Evaluator.runText, hbody, run, Evaluator.runBody]
    have hfirst := orderly_guarded
      (Evaluator.orderly_executeProgram fuel m.stack.base (Program.fits_of_parse hbody)) hm
    rw [← hrun] at hfirst
    intro result hresult
    rcases List.mem_cons.1 hresult with rfl | hresult
    · exact hfirst
    · exact ih hrest hfirst.1 result hresult

theorem orderly_new {config : Config} (hfile : config.debugFile = none) (input : Option String) :
    ((new config).feed input).Orderly :=
  ⟨rfl, hfile, Scopes.functionsFit_new _⟩

/-- Programs that were read from texts do not go wrong, one after the other, whatever the stack is:
each ends normally or in a script error, unless it goes on beyond its fuel, and every declared
function has a block of statements for its body. A quotient of numbers fails as a script error if
the divisor is zero; else the integer or double that is divided by is not zero. -/
theorem programs_safe (names : Text.Names) (config : Config) (hfile : config.debugFile = none)
    (input : Option String) (stack : Stack) (runs : List (Nat × String))
    (hruns : ∀ r ∈ runs, ∃ body, Program.parse names r.2 = .ok body) :
    (∀ result ∈ runAll names runs { (new config).feed input with stack },
      (result.1 = .error .outOfFuel ∨ (∃ value, result.1 = .ok value) ∨
        ∃ e, result.1 = .error (.script e)) ∧
      result.2.scopes.FunctionsFit) ∧
    ∀ a b : Value, a.kind.isNumeric = true → b.kind.isNumeric = true →
      (b.isZero = true → Arithmetic.div.apply a b = .error .divideByZero) ∧
      (b.isZero = false → (∃ v, Arithmetic.div.apply a b = .ok v) ∧
        ∀ y, b.toSingle? = some y → (y.convert : Double).isZero = false) := by
  refine ⟨fun result hresult => ?_, fun a b ha hb => ?_⟩
  · obtain ⟨hmachine, hresult⟩ :=
      orderly_runAll hruns ((orderly_new hfile input).of_stack stack) result hresult
    exact ⟨hresult, hmachine.functions⟩
  · obtain ⟨hzero, hother⟩ := Arithmetic.div_apply ha hb
    refine ⟨hzero, fun h => ⟨hother h, fun y hy => ?_⟩⟩
    exact Floating.isZero_convert ((Value.isZero_of_toSingle? hy).trans h)

/-- The first text declares a function, and the second calls it, which divides by zero. -/
theorem programs_safe_twoRuns :
    let config : Config := {}
    let runs := [(2, "fn f(x) \x7b return x / 0; \x7d"), (2, "print f(7);")]
    let results := runAll Text.unnamed runs ((new config).feed none)
    config.debugFile = none ∧ (∀ r ∈ runs, ∃ body, Program.parse Text.unnamed r.2 = .ok body) ∧
      (∀ result ∈ results,
        (result.1 = .error .outOfFuel ∨ (∃ value, result.1 = .ok value) ∨
          ∃ e, result.1 = .error (.script e)) ∧
        result.2.scopes.FunctionsFit) ∧
      results.map Prod.fst = [.ok none, .error (.script .divideByZero)] := by
  intro config runs results
  have hdeclare : Program.parse Text.unnamed "fn f(x) \x7b return x / 0; \x7d" = .ok
      [.function "f" ["x"] (.block [.returning (.binary (.arithmetic .div) (.reference "x")
        (.literal (.integer 0)))])] := by
    have hread : Tree.read "fn f(x) \x7b return x / 0; \x7d"
        = .ok (.branch .program (some ⟨0, 25⟩)
          [.branch .function (some ⟨0, 25⟩)
            [.leaf "f", .branch .parameters (some ⟨5, 6⟩) [.leaf "x"],
              .branch .block (some ⟨8, 25⟩)
                [.branch .returning (some ⟨10, 23⟩)
                  [.branch .div (some ⟨17, 22⟩)
                    [.branch .reference (some ⟨17, 18⟩) [.leaf "x"],
                      .branch .wholeLiteral (some ⟨21, 22⟩) [.leaf "0"]]]]]]) := by
      rfl
    exact Program.parse_of_meaning (by decide +kernel) hread rfl
  have hcall : Program.parse Text.unnamed "print f(7);"
      = .ok [.print [.call "f" [.literal (.integer 7)]]] := by
    have hread : Tree.read "print f(7);"
        = .ok (.branch .program (some ⟨0, 11⟩)
          [.branch .print (some ⟨0, 11⟩)
            [.branch .call (some ⟨6, 10⟩)
              [.leaf "f", .branch .arguments (some ⟨8, 9⟩)
                [.branch .wholeLiteral (some ⟨8, 9⟩) [.leaf "7"]]]]]) := by
      rfl
    exact Program.parse_of_meaning (by decide +kernel) hread rfl
  have hruns : ∀ r ∈ runs, ∃ body, Program.parse Text.unnamed r.2 = .ok body := by
    simp [runs, hdeclare, hcall]
  refine ⟨rfl, hruns, (programs_safe Text.unnamed config rfl none {} runs hruns).1, ?_⟩
  simp only [results, runs, runAll, runSource, Evaluator.runText, hdeclare, hcall]
  decide +kernel

end Machine

end ScriptLang
