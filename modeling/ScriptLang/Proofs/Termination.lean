import ScriptLang.Proofs.Balance
import ScriptLang.Proofs.Cutoff
import ScriptLang.Proofs.Scopes

set_option autoImplicit false

/-! # Programs without loops end

A run without loops can go on only by calls, and each call counts against the limit. So the argument
is by induction on the number of calls that can still be made, and inside it on the node: a call
makes the number smaller and anything else makes the node smaller. Calls that come one after the
other do not add up, because each leaves the count as it was. The functions of the host have to end
on their own (`Machine.TotalHosts`). Then all runs with enough fuel are one and the same, and it
ends (`Machine.run_ends_of_loopFree`). -/

namespace ScriptLang

open Exec Evaluator

/-! ## Programs without loops -/

namespace Node

mutual

/-- Whether no loop stands in the node, not even in the body of a function. -/
def isLoopFree : Node → Bool
  | .loop _ _ => false
  | .binary _ left right => left.isLoopFree && right.isLoopFree
  | .call _ nodes | .callStatement _ nodes | .block nodes | .program nodes | .print nodes =>
    areLoopFree nodes
  | .definition _ node | .assignment _ node | .function _ _ node | .returning node
  | .expressionStatement node => node.isLoopFree
  | .conditional condition thenBlock none => condition.isLoopFree && thenBlock.isLoopFree
  | .conditional condition thenBlock (some elseBlock) =>
    condition.isLoopFree && thenBlock.isLoopFree && elseBlock.isLoopFree
  | .reference _ | .literal _ | .input _ | .valueStatement _ | .fragment _ => true
termination_by structural node => node

/-- Whether no loop stands in the nodes. -/
def areLoopFree : List Node → Bool
  | [] => true
  | node :: nodes => node.isLoopFree && areLoopFree nodes
termination_by structural nodes => nodes

end

end Node

/-- Whether no declared function has a loop. -/
def Scopes.LoopFree (scopes : Scopes) : Prop :=
  scopes.ForallBodies fun body => body.isLoopFree = true

/-- Whether every function of the host ends when a program calls it, and declares no function with a
loop. The program may have got anywhere from `m`, as long as it has declared none either. -/
def Machine.TotalHosts (m : Machine) : Prop :=
  ∀ name f, m.hosts.find? name = some f → ∀ frames arguments scope m', m.Later m' →
    m'.scopes.LoopFree → ∃ fuel, (call fuel frames name arguments scope m').1 ≠ .error .outOfFuel ∧
      ∀ v, (call fuel frames name arguments scope m').1 = .ok v →
        (call fuel frames name arguments scope m').2.scopes.LoopFree

/-! ## Computations that end -/

/-- Whether a program without loops can have got from `start` to `m`, where these calls are
active. -/
structure Machine.Reached (start : Machine) (calls : Calls) (m : Machine) : Prop where
  later : start.Later m
  functions : m.scopes.LoopFree
  calls : m.calls = calls

namespace Exec

variable {α β : Type} {start : Machine} {calls before middle after : Calls}

/-- Whether a computation, given enough fuel, comes to an end that more fuel does not change. The
calls that are active before it and, if it completes, after it are given. -/
def Halts (start : Machine) (before after : Calls) (x : Nat → Exec α) : Prop :=
  ∀ m, start.Reached before m → ∃ fuel r, (∀ more ≥ fuel, x more m = r) ∧
    r.1 ≠ .error .outOfFuel ∧ ∀ a, r.1 = .ok a → start.Reached after r.2

theorem Halts.bind {x : Nat → Exec α} {f : Nat → α → Exec β} (hx : Halts start before middle x)
    (hf : ∀ a, Halts start middle after (fun fuel => f fuel a)) :
    Halts start before after (fun fuel => x fuel >>= f fuel) := by
  intro m hm
  obtain ⟨fuel, ⟨result, m'⟩, hsame, hended, hreached⟩ := hx m hm
  cases result with
  | error e =>
    refine ⟨fuel, (.error e, m'), fun more hmore => bind_of_error (hsame more hmore) _, ?_, nofun⟩
    intro hfuel
    injection hfuel with hfuel
    exact hended (hfuel ▸ rfl)
  | ok a =>
    obtain ⟨fuel', r, hsame', hrest⟩ := hf a m' (hreached a rfl)
    refine ⟨max fuel fuel', r, fun more hmore => ?_, hrest⟩
    calc
      (x more >>= f more) m = f more a m' := bind_of_ok (hsame more (by omega)) _
      _ = r := hsame' more (by omega)

/-- A computation that always takes a unit of fuel first. -/
theorem Halts.of_succ {x : Nat → Exec α} (h : Halts start before after fun fuel => x (fuel + 1)) :
    Halts start before after x := by
  intro m hm
  obtain ⟨fuel, r, hsame, hrest⟩ := h m hm
  refine ⟨fuel + 1, r, fun more hmore => ?_, hrest⟩
  obtain ⟨more, rfl⟩ : ∃ n, more = n + 1 := ⟨more - 1, by omega⟩
  exact hsame more (by omega)

/-! ## Actions -/

/-- An action that takes no fuel, calls nothing and keeps the functions without loops. -/
theorem halts_action {x : Exec α} (hx : x.Forward) (hended : ∀ m, (x m).1 ≠ .error .outOfFuel)
    (hcalls : ∀ m, (x m).2.calls = m.calls)
    (hfunctions : ∀ m, m.scopes.LoopFree → (x m).2.scopes.LoopFree) :
    Halts start calls calls fun _ => x := by
  intro m hm
  refine ⟨0, x m, fun _ _ => rfl, hended m, fun _ _ => ?_⟩
  exact ⟨hm.later.trans (hx m), hfunctions m hm.functions, (hcalls m).trans hm.calls⟩

theorem halts_pure (a : α) : Halts start calls calls fun _ => pure a :=
  halts_action (forward_pure a) (fun _ => nofun) (fun _ => rfl) fun _ h => h

theorem halts_throw {e : Failure} (he : e ≠ .outOfFuel) :
    Halts start calls calls fun _ => (throw e : Exec α) := by
  refine halts_action (forward_throw e) (fun m hthrown => he ?_) (fun _ => rfl) fun _ h => h
  injection hthrown

theorem halts_script (e : ScriptError) :
    Halts start calls calls fun _ => (throw (.script e) : Exec α) :=
  halts_throw nofun

theorem halts_fault (f : Fault) : Halts start calls calls fun _ => (throw (.fault f) : Exec α) :=
  halts_throw nofun

theorem halts_ofExcept (r : Except ScriptError α) :
    Halts start calls calls fun _ => ofExcept r := by
  cases r with
  | ok a => exact halts_pure a
  | error e => exact halts_script e

theorem halts_trace (level : Nat) (line : Machine → String) :
    Halts start calls calls fun _ => trace level line := by
  have hkept (m : Machine) : (trace level line m).2.calls = m.calls ∧
      (trace level line m).2.scopes = m.scopes := by
    obtain ⟨_, _, heq⟩ := m.noted_eq level (line m)
    have hnoted : (trace level line m).2 = m.noted level (line m) := rfl
    rw [hnoted, heq]
    exact ⟨rfl, rfl⟩
  refine halts_action (forward_trace level line) (fun _ => nofun) (fun m => (hkept m).1) ?_
  intro m hm
  rw [(hkept m).2]
  exact hm

theorem halts_print (values : List Value) : Halts start calls calls fun _ => print values :=
  halts_action (forward_print values) (fun _ => nofun) (fun _ => rfl) fun _ h => h

theorem halts_readInput (kind : InputKind) : Halts start calls calls fun _ => readInput kind := by
  have hread : Halts start calls calls fun _ => readLine := by
    refine halts_action forward_readLine (fun m => ?_) (fun m => ?_) fun m hm => ?_
    all_goals
      rw [readLine_apply]
      cases m.input
    · exact nofun
    · exact nofun
    · rfl
    · rfl
    · exact hm
    · exact hm
  refine hread.bind fun line => ?_
  cases kind with
  | number =>
    dsimp only
    cases Double.read? (String.ofList (Text.trim line)) with
    | some number => exact halts_pure _
    | none => exact halts_script _
  | text => exact halts_pure _
  | other name => exact halts_pure _

theorem halts_openScope (scope : Scope) : Halts start calls calls fun _ => openScope scope :=
  halts_action (forward_openScope scope) (fun _ => nofun) (fun _ => rfl)
    fun _ h => Scopes.ForallBodies.child h scope

theorem halts_lookup (scope : Scope) (name : String) :
    Halts start calls calls fun _ => lookup scope name := by
  refine halts_action (forward_lookup scope name) (fun m => ?_) (fun m => ?_) fun m hm => ?_
  all_goals rw [lookup_apply]
  · dsimp only
    intro h
    split at h <;> cases h
  · exact hm

theorem halts_updateScopes {update : Scopes → Except ScriptError Unit × Scopes}
    (hlater : ∀ scopes : Scopes, scopes.Later (update scopes).2)
    (hfunctions : ∀ scopes : Scopes, scopes.LoopFree → (update scopes).2.LoopFree) :
    Halts start calls calls fun _ => updateScopes update := by
  refine halts_action (forward_updateScopes hlater) (fun m => ?_) (fun m => ?_) fun m hm => ?_
  all_goals rw [updateScopes_apply]
  · intro h
    cases hresult : (update m.scopes).1 <;> rw [hresult] at h <;> cases h
  · exact hfunctions m.scopes hm

theorem halts_define (scope : Scope) (name : String) (v : Value) :
    Halts start calls calls fun _ => updateScopes (·.define scope name v) :=
  halts_updateScopes (fun scopes => scopes.later_define scope name v)
    fun _ h => Scopes.ForallBodies.define h scope name v

theorem halts_demand (needed : Stack → Nat) : Halts start calls calls fun _ => demand needed := by
  refine halts_action (forward_demand needed) (fun m => ?_) (fun m => ?_) fun m hm => ?_
  all_goals rw [demand_apply]
  · dsimp only
    intro h
    split at h <;> cases h
  · exact hm

theorem halts_operate (frames : Nat) (operator : Operator) (a b : Value) :
    Halts start calls calls fun _ => operate frames operator a b := by
  have hscript (r : Except ScriptError Value) :
      r.mapError Failure.script ≠ .error .outOfFuel := by
    cases r <;> exact nofun
  have hended : operator.apply a b ≠ .error .outOfFuel := by
    cases operator with
    | arithmetic operation => exact hscript _
    | order relation => exact hscript _
    | and => exact hscript _
    | or => exact hscript _
    | _ => exact nofun
  refine (halts_demand _).bind fun _ => ?_
  cases hresult : operator.apply a b with
  | ok value => exact halts_pure value
  | error e =>
    rw [hresult] at hended
    exact halts_throw fun he => hended (he ▸ rfl)

theorem halts_reserve (frames : Nat) : Halts start calls calls fun _ => reserve frames := by
  refine (halts_demand _).bind fun _ => ?_
  exact halts_action (fun m => m.later_reserve _) (fun _ => nofun) (fun _ => rfl) fun _ h => h

theorem halts_nested {frames : Nat} {x : Nat → Nat → Exec α}
    (h : ∀ frames, Halts start calls calls fun fuel => x fuel frames) :
    Halts start calls calls fun fuel => nested frames (x fuel) :=
  (halts_demand _).bind fun _ => h _

theorem halts_leftmost {frames : Nat} {x : Nat → Nat → Exec α} (node : Node)
    (h : ∀ frames, Halts start calls calls fun fuel => x fuel frames) :
    Halts start calls calls fun fuel => leftmost frames node (x fuel) := by
  unfold leftmost
  split
  · exact h frames
  · exact halts_nested h

/-- Entering a call makes one call fewer possible, or it ends the run. -/
theorem halts_enterCall {x : Nat → Exec α}
    (h : calls.depth < calls.limit →
      Halts start { calls with depth := calls.depth + 1 } after x) :
    Halts start calls after fun fuel => enterCall >>= fun _ => x fuel := by
  intro m hm
  have hcalls := hm.calls
  by_cases hlimit : m.calls.depth < m.calls.limit
  · have henter := enterCall_of_lt hlimit
    have hreached : start.Reached { calls with depth := calls.depth + 1 } (enterCall m).2 := by
      refine ⟨hm.later.trans (forward_enterCall m), ?_, ?_⟩
      · rw [henter]
        exact hm.functions
      · rw [henter, hcalls]
    obtain ⟨fuel, r, hsame, hrest⟩ := h (hcalls ▸ hlimit) _ hreached
    refine ⟨fuel, r, fun more hmore => ?_, hrest⟩
    rw [henter] at hsame
    exact (bind_of_ok henter _).trans (hsame more hmore)
  · have henter := enterCall_of_le (m := m) (by omega)
    exact ⟨0, _, fun _ _ => bind_of_error henter _, nofun, nofun⟩

theorem halts_leaveCall :
    Halts start { calls with depth := calls.depth + 1 } calls fun _ => leaveCall := by
  intro m hm
  refine ⟨0, leaveCall m, fun _ _ => rfl, nofun, fun _ _ => ?_⟩
  refine ⟨hm.later.trans (forward_leaveCall m), hm.functions, ?_⟩
  show m.calls.leave = calls
  rw [hm.calls]
  simp [Calls.leave]

end Exec

/-! ## Evaluation and execution -/

namespace Evaluator

variable {start : Machine} {calls : Calls} {callee : Nat → Callee}

/-- Whether all calls end that are made where these calls are active. -/
def CallsHalt (start : Machine) (calls : Calls) (callee : Nat → Callee) : Prop :=
  ∀ frames name arguments scope,
    Halts start calls calls fun fuel => callee fuel frames name arguments scope

mutual

theorem halts_evaluate (hcall : CallsHalt start calls callee) (scope : Scope) (frames : Nat) :
    ∀ node : Node, Halts start calls calls fun fuel => evaluate (callee fuel) scope frames node []
  | .literal value => halts_pure value
  | .reference name => by
    simp only [evaluate_reference]
    exact halts_lookup scope name
  | .binary operator left right => by
    simp only [evaluate_binary]
    refine (halts_leftmost left fun frames => ?_).bind fun a => ?_
    · exact halts_evaluate hcall scope frames left
    refine (halts_nested fun frames => ?_).bind fun b => halts_operate frames operator a b
    exact halts_evaluate hcall scope frames right
  | .call name arguments => by
    simp only [evaluate_call]
    refine (halts_nested fun frames => ?_).bind fun values => ?_
    · exact halts_evaluateAll hcall scope frames arguments
    · exact halts_nested fun frames => hcall frames name values scope
  | .input kind => by
    simp only [evaluate_input]
    exact halts_readInput kind
  | .block _ | .program _ | .print _ | .definition _ _ | .assignment _ _ | .conditional _ _ _
  | .loop _ _ | .function _ _ _ | .callStatement _ _ | .returning _ | .expressionStatement _
  | .valueStatement _ | .fragment _ => halts_fault _
termination_by structural node => node

theorem halts_evaluateAll (hcall : CallsHalt start calls callee) (scope : Scope) (frames : Nat) :
    ∀ nodes : List Node,
      Halts start calls calls fun fuel => evaluateAll (callee fuel) scope frames nodes
  | [] => halts_pure []
  | node :: nodes => by
    simp only [evaluateAll]
    refine (halts_nested fun frames => ?_).bind fun value => ?_
    · exact halts_evaluate hcall scope frames node
    · exact (halts_evaluateAll hcall scope frames nodes).bind fun values => halts_pure _
termination_by structural nodes => nodes

end

theorem halts_value (hcall : CallsHalt start calls callee) (scope : Scope) (frames : Nat)
    (node : Node) : Halts start calls calls fun fuel => value (callee fuel) scope frames node :=
  halts_nested fun frames => halts_evaluate hcall scope frames node

theorem halts_values (hcall : CallsHalt start calls callee) (scope : Scope) (frames : Nat)
    (nodes : List Node) :
    Halts start calls calls fun fuel => values (callee fuel) scope frames nodes :=
  halts_nested fun frames => halts_evaluateAll hcall scope frames nodes

mutual

/-- A statement without loops ends, if the calls in it do. -/
theorem halts_execute (hcall : CallsHalt start calls callee) (scope : Scope) (frames : Nat) :
    ∀ node : Node, node.isLoopFree = true →
      Halts start calls calls fun fuel => execute (callee fuel) fuel scope frames node
  | .print expressions, _ => by
    simp only [execute]
    refine (halts_values hcall scope frames expressions).bind fun values => ?_
    exact (halts_print values).bind fun _ => halts_pure none
  | .definition name expression, _ => by
    simp only [execute]
    refine (halts_value hcall scope frames expression).bind fun v => ?_
    refine (halts_define scope name v).bind fun _ => ?_
    exact (halts_trace _ _).bind fun _ => halts_pure none
  | .assignment name expression, _ => by
    simp only [execute]
    refine (halts_value hcall scope frames expression).bind fun v => ?_
    refine (halts_updateScopes (fun scopes => scopes.later_assign scope name v) ?_).bind fun _ => ?_
    · exact fun _ h => Scopes.ForallBodies.assign h scope name v
    · exact (halts_trace _ _).bind fun _ => halts_pure none
  | .conditional condition thenBlock elseBlock, h => by
    simp only [execute_conditional]
    refine (halts_value hcall scope frames condition).bind fun v => ?_
    refine (halts_ofExcept v.toBool).bind fun holds => ?_
    refine (halts_trace _ _).bind fun _ => ?_
    have hthen : thenBlock.isLoopFree = true := by
      cases elseBlock <;> simp_all [Node.isLoopFree]
    cases holds with
    | true =>
      refine (halts_openScope scope).bind fun inner => halts_nested fun frames => ?_
      exact halts_executeBlock hcall inner frames thenBlock hthen
    | false =>
      match elseBlock, h with
      | none, _ => exact halts_pure none
      | some block, h =>
        simp only [Node.isLoopFree, Bool.and_eq_true] at h
        refine (halts_openScope scope).bind fun inner => halts_nested fun frames => ?_
        exact halts_executeBlock hcall inner frames block h.2
  | .function name parameters body, h => by
    simp only [execute]
    refine (halts_updateScopes (fun scopes => scopes.later_declare scope _) ?_).bind fun _ => ?_
    · exact fun _ hfree => Scopes.ForallBodies.declare hfree scope h
    · exact (halts_trace _ _).bind fun _ => halts_pure none
  | .callStatement name arguments, _ => by
    simp only [execute]
    refine (halts_values hcall scope frames arguments).bind fun values => ?_
    refine (halts_nested fun frames => hcall frames name values scope).bind fun _ => ?_
    exact halts_pure none
  | .returning expression, _ => by
    simp only [execute]
    exact (halts_value hcall scope frames expression).bind fun v => halts_pure _
  | .expressionStatement expression, _ => by
    simp only [execute]
    exact (halts_value hcall scope frames expression).bind fun _ => halts_pure none
  | .valueStatement _, _ => halts_pure none
  | .loop _ _, h => nomatch h
  | .reference _, _ | .literal _, _ | .binary _ _ _, _ | .call _ _, _ | .input _, _ | .block _, _
  | .program _, _ | .fragment _, _ => halts_fault _
termination_by structural node => node

theorem halts_executeBlock (hcall : CallsHalt start calls callee) (scope : Scope) (frames : Nat) :
    ∀ node : Node, node.isLoopFree = true →
      Halts start calls calls fun fuel => executeBlock (callee fuel) fuel scope frames node
  | .block statements, h => by
    simp only [executeBlock]
    exact halts_executeAll hcall scope frames statements h
  | .reference _, _ | .literal _, _ | .binary _ _ _, _ | .call _ _, _ | .input _, _ | .program _, _
  | .print _, _ | .definition _ _, _ | .assignment _ _, _ | .conditional _ _ _, _ | .loop _ _, _
  | .function _ _ _, _ | .callStatement _ _, _ | .returning _, _ | .expressionStatement _, _
  | .valueStatement _, _ | .fragment _, _ => halts_fault _
termination_by structural node => node

theorem halts_executeAll (hcall : CallsHalt start calls callee) (scope : Scope) (frames : Nat) :
    ∀ statements : List Node, Node.areLoopFree statements = true →
      Halts start calls calls fun fuel => executeAll (callee fuel) fuel scope frames statements
  | [], _ => halts_pure none
  | statement :: statements, h => by
    simp only [Node.areLoopFree, Bool.and_eq_true] at h
    simp only [executeAll]
    refine (halts_execute hcall scope (frames + 1) statement h.1).bind fun result => ?_
    cases result with
    | none => exact halts_executeAll hcall scope frames statements h.2
    | some value => exact halts_pure _
termination_by structural statements => statements

end

theorem halts_executeProgram (hcall : CallsHalt start calls callee) (frames : Nat)
    (body : List Node) (h : Node.areLoopFree body = true) :
    Halts start calls calls fun fuel => executeProgram (callee fuel) fuel frames body := by
  refine (halts_reserve frames).bind fun _ => ?_
  exact halts_nested fun frames => halts_executeAll hcall Scope.root frames body h

/-! ## Calls -/

theorem halts_checkCount (f : Function) (name : String) (arguments : List Value) :
    Halts start calls calls fun _ => checkCount f name arguments := by
  unfold checkCount
  split
  · exact halts_script _
  · exact halts_pure ()

theorem halts_defineAll (scope : Scope) (bindings : List (String × Value)) :
    Halts start calls calls fun _ => defineAll scope bindings := by
  induction bindings with
  | nil => exact halts_pure ()
  | cons binding rest ih =>
    obtain ⟨name, v⟩ := binding
    exact (halts_define scope name v).bind fun _ => ih

/-- A call of a declared function ends if its body does, with one more call active. -/
theorem halts_callDeclared
    (body : (fuel frames : Nat) → Scope → Node → Exec (Option Value)) {f : Function}
    (hbody : calls.depth < calls.limit → ∀ frames scope,
      Halts start { calls with depth := calls.depth + 1 } { calls with depth := calls.depth + 1 }
        fun fuel => body fuel frames scope f.body)
    (frames : Nat) (owner : Scope) (name : String) (arguments : List Value) :
    Halts start calls calls fun fuel =>
      callDeclared (body fuel) frames owner f name arguments := by
  refine (halts_checkCount f name arguments).bind fun _ => ?_
  refine halts_enterCall fun hlimit => (halts_reserve frames).bind fun _ => ?_
  refine (halts_trace _ _).bind fun _ => (halts_openScope owner).bind fun inner => ?_
  refine (halts_defineAll inner _).bind fun _ => ?_
  refine (halts_nested fun frames => hbody hlimit frames inner).bind fun result => ?_
  exact halts_leaveCall.bind fun _ => (halts_trace _ _).bind fun _ => halts_pure _

section

variable {name : String} {m : Machine}

theorem call_of_host {f : HostFunction} (h : m.hosts.find? name = some f) (fuel frames : Nat)
    (arguments : List Value) (scope : Scope) :
    call (fuel + 1) frames name arguments scope m
      = callHost (runSource (call fuel) fuel) frames f arguments m := by
  rw [call, bind_of_ok (get_apply m), h]

theorem call_of_unknown {scope : Scope} (h : m.hosts.find? name = none)
    (hfound : m.scopes.declaration? scope name = none) (fuel frames : Nat)
    (arguments : List Value) :
    call (fuel + 1) frames name arguments scope m
      = (.error (.script (.undefinedFunction name)), m) := by
  rw [call, bind_of_ok (get_apply m), h]
  dsimp only
  rw [hfound]
  rfl

theorem call_of_declared {scope owner : Scope} {f : Function} (h : m.hosts.find? name = none)
    (hfound : m.scopes.declaration? scope name = some (owner, f)) (fuel frames : Nat)
    (arguments : List Value) :
    call (fuel + 1) frames name arguments scope m
      = callDeclared (fun frames inner => executeBlock (call fuel) fuel inner frames) frames owner f
          name arguments m := by
  rw [call, bind_of_ok (get_apply m), h]
  dsimp only
  rw [hfound]

end

/-- Calls end if those do that are made with one more call active. -/
theorem callsHalt_of_next (hosts : start.TotalHosts)
    (hnext : calls.depth < calls.limit →
      CallsHalt start { calls with depth := calls.depth + 1 } call) :
    CallsHalt start calls call := by
  intro frames name arguments scope
  apply Halts.of_succ
  intro m hm
  cases hhost : m.hosts.find? name with
  | some f =>
    have hstart : start.hosts.find? name = some f := hm.later.hosts ▸ hhost
    obtain ⟨fuel, hended, hfree⟩ :=
      hosts name f hstart frames arguments scope m hm.later hm.functions
    refine ⟨fuel, _, fun more hmore => call_eq_of_le (by omega) hended, hended, fun v hv => ?_⟩
    have hcalls : (call fuel frames name arguments scope m).2.calls = m.calls :=
      Balance.calls_of_call (Prod.ext hv rfl)
    have hforward : m.Later (call fuel frames name arguments scope m).2 :=
      forward_call fuel frames name arguments scope m
    exact ⟨hm.later.trans hforward, hfree v hv, hcalls.trans hm.calls⟩
  | none =>
    cases hfound : m.scopes.declaration? scope name with
    | none =>
      refine ⟨0, (.error (.script (.undefinedFunction name)), m), fun more _ => ?_, nofun,
        fun _ h => nomatch h⟩
      exact call_of_unknown hhost hfound more frames arguments
    | some found =>
      obtain ⟨owner, f⟩ := found
      have hbody : f.body.isLoopFree = true := hm.functions.declaration? hfound
      obtain ⟨fuel, r, hsame, hrest⟩ := halts_callDeclared
        (fun fuel frames inner => executeBlock (call fuel) fuel inner frames)
        (fun hlimit frames inner => halts_executeBlock (hnext hlimit) inner frames f.body hbody)
        frames owner name arguments m hm
      refine ⟨fuel, r, fun more hmore => ?_, hrest⟩
      exact (call_of_declared hhost hfound more frames arguments).trans (hsame more hmore)

/-- **Calls end.** The induction is on the number of calls that can be made inside each other. -/
theorem callsHalt (hosts : start.TotalHosts) (left : Nat) (calls : Calls)
    (hleft : calls.limit - calls.depth ≤ left) : CallsHalt start calls call := by
  induction left generalizing calls with
  | zero =>
    refine callsHalt_of_next hosts fun hlimit => ?_
    omega
  | succ left ih =>
    refine callsHalt_of_next hosts fun hlimit => ih _ ?_
    show calls.limit - (calls.depth + 1) ≤ left
    omega

end Evaluator

/-! ## Functions of the host that run no programs -/

/-- Whether a function of the host answers without running a program. -/
inductive HostAction.Answers : HostAction → Prop
  | done (result : Option Value) : Answers (.done result)
  | fail {failure : Failure} (h : failure ≠ .outOfFuel) : Answers (.fail failure)
  | depth {next : Int → HostAction} (h : ∀ n, Answers (next n)) : Answers (.depth next)

namespace Evaluator

variable {start : Machine} {calls : Calls}

theorem halts_act {action : HostAction} (h : action.Answers)
    (run : (fuel : Nat) → Text.Names → String → Exec (Option Value)) :
    Halts start calls calls fun fuel => act (run fuel) action := by
  induction h with
  | done result => exact halts_pure result
  | fail hfailure => exact halts_throw hfailure
  | depth _ ih =>
    intro m hm
    exact ih m.calls.depth m hm

theorem halts_checkArity (f : HostFunction) (arguments : List Value) :
    Halts start calls calls fun _ => checkArity f arguments := by
  unfold checkArity
  cases f.arity with
  | none => exact halts_pure ()
  | some arity =>
    dsimp only
    split
    · exact halts_script _
    · exact halts_pure ()

theorem halts_callHost {f : HostFunction} {arguments : List Value}
    (h : (f.body arguments).Answers)
    (run : (fuel frames : Nat) → Text.Names → String → Exec (Option Value)) (frames : Nat) :
    Halts start calls calls fun fuel => callHost (run fuel) frames f arguments := by
  refine (halts_trace _ _).bind fun _ => halts_nested fun frames => ?_
  refine (halts_checkArity f arguments).bind fun _ => (halts_demand _).bind fun _ => ?_
  exact (halts_act h fun fuel => run fuel _).bind fun _ => halts_pure _

end Evaluator

/-! ## Runs -/

namespace Machine

variable {m : Machine} {body : List Node}

/-- Functions of the host that run no programs are total. -/
theorem totalHosts_of_answers
    (h : ∀ name f, m.hosts.find? name = some f → ∀ arguments, (f.body arguments).Answers) :
    m.TotalHosts := by
  intro name f hf frames arguments scope m' hlater hfree
  obtain ⟨fuel, r, hsame, hended, hreached⟩ := halts_callHost (h name f hf arguments)
    (fun fuel => Evaluator.runSource (call fuel) fuel) frames m' ⟨hlater, hfree, rfl⟩
  have hcall : call (fuel + 1) frames name arguments scope m' = r :=
    (call_of_host (hlater.hosts ▸ hf) ..).trans (hsame fuel (Nat.le_refl fuel))
  refine ⟨fuel + 1, ?_, fun v hv => ?_⟩
  · rw [hcall]
    exact hended
  · rw [hcall] at hv ⊢
    exact (hreached v hv).functions

theorem finish_ne_outOfFuel {α : Type} {r : Except Failure α × Machine}
    (h : r.1 ≠ .error .outOfFuel) : (finish r).1 ≠ .error .outOfFuel := by
  obtain ⟨result, m⟩ := r
  cases result with
  | ok a => exact nofun
  | error e =>
    cases e with
    | outOfFuel => exact absurd rfl h
    | _ => exact nofun

/-- **Programs without loops end.** A program without loops, run where no declared function has one
and where the functions of the host end, comes to an end, with a value, without one or with a
failure: with enough fuel all runs are the same one, and it does not stop for lack of fuel. -/
theorem run_ends_of_loopFree (hbody : Node.areLoopFree body = true)
    (hdeclared : m.scopes.LoopFree) (hosts : m.TotalHosts) :
    ∃ fuel, ∀ more ≥ fuel, run more body m = run fuel body m ∧
      (run more body m).1 ≠ .error .outOfFuel := by
  cases hopen : m.openTrace with
  | error e =>
    refine ⟨0, fun more _ => ?_⟩
    rw [run_of_error hopen, run_of_error hopen]
    exact ⟨rfl, nofun⟩
  | ok m₁ =>
    have hreached : m.Reached m.calls m₁ := by
      have hlater := later_openTrace hopen
      obtain ⟨traceFile, rfl⟩ := eq_of_openTrace hopen
      exact ⟨hlater, hdeclared, rfl⟩
    have hcall := callsHalt hosts (m.calls.limit - m.calls.depth).toNat m.calls (by omega)
    obtain ⟨fuel, r, hsame, hended, _⟩ :=
      halts_executeProgram hcall m.stack.base body hbody m₁ hreached
    have hruns (more : Nat) (hmore : more ≥ fuel) :
        run more body m = restore m.stack (finish r) := by
      rw [run_of_ok hopen]
      exact congrArg (fun r => restore m.stack (finish r)) (hsame more hmore)
    refine ⟨fuel, fun more hmore => ?_⟩
    rw [hruns more hmore, hruns fuel (Nat.le_refl fuel)]
    exact ⟨rfl, finish_ne_outOfFuel hended⟩

theorem totalHosts_counting : counting.TotalHosts := by
  apply totalHosts_of_answers
  intro name f hf arguments
  simp only [counting, Machine.bind, Bindings.find?_insert] at hf
  split at hf
  · cases hf
    exact .depth fun n => .done _
  · cases hf

/-- Two functions that call each other without end, and a function of the host. -/
def circling : List Node :=
  [.function "f" [] (.block [.returning (.call "g" [])]),
    .function "g" [] (.block [.print [.call "depth" []], .returning (.call "f" [])]),
    .callStatement "f" []]

/-- The functions do not go on for ever. -/
theorem run_ends_of_loopFree_circling :
    Node.areLoopFree circling = true ∧ counting.scopes.LoopFree ∧ counting.TotalHosts ∧
      ∃ fuel, ∀ more ≥ fuel, run more circling counting = run fuel circling counting ∧
        (run more circling counting).1 ≠ .error .outOfFuel := by
  have hfree : Node.areLoopFree circling = true := rfl
  have hdeclared : counting.scopes.LoopFree := Scopes.forallBodies_new false
  exact ⟨hfree, hdeclared, totalHosts_counting,
    run_ends_of_loopFree hfree hdeclared totalHosts_counting⟩

end Machine

end ScriptLang
