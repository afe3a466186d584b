import ScriptLang.Proofs.Progress

set_option autoImplicit false

/-! # Runs under observation

How many calls are active at some moment of a run, whether it lacks room and what its failures pass
through on their way out cannot be read off the machine that the run leaves. A `Probe` makes these
moments visible: it is a set of tripwires, and `Machine.runProbed` is the run with them in place.
Without tripwires it is the run itself (`Machine.runProbed_nothing`), so a moment that does not
occur is one where no tripwire makes a difference. -/

namespace ScriptLang

/-- The failure, with another fault if it is one. -/
def Failure.mapFault (change : Fault → Fault) : Failure → Failure
  | .fault f => .fault (change f)
  | e => e

theorem Failure.mapFault_id (e : Failure) : e.mapFault id = e := by
  cases e <;> rfl

/-- What is done at certain moments of a run. -/
structure Probe where
  /-- Whether a call that has just been counted fails, with so many calls active. -/
  entered : (active : Nat) → Machine → Option Failure := fun _ _ => none
  /-- What becomes of a fault that leaves a declared function. -/
  leaving : Fault → Fault := id
  /-- What a lack of room is reported as. -/
  exhausted : (limit : Int) → Failure := fun limit => .script (.recursionLimit limit)

namespace Exec

variable {α : Type}

/-- The computation, with other failures. -/
def mapFailure (f : Failure → Failure) (x : Exec α) : Exec α := fun m =>
  ((x m).1.mapError f, (x m).2)

/-- The outcome, where a lack of room is another failure. -/
def reported (report : Int → Failure) : Except Failure α × Machine → Except Failure α × Machine
  | (.error .exhausted, m) => (.error (report m.calls.limit), m)
  | r => r

/-- The computation, where a lack of room is another failure. -/
def reporting (report : Int → Failure) (x : Exec α) : Exec α := fun m =>
  reported report (x m)

/-- Fails if a failure is given. -/
def raise? : Option Failure → Exec Unit
  | some e => throw e
  | none => pure ()

/-- Counts a call under observation. -/
def enterProbed (p : Probe) (active : Nat) : Exec Unit := do
  enterCall
  raise? (p.entered active (← get))

end Exec

namespace Evaluator

open Exec

/-- Runs the statements of a program under observation. -/
def runBodyProbed (p : Probe) (call : Callee) (fuel frames : Nat) (body : List Node) :
    Exec (Option Value) :=
  guarded (reporting p.exhausted (executeProgram call fuel frames body))

/-- Reads and runs a program text under observation, for a function of the host. -/
def runSourceProbed (p : Probe) (call : Callee) (fuel frames : Nat) (names : Text.Names)
    (source : String) : Exec (Option Value) :=
  runText (fun body => nested frames fun frames => runBodyProbed p call fuel frames body) names
    source

/-- Calls a function under observation, while `active` calls of declared functions are active. -/
def callProbed (p : Probe) : (fuel active : Nat) → Callee
  | 0, _, _, _, _, _ => throw .outOfFuel
  | fuel + 1, active, frames, name, arguments, scope => do
    let m ← get
    match m.hosts.find? name with
    | some f => callHost (runSourceProbed p (callProbed p fuel active) fuel) frames f arguments
    | none =>
      match m.scopes.declaration? scope name with
      | none => throw (.script (.undefinedFunction name))
      | some (owner, f) => do
        checkCount f name arguments
        enterProbed p (active + 1)
        mapFailure (Failure.mapFault p.leaving)
          (activate
            (fun frames inner => executeBlock (callProbed p fuel (active + 1)) fuel inner frames)
            frames owner f name arguments)

end Evaluator

/-- Runs the statements of a program under observation. -/
def Machine.runProbed (p : Probe) (fuel : Nat) (body : List Node) : Exec (Option Value) := fun m =>
  Evaluator.runBodyProbed p (Evaluator.callProbed p fuel 0) fuel m.stack.base body m

/-! ## A run without tripwires -/

namespace Exec

variable {α : Type}

theorem mapFailure_id (x : Exec α) : mapFailure (Failure.mapFault id) x = x := by
  funext m
  unfold mapFailure
  rcases x m with ⟨r, m'⟩
  cases r with
  | ok a => rfl
  | error e => exact congrArg (fun e => (Except.error e, m')) e.mapFault_id

/-- A lack of room ends a program like the error it counts as. -/
theorem finish_reported (r : Except Failure α × Machine) :
    finish (reported (fun limit => .script (.recursionLimit limit)) r) = finish r := by
  obtain ⟨result, m⟩ := r
  cases result with
  | ok a => rfl
  | error e => cases e <;> rfl

theorem guarded_reporting (x : Exec α) :
    guarded (reporting (fun limit => .script (.recursionLimit limit)) x) = guarded x := by
  funext m
  unfold guarded reporting
  cases m.openTrace with
  | error e => rfl
  | ok opened => exact congrArg (restore m.stack) (finish_reported (x opened))

theorem enterProbed_of_ok {p : Probe} {m m' : Machine} (h : enterCall m = (.ok (), m'))
    (active : Nat) : enterProbed p active m = raise? (p.entered active m') m' := by
  unfold enterProbed
  rw [bind_of_ok h, bind_of_ok (get_apply m')]

theorem enterProbed_of_error {p : Probe} {m m' : Machine} {e : Failure}
    (h : enterCall m = (.error e, m')) (active : Nat) :
    enterProbed p active m = (.error e, m') :=
  bind_of_error h _

theorem enterProbed_nothing (active : Nat) : enterProbed {} active = enterCall := by
  funext m
  unfold enterProbed
  rw [bind_apply]
  rcases enterCall m with ⟨r, m'⟩
  cases r <;> rfl

end Exec

namespace Evaluator

open Exec

theorem runSourceProbed_nothing (call : Callee) (fuel : Nat) :
    runSourceProbed {} call fuel = runSource call fuel := by
  funext frames names source
  unfold runSourceProbed runSource runBodyProbed runBody
  simp only [guarded_reporting]

theorem callProbed_nothing (fuel active : Nat) : callProbed {} fuel active = call fuel := by
  induction fuel generalizing active with
  | zero => rfl
  | succ fuel ih =>
    funext frames name arguments scope
    rw [callProbed, call]
    refine congrArg (get >>= ·) (funext fun m => ?_)
    cases m.hosts.find? name with
    | some f =>
      dsimp only
      rw [ih, runSourceProbed_nothing]
    | none =>
      cases m.scopes.declaration? scope name with
      | none => rfl
      | some found =>
        dsimp only
        rw [ih, enterProbed_nothing, mapFailure_id]
        rfl

end Evaluator

/-- Without tripwires, a run under observation is the run. -/
theorem Machine.runProbed_nothing (fuel : Nat) (body : List Node) :
    Machine.runProbed {} fuel body = Machine.run fuel body := by
  unfold Machine.runProbed Machine.run Evaluator.runBodyProbed Evaluator.runBody
  simp only [Evaluator.callProbed_nothing, Exec.guarded_reporting]

/-! ## Calls move on -/

namespace Exec

variable {α : Type}

theorem Forward.mapFailure {x : Exec α} (hx : x.Forward) (f : Failure → Failure) :
    (mapFailure f x).Forward :=
  hx

theorem reported_snd (report : Int → Failure) (r : Except Failure α × Machine) :
    (reported report r).2 = r.2 := by
  unfold reported
  split <;> rfl

theorem Forward.reporting {x : Exec α} (hx : x.Forward) (report : Int → Failure) :
    (reporting report x).Forward := by
  intro m
  rw [Exec.reporting, reported_snd]
  exact hx m

theorem forward_raise? (e : Option Failure) : (raise? e).Forward := by
  cases e with
  | none => exact forward_pure ()
  | some e => exact forward_throw e

theorem forward_enterProbed (p : Probe) (active : Nat) : (enterProbed p active).Forward :=
  forward_enterCall.bind fun _ => forward_get.bind fun _ => forward_raise? _

end Exec

namespace Evaluator

open Exec

theorem forward_defineAll (scope : Scope) (bindings : List (String × Value)) :
    (defineAll scope bindings).Forward := by
  induction bindings with
  | nil => exact forward_pure ()
  | cons binding rest ih =>
    obtain ⟨name, v⟩ := binding
    exact (forward_updateScopes fun scopes => scopes.later_define scope name v).bind fun _ => ih

theorem forward_act {run : Text.Names → String → Exec (Option Value)}
    (hrun : ∀ names source, (run names source).Forward) (action : HostAction) :
    (act run action).Forward := by
  induction action with
  | done result => exact forward_pure result
  | fail failure => exact forward_throw failure
  | depth next ih => exact forward_get.bind fun m => ih m.calls.depth
  | run names source next ih => exact (hrun names source).bind ih

theorem forward_checkArity (f : HostFunction) (arguments : List Value) :
    (checkArity f arguments).Forward := by
  unfold checkArity
  cases f.arity with
  | none => exact forward_pure ()
  | some arity =>
    dsimp only
    split
    · exact forward_throw _
    · exact forward_pure ()

theorem forward_callHost {run : (frames : Nat) → Text.Names → String → Exec (Option Value)}
    (hrun : ∀ frames names source, (run frames names source).Forward) (frames : Nat)
    (f : HostFunction) (arguments : List Value) : (callHost run frames f arguments).Forward := by
  refine (forward_trace _ _).bind fun _ => forward_nested fun frames => ?_
  refine (forward_checkArity f arguments).bind fun _ => (forward_demand _).bind fun _ => ?_
  exact (forward_act (hrun _) _).bind fun _ => forward_pure _

theorem forward_checkCount (f : Function) (name : String) (arguments : List Value) :
    (checkCount f name arguments).Forward := by
  unfold checkCount
  split
  · exact forward_throw _
  · exact forward_pure ()

theorem forward_activate {body : (frames : Nat) → Scope → Node → Exec (Option Value)}
    (hbody : ∀ frames scope node, (body frames scope node).Forward) (frames : Nat) (owner : Scope)
    (f : Function) (name : String) (arguments : List Value) :
    (activate body frames owner f name arguments).Forward := by
  refine (forward_reserve frames).bind fun _ => (forward_trace _ _).bind fun _ => ?_
  refine (forward_openScope owner).bind fun inner => (forward_defineAll inner _).bind fun _ => ?_
  refine (forward_nested fun frames => hbody frames inner f.body).bind fun result => ?_
  exact forward_leaveCall.bind fun _ => (forward_trace _ _).bind fun _ => forward_pure _

theorem forward_executeProgram {call : Callee} (hcall : call.Forward) (fuel frames : Nat)
    (body : List Node) : (executeProgram call fuel frames body).Forward := by
  refine (forward_reserve frames).bind fun _ => ?_
  exact forward_nested fun frames => forward_executeAll hcall fuel _ frames body

theorem forward_runBodyProbed (p : Probe) {call : Callee} (hcall : call.Forward)
    (fuel frames : Nat) (body : List Node) : (runBodyProbed p call fuel frames body).Forward :=
  ((forward_executeProgram hcall fuel frames body).reporting _).guarded

theorem forward_runSourceProbed (p : Probe) {call : Callee} (hcall : call.Forward)
    (fuel frames : Nat) (names : Text.Names) (source : String) :
    (runSourceProbed p call fuel frames names source).Forward := by
  unfold runSourceProbed runText
  cases Program.parse names source with
  | ok body => exact forward_nested fun frames => forward_runBodyProbed p hcall fuel frames body
  | error failure => exact forward_throw failure

theorem forward_callProbed (p : Probe) (fuel active : Nat) :
    (callProbed p fuel active).Forward := by
  induction fuel generalizing active with
  | zero => exact fun _ _ _ _ => forward_throw _
  | succ fuel ih =>
    intro frames name arguments scope
    rw [callProbed]
    refine forward_get.bind fun m => ?_
    cases m.hosts.find? name with
    | some f =>
      exact forward_callHost (forward_runSourceProbed p (ih active) fuel) frames f arguments
    | none =>
      cases m.scopes.declaration? scope name with
      | none => exact forward_throw _
      | some found =>
        obtain ⟨owner, f⟩ := found
        refine (forward_checkCount f name arguments).bind fun _ => ?_
        refine (forward_enterProbed p (active + 1)).bind fun _ => ?_
        refine (forward_activate (fun frames inner node => ?_) frames owner f name
          arguments).mapFailure _
        exact forward_executeBlock (ih (active + 1)) fuel inner frames node

theorem forward_call (fuel : Nat) : (call fuel).Forward :=
  callProbed_nothing fuel 0 ▸ forward_callProbed {} fuel 0

end Evaluator

/-- A run only moves the machine on. -/
theorem Machine.forward_run (fuel : Nat) (body : List Node) : (run fuel body).Forward := by
  intro m
  have hcall := Evaluator.forward_callProbed {} fuel 0
  rw [← runProbed_nothing]
  exact Evaluator.forward_runBodyProbed {} hcall fuel m.stack.base body m

end ScriptLang
