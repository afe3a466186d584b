import ScriptLang.Proofs.Balance
import ScriptLang.Proofs.Correspondence
import Mathlib.Control.Monad.Basic

set_option autoImplicit false

/-! # The moments of a run

A run is a sequence of actions. `Interpretation.watched` carries them out and lists the moments
after them, each with the number of calls that are active then. That number follows from where the
action stands: it is one higher in the body of a function than at the call. Nothing that a run does
depends on it, and to watch a run does not change it.

The machine counts calls on its own, and at each moment its count is the number of active calls. The
one exception is a call that is refused. Then the machine starts to count from zero, though the
calls around it have not ended, and this is the last moment of the run
(`Machine.depth_counts_calls`). -/

namespace ScriptLang

/-- A moment of a run: how many calls of declared functions have been entered and not yet left, and
the state of the interpreter. -/
structure Moment where
  active : Nat
  machine : Machine

/-- A computation that lists the moments after its actions, where so many calls are active around
it. -/
def Watched (α : Type) : Type :=
  (active : Nat) → Machine → (Except Failure α × Machine) × List Moment

namespace Watched

open Exec

instance : Monad Watched where
  pure a _ m := ((.ok a, m), [])
  bind x f active m :=
    match x active m with
    | ((.ok a, m), seen) => ((f a active m).1, seen ++ (f a active m).2)
    | ((.error e, m), seen) => ((.error e, m), seen)

/-- An action, and the moment after it. -/
def watch {α : Type} (x : Exec α) : Watched α := fun active m =>
  (x m, [⟨active, (x m).2⟩])

/-- Counts a call. After it one more call is active, unless it is refused. -/
def enter : Watched Unit := fun active m =>
  match enterCall m with
  | (.ok (), m) => ((.ok (), m), [⟨active + 1, m⟩])
  | (.error e, m) => ((.error e, m), [⟨active, m⟩])

/-- A computation with one more call around it. -/
def inside {α : Type} (x : Watched α) : Watched α := fun active =>
  x (active + 1)

/-- Runs a program. Its moments are those up to the end of the statements. -/
def guarded {α : Type} (body : Watched α) : Watched α := fun active m =>
  match m.openTrace with
  | .error e => ((.error (.fault (.file e)), m), [⟨active, m⟩])
  | .ok opened =>
    (restore m.stack (finish (body active opened).1), ⟨active, opened⟩ :: (body active opened).2)

end Watched

/-- All is done on the machine and watched. -/
def Interpretation.watched : Interpretation Watched where
  perform action := Watched.watch action.exec
  print _ values := Watched.watch (Exec.print values)
  resolve scope name := fun _ m => ((.ok (m.resolve scope name), m), [])
  calling body := do
    Watched.enter
    let returned ← Watched.inside body
    Watched.watch Exec.leaveCall
    return returned
  guarded := Watched.guarded

/-- A run that is watched from its start. -/
def Machine.watchedRun (fuel : Nat) (body : List Node) (m : Machine) :
    (Except Failure (Option Value) × Machine) × List Moment :=
  Plain.run Interpretation.watched fuel m.stack.base body 0 m

/-! ## Actions that count no calls -/

/-- Whether a computation leaves the count of calls and the functions of the host alone. -/
def Exec.Spares {α : Type} (x : Exec α) : Prop :=
  ∀ m : Machine, (x m).2.calls = m.calls ∧ (x m).2.hosts = m.hosts

namespace Exec

variable {α β : Type}

theorem spares_pure (a : α) : (pure a : Exec α).Spares :=
  fun _ => ⟨rfl, rfl⟩

theorem spares_throw (e : Failure) : (throw e : Exec α).Spares :=
  fun _ => ⟨rfl, rfl⟩

theorem spares_get : (get : Exec Machine).Spares :=
  fun _ => ⟨rfl, rfl⟩

theorem Spares.bind {x : Exec α} {f : α → Exec β} (hx : x.Spares) (hf : ∀ a, (f a).Spares) :
    (x >>= f).Spares := by
  intro m
  obtain ⟨hcalls, hhosts⟩ := hx m
  rcases hxm : x m with ⟨r, m'⟩
  rw [hxm] at hcalls hhosts
  cases r with
  | ok a =>
    rw [bind_of_ok hxm]
    exact ⟨(hf a m').1.trans hcalls, (hf a m').2.trans hhosts⟩
  | error e =>
    rw [bind_of_error hxm]
    exact ⟨hcalls, hhosts⟩

theorem spares_ofExcept (r : Except ScriptError α) : (ofExcept r).Spares := by
  cases r with
  | ok a => exact spares_pure a
  | error e => exact spares_throw _

theorem spares_trace (level : Nat) (line : Machine → String) : (trace level line).Spares := by
  intro m
  obtain ⟨_, _, heq⟩ := m.noted_eq level (line m)
  show (m.noted level (line m)).calls = m.calls ∧ (m.noted level (line m)).hosts = m.hosts
  rw [heq]
  exact ⟨rfl, rfl⟩

theorem spares_print (values : List Value) : (print values).Spares :=
  fun _ => ⟨rfl, rfl⟩

theorem spares_readInput (kind : InputKind) : (readInput kind).Spares := by
  have hline : readLine.Spares := by
    intro m
    rw [readLine_apply]
    cases m.input with
    | none => exact ⟨rfl, rfl⟩
    | some cs => exact ⟨rfl, rfl⟩
  refine hline.bind fun line => ?_
  cases kind with
  | number =>
    dsimp only
    cases Double.read? (String.ofList (Text.trim line)) with
    | some number => exact spares_pure _
    | none => exact spares_throw _
  | text => exact spares_pure _
  | other name => exact spares_pure _

theorem spares_openScope (scope : Scope) : (openScope scope).Spares :=
  fun _ => ⟨rfl, rfl⟩

theorem spares_lookup (scope : Scope) (name : String) : (lookup scope name).Spares := by
  intro m
  rw [lookup_apply]
  exact ⟨rfl, rfl⟩

theorem spares_updateScopes (update : Scopes → Except ScriptError Unit × Scopes) :
    (updateScopes update).Spares := by
  intro m
  rw [updateScopes_apply]
  exact ⟨rfl, rfl⟩

theorem spares_demand (needed : Stack → Nat) : (demand needed).Spares := by
  intro m
  rw [demand_apply]
  exact ⟨rfl, rfl⟩

theorem spares_operate (frames : Nat) (operator : Operator) (a b : Value) :
    (operate frames operator a b).Spares := by
  intro m
  rw [operate_apply]
  exact ⟨rfl, rfl⟩

/-- A function of the host that leaves the interpreter alone counts no calls, whether it returns or
fails. -/
theorem spares_callHost (run : Nat → Text.Names → String → Exec (Option Value)) (frames : Nat)
    {f : HostFunction} (hf : ∀ arguments, (f.body arguments).Quiet) (arguments : List Value) :
    (Evaluator.callHost run frames f arguments).Spares := by
  have hact (frames : Nat) {action : HostAction} (h : action.Quiet) :
      (Evaluator.act (run frames) action).Spares := by
    induction h with
    | done result => exact spares_pure result
    | fail failure => exact spares_throw failure
    | depth _ ih => exact spares_get.bind fun m => ih m.calls.depth
  have harity : (Evaluator.checkArity f arguments).Spares := by
    unfold Evaluator.checkArity
    cases f.arity with
    | none => exact spares_pure ()
    | some arity =>
      dsimp only
      split
      · exact spares_throw _
      · exact spares_pure ()
  refine (spares_trace _ _).bind fun _ => (spares_demand _).bind fun _ => ?_
  refine harity.bind fun _ => (spares_demand _).bind fun _ => ?_
  exact (hact _ (hf arguments)).bind fun result => spares_pure (result.getD .void)

end Exec

theorem Action.spares_exec {α : Type} (action : Action α) : action.exec.Spares := by
  cases action with
  | fail failure => exact Exec.spares_throw failure
  | lookup scope name => exact Exec.spares_lookup scope name
  | operate frames operator a b => exact Exec.spares_operate frames operator a b
  | truth value => exact Exec.spares_ofExcept value.toBool
  | read kind => exact Exec.spares_readInput kind
  | trace level line => exact Exec.spares_trace level _
  | openScope scope => exact Exec.spares_openScope scope
  | define scope name value =>
    exact Exec.spares_updateScopes fun scopes => scopes.define scope name value
  | assign scope name value =>
    exact Exec.spares_updateScopes fun scopes => scopes.assign scope name value
  | declare scope f => exact Exec.spares_updateScopes fun scopes => (.ok (), scopes.declare scope f)
  | checkCount count name arguments =>
    unfold exec
    dsimp only
    split
    · exact Exec.spares_throw _
    · exact Exec.spares_pure ()
  | depth => exact fun _ => ⟨rfl, rfl⟩
  | demand needed => exact Exec.spares_demand needed
  | reserve frames => exact (Exec.spares_demand _).bind fun _ _ => ⟨rfl, rfl⟩

/-! ## Moments at which the count is right -/

namespace Moment

/-- Whether the machine counts the active calls, of which there are no more than the limit. -/
structure Counted (limit : Nat) (moment : Moment) : Prop where
  calls : moment.machine.calls = ⟨limit, moment.active⟩
  admitted : moment.active ≤ limit
  quiet : moment.machine.QuietHosts

/-- Whether a call has just been refused: as many calls are active as the limit allows, and the
machine counts none. -/
def Refused (limit : Nat) (moment : Moment) : Prop :=
  moment.active = limit ∧ moment.machine.calls = ⟨limit, 0⟩

theorem Counted.congr {limit active : Nat} {m m' : Machine} (h : Counted limit ⟨active, m⟩)
    (hcalls : m'.calls = m.calls) (hhosts : m'.hosts = m.hosts) : Counted limit ⟨active, m'⟩ where
  calls := hcalls.trans h.calls
  admitted := h.admitted
  quiet := by
    intro name f hf
    rw [hhosts] at hf
    exact h.quiet name f hf

end Moment

namespace Watched

open Exec Plain
open Interpretation (watched direct)

variable {limit active before middle after : Nat} {α β : Type}

/-- Whether the moments from `start` on lead to the end of an outcome, and the count is right at
them. Only at the last one a call may have been refused instead, which is the failure then. -/
def Ends (limit : Nat) (start : Moment) (after : Nat)
    (r : (Except Failure α × Machine) × List Moment) : Prop :=
  ∃ seen last, start :: r.2 = seen ++ [last] ∧ last.machine = r.1.2 ∧
    (∀ moment ∈ seen, moment.Counted limit) ∧
    (last.Counted limit ∧ (∀ a, r.1.1 = .ok a → last.active = after) ∨
      last.Refused limit ∧ r.1.1 = .error (.script (.recursionLimit limit)))

/-- Whether `x` is `y` being watched, at a place with `active` calls around it. It takes the number
of active calls from `before` to `after` and counts right at each moment. -/
def Follows (limit active before after : Nat) (x : Watched α) (y : Exec α) : Prop :=
  ∀ m, Moment.Counted limit ⟨before, m⟩ →
    (x active m).1 = y m ∧ Ends limit ⟨before, m⟩ after (x active m)

theorem ends_single {start moment : Moment} {result : Except Failure α}
    (hstart : start.Counted limit) (hmoment : moment.Counted limit) :
    Ends limit start moment.active ((result, moment.machine), [moment]) :=
  ⟨[start], moment, rfl, rfl, List.forall_mem_singleton.2 hstart, Or.inl ⟨hmoment, fun _ _ => rfl⟩⟩

theorem follows_pure (a : α) : Follows limit active before before (pure a) (pure a) :=
  fun _ hstart => ⟨rfl, [], _, rfl, rfl, fun _ hmem => absurd hmem List.not_mem_nil,
    Or.inl ⟨hstart, fun _ _ => rfl⟩⟩

theorem bind_of_ok {x : Watched α} {m m' : Machine} {a : α} {seen : List Moment}
    (h : x active m = ((.ok a, m'), seen)) (f : α → Watched β) :
    (x >>= f) active m = ((f a active m').1, seen ++ (f a active m').2) := by
  simp only [bind, h]

theorem bind_of_error {x : Watched α} {m m' : Machine} {e : Failure} {seen : List Moment}
    (h : x active m = ((.error e, m'), seen)) (f : α → Watched β) :
    (x >>= f) active m = ((.error e, m'), seen) := by
  simp only [bind, h]

theorem Follows.bind {x : Watched α} {y : Exec α} {f : α → Watched β} {g : α → Exec β}
    (hx : Follows limit active before middle x y)
    (hf : ∀ a, Follows limit active middle after (f a) (g a)) :
    Follows limit active before after (x >>= f) (y >>= g) := by
  intro m hstart
  obtain ⟨herases, seen, last, hmoments, hmachine, hseen, hlast⟩ := hx m hstart
  rcases hxm : x active m with ⟨⟨result, m'⟩, moments⟩
  rw [hxm] at herases hmoments hmachine hlast
  cases result with
  | ok a =>
    -- the moments of the second part go on from the last one of the first
    rcases hlast with ⟨hcounted, hafter⟩ | ⟨-, hrefused⟩
    · have hreached : last.machine = m' := hmachine
      obtain rfl : last = ⟨middle, m'⟩ := by rw [← hafter a rfl, ← hreached]
      obtain ⟨herases', seen', last', hmoments', hrest⟩ := hf a m' hcounted
      rw [bind_of_ok hxm, Exec.bind_of_ok herases.symm]
      refine ⟨herases', seen ++ seen', last', ?_, hrest.1, ?_, hrest.2.2⟩
      · have hfirst : (⟨before, m⟩ : Moment) :: moments = seen ++ [⟨middle, m'⟩] := hmoments
        show (⟨before, m⟩ : Moment) :: (moments ++ (f a active m').2) = _
        rw [← List.cons_append, hfirst, List.append_assoc, List.singleton_append, hmoments',
          List.append_assoc]
      · exact fun moment hmem =>
          (List.mem_append.1 hmem).elim (hseen moment) (hrest.2.1 moment)
    · cases hrefused
  | error e =>
    rw [bind_of_error hxm, Exec.bind_of_error herases.symm]
    refine ⟨rfl, seen, last, hmoments, hmachine, hseen, ?_⟩
    rcases hlast with ⟨hcounted, -⟩ | ⟨hrefused, hfailure⟩
    · exact Or.inl ⟨hcounted, fun _ h => by cases h⟩
    · cases hfailure
      exact Or.inr ⟨hrefused, rfl⟩

theorem follows_watch {x : Exec α} (hx : x.Spares) :
    Follows limit active active active (watch x) x :=
  fun m hstart => ⟨rfl, ends_single hstart (hstart.congr (hx m).1 (hx m).2)⟩

/-- A call is entered if fewer calls are active than the limit allows, and refused otherwise. -/
theorem follows_enter : Follows limit active active (active + 1) enter enterCall := by
  intro m hstart
  have hcalls : m.calls = ⟨limit, active⟩ := hstart.calls
  have hadmitted : active ≤ limit := hstart.admitted
  unfold enter
  by_cases hlt : active < limit
  · rw [enterCall_of_lt (by rw [hcalls]; show (active : Int) < limit; omega)]
    refine ⟨rfl, ends_single hstart ⟨?_, hlt, hstart.quiet⟩⟩
    show Calls.mk m.calls.limit (m.calls.depth + 1) = _
    rw [hcalls]
    rfl
  · rw [enterCall_of_le (by rw [hcalls]; show (limit : Int) ≤ active; omega)]
    have hlimit : m.calls.limit = limit := congrArg Calls.limit hcalls
    refine ⟨rfl, [⟨active, m⟩], _, rfl, rfl, List.forall_mem_singleton.2 hstart,
      Or.inr ⟨⟨?_, ?_⟩, ?_⟩⟩
    · show active = limit
      omega
    · show Calls.mk m.calls.limit 0 = _
      rw [hlimit]
    · show Except.error _ = _
      rw [hlimit]

theorem follows_leave :
    Follows limit active (active + 1) active (watch leaveCall) leaveCall := by
  intro m hstart
  have hcalls : m.calls = ⟨limit, (active + 1 : Nat)⟩ := hstart.calls
  have hadmitted : active + 1 ≤ limit := hstart.admitted
  refine ⟨rfl, ends_single hstart ⟨?_, by show active ≤ limit; omega, hstart.quiet⟩⟩
  show Calls.mk m.calls.limit (m.calls.depth - 1) = ⟨limit, active⟩
  rw [hcalls]
  congr 1
  show ((active + 1 : Nat) : Int) - 1 = active
  omega

/-- A call has one more call around what is done in it. -/
theorem follows_calling {x : Watched (Option Value)} {y : Exec (Option Value)}
    (h : Follows limit (active + 1) (active + 1) (active + 1) x y) :
    Follows limit active active active (watched.calling x) (Exec.calling y) := by
  have hinside : Follows limit active (active + 1) (active + 1) (inside x) y := h
  refine follows_enter.bind fun _ => hinside.bind fun returned => ?_
  exact follows_leave.bind fun _ => follows_pure returned

/-- The watched run is the run, and it counts right. -/
def watching (limit : Nat) : Correspondence watched direct where
  related x y := ∀ active, Follows limit active active active x y
  pure a _ := follows_pure a
  bind hx hf active := (hx active).bind fun a => hf a active
  perform action _ := follows_watch action.spares_exec
  calling h active := follows_calling (h (active + 1))

/-! ## Calls count right -/

theorem follows_resolve {f : Resolved → Watched α} {g : Resolved → Exec α} {scope : Scope}
    {name : String}
    (hhost : ∀ h : HostFunction, (∀ arguments, (h.body arguments).Quiet) →
      Follows limit active active after (f (.host h)) (g (.host h)))
    (hdeclared : ∀ owner declared,
      Follows limit active active after (f (.declared owner declared))
        (g (.declared owner declared)))
    (hunknown : Follows limit active active after (f .unknown) (g .unknown)) :
    Follows limit active active after (watched.resolve scope name >>= f)
      (direct.resolve scope name >>= g) := by
  intro m hstart
  have hwatched : watched.resolve scope name active m = ((.ok (m.resolve scope name), m), []) := rfl
  have hdirect : direct.resolve scope name m = (.ok (m.resolve scope name), m) := rfl
  rw [bind_of_ok hwatched, Exec.bind_of_ok hdirect, List.nil_append, Machine.resolve]
  cases hfind : m.hosts.find? name with
  | some h => exact hhost h (hstart.quiet name h hfind) m hstart
  | none =>
    cases m.scopes.declaration? scope name with
    | none => exact hunknown m hstart
    | some found => exact hdeclared found.1 found.2 m hstart

theorem follows_print {c : Callee Watched} {d : Callee Exec} {fuel : Nat}
    {scope : Scope} {frames : Nat} {expressions : List Node}
    (h : (watching limit).related (Plain.values watched c scope frames expressions)
      (Plain.values direct d scope frames expressions)) :
    (watching limit).related (execute watched c fuel scope frames (.print expressions))
      (execute direct d fuel scope frames (.print expressions)) := by
  rw [execute, execute]
  intro active
  refine (h active).bind fun values => ?_
  exact (follows_watch (spares_print values)).bind fun _ => follows_pure none

/-- A declared function is called with one more call active, and that call ends with it. A function
of the host that leaves the interpreter alone counts no calls. -/
theorem callees_watching (limit fuel : Nat) :
    (watching limit).Callees (call watched fuel) (call direct fuel) := by
  induction fuel with
  | zero => exact ⟨fun _ _ _ _ => (watching limit).perform (.fail .outOfFuel), follows_print⟩
  | succ fuel ih =>
    refine ⟨fun frames name arguments scope active => ?_, follows_print⟩
    rw [call, call]
    refine follows_resolve (fun h hquiet => ?_) (fun owner f => ?_) ?_
    · exact (watching limit).callHost
        (fun _ => (watching limit).act_of_quiet _ _ (hquiet arguments)) frames active
    · refine (watching limit).callDeclared frames owner f f rfl (fun frames inner => ?_) name
        arguments active
      exact ih.executeBlock fuel inner frames f.body
    · exact (watching limit).perform (.fail (.script (.undefinedFunction name))) active

end Watched

namespace Machine

open Exec Evaluator
open Interpretation (watched direct)

variable {m : Machine} {limit : Nat}

/-- The statements of a run count right, once the file for traces is open. -/
theorem ends_watched (hosts : m.QuietHosts) (hcalls : m.calls = ⟨limit, 0⟩) (fuel : Nat)
    (body : List Node) {m' : Machine} (hopen : m.openTrace = .ok m') :
    let r := Plain.executeProgram watched (Plain.call watched fuel) fuel m.stack.base body 0 m'
    r.1 = executeProgram (call fuel) fuel m.stack.base body m' ∧
      Watched.Ends limit ⟨0, m'⟩ 0 r := by
  have hfollows := (Watched.callees_watching limit fuel).executeProgram fuel m.stack.base body 0
  rw [Plain.call_direct, Plain.executeProgram_direct] at hfollows
  obtain ⟨traceFile, rfl⟩ := eq_of_openTrace hopen
  exact hfollows _ ⟨hcalls, Nat.zero_le _, hosts⟩

theorem watchedRun_of_error {e : FileError} (h : m.openTrace = .error e) (fuel : Nat)
    (body : List Node) :
    m.watchedRun fuel body = ((.error (.fault (.file e)), m), [⟨0, m⟩]) := by
  show Watched.guarded _ 0 m = _
  unfold Watched.guarded
  rw [h]

theorem watchedRun_of_ok {m' : Machine} (h : m.openTrace = .ok m') (fuel : Nat) (body : List Node) :
    let r := Plain.executeProgram watched (Plain.call watched fuel) fuel m.stack.base body 0 m'
    m.watchedRun fuel body = (restore m.stack (finish r.1), ⟨0, m'⟩ :: r.2) := by
  intro r
  show Watched.guarded _ 0 m = _
  unfold Watched.guarded
  rw [h]

theorem calls_of_callHost {m : Machine} {name : String} {f : HostFunction} (hosts : m.QuietHosts)
    (hf : m.hosts.find? name = some f) (fuel frames : Nat) (arguments : List Value)
    (scope : Scope) : (call fuel frames name arguments scope m).2.calls = m.calls := by
  cases fuel with
  | zero => rfl
  | succ fuel =>
    rw [call, bind_of_ok (get_apply m), hf]
    exact (spares_callHost _ frames (hosts name f hf) arguments m).1

/-- **Calls are counted right, until one is refused.** In a run that starts with no call active, the
count at each moment is the number of calls that have been entered and not yet left, and does not
exceed the limit. Only the last moment can be another one: there a call is refused, so that as many
calls are active as the limit allows and none is counted, and the run ends with the error. In any
case the run ends in the state of its last moment. Expressions, statements and blocks that complete
leave the count as they found it, and a function of the host that leaves the interpreter alone does
so even if it fails. -/
theorem depth_counts_calls (hosts : m.QuietHosts) (hcalls : m.calls = ⟨limit, 0⟩) (fuel : Nat)
    (body : List Node) :
    (m.watchedRun fuel body).1 = run fuel body m ∧
    (∃ seen last, (m.watchedRun fuel body).2 = seen ++ [last] ∧
      (∀ moment ∈ seen,
        moment.machine.calls = ⟨limit, moment.active⟩ ∧ moment.active ≤ limit) ∧
      (last.machine.calls = ⟨limit, last.active⟩ ∧ last.active ≤ limit ∨
        last.active = limit ∧ last.machine.calls = ⟨limit, 0⟩ ∧
          (run fuel body m).1 = .error (.script (.recursionLimit limit))) ∧
      (∀ m', m.openTrace = .ok m' → ∃ result : Except Failure (Option Value),
        run fuel body m = restore m.stack (finish (result, last.machine)))) ∧
    (∀ (turns : Nat) (scope : Scope) (frames : Nat) (node : Node) (m₁ m₂ : Machine),
      (∀ v, evaluate (call fuel) scope frames node [] m₁ = (.ok v, m₂) → m₂.calls = m₁.calls) ∧
      (∀ returned, execute (call fuel) turns scope frames node m₁ = (.ok returned, m₂) →
        m₂.calls = m₁.calls) ∧
      (∀ returned, executeBlock (call fuel) turns scope frames node m₁ = (.ok returned, m₂) →
        m₂.calls = m₁.calls)) ∧
    (∀ (frames : Nat) (name : String) (f : HostFunction) (arguments : List Value) (scope : Scope)
      (m₁ : Machine), m₁.QuietHosts → m₁.hosts.find? name = some f →
        (call fuel frames name arguments scope m₁).2.calls = m₁.calls) := by
  refine ⟨?_, ?_, ?_, ?_⟩
  · cases hopen : m.openTrace with
    | error e => rw [watchedRun_of_error hopen, run_of_error hopen]
    | ok m' =>
      rw [watchedRun_of_ok hopen, run_of_ok hopen, (ends_watched hosts hcalls fuel body hopen).1]
  · cases hopen : m.openTrace with
    | error e =>
      rw [watchedRun_of_error hopen]
      refine ⟨[], ⟨0, m⟩, rfl, fun _ hmem => absurd hmem List.not_mem_nil,
        Or.inl ⟨hcalls, Nat.zero_le _⟩, fun _ h => ?_⟩
      cases h
    | ok m' =>
      obtain ⟨herases, seen, last, hmoments, hmachine, hseen, hlast⟩ :=
        ends_watched hosts hcalls fuel body hopen
      have hrun : run fuel body m = restore m.stack (finish
          ((executeProgram (call fuel) fuel m.stack.base body m').1, last.machine)) := by
        rw [run_of_ok hopen, hmachine, herases]
        rfl
      have hall : (m.watchedRun fuel body).2 = seen ++ [last] := by
        rw [watchedRun_of_ok hopen]
        exact hmoments
      refine ⟨seen, last, hall, fun moment hmem => ?_, ?_, fun _ _ => ⟨_, hrun⟩⟩
      · exact ⟨(hseen moment hmem).calls, (hseen moment hmem).admitted⟩
      · rcases hlast with ⟨hcounted, -⟩ | ⟨hrefused, hfailure⟩
        · exact Or.inl ⟨hcounted.calls, hcounted.admitted⟩
        · rw [herases] at hfailure
          refine Or.inr ⟨hrefused.1, hrefused.2, ?_⟩
          rw [hrun, hfailure]
          rfl
  · intro turns scope frames node m₁ m₂
    exact ⟨fun v => Balance.calls_of_evaluate, fun returned => Balance.calls_of_execute,
      fun returned => Balance.calls_of_executeBlock⟩
  · intro frames name f arguments scope m₁ hosts₁ hf
    exact calls_of_callHost hosts₁ hf fuel frames arguments scope

/-- A program with a call inside a call, in which a function of the host is asked for the number of
active calls. -/
def descending : List Node :=
  [.function "outer" [] (.block [.callStatement "inner" []]),
    .function "inner" [] (.block [.print [.call "depth" []]]), .callStatement "outer" []]

/-- Two calls are active at some moment of the run, and none at its last one. -/
theorem depth_counts_calls_descending :
    counting.QuietHosts ∧ counting.calls = ⟨(64 : Nat), 0⟩ ∧
      (counting.watchedRun 3 descending).2.any (·.active = 2) ∧
      (run 3 descending counting).2.output = #["2"] ∧
      (∃ seen last, (counting.watchedRun 3 descending).2 = seen ++ [last] ∧
        (∀ moment ∈ seen,
          moment.machine.calls = ⟨(64 : Nat), moment.active⟩ ∧ moment.active ≤ 64) ∧
        last.machine.calls = ⟨(64 : Nat), last.active⟩) ∧
      (counting.watchedRun 3 descending).2.getLast?.map (·.active) = some 0 := by
  have hcalls : counting.calls = ⟨(64 : Nat), 0⟩ := rfl
  have hresult : (run 3 descending counting).1 = .ok none := by decide +kernel
  obtain ⟨-, ⟨seen, last, hmoments, hseen, hlast, -⟩, -⟩ :=
    depth_counts_calls quietHosts_counting hcalls 3 descending
  refine ⟨quietHosts_counting, hcalls, by decide +kernel, by decide +kernel,
    ⟨seen, last, hmoments, hseen, ?_⟩, by decide +kernel⟩
  rcases hlast with ⟨hcounted, -⟩ | ⟨-, -, hrefused⟩
  · exact hcounted
  · rw [hresult] at hrefused
    cases hrefused

/-- A program with a function that calls itself. -/
def recursing : List Node :=
  [.function "f" [] (.block [.callStatement "f" []]), .callStatement "f" []]

/-- At the last moment a call is active and none is counted. -/
theorem watchedRun_recursing :
    (run 3 recursing (new { recursionLimit := 1 })).1 = .error (.script (.recursionLimit 1)) ∧
      ((new { recursionLimit := 1 }).watchedRun 3 recursing).2.getLast?.map
        (fun moment => (moment.active, moment.machine.calls.depth)) = some (1, 0) :=
  ⟨by decide +kernel, by decide +kernel⟩

end Machine

end ScriptLang
