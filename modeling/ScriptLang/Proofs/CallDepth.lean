import ScriptLang.Proofs.Parallel
import Mathlib.Control.Monad.Basic
import Mathlib.Logic.Function.Iterate

set_option autoImplicit false

/-! # The number of active calls after a run

A run that gives a value or fails by an error of the script leaves no call active. A fault gives up
the calls that it leaves without ending them, so they are still counted afterwards, and the next run
has that many fewer (`Machine.calls_after_run`). How many calls a fault leaves is seen by changing
it each time: the run whose probe does so is compared with the run itself. -/

namespace ScriptLang

open Exec Evaluator

/-! ## Calls inside each other -/

/-- Whether `n` more calls can be counted, one inside the other. -/
def Calls.Admits : Nat → Calls → Prop
  | 0, _ => True
  | n + 1, calls => calls.enter.1 = .ok () ∧ calls.enter.2.Admits n

theorem Calls.admits_iff (n : Nat) (calls : Calls) :
    calls.Admits n ↔ n = 0 ∨ calls.depth + n ≤ calls.limit := by
  induction n generalizing calls with
  | zero => simp [Admits]
  | succ n ih =>
    by_cases hlimit : calls.limit < calls.depth + 1
    · have hrefused : calls.enter.1 ≠ .ok () := by
        simp [enter, hlimit]
      exact ⟨fun h => absurd h.1 hrefused, fun h => by omega⟩
    · have henter : calls.enter = (.ok (), { calls with depth := calls.depth + 1 }) := if_neg hlimit
      simp only [Admits, henter, ih, true_and]
      omega

/-! ## Changing faults on their way out -/

/-- Changes a fault each time that it leaves a declared function. -/
def Probe.marking (mark : Fault → Fault) : Probe where
  leaving := mark

/-- While `active` calls are active, as many are counted, and the limit allows them. -/
structure Machine.Counts (active : Nat) (m : Machine) : Prop where
  depth : m.calls.depth = active
  admitted : active = 0 ∨ active ≤ m.calls.limit
  quiet : m.QuietHosts

theorem Machine.Counts.congr {active : Nat} {m m' : Machine} (h : m.Counts active)
    (hcalls : m'.calls = m.calls) (hhosts : m'.hosts = m.hosts) : m'.Counts active := by
  refine ⟨?_, ?_, ?_⟩
  · rw [hcalls]
    exact h.depth
  · rw [hcalls]
    exact h.admitted
  · intro name f hf
    rw [hhosts] at hf
    exact h.quiet name f hf

namespace Unwinding

variable {mark : Fault → Fault} {α : Type} {active : Nat} {m : Machine}

/-- A run, and beside it the run that changes faults. A fault that has left `left` of the calls that
are still counted has been changed as often. -/
def parallel (mark : Fault → Fault) : Parallel where
  recount := .same
  holds := Machine.Counts
  holds_congr := Machine.Counts.congr
  failed active e₁ m₁ e₂ m₂ := m₁ = m₂ ∧ ∃ left, e₂ = e₁.mapFault mark^[left] ∧
    ∀ f, e₁ = .fault f → m₁.Counts (active + left)
  throws e h := ⟨rfl, 0, e.mapFault_id.symm, fun _ _ => h⟩
  stopped _ _ _ := False
  persists h _ := h
  restores _ := by
    rintro ⟨rfl, left, rfl, hcounts⟩
    exact ⟨rfl, left, rfl, fun f hf => (hcounts f hf).congr rfl rfl⟩
  restores_stopped _ h := h

theorem enters (h : m.Counts active) :
    (parallel mark).lockstep.Ends active (active + 1) Eq (enterProbed {} (active + 1) m)
      (enterProbed (.marking mark) (active + 1) m) := by
  show (parallel mark).lockstep.Ends active (active + 1) Eq (enterProbed {} (active + 1) m)
    (enterProbed {} (active + 1) m)
  rw [enterProbed_nothing]
  have hdepth := h.depth
  by_cases hlimit : m.calls.depth < m.calls.limit
  · rw [enterCall_of_lt hlimit]
    refine ⟨rfl, rfl, ?_, Or.inr ?_, h.quiet⟩
    · show m.calls.depth + 1 = _
      omega
    · show ((active + 1 : Nat) : Int) ≤ m.calls.limit
      omega
  · -- the failure is no fault, so the calls need not be counted any more
    rw [enterCall_of_le (by omega)]
    exact Or.inl ⟨rfl, 0, rfl, nofun⟩

theorem leaves (h : m.Counts (active + 1)) :
    (parallel mark).lockstep.Ends (active + 1) active Eq (leaveCall m) (leaveCall m) := by
  have hdepth := h.depth
  have hadmitted := h.admitted
  refine ⟨rfl, rfl, ?_, ?_, h.quiet⟩
  · show m.calls.depth - 1 = _
    omega
  · show active = 0 ∨ (active : Int) ≤ m.calls.limit
    omega

/-- A fault that leaves a call is changed once more, and one more call is counted too many. -/
theorem unwinds {e₁ e₂ : Failure} {m₁ m₂ : Machine}
    (h : (parallel mark).failed (active + 1) e₁ m₁ e₂ m₂) :
    (parallel mark).failed active (e₁.mapFault id) m₁ (e₂.mapFault mark) m₂ := by
  obtain ⟨rfl, left, rfl, hcounts⟩ := h
  rw [Failure.mapFault_id]
  refine ⟨rfl, left + 1, ?_, fun f hf => ?_⟩
  · cases e₁ with
    | fault f => exact congrArg Failure.fault (Function.iterate_succ_apply' mark left f).symm
    | _ => rfl
  · rw [Nat.add_left_comm, Nat.add_comm]
    exact hcounts f hf

def simulation (mark : Fault → Fault) : Simulation {} (.marking mark) :=
  (parallel mark).simulation (fun needed h => Parallel.ends_demand h rfl needed) enters leaves
    unwinds (fun h => h) (Or.inl fun h => h.quiet)

/-- The outcome `y` is `x` with its fault changed as often as calls are counted afterwards. None are
after an outcome that is no fault. -/
def Marked (mark : Fault → Fault) (x y : Except Failure α × Machine) : Prop :=
  ∃ left : Nat, y = (x.1.mapError (Failure.mapFault mark^[left]), x.2) ∧
    (x.1 ≠ .error .outOfFuel → x.2.calls.depth = left ∧ (left = 0 ∨ left ≤ x.2.calls.limit) ∧
      (left ≠ 0 → ∃ f, x.1 = .error (.fault f)))

theorem Marked.restore {x y : Except Failure α × Machine} (h : Marked mark x y) (stack : Stack) :
    Marked mark (restore stack x) (restore stack y) := by
  obtain ⟨left, rfl, hcounts⟩ := h
  exact ⟨left, rfl, hcounts⟩

theorem marked_finish {x y : Except Failure α × Machine}
    (h : (parallel mark).lockstep.Ends 0 0 Eq x y) : Marked mark (finish x) (finish y) := by
  obtain ⟨result₁, m₁⟩ := x
  obtain ⟨result₂, m₂⟩ := y
  cases result₁ with
  | ok a =>
    cases result₂ with
    | ok b =>
      obtain ⟨rfl, rfl, h⟩ := h
      exact ⟨0, rfl, fun _ => ⟨h.depth, Or.inl rfl, fun hne => absurd rfl hne⟩⟩
    | error e => exact h.elim
  | error e₁ =>
    cases result₂ with
    | ok b => exact h.elim
    | error e₂ =>
      obtain ⟨rfl, left, rfl, hcounts⟩ := h.resolve_right id
      -- an error of the script and a lack of room reset the calls, and only a fault does not
      cases e₁ with
      | script e => exact ⟨0, rfl, fun _ => ⟨rfl, Or.inl rfl, fun hne => absurd rfl hne⟩⟩
      | exhausted => exact ⟨0, rfl, fun _ => ⟨rfl, Or.inl rfl, fun hne => absurd rfl hne⟩⟩
      | outOfFuel => exact ⟨0, rfl, fun hended => absurd rfl hended⟩
      | fault f =>
        have hleft := hcounts f rfl
        rw [Nat.zero_add] at hleft
        exact ⟨left, rfl, fun _ => ⟨hleft.depth, hleft.admitted, fun _ => ⟨f, rfl⟩⟩⟩

end Unwinding

namespace Machine

variable (fuel : Nat) (body : List Node) {m : Machine}

theorem marked_run (hosts : m.QuietHosts) (hdepth : m.calls.depth = 0) (mark : Fault → Fault) :
    Unwinding.Marked mark (run fuel body m) (runProbed (.marking mark) fuel body m) := by
  have hcall := (Unwinding.simulation mark).callees_callProbed (Or.inl (Eq.refl fuel)) 0
  have hroot : (Unwinding.simulation mark).owned Scope.root Scope.root := rfl
  have hbody := hcall.executeProgram (Or.inl (Eq.refl fuel)) hroot m.stack.base body
  rw [callProbed_nothing] at hbody
  have hmarked : runProbed (.marking mark) fuel body m = guarded
      (executeProgram (callProbed (.marking mark) fuel 0) fuel m.stack.base body) m :=
    congrFun (guarded_reporting _) m
  rw [hmarked]
  unfold run runBody guarded
  cases hopen : m.openTrace with
  | error e => exact ⟨0, rfl, fun _ => ⟨hdepth, Or.inl rfl, fun hne => absurd rfl hne⟩⟩
  | ok m' =>
    obtain ⟨traceFile, rfl⟩ := eq_of_openTrace hopen
    have hopened : Counts 0 { m with traceFile } := ⟨hdepth, Or.inl rfl, hosts⟩
    exact (Unwinding.marked_finish (hbody.ends ⟨rfl, hopened⟩)).restore m.stack

/-- Whether a run fails by a fault that leaves a declared function: to change the fault there would
make a difference. -/
def FailsInCall (m : Machine) (fuel : Nat) (body : List Node) : Prop :=
  ∃ mark, runProbed (.marking mark) fuel body m ≠ run fuel body m

theorem calls_limit_run : (run fuel body m).2.calls.limit = m.calls.limit :=
  (forward_run fuel body m).limit

/-- Calls are counted after a run exactly if it fails by a fault that leaves some. -/
theorem depth_run_eq_zero_iff (hosts : m.QuietHosts) (hdepth : m.calls.depth = 0)
    (hended : (run fuel body m).1 ≠ .error .outOfFuel) :
    (run fuel body m).2.calls.depth = 0 ↔ ¬ m.FailsInCall fuel body := by
  constructor
  · rintro hzero ⟨mark, hdiffers⟩
    obtain ⟨left, hmarked, hcounts⟩ := marked_run fuel body hosts hdepth mark
    obtain rfl : left = 0 := by
      have := (hcounts hended).1
      omega
    apply hdiffers
    rw [hmarked]
    rcases run fuel body m with ⟨result, m'⟩
    cases result with
    | ok a => rfl
    | error e => exact congrArg (fun e => (Except.error e, m')) e.mapFault_id
  · intro hsame
    by_contra hdepth'
    -- a fault that replaces every other one would show
    have hmark (g : Fault) : ∃ f, (run fuel body m).1 = .error (.fault f) ∧ f = g := by
      obtain ⟨left, hmarked, hcounts⟩ := marked_run fuel body hosts hdepth fun _ => g
      obtain ⟨hleft, _, hfault⟩ := hcounts hended
      have hne : left ≠ 0 := by omega
      obtain ⟨f, hf⟩ := hfault hne
      obtain ⟨n, rfl⟩ := Nat.exists_eq_succ_of_ne_zero hne
      have heq : runProbed (.marking fun _ => g) fuel body m = run fuel body m := by
        by_contra hdiffers
        exact hsame ⟨_, hdiffers⟩
      rw [heq] at hmarked
      have hresult := congrArg Prod.fst hmarked
      rw [hf] at hresult
      refine ⟨f, hf, ?_⟩
      injection hresult with hresult
      injection hresult with hresult
      rw [hresult, Function.iterate_succ_apply']
    obtain ⟨f, hf, rfl⟩ := hmark .missingLimit
    obtain ⟨f', hf', rfl⟩ := hmark (.host "")
    rw [hf] at hf'
    exact nomatch hf'

/-- **What a run leaves.** A run that starts with no call active, and ends, leaves no call active
exactly if it does not fail by a fault that leaves declared functions. A value, an error of the
script and a lack of room are no such faults. The calls that a fault leaves are counted on, as if
they were still active, and the next run can make that many nested calls fewer. -/
theorem calls_after_run (hosts : m.QuietHosts) (hdepth : m.calls.depth = 0)
    (hended : (run fuel body m).1 ≠ .error .outOfFuel) :
    ((run fuel body m).2.calls = m.calls ↔ ¬ m.FailsInCall fuel body) ∧
    ∃ left : Nat, (run fuel body m).2.calls = ⟨m.calls.limit, left⟩ ∧
      (left ≠ 0 → ∃ f, (run fuel body m).1 = .error (.fault f)) ∧
      (∀ mark, runProbed (.marking mark) fuel body m =
        ((run fuel body m).1.mapError (Failure.mapFault mark^[left]), (run fuel body m).2)) ∧
      ∀ n, (run fuel body m).2.calls.Admits n ↔ m.calls.Admits (left + n) := by
  obtain ⟨left, _, hcounts⟩ := marked_run fuel body hosts hdepth id
  obtain ⟨hleft, hadmitted, hfault⟩ := hcounts hended
  have hlimit := calls_limit_run fuel body (m := m)
  have hcalls : (run fuel body m).2.calls = ⟨m.calls.limit, left⟩ := by
    rw [← hleft, ← hlimit]
  refine ⟨?_, left, hcalls, hfault, fun mark => ?_, fun n => ?_⟩
  · rw [← depth_run_eq_zero_iff fuel body hosts hdepth hended, ← hdepth]
    refine ⟨congrArg Calls.depth, fun hzero => ?_⟩
    rw [hcalls, ← hleft, hzero]
  · obtain ⟨left', hmarked, hcounts'⟩ := marked_run fuel body hosts hdepth mark
    obtain rfl : left' = left := by
      have := (hcounts' hended).1
      omega
    exact hmarked
  · rw [Calls.admits_iff, Calls.admits_iff, hleft, hlimit, hdepth]
    omega

/-- An interpreter with one function of the host, which fails. -/
def crashing : Machine :=
  (new {}).bind
    { name := "crash", arity := none, body := fun _ => .fail (.fault (.host "boom")) }

/-- A program that calls the function of the host from a declared function. -/
def crash : List Node :=
  [.function "f" [] (.block [.callStatement "crash" []]), .callStatement "f" []]

/-- The call is counted after the run, and one nested call fewer can be made. -/
theorem calls_after_run_crash :
    crashing.QuietHosts ∧ crashing.calls.depth = 0 ∧
      (run 2 crash crashing).1 = .error (.fault (.host "boom")) ∧
      (run 2 crash crashing).2.calls.depth = 1 ∧ crashing.FailsInCall 2 crash ∧
      crashing.calls.Admits 64 ∧ ¬ (run 2 crash crashing).2.calls.Admits 64 := by
  have hosts : crashing.QuietHosts := (quietHosts_new {}).bind fun _ => .fail _
  have hresult : (run 2 crash crashing).1 = .error (.fault (.host "boom")) := by decide +kernel
  have hcalls : (run 2 crash crashing).2.calls = ⟨64, 1⟩ := by decide +kernel
  have hafter := calls_after_run 2 crash hosts rfl (by decide +kernel)
  refine ⟨hosts, rfl, hresult, congrArg Calls.depth hcalls, ?_, ?_, ?_⟩
  · by_contra hclean
    rw [← hafter.1, hcalls] at hclean
    exact absurd hclean (by decide)
  · exact (Calls.admits_iff 64 _).2 (Or.inr (by decide))
  · obtain ⟨left, hleft, _, _, hadmits⟩ := hafter.2
    obtain rfl : left = 1 := by
      rw [hcalls] at hleft
      injection hleft with _ hleft
      omega
    rw [hadmits, Calls.admits_iff]
    decide

end Machine

end ScriptLang
