import ScriptLang.Proofs.Parallel

set_option autoImplicit false

/-! # Calls are counted evenly

What completes leaves the count of active calls as it found it: each call that was counted has
ended, whatever functions of the host and programs that they run did in between
(`Balance.calls_of_call` and the like for expressions, statements and blocks). -/

namespace ScriptLang

open Exec Evaluator

namespace Balance

/-- A run beside itself, in which so many calls are active on top of some others. -/
def parallel (others : Calls) : Parallel where
  recount := .same
  holds active m := m.calls.limit = others.limit ∧ m.calls.depth = others.depth + active
  holds_congr h hcalls _ := hcalls ▸ h
  failed _ _ _ _ _ := True
  throws _ _ := trivial
  stopped _ _ _ := False
  persists h _ := h
  restores _ _ := trivial
  restores_stopped _ h := h

variable {others : Calls} {active : Nat} {m : Machine}

theorem ends {α : Type} {fail after : Nat} {r : Except Failure α × Machine}
    (h : ∀ a, r.1 = .ok a → (parallel others).holds after r.2) :
    (parallel others).lockstep.Ends fail after Eq r r := by
  obtain ⟨result, m⟩ := r
  cases result with
  | ok a => exact ⟨rfl, rfl, h a rfl⟩
  | error e => exact Or.inl trivial

theorem enters (h : (parallel others).holds active m) :
    (parallel others).lockstep.Ends active (active + 1) Eq (enterProbed {} (active + 1) m)
      (enterProbed {} (active + 1) m) := by
  rw [enterProbed_nothing]
  apply ends
  intro a hentered
  by_cases hlimit : m.calls.depth < m.calls.limit
  · obtain ⟨hsame, hdepth⟩ := h
    rw [enterCall_of_lt hlimit]
    refine ⟨hsame, ?_⟩
    show m.calls.depth + 1 = others.depth + (active + 1 : Nat)
    omega
  · rw [enterCall_of_le (by omega)] at hentered
    cases hentered

theorem leaves (h : (parallel others).holds (active + 1) m) :
    (parallel others).lockstep.Ends (active + 1) active Eq (leaveCall m) (leaveCall m) := by
  obtain ⟨hsame, hdepth⟩ := h
  apply ends
  intro a _
  refine ⟨hsame, ?_⟩
  show m.calls.depth - 1 = others.depth + active
  omega

/-- A program that completes leaves the calls to what runs it. -/
theorem ends_finish {α : Type} {x y : Except Failure α × Machine}
    (h : (parallel others).lockstep.Ends active active Eq x y) :
    (parallel others).lockstep.Ends active active Eq (finish x) (finish y) := by
  obtain ⟨result₁, m₁⟩ := x
  obtain ⟨result₂, m₂⟩ := y
  cases result₁ with
  | ok a =>
    cases result₂ with
    | ok b =>
      obtain ⟨rfl, rfl, hcalls⟩ := h
      exact ⟨rfl, rfl, hcalls⟩
    | error e => exact h.elim
  | error e₁ =>
    cases result₂ with
    | ok b => exact h.elim
    | error e₂ => cases e₁ <;> cases e₂ <;> exact Or.inl trivial

/-- The run beside itself is a simulation. -/
def simulation (others : Calls) : Simulation {} {} :=
  (parallel others).simulation (fun needed h => Parallel.ends_demand h rfl needed) enters leaves
    (fun _ => trivial) id
    (Or.inr fun hxy => Parallel.pairs_guarded hxy fun hends => by
      rw [finish_reported, finish_reported]
      exact ends_finish hends)

theorem calls_of_pairs {α : Type} {x : Exec α} {m m' : Machine} {a : α}
    (hx : (simulation m.calls).Pairs 0 x x) (h : x m = (.ok a, m')) : m'.calls = m.calls := by
  have hstart : (simulation m.calls).inStep 0 m m := ⟨rfl, rfl, (Int.add_zero _).symm⟩
  have hends := hx.ends hstart
  rw [h] at hends
  obtain ⟨_, _, hlimit, hdepth⟩ := hends
  calc
    m'.calls = ⟨m'.calls.limit, m'.calls.depth⟩ := rfl
    _ = ⟨m.calls.limit, m.calls.depth + 0⟩ := by rw [hlimit, hdepth]; rfl
    _ = m.calls := by rw [Int.add_zero]

theorem callees_call (others : Calls) (fuel : Nat) :
    (simulation others).Callees 0 (call fuel) (call fuel) := by
  have hcalls := (simulation others).callees_callProbed (Or.inl (Eq.refl fuel)) 0
  rw [callProbed_nothing] at hcalls
  exact hcalls

variable {fuel turns frames : Nat} {scope : Scope} {node : Node} {m' : Machine}

/-- A call that completes leaves as many calls active as it found. -/
theorem calls_of_call {name : String} {arguments : List Value} {v : Value}
    (h : call fuel frames name arguments scope m = (.ok v, m')) : m'.calls = m.calls :=
  calls_of_pairs ((callees_call m.calls fuel).pairs frames name arguments (Eq.refl scope)) h

theorem calls_of_evaluate {v : Value}
    (h : evaluate (call fuel) scope frames node [] m = (.ok v, m')) : m'.calls = m.calls :=
  calls_of_pairs ((callees_call m.calls fuel).evaluate (Eq.refl scope) frames node) h

theorem calls_of_execute {returned : Option Value}
    (h : execute (call fuel) turns scope frames node m = (.ok returned, m')) : m'.calls = m.calls :=
  calls_of_pairs ((callees_call m.calls fuel).execute (Or.inl (Eq.refl turns)) (Eq.refl scope)
    frames node fun _ => Eq.refl scope) h

theorem calls_of_executeBlock {returned : Option Value}
    (h : executeBlock (call fuel) turns scope frames node m = (.ok returned, m')) :
    m'.calls = m.calls :=
  calls_of_pairs ((callees_call m.calls fuel).executeBlock (Or.inl (Eq.refl turns)) (Eq.refl scope)
    frames node) h

end Balance

end ScriptLang
