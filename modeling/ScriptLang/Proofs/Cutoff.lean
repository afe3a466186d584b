import ScriptLang.Proofs.Parallel

set_option autoImplicit false

/-! # Runs that are cut short

A run with more tripwires, or with less fuel, either is the other run or ends early with a failure
that shows it (`Machine.runProbed_cutoff`). So fuel that suffices for a run may be replaced by any
larger amount (`Machine.run_eq_of_le`). -/

namespace ScriptLang

open Exec Evaluator

/-- The outcome that ends a program leaves its failure visible, except for a lack of room. -/
theorem Exec.finish_error {α : Type} {e : Failure} (he : e ≠ .exhausted) (m : Machine) :
    ∃ m', finish ((.error e, m) : Except Failure α × Machine) = (.error e, m') := by
  cases e with
  | exhausted => exact absurd rfl he
  | script e => exact ⟨_, rfl⟩
  | fault f => exact ⟨_, rfl⟩
  | outOfFuel => exact ⟨_, rfl⟩

theorem Exec.reported_error {α : Type} {e : Failure} (he : e ≠ .exhausted)
    (report : Int → Failure) (m : Machine) :
    reported report ((.error e, m) : Except Failure α × Machine) = (.error e, m) := by
  cases e with
  | exhausted => exact absurd rfl he
  | script e => rfl
  | fault f => rfl
  | outOfFuel => rfl

/-- The probe `p` is `q` with tripwires added, which are recognised by the failures `sign`. -/
structure Probe.Cutoff (p q : Probe) (sign : Failure → Prop) : Prop where
  visible : ∀ {e}, sign e → e ≠ .exhausted
  leaving : p.leaving = id ∧ q.leaving = id
  entered : ∀ k m, p.entered k m = q.entered k m ∨ ∃ e, p.entered k m = some e ∧ sign e
  exhausted : ∀ limit, p.exhausted limit = q.exhausted limit ∨ sign (p.exhausted limit)

namespace Probe.Cutoff

variable {p q : Probe} {sign : Failure → Prop}

/-- The runs go through the same machines until the first one is cut short. -/
def parallel (sign : Failure → Prop) : Parallel where
  recount := .same
  holds _ _ := True
  holds_congr _ _ _ := trivial
  failed _ e₁ m₁ e₂ m₂ := e₁ = e₂ ∧ m₁ = m₂
  throws _ _ := ⟨rfl, rfl⟩
  stopped e _ _ := sign e
  persists h _ := h
  restores _ := by
    rintro ⟨rfl, rfl⟩
    exact ⟨rfl, rfl⟩
  restores_stopped _ h := h

theorem ends {α : Type} {fail after : Nat} (r : Except Failure α × Machine) :
    (parallel sign).lockstep.Ends fail after Eq r r := by
  obtain ⟨result, m⟩ := r
  cases result with
  | ok a => exact ⟨rfl, rfl, trivial⟩
  | error e => exact Or.inl ⟨rfl, rfl⟩

theorem eq_or_sign {α : Type} {fail after : Nat} {x y : Except Failure α × Machine}
    (h : (parallel sign).lockstep.Ends fail after Eq x y) :
    x = y ∨ ∃ e, sign e ∧ x.1 = .error e := by
  obtain ⟨result₁, m₁⟩ := x
  obtain ⟨result₂, m₂⟩ := y
  cases result₁ with
  | ok a =>
    cases result₂ with
    | ok b =>
      obtain ⟨rfl, rfl, _⟩ := h
      exact Or.inl rfl
    | error e => exact h.elim
  | error e₁ =>
    cases result₂ with
    | ok b => exact Or.inr ⟨e₁, h, rfl⟩
    | error e₂ =>
      rcases h with ⟨rfl, rfl⟩ | h
      · exact Or.inl rfl
      · exact Or.inr ⟨e₁, h, rfl⟩

theorem ends_of_sign {α : Type} {fail after : Nat} {x y : Except Failure α × Machine} {e : Failure}
    (he : sign e) (hx : x.1 = .error e) : (parallel sign).lockstep.Ends fail after Eq x y := by
  obtain ⟨result₁, m₁⟩ := x
  cases hx
  exact Lockstep.Ends.of_stopped he

theorem enters (h : p.Cutoff q sign) (k : Nat) (m : Machine) :
    (parallel sign).lockstep.Ends k (k + 1) Eq (enterProbed p (k + 1) m)
      (enterProbed q (k + 1) m) := by
  rcases henter : enterCall m with ⟨r, m'⟩
  cases r with
  | error e =>
    rw [enterProbed_of_error henter, enterProbed_of_error henter]
    exact ends _
  | ok a =>
    rw [enterProbed_of_ok henter, enterProbed_of_ok henter]
    rcases h.entered (k + 1) m' with heq | ⟨e, hsome, he⟩
    · rw [heq]
      exact ends _
    · rw [hsome]
      exact ends_of_sign he rfl

/-- A failure that shows the cut goes through the end of a program. -/
theorem finish_of_sign {α : Type} (h : p.Cutoff q sign) {e : Failure} (he : sign e)
    {x : Except Failure α × Machine} (hx : x.1 = .error e) :
    (finish (reported p.exhausted x)).1 = .error e := by
  obtain ⟨result, m⟩ := x
  cases hx
  rw [reported_error (h.visible he)]
  obtain ⟨m', hfinish⟩ := finish_error (α := α) (h.visible he) m
  rw [hfinish]

/-- The same outcome ends both programs alike, or the first end shows that room was lacking. -/
theorem ends_finish_self {α : Type} (h : p.Cutoff q sign) {k : Nat}
    (r : Except Failure α × Machine) :
    (parallel sign).lockstep.Ends k k Eq (finish (reported p.exhausted r))
      (finish (reported q.exhausted r)) := by
  obtain ⟨result, m⟩ := r
  -- a lack of room is the only outcome that the two probes may report differently
  by_cases hroom : result = .error .exhausted
  · subst hroom
    rcases h.exhausted m.calls.limit with heq | he
    · simp only [reported, heq]
      exact ends _
    · obtain ⟨m', hfinish⟩ := finish_error (α := α) (h.visible he) m
      refine ends_of_sign he ?_
      simp only [reported, hfinish]
  · have hsame (report : Int → Failure) : reported report (result, m) = (result, m) := by
      cases result with
      | ok a => rfl
      | error e => exact reported_error (fun he => hroom (he ▸ rfl)) report m
    rw [hsame, hsame]
    exact ends _

theorem ends_finish {α : Type} (h : p.Cutoff q sign) {k : Nat}
    {x y : Except Failure α × Machine} (hxy : (parallel sign).lockstep.Ends k k Eq x y) :
    (parallel sign).lockstep.Ends k k Eq (finish (reported p.exhausted x))
      (finish (reported q.exhausted y)) := by
  rcases eq_or_sign hxy with rfl | ⟨e, he, hx⟩
  · exact h.ends_finish_self x
  · exact ends_of_sign he (h.finish_of_sign he hx)

/-- The run that may be cut short, and beside it the other one. -/
def simulation (h : p.Cutoff q sign) : Simulation p q :=
  (parallel sign).simulation (fun needed hm => Parallel.ends_demand hm rfl needed)
    (fun _ => h.enters _ _) (fun _ => ends _)
    (fun hfailed => by
      rw [h.leaving.1, h.leaving.2, Failure.mapFault_id, Failure.mapFault_id]
      exact hfailed)
    (fun hstopped => by simpa only [h.leaving.1, Failure.mapFault_id] using hstopped)
    (Or.inr fun hxy => Parallel.pairs_guarded hxy h.ends_finish)

end Probe.Cutoff

/-- **Cut runs.** A run with tripwires added or with less fuel is the other run, or it ends with a
failure that shows the cut. -/
theorem Machine.runProbed_cutoff {p q : Probe} {sign : Failure → Prop} (h : p.Cutoff q sign)
    {less more : Nat} (hfuel : less = more ∨ (less ≤ more ∧ sign .outOfFuel)) (body : List Node)
    (m : Machine) :
    Machine.runProbed p less body m = Machine.runProbed q more body m ∨
      ∃ e, sign e ∧ (Machine.runProbed p less body m).1 = .error e := by
  have hfuels : h.simulation.Fuels less more := hfuel.imp_right fun hf => ⟨hf.1, fun _ => hf.2⟩
  have hguard {x y : Exec (Option Value)} (hxy : h.simulation.Pairs 0 x y) :
      h.simulation.Pairs 0 (guarded (reporting p.exhausted x))
        (guarded (reporting q.exhausted y)) :=
    Parallel.pairs_guarded hxy h.ends_finish
  exact Probe.Cutoff.eq_or_sign
    (h.simulation.ends_runProbed hfuels rfl hguard body ⟨rfl, trivial⟩ rfl)

/-- Less fuel is a tripwire. -/
theorem Probe.cutoff_outOfFuel : Probe.Cutoff {} {} (· = .outOfFuel) :=
  ⟨fun he => he ▸ nofun, ⟨rfl, rfl⟩, fun _ _ => Or.inl rfl, fun _ => Or.inl rfl⟩

/-- More fuel does not change a run that has enough. -/
theorem Machine.run_eq_of_le {less more : Nat} (hle : less ≤ more) {body : List Node} {m : Machine}
    (h : (Machine.run less body m).1 ≠ .error .outOfFuel) :
    Machine.run more body m = Machine.run less body m := by
  rw [← Machine.runProbed_nothing] at h ⊢
  rw [← Machine.runProbed_nothing]
  rcases Machine.runProbed_cutoff Probe.cutoff_outOfFuel (Or.inr ⟨hle, rfl⟩) body m with
    heq | ⟨e, rfl, he⟩
  · exact heq.symm
  · exact absurd he h

/-- More fuel does not change a call that has enough. -/
theorem Evaluator.call_eq_of_le {less more : Nat} (hle : less ≤ more) {frames : Nat}
    {name : String} {arguments : List Value} {scope : Scope} {m : Machine}
    (h : (call less frames name arguments scope m).1 ≠ .error .outOfFuel) :
    call more frames name arguments scope m = call less frames name arguments scope m := by
  let sim := Probe.cutoff_outOfFuel.simulation
  have hcalls := sim.callees_callProbed (Or.inr ⟨hle, fun _ => rfl⟩) 0
  have hscope : sim.seen scope scope := rfl
  have hstart : sim.inStep 0 m m := ⟨rfl, trivial⟩
  rw [callProbed_nothing, callProbed_nothing] at hcalls
  have hends := (hcalls.pairs frames name arguments hscope).ends hstart
  rcases Probe.Cutoff.eq_or_sign hends with heq | ⟨e, rfl, he⟩
  · exact heq.symm
  · exact absurd he h

end ScriptLang
