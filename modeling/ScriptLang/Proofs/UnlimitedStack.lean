import ScriptLang.Proofs.RecursionLimit

set_option autoImplicit false

/-! # Runs on a stack without a limit

The limit of the stack grows and is put back in the course of a run, but all of this matters only
where there is not enough room: the run on a stack without a limit is the same run, or the run on
the limited stack ends early, because it exhausts the stack (`Machine.run_unlimited`). So runs on
stacks with different limits can be compared by way of the stack that has none. -/

namespace ScriptLang

open Exec Evaluator

/-- The interpreter on a stack without a limit. -/
def Machine.unlimited (m : Machine) : Machine :=
  { m with stack := { m.stack with limit := none } }

/-- A stack without a limit, as another count. -/
def Recount.unlimited : Recount :=
  { Recount.same with
    stack := fun stack => { stack with limit := none }
    reserve := fun _ _ => rfl }

namespace UnlimitedStack

variable (report : Int → Failure) {limit : Int}

/-- The runs go through the same machines, up to the limit of the stack, until the first one lacks
room. This is reported where the program ends. -/
def parallel (limit : Int) : Parallel where
  recount := .unlimited
  holds _ m := m.calls.limit = limit
  holds_congr h hcalls _ := hcalls ▸ h
  failed _ e₁ m₁ e₂ m₂ := e₁ = e₂ ∧ m₁.calls.limit = limit ∧ m₂ = m₁.unlimited
  throws _ h := ⟨rfl, h, rfl⟩
  stopped e m₁ m₂ := (e = .exhausted ∨ e = report limit) ∧ m₁.calls.limit = limit ∧
    m₁.output.toList <+: m₂.output.toList
  persists h later := ⟨h.1, h.2.1, h.2.2.trans later.output⟩
  restores _ := by
    rintro ⟨rfl, hlimit, rfl⟩
    exact ⟨rfl, hlimit, rfl⟩
  restores_stopped _ h := h

variable {α : Type} {active : Nat} {m : Machine}

theorem ends_demand (h : m.calls.limit = limit) (needed : Stack → Nat) :
    (parallel report limit).lockstep.Ends active active Eq (demand needed m)
      (demand needed m.unlimited) := by
  have hunlimited : demand needed m.unlimited = (.ok (), m.unlimited) := demand_of_allows rfl
  rw [hunlimited]
  cases hallows : m.stack.allows (needed m.stack) with
  | true =>
    rw [demand_of_allows hallows]
    exact ⟨rfl, rfl, h⟩
  | false =>
    rw [demand_of_not_allows hallows]
    exact ⟨Or.inl rfl, h, List.prefix_refl _⟩

theorem enters (h : m.calls.limit = limit) :
    (parallel report limit).lockstep.Ends active (active + 1) Eq
      (enterProbed { exhausted := report } (active + 1) m)
      (enterProbed {} (active + 1) m.unlimited) := by
  by_cases hdepth : m.calls.depth < m.calls.limit
  · rw [enterProbed_of_ok (enterCall_of_lt hdepth),
      enterProbed_of_ok (enterCall_of_lt (m := m.unlimited) hdepth)]
    exact ⟨rfl, rfl, h⟩
  · have hle := Int.not_lt.1 hdepth
    rw [enterProbed_of_error (enterCall_of_le hle),
      enterProbed_of_error (enterCall_of_le (m := m.unlimited) hle)]
    exact Or.inl ⟨rfl, h, rfl⟩

variable {report}

/-- A lack of room is reported where the first program ends, whatever becomes of the second. -/
theorem ends_finish_stopped (hvisible : ∀ limit, report limit ≠ .exhausted) {e : Failure}
    {m₁ : Machine} {y : Except Failure α × Machine} (he : e = .exhausted ∨ e = report limit)
    (hlimit : m₁.calls.limit = limit) (houtput : m₁.output.toList <+: y.2.output.toList) :
    (parallel report limit).lockstep.Ends active active Eq
      (finish (reported report (.error e, m₁))) (finish (reported (Probe.exhausted {}) y)) := by
  have hreported : reported report ((.error e, m₁) : Except Failure α × Machine)
      = (.error (report limit), m₁) := by
    rcases he with rfl | rfl
    · simp only [reported, hlimit]
    · exact reported_error (hvisible limit) report m₁
  have hafter : (finish (reported report ((.error e, m₁) : Except Failure α × Machine))).2.output
      = m₁.output := by
    rw [output_finish, reported_snd]
  obtain ⟨m', hfinish⟩ := finish_error (α := α) (hvisible limit) m₁
  rw [hreported, hfinish] at hafter ⊢
  refine Lockstep.Ends.of_stopped ⟨Or.inr rfl, ?_, ?_⟩
  · have hlater := later_finish (α := α) (.error (report limit), m₁) (.refl m₁)
    rw [hfinish] at hlater
    exact hlater.limit.trans hlimit
  · rw [output_finish, reported_snd, hafter]
    exact houtput

/-- What ends a program keeps the runs in step. -/
theorem ends_finish (hvisible : ∀ limit, report limit ≠ .exhausted)
    {x y : Except Failure α × Machine}
    (h : (parallel report limit).lockstep.Ends active active Eq x y) :
    (parallel report limit).lockstep.Ends active active Eq (finish (reported report x))
      (finish (reported (Probe.exhausted {}) y)) := by
  obtain ⟨result₁, m₁⟩ := x
  obtain ⟨result₂, m₂⟩ := y
  cases result₁ with
  | ok a =>
    cases result₂ with
    | ok b =>
      obtain ⟨rfl, rfl, hlimit⟩ := h
      exact ⟨rfl, rfl, hlimit⟩
    | error e => exact h.elim
  | error e₁ =>
    cases result₂ with
    | ok b => exact ends_finish_stopped hvisible h.1 h.2.1 h.2.2
    | error e₂ =>
      rcases h with ⟨rfl, hlimit, rfl⟩ | hstop
      · -- a function of the host can fail this way on both stacks
        cases e₁ with
        | exhausted =>
          exact ends_finish_stopped hvisible (Or.inl rfl) hlimit (List.prefix_refl _)
        | script e => exact Or.inl ⟨rfl, hlimit, rfl⟩
        | fault f => exact Or.inl ⟨rfl, hlimit, rfl⟩
        | outOfFuel => exact Or.inl ⟨rfl, hlimit, rfl⟩
      · exact ends_finish_stopped hvisible hstop.1 hstop.2.1 hstop.2.2

theorem pairs_guarded (hvisible : ∀ limit, report limit ≠ .exhausted) {x y : Exec (Option Value)}
    (hxy : (parallel report limit).lockstep.Pairs active x y) :
    (parallel report limit).lockstep.Pairs active (guarded (reporting report x))
      (guarded (reporting (Probe.exhausted {}) y)) :=
  Parallel.pairs_guarded hxy (ends_finish hvisible)

/-- The run on the limited stack, and beside it the run on the stack without a limit. -/
def simulation (hvisible : ∀ limit, report limit ≠ .exhausted) (limit : Int) :
    Simulation { exhausted := report } {} :=
  (parallel report limit).simulation (fun needed h => ends_demand report h needed) (enters report)
    (fun h => ⟨rfl, rfl, h⟩)
    (fun hfailed => by
      rw [Failure.mapFault_id, Failure.mapFault_id]
      exact hfailed)
    (fun hstopped => by simpa only [Failure.mapFault_id] using hstopped)
    (Or.inr (pairs_guarded hvisible))

/-- What it means for the outcomes of whole runs to relate. -/
theorem same_or_stopped {x y : Except Failure α × Machine} (hx : x.1 ≠ .error .exhausted)
    (h : (parallel report limit).lockstep.Ends 0 0 Eq x y) :
    y = (x.1, x.2.unlimited) ∨
      x.1 = .error (report limit) ∧ x.2.output.toList <+: y.2.output.toList := by
  obtain ⟨result₁, m₁⟩ := x
  obtain ⟨result₂, m₂⟩ := y
  have stops {e : Failure} (hresult : result₁ = .error e)
      (hstop : (parallel report limit).stopped e m₁ m₂) :
      result₁ = .error (report limit) ∧ m₁.output.toList <+: m₂.output.toList := by
    obtain ⟨rfl | rfl, -, houtput⟩ := hstop
    · exact absurd hresult hx
    · exact ⟨hresult, houtput⟩
  cases result₁ with
  | ok a =>
    cases result₂ with
    | ok b =>
      obtain ⟨rfl, rfl, _⟩ := h
      exact Or.inl rfl
    | error e => exact h.elim
  | error e₁ =>
    cases result₂ with
    | ok b => exact Or.inr (stops rfl h)
    | error e₂ =>
      rcases h with ⟨rfl, _, rfl⟩ | hstop
      · exact Or.inl rfl
      · exact Or.inr (stops rfl hstop)

end UnlimitedStack

/-- A lack of room is reported at the end of a program at the latest. -/
theorem Exec.guarded_ne_exhausted {α : Type} (x : Exec α) (m : Machine) :
    (guarded x m).1 ≠ .error .exhausted := by
  unfold guarded
  cases m.openTrace with
  | error e => exact nofun
  | ok m' =>
    show (finish (x m')).1 ≠ _
    rcases x m' with ⟨result, m''⟩
    cases result with
    | ok a => exact nofun
    | error e => cases e <;> exact nofun

namespace Machine

variable (fuel : Nat) (body : List Node) (m : Machine)

theorem runProbed_unlimited {report : Int → Failure}
    (hvisible : ∀ limit, report limit ≠ .exhausted) :
    let outcome := runProbed { exhausted := report } fuel body m
    run fuel body m.unlimited = (outcome.1, outcome.2.unlimited) ∨
      outcome.1 = .error (report m.calls.limit) ∧
        outcome.2.output.toList <+: (run fuel body m.unlimited).2.output.toList := by
  have hends := (UnlimitedStack.simulation hvisible m.calls.limit).ends_runProbed
    (Or.inl (Eq.refl fuel)) rfl (UnlimitedStack.pairs_guarded hvisible) body
    (show _ ∧ m.calls.limit = _ from ⟨rfl, rfl⟩) rfl
  rw [runProbed_nothing] at hends
  exact UnlimitedStack.same_or_stopped (guarded_ne_exhausted _ m) hends

/-- **The limit of the stack is invisible**, unless the run ends because of it. Then the run on the
stack without a limit prints all that it prints. -/
theorem run_unlimited :
    run fuel body m.unlimited = ((run fuel body m).1, (run fuel body m).2.unlimited) ∨
      (run fuel body m).1 = .error (.script (.recursionLimit m.calls.limit)) ∧
        (run fuel body m).2.output.toList <+: (run fuel body m.unlimited).2.output.toList := by
  have hvisible (limit : Int) : Failure.script (.recursionLimit limit) ≠ .exhausted := by
    intro h
    cases h
  have hprobed := runProbed_unlimited fuel body m hvisible
  rwa [runProbed_nothing] at hprobed

/-- On the limited stack a beginning is printed of what is printed on the stack without a limit. -/
theorem output_run_prefix :
    (run fuel body m).2.output.toList <+: (run fuel body m.unlimited).2.output.toList := by
  rcases run_unlimited fuel body m with hsame | ⟨-, houtput⟩
  · rw [hsame]
    exact List.prefix_refl _
  · exact houtput

variable {fuel body m}

theorem run_unlimited_of_not_exhausts (h : ¬ m.Exhausts fuel body) :
    run fuel body m.unlimited = ((run fuel body m).1, (run fuel body m).2.unlimited) := by
  have hfault (fault : Fault) :
      run fuel body m.unlimited = ((run fuel body m).1, (run fuel body m).2.unlimited) ∨
        (run fuel body m).1 = .error (.fault fault) := by
    have hrun : runProbed (.exhaustion fault) fuel body m = run fuel body m :=
      Classical.not_not.1 fun hne => h ⟨fault, hne⟩
    have hvisible : ∀ _ : Int, Failure.fault fault ≠ .exhausted := by
      intro _ h
      cases h
    have hprobed := runProbed_unlimited fuel body m hvisible
    rw [show Probe.mk _ _ _ = Probe.exhaustion fault from rfl, hrun] at hprobed
    exact hprobed.imp_right And.left
  -- a run cannot end with two different faults
  rcases hfault (.host "a") with hsame | hfirst
  · exact hsame
  rcases hfault (.host "b") with hsame | hsecond
  · exact hsame
  simp [hfirst] at hsecond

end Machine

end ScriptLang
