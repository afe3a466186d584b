import ScriptLang.Proofs.Simulation

set_option autoImplicit false

/-! # Runs that differ in their traces

A machine has its traces and everything else (`Machine.traces`, `Machine.withTraces`). Nothing that
a run computes depends on the traces, unless the file for them cannot be opened. So a relation
between the traces of two runs, kept by each traced line and by opening and closing the file (a
`TraceRelation`), makes the runs a simulation, in which all the rest of the machines is the same. -/

namespace ScriptLang

open Exec Evaluator

/-! ## Traces -/

/-- All of an interpreter that has to do with traces. -/
structure Traces where
  /-- How much is traced. -/
  level : Nat
  /-- Where traces go, if not to the console. -/
  path : Option String
  /-- The lines traced to the console so far. -/
  lines : Array String
  file : TraceFile

namespace Traces

/-- The traces after a line from some level of detail on. -/
def noted (t : Traces) (level : Nat) (line : String) : Traces :=
  if level ≤ t.level then
    if t.file.isOpen then
      let content := t.file.content.map fun text => some (text.getD "" ++ line ++ "\n")
      { t with file := { t.file with content } }
    else { t with lines := t.lines.push line }
  else t

/-- Whether the traces go to a file. -/
def toFile (t : Traces) : Bool :=
  0 < t.level && t.path.any (!·.isEmpty)

/-- The traces once the file is open, if they go to one. -/
def opened (t : Traces) : Except FileError Traces :=
  if t.toFile then
    t.file.content.map fun text => { t with file := ⟨.ok (some (text.getD "")), true⟩ }
  else .ok t

/-- The traces once the file is closed. -/
def closed (t : Traces) : Traces :=
  { t with file := { t.file with isOpen := false } }

end Traces

namespace Machine

variable (m : Machine) (t : Traces)

/-- The traces of a machine. -/
def traces : Traces :=
  ⟨m.config.debugLevel, m.config.debugFile, m.trace, m.traceFile⟩

/-- The machine with other traces. -/
def withTraces : Machine :=
  { m with
    config := { m.config with debugLevel := t.level, debugFile := t.path }
    trace := t.lines
    traceFile := t.file }

@[simp]
theorem traces_withTraces : (m.withTraces t).traces = t := rfl

@[simp]
theorem withTraces_traces : m.withTraces m.traces = m := rfl

theorem noted_eq_withTraces (level : Nat) (line : String) :
    m.noted level line = m.withTraces (m.traces.noted level line) := by
  have hlevel : m.traces.level = m.config.debugLevel := rfl
  have hfile : m.traces.file = m.traceFile := rfl
  unfold noted traced Traces.noted
  rw [hlevel, hfile]
  by_cases hdetail : level ≤ m.config.debugLevel
  · by_cases hopen : m.traceFile.isOpen = true
    · simp only [hdetail, hopen, if_true]
      rfl
    · simp only [hdetail, hopen, if_true]
      rfl
  · simp only [hdetail, if_false, withTraces_traces]

theorem openTrace_eq_withTraces : m.openTrace = m.traces.opened.map m.withTraces := by
  have htraces : m.traces.toFile = m.tracesToFile := rfl
  have hfile : m.traces.file = m.traceFile := rfl
  unfold openTrace Traces.opened
  rw [htraces, hfile]
  by_cases hpath : m.tracesToFile = true
  · simp only [hpath, if_true]
    cases m.traceFile.content <;> rfl
  · simp only [hpath]
    rfl

end Machine

/-! ## Runs side by side -/

/-- How the traces of two runs relate. -/
structure TraceRelation where
  holds : Traces → Traces → Prop
  noted : ∀ {t₁ t₂} (level : Nat) (line : String), holds t₁ t₂ →
    holds (t₁.noted level line) (t₂.noted level line)
  /-- The file can be opened in both runs, or in neither. -/
  opened : ∀ {t₁ t₂}, holds t₁ t₂ →
    (∃ e, t₁.opened = .error e ∧ t₂.opened = .error e) ∨
      ∃ u₁ u₂, t₁.opened = .ok u₁ ∧ t₂.opened = .ok u₂ ∧ holds u₁ u₂
  closed : ∀ {t₁ t₂}, holds t₁ t₂ → holds t₁.closed t₂.closed

namespace TraceRelation

variable (R : TraceRelation) {α : Type} {fail active after : Nat} {m : Machine} {t : Traces}

/-- The machines are the same up to their traces, and these are related. -/
def InStep (m₁ m₂ : Machine) : Prop :=
  ∃ t, m₂ = m₁.withTraces t ∧ R.holds m₁.traces t

/-- The runs go through machines that are the same up to their traces. -/
def lockstep : Lockstep where
  inStep _ := R.InStep
  failed _ e₁ m₁ e₂ m₂ := e₁ = e₂ ∧ R.InStep m₁ m₂
  stopped _ _ _ := False
  persists h _ := h

variable {R}

theorem ends (h : R.holds m.traces t) (result : Except Failure α) :
    R.lockstep.Ends fail after Eq (result, m) (result, m.withTraces t) := by
  cases result with
  | ok a => exact ⟨rfl, t, rfl, h⟩
  | error e => exact Or.inl ⟨rfl, t, rfl, h⟩

/-- Outcomes that relate are the same up to the traces. -/
theorem of_ends {x y : Except Failure α × Machine} (h : R.lockstep.Ends fail after Eq x y) :
    x.1 = y.1 ∧ R.InStep x.2 y.2 := by
  obtain ⟨result₁, m₁⟩ := x
  obtain ⟨result₂, m₂⟩ := y
  cases result₁ with
  | ok a =>
    cases result₂ with
    | ok b => exact ⟨congrArg Except.ok h.1, h.2⟩
    | error e => exact h.elim
  | error e₁ =>
    cases result₂ with
    | ok b => exact h.elim
    | error e₂ =>
      obtain ⟨rfl, hsame⟩ := h.resolve_right id
      exact ⟨rfl, hsame⟩

theorem inStep_noted (h : R.holds m.traces t) (level : Nat) (line : String) :
    R.InStep (m.noted level line) ((m.withTraces t).noted level line) := by
  rw [Machine.noted_eq_withTraces, Machine.noted_eq_withTraces]
  exact ⟨t.noted level line, rfl, R.noted level line h⟩

theorem ends_updateScopes (h : R.holds m.traces t)
    (update : Scopes → Except ScriptError Unit × Scopes) :
    R.lockstep.Ends fail after Eq (updateScopes update m)
      (updateScopes update (m.withTraces t)) := by
  rw [updateScopes_apply, updateScopes_apply]
  exact ends (m := { m with scopes := (update m.scopes).2 }) h _

theorem ends_readLine (h : R.holds m.traces t) :
    R.lockstep.Ends fail after Eq (readLine m) (readLine (m.withTraces t)) := by
  have hinput : (m.withTraces t).input = m.input := rfl
  rw [readLine_apply, readLine_apply, hinput]
  cases m.input with
  | none => exact ends h _
  | some cs => exact ends (m := { m with input := some (cs.drop _) }) h _

/-- What ends a program keeps the runs in step. -/
theorem ends_finish {x y : Except Failure α × Machine} (h : R.lockstep.Ends fail after Eq x y) :
    R.lockstep.Ends fail after Eq (finish x) (finish y) := by
  obtain ⟨hresult, t, hmachine, ht⟩ := of_ends h
  obtain ⟨result, m⟩ := x
  obtain ⟨_, _⟩ := y
  cases hresult
  cases hmachine
  have hclosed : R.holds m.closeTrace.traces t.closed := R.closed ht
  cases result with
  | ok a => exact ends (m := m.closeTrace) hclosed _
  | error e =>
    cases e with
    | script e => exact ends (m := m.resetCalls.closeTrace) hclosed _
    | exhausted => exact ends (m := m.resetCalls.closeTrace) hclosed _
    | fault f => exact ends (m := m.closeTrace) hclosed _
    | outOfFuel => exact ends (m := m.closeTrace) hclosed _

theorem ends_restore {x y : Except Failure α × Machine} (h : R.lockstep.Ends fail after Eq x y)
    (stack : Stack) : R.lockstep.Ends fail after Eq (restore stack x) (restore stack y) := by
  obtain ⟨hresult, t, hmachine, ht⟩ := of_ends h
  obtain ⟨result, m⟩ := x
  obtain ⟨_, _⟩ := y
  cases hresult
  cases hmachine
  exact ends (m := { m with stack }) ht _

theorem pairs_guarded {x y : Exec (Option Value)} (hxy : R.lockstep.Pairs active x y) :
    R.lockstep.Pairs active (guarded x) (guarded y) := by
  refine ⟨hxy.forward.guarded, ?_⟩
  rintro m _ ⟨t, rfl, h⟩
  unfold guarded
  rw [Machine.openTrace_eq_withTraces, Machine.openTrace_eq_withTraces, Machine.traces_withTraces]
  rcases R.opened h with ⟨e, h₁, h₂⟩ | ⟨u₁, u₂, h₁, h₂, hu⟩
  · rw [h₁, h₂]
    exact ends h _
  · rw [h₁, h₂]
    have hopened : R.InStep (m.withTraces u₁) ((m.withTraces t).withTraces u₂) := ⟨u₂, rfl, hu⟩
    exact ends_restore (ends_finish (hxy.ends hopened)) m.stack

variable (R)

/-- Runs with related traces are in step. -/
def simulation : Simulation {} {} where
  toLockstep := R.lockstep
  seen s₁ s₂ := s₁ = s₂
  owned s₁ s₂ := s₁ = s₂
  seen_of_owned h := h
  throws _ h := ⟨rfl, h⟩
  depth := by
    rintro k m _ ⟨t, rfl, h⟩
    rfl
  hosts := by
    rintro k m _ ⟨t, rfl, h⟩
    rfl
  notes level line := by
    rintro ⟨t, rfl, h⟩
    exact inStep_noted h level line
  prints record := by
    rintro ⟨t, rfl, h⟩
    exact ⟨t, rfl, h⟩
  demands needed := by
    rintro ⟨t, rfl, h⟩
    rw [demand_apply, demand_apply]
    exact ends h _
  reserves frames := by
    rintro ⟨t, rfl, h⟩
    exact ⟨t, rfl, h⟩
  reads := by
    rintro k m _ ⟨t, rfl, h⟩
    exact ends_readLine h
  opens := by
    rintro k m _ s _ rfl ⟨t, rfl, h⟩
    exact ⟨rfl, t, rfl, h⟩
  looksUp name := by
    rintro rfl ⟨t, rfl, h⟩
    rfl
  resolves name := by
    rintro rfl ⟨t, rfl, h⟩
    exact optionRel_self fun _ _ => ⟨rfl, rfl⟩
  defines name v := by
    rintro rfl ⟨t, rfl, h⟩
    exact ends_updateScopes h _
  assigns name v := by
    rintro rfl ⟨t, rfl, h⟩
    exact ends_updateScopes h _
  declares f := by
    rintro rfl ⟨t, rfl, h⟩
    exact ends_updateScopes h _
  enters := by
    rintro k m _ ⟨t, rfl, h⟩
    rw [enterProbed_nothing, enterCall_apply, enterCall_apply]
    exact ends (m := { m with calls := m.calls.enter.2 }) h _
  leaves := by
    rintro k m _ ⟨t, rfl, h⟩
    exact ⟨rfl, t, rfl, h⟩
  unwinds := by
    rintro k e m₁ _ m₂ ⟨rfl, h⟩
    exact ⟨rfl, h⟩
  unwinds_stopped h := h
  runs := by
    refine Or.inr ⟨rfl, fun hxy => ?_⟩
    rw [guarded_reporting, guarded_reporting]
    exact pairs_guarded hxy

/-- Statements do the same in machines that are the same up to related traces. -/
theorem ends_executeAll (h : R.holds m.traces t) (fuel : Nat) (scope : Scope) (frames : Nat)
    (statements : List Node) :
    R.lockstep.Ends 0 0 Eq (executeAll (call fuel) fuel scope frames statements m)
      (executeAll (call fuel) fuel scope frames statements (m.withTraces t)) := by
  have hcall := R.simulation.callees_callProbed (Or.inl (Eq.refl fuel)) 0
  have hscope : R.simulation.owned scope scope := rfl
  rw [callProbed_nothing] at hcall
  exact (hcall.executeAll (Or.inl rfl) hscope frames statements).ends ⟨t, rfl, h⟩

end TraceRelation

end ScriptLang
