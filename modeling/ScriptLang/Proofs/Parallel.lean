import ScriptLang.Proofs.Simulation

set_option autoImplicit false

/-! # Runs that differ in how they count calls

Often two runs go through the same machines, except for the settings and counts that calls depend
on, or for the limit of the stack. Then nothing but the calls, the frames they take and the ends of
programs can tell them apart, and a simulation needs to be given for these only
(`Parallel.simulation`). -/

namespace ScriptLang

open Exec

/-- Other settings, another count of calls and another stack, which neither traces nor functions of
the host see. -/
structure Recount where
  config : Config → Config
  calls : Calls → Calls
  stack : Stack → Stack
  debugLevel : ∀ c, (config c).debugLevel = c.debugLevel
  debugFile : ∀ c, (config c).debugFile = c.debugFile
  depth : ∀ c, (calls c).depth = c.depth
  reserve : ∀ s frames, stack (s.reserve frames) = (stack s).reserve frames

namespace Recount

/-- Nothing is changed. -/
def same : Recount :=
  ⟨id, id, id, fun _ => rfl, fun _ => rfl, fun _ => rfl, fun _ _ => rfl⟩

variable (r : Recount) (m : Machine)

/-- The machine with the other settings, count and stack. -/
def apply : Machine :=
  { m with config := r.config m.config, calls := r.calls m.calls, stack := r.stack m.stack }

theorem noted_apply (level : Nat) (line : String) :
    (r.apply m).noted level line = r.apply (m.noted level line) := by
  have hlevel : (r.apply m).config.debugLevel = m.config.debugLevel := r.debugLevel m.config
  unfold Machine.noted
  rw [hlevel]
  split
  · unfold Machine.traced
    show (if m.traceFile.isOpen then _ else _) = _
    split <;> rfl
  · rfl

theorem openTrace_apply : (r.apply m).openTrace = m.openTrace.map r.apply := by
  have htraces : (r.apply m).tracesToFile = m.tracesToFile := by
    simp only [Machine.tracesToFile, apply, r.debugLevel, r.debugFile]
  unfold Machine.openTrace
  rw [htraces]
  split
  · show m.traceFile.content.map _ = (m.traceFile.content.map _).map _
    cases m.traceFile.content <;> rfl
  · rfl

theorem reserved_apply (frames : Nat) :
    (r.apply m).reserved frames = r.apply (m.reserved frames) := by
  simp only [Machine.reserved, apply, r.reserve]

end Recount

/-- How two runs relate whose machines are the same up to a `Recount`. -/
structure Parallel where
  recount : Recount
  /-- What holds of the first machine while so many calls are active. -/
  holds : (active : Nat) → Machine → Prop
  holds_congr : ∀ {active m m'}, holds active m → m'.calls = m.calls → m'.hosts = m.hosts →
    holds active m'
  failed : (active : Nat) → Failure → Machine → Failure → Machine → Prop
  throws : ∀ {active m} (e : Failure), holds active m → failed active e m e (recount.apply m)
  stopped : Failure → Machine → Machine → Prop
  persists : ∀ {e m₁ m₂ m₂'}, stopped e m₁ m₂ → m₂.Later m₂' → stopped e m₁ m₂'
  /-- A program that fails puts the stack back. -/
  restores : ∀ {active e₁ m₁ e₂ m₂} (stack : Stack), failed active e₁ m₁ e₂ m₂ →
    failed active e₁ { m₁ with stack } e₂ { m₂ with stack := recount.stack stack }
  restores_stopped : ∀ {e m₁ m₂} (stack : Stack), stopped e m₁ m₂ →
    stopped e { m₁ with stack } { m₂ with stack := recount.stack stack }

namespace Parallel

variable (P : Parallel)

/-- The runs are in step while the second machine is the first one, counted otherwise. -/
def lockstep : Lockstep where
  inStep active m₁ m₂ := m₂ = P.recount.apply m₁ ∧ P.holds active m₁
  failed := P.failed
  stopped := P.stopped
  persists := P.persists

variable {P} {α : Type} {active : Nat} {m : Machine}

theorem ends (h : P.holds active m) (result : Except Failure α) :
    P.lockstep.Ends active active Eq (result, m) (result, P.recount.apply m) := by
  cases result with
  | ok a => exact ⟨rfl, rfl, h⟩
  | error e => exact Or.inl (P.throws e h)

theorem ends_updateScopes (h : P.holds active m)
    (update : Scopes → Except ScriptError Unit × Scopes) :
    P.lockstep.Ends active active Eq (updateScopes update m)
      (updateScopes update (P.recount.apply m)) := by
  rw [updateScopes_apply, updateScopes_apply]
  exact ends (m := { m with scopes := (update m.scopes).2 }) (P.holds_congr h rfl rfl) _

theorem ends_readLine (h : P.holds active m) :
    P.lockstep.Ends active active Eq (readLine m) (readLine (P.recount.apply m)) := by
  have hinput : (P.recount.apply m).input = m.input := rfl
  rw [readLine_apply, readLine_apply, hinput]
  cases m.input with
  | none => exact ends h _
  | some cs =>
    refine ends ?_ _
    exact P.holds_congr h rfl rfl

theorem holds_noted (h : P.holds active m) (level : Nat) (line : String) :
    P.holds active (m.noted level line) := by
  obtain ⟨trace, traceFile, heq⟩ := m.noted_eq level line
  rw [heq]
  exact P.holds_congr h rfl rfl

/-- On the same stack there is room for the same frames. -/
theorem ends_demand (h : P.holds active m) (hstack : P.recount.stack = id)
    (needed : Stack → Nat) :
    P.lockstep.Ends active active Eq (demand needed m) (demand needed (P.recount.apply m)) := by
  have happly : (P.recount.apply m).stack = m.stack := congrFun hstack m.stack
  rw [demand_apply, demand_apply, happly]
  exact ends h _

theorem ends_restore {a b : Except Failure α × Machine}
    (h : P.lockstep.Ends active active Eq a b) (stack : Stack) :
    P.lockstep.Ends active active Eq (restore stack a)
      (restore (P.recount.stack stack) b) := by
  obtain ⟨r₁, m₁⟩ := a
  obtain ⟨r₂, m₂⟩ := b
  cases r₁ with
  | ok a =>
    cases r₂ with
    | ok b =>
      obtain ⟨rfl, rfl, hholds⟩ := h
      exact ⟨rfl, rfl, P.holds_congr hholds rfl rfl⟩
    | error e₂ => exact h.elim
  | error e₁ =>
    cases r₂ with
    | ok b => exact P.restores_stopped stack h
    | error e₂ => exact h.imp (P.restores stack) (P.restores_stopped stack)

/-- Programs keep machines in step if what ends them does. -/
theorem pairs_guarded {x y : Exec (Option Value)} {report₁ report₂ : Int → Failure}
    (hxy : P.lockstep.Pairs active x y)
    (hfinish : ∀ {a b : Except Failure (Option Value) × Machine},
      P.lockstep.Ends active active Eq a b →
      P.lockstep.Ends active active Eq (finish (reported report₁ a))
        (finish (reported report₂ b))) :
    P.lockstep.Pairs active (guarded (reporting report₁ x)) (guarded (reporting report₂ y)) := by
  refine ⟨(hxy.forward.reporting _).guarded, ?_⟩
  rintro m _ ⟨rfl, h⟩
  unfold guarded
  rw [P.recount.openTrace_apply]
  cases hopen : m.openTrace with
  | error e => exact ends h _
  | ok m' =>
    obtain ⟨traceFile, rfl⟩ := Machine.eq_of_openTrace hopen
    have hopened : P.holds active { m with traceFile } := P.holds_congr h rfl rfl
    exact ends_restore (hfinish (hxy.ends ⟨Eq.refl (P.recount.apply _), hopened⟩)) m.stack

/-- Runs with machines that are the same up to a `Recount` are in step if calls, the frames they
take and programs are. -/
def simulation (P : Parallel) {p₁ p₂ : Probe}
    (demands : ∀ {k m} (needed : Stack → Nat), P.holds k m →
      P.lockstep.Ends k k Eq (demand needed m) (demand needed (P.recount.apply m)))
    (enters : ∀ {k m}, P.holds k m → P.lockstep.Ends k (k + 1) Eq (enterProbed p₁ (k + 1) m)
      (enterProbed p₂ (k + 1) (P.recount.apply m)))
    (leaves : ∀ {k m}, P.holds (k + 1) m →
      P.lockstep.Ends (k + 1) k Eq (leaveCall m) (leaveCall (P.recount.apply m)))
    (unwinds : ∀ {k e₁ m₁ e₂ m₂}, P.failed (k + 1) e₁ m₁ e₂ m₂ →
      P.failed k (e₁.mapFault p₁.leaving) m₁ (e₂.mapFault p₂.leaving) m₂)
    (unwinds_stopped : ∀ {e m₁ m₂}, P.stopped e m₁ m₂ →
      P.stopped (e.mapFault p₁.leaving) m₁ m₂)
    (runs : (∀ {k m}, P.holds k m → m.QuietHosts) ∨
      ∀ {k} {x y : Exec (Option Value)}, P.lockstep.Pairs k x y → P.lockstep.Pairs k
        (guarded (reporting p₁.exhausted x)) (guarded (reporting p₂.exhausted y))) :
    Simulation p₁ p₂ where
  toLockstep := P.lockstep
  seen s₁ s₂ := s₁ = s₂
  owned s₁ s₂ := s₁ = s₂
  seen_of_owned h := h
  throws e := by
    rintro ⟨rfl, h⟩
    exact P.throws e h
  depth := by
    rintro k m _ ⟨rfl, h⟩
    exact (P.recount.depth m.calls).symm
  hosts := by
    rintro k m _ ⟨rfl, h⟩
    rfl
  notes level line := by
    rintro ⟨rfl, h⟩
    exact ⟨P.recount.noted_apply .., holds_noted h level line⟩
  prints record := by
    rintro ⟨rfl, h⟩
    exact ⟨rfl, P.holds_congr h rfl rfl⟩
  demands needed := by
    rintro ⟨rfl, h⟩
    exact demands needed h
  reserves frames := by
    rintro ⟨rfl, h⟩
    exact ⟨P.recount.reserved_apply .., P.holds_congr h rfl rfl⟩
  reads := by
    rintro k m _ ⟨rfl, h⟩
    exact ends_readLine h
  opens := by
    rintro k m _ s _ rfl ⟨rfl, h⟩
    exact ⟨rfl, rfl, P.holds_congr h rfl rfl⟩
  looksUp name := by
    rintro rfl ⟨rfl, _⟩
    rfl
  resolves name := by
    rintro rfl ⟨rfl, _⟩
    exact optionRel_self fun _ _ => ⟨rfl, rfl⟩
  defines name v := by
    rintro rfl ⟨rfl, h⟩
    exact ends_updateScopes h _
  assigns name v := by
    rintro rfl ⟨rfl, h⟩
    exact ends_updateScopes h _
  declares f := by
    rintro rfl ⟨rfl, h⟩
    exact ends_updateScopes h _
  enters := by
    rintro k m _ ⟨rfl, h⟩
    exact enters h
  leaves := by
    rintro k m _ ⟨rfl, h⟩
    exact leaves h
  unwinds := unwinds
  unwinds_stopped := unwinds_stopped
  runs := runs.imp (fun hquiet _ _ _ h => hquiet h.2) fun hguard => ⟨rfl, hguard⟩

end Parallel

end ScriptLang
