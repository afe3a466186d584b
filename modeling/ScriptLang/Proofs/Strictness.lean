import ScriptLang.Proofs.Cutoff
import ScriptLang.Proofs.Traces
import Mathlib.Control.Monad.Basic

set_option autoImplicit false

/-! # Strict scopes

A run in strict scopes is compared with the run of the same program where names can be defined
again. The two go through the same machines until the strict one refuses a definition, and from
there on the other one only moves on. So strictness adds one error and changes nothing else
(`Machine.strict_only_refuses`). -/

namespace ScriptLang

open Exec Evaluator

/-! ## Input that is taken off the front -/

/-- Whether the input that `after` has not read yet is what remains of that of `before` once `read`
is taken off the front. -/
def Machine.Consumes (before : Machine) (read : List Char) (after : Machine) : Prop :=
  before.input = after.input.map (read ++ ·)

theorem Machine.Later.consumes {m m' : Machine} (h : m.Later m') : ∃ read, m.Consumes read m' := by
  have hinput := h.input
  unfold Machine.Consumes
  generalize m.input = before at hinput
  generalize m'.input = after at hinput
  cases hinput with
  | none => exact ⟨[], by simp⟩
  | some hsuffix =>
    obtain ⟨read, hread⟩ := hsuffix
    exact ⟨read, by simp [hread]⟩

theorem Machine.Consumes.trans {a b c : Machine} {read more : List Char} (h : a.Consumes read b)
    (h' : b.Consumes more c) : a.Consumes (read ++ more) c := by
  unfold Machine.Consumes at *
  rw [h, h']
  simp [Function.comp_def]

/-! ## Scopes that are not strict -/

/-- The scopes, in which a name can be defined again. -/
def Scopes.relaxed (scopes : Scopes) : Scopes :=
  { scopes with strict := false }

/-- A definition is refused, or it is made whether the scopes are strict or not. -/
theorem Scopes.define_relaxed (scopes : Scopes) (scope : Scope) (name : String) (value : Value) :
    scopes.define scope name value = (.error (.alreadyDefined name), scopes) ∨
      scopes.relaxed.define scope name value
        = ((scopes.define scope name value).1, (scopes.define scope name value).2.relaxed) := by
  unfold define
  by_cases h : (scopes.strict && (scopes.valueAt? scope.here name).isSome) = true
  · simp [h]
  · right
    simp only [Scopes.relaxed, Bool.false_and, h]
    rfl

theorem Scopes.assign_relaxed (scopes : Scopes) (scope : Scope) (name : String) (value : Value) :
    scopes.relaxed.assign scope name value
      = ((scopes.assign scope name value).1, (scopes.assign scope name value).2.relaxed) := by
  unfold assign
  have hsame : ∀ number, scopes.relaxed.valueAt? number name = scopes.valueAt? number name := by
    intro number
    rfl
  simp only [hsame]
  split <;> rfl

/-- Where a function is declared does not depend on whether the scopes are strict. -/
theorem Scopes.declarationFrom?_relaxed (scopes : Scopes) (name : String) (here : Nat)
    (above : List Nat) :
    scopes.relaxed.declarationFrom? name here above = scopes.declarationFrom? name here above := by
  induction above generalizing here with
  | nil => rfl
  | cons next above ih =>
    unfold declarationFrom?
    rw [ih]
    rfl

/-- The interpreter with another rule on defining names again. -/
def Machine.redefining (m : Machine) (allowed : Bool) : Machine :=
  { m with
    config := { m.config with allowRedefinition := allowed }
    scopes := { m.scopes with strict := !allowed } }

namespace Machine

variable (m : Machine) (allowed : Bool)

/-- A fresh interpreter with the rule is one in which the rule is replaced. -/
theorem redefining_new (config : Config) :
    (new config).redefining allowed = new { config with allowRedefinition := allowed } := rfl

theorem noted_redefining (level : Nat) (line : String) :
    (m.redefining allowed).noted level line = (m.noted level line).redefining allowed := by
  rw [noted_eq_withTraces, noted_eq_withTraces]
  rfl

theorem openTrace_redefining :
    (m.redefining allowed).openTrace = m.openTrace.map (·.redefining allowed) := by
  have htraces : (m.redefining allowed).traces = m.traces := rfl
  rw [openTrace_eq_withTraces, openTrace_eq_withTraces, htraces]
  cases m.traces.opened <;> rfl

theorem declaration?_redefining (scope : Scope) (name : String) :
    (m.redefining true).scopes.declaration? scope name = m.scopes.declaration? scope name :=
  m.scopes.declarationFrom?_relaxed name scope.here scope.above

end Machine

/-! ## Runs side by side -/

namespace Strictness

variable {α : Type} {fail active after : Nat} {m : Machine}

/-- The runs go through the same machines, up to the rule on definitions, until the first one
refuses a definition. -/
def lockstep : Lockstep where
  inStep _ m₁ m₂ := m₂ = m₁.redefining true
  failed _ e₁ m₁ e₂ m₂ := e₁ = e₂ ∧ m₂ = m₁.redefining true
  stopped e m₁ m₂ :=
    (∃ name, e = .script (.alreadyDefined name)) ∧ (m₁.redefining true).Later m₂
  persists h later := ⟨h.1, h.2.trans later⟩

theorem ends (result : Except Failure α) (m : Machine) :
    lockstep.Ends fail after Eq (result, m) (result, m.redefining true) := by
  cases result with
  | ok a => exact ⟨rfl, rfl⟩
  | error e => exact Or.inl ⟨rfl, rfl⟩

/-- An operation that does the same in strict scopes keeps the runs in step. -/
theorem ends_updateScopes {update : Scopes → Except ScriptError Unit × Scopes}
    (h : update m.scopes.relaxed = ((update m.scopes).1, (update m.scopes).2.relaxed)) :
    lockstep.Ends fail after Eq (updateScopes update m)
      (updateScopes update (m.redefining true)) := by
  have hscopes : (m.redefining true).scopes = m.scopes.relaxed := rfl
  rw [updateScopes_apply, updateScopes_apply, hscopes, h]
  exact ends _ _

theorem ends_define (scope : Scope) (name : String) (value : Value) :
    lockstep.Ends fail after Eq (updateScopes (·.define scope name value) m)
      (updateScopes (·.define scope name value) (m.redefining true)) := by
  rcases m.scopes.define_relaxed scope name value with hrefused | hsame
  · -- the first run stops here, and the second has at most made the definition
    have hlater : (m.redefining true).Later
        (updateScopes (·.define scope name value) (m.redefining true)).2 :=
      forward_updateScopes (fun scopes => scopes.later_define scope name value) _
    have hstops : updateScopes (·.define scope name value) m
        = (.error (.script (.alreadyDefined name)), m) := by
      simp only [updateScopes_apply, hrefused]
      rfl
    rw [hstops]
    exact Lockstep.Ends.of_stopped ⟨⟨name, rfl⟩, hlater⟩
  · exact ends_updateScopes hsame

theorem ends_readLine :
    lockstep.Ends fail after Eq (readLine m) (readLine (m.redefining true)) := by
  have hinput : (m.redefining true).input = m.input := rfl
  rw [readLine_apply, readLine_apply, hinput]
  cases m.input with
  | none => exact ends _ _
  | some cs => exact ends _ { m with input := some (cs.drop _) }

/-- What ends a program keeps the runs in step. -/
theorem ends_finish {x y : Except Failure α × Machine}
    (h : lockstep.Ends active active Eq x y) :
    lockstep.Ends active active Eq (finish x) (finish y) := by
  obtain ⟨result₁, m₁⟩ := x
  obtain ⟨result₂, m₂⟩ := y
  have stops {e : Failure} (hstop : lockstep.stopped e m₁ m₂) :
      lockstep.Ends active active Eq (finish (.error e, m₁)) (finish (result₂, m₂)) := by
    obtain ⟨⟨name, rfl⟩, hlater⟩ := hstop
    have hafter := later_finish (result₂, m₂) hlater
    refine Lockstep.Ends.of_stopped ⟨⟨name, rfl⟩, ?_⟩
    exact { hafter with }
  cases result₁ with
  | ok a =>
    cases result₂ with
    | ok b =>
      obtain ⟨rfl, rfl⟩ := h
      exact ends (.ok a) m₁.closeTrace
    | error e => exact h.elim
  | error e₁ =>
    cases result₂ with
    | ok b => exact stops h
    | error e₂ =>
      rcases h with ⟨rfl, rfl⟩ | hstop
      · cases e₁ with
        | script e => exact ends (.error (.script e)) m₁.resetCalls.closeTrace
        | exhausted => exact ends (.error (.script (.recursionLimit _))) m₁.resetCalls.closeTrace
        | fault f => exact ends (.error (.fault f)) m₁.closeTrace
        | outOfFuel => exact ends (.error .outOfFuel) m₁.closeTrace
      · exact stops hstop

theorem ends_restore {x y : Except Failure α × Machine} (h : lockstep.Ends active active Eq x y)
    (stack : Stack) : lockstep.Ends active active Eq (restore stack x) (restore stack y) := by
  obtain ⟨result₁, m₁⟩ := x
  obtain ⟨result₂, m₂⟩ := y
  have stops {e : Failure} (hstop : lockstep.stopped e m₁ m₂) :
      lockstep.stopped e { m₁ with stack } { m₂ with stack } :=
    ⟨hstop.1, { hstop.2 with stack := fun _ => rfl }⟩
  cases result₁ with
  | ok a =>
    cases result₂ with
    | ok b =>
      obtain ⟨rfl, rfl⟩ := h
      exact ends (.ok a) { m₁ with stack }
    | error e => exact h.elim
  | error e₁ =>
    cases result₂ with
    | ok b => exact stops h
    | error e₂ =>
      rcases h with ⟨rfl, rfl⟩ | hstop
      · exact ends (.error e₁) { m₁ with stack }
      · exact Or.inr (stops hstop)

theorem pairs_guarded {x y : Exec (Option Value)} (hxy : lockstep.Pairs active x y) :
    lockstep.Pairs active (guarded x) (guarded y) := by
  refine ⟨hxy.forward.guarded, ?_⟩
  rintro m _ rfl
  unfold guarded
  rw [m.openTrace_redefining]
  cases hopen : m.openTrace with
  | error e => exact ends _ _
  | ok m' => exact ends_restore (ends_finish (hxy.ends (Eq.refl (m'.redefining true)))) m.stack

/-- The run in strict scopes, and beside it the run in which names can be defined again. -/
def simulation : Simulation {} {} where
  toLockstep := lockstep
  seen s₁ s₂ := s₁ = s₂
  owned s₁ s₂ := s₁ = s₂
  seen_of_owned h := h
  throws e := by
    intro h
    exact ⟨rfl, h⟩
  depth := by
    rintro k m _ rfl
    rfl
  hosts := by
    rintro k m _ rfl
    rfl
  notes level line := by
    rintro rfl
    exact Machine.noted_redefining ..
  prints record := by
    rintro rfl
    rfl
  demands {k m _} needed := by
    rintro rfl
    have hstack : (m.redefining true).stack = m.stack := rfl
    rw [demand_apply, demand_apply, hstack]
    exact ends _ _
  reserves frames := by
    rintro rfl
    rfl
  reads := by
    rintro k m _ rfl
    exact ends_readLine
  opens := by
    rintro k m _ s _ rfl rfl
    exact ⟨rfl, rfl⟩
  looksUp name := by
    rintro rfl rfl
    rfl
  resolves {k m _ s _} name := by
    rintro rfl rfl
    rw [m.declaration?_redefining]
    exact optionRel_self fun _ _ => ⟨rfl, rfl⟩
  defines name v := by
    rintro rfl rfl
    exact ends_define _ name v
  assigns name v := by
    rintro rfl rfl
    exact ends_updateScopes (Scopes.assign_relaxed ..)
  declares f := by
    rintro rfl rfl
    exact ends_updateScopes rfl
  enters := by
    rintro k m _ rfl
    rw [enterProbed_nothing, enterCall_apply, enterCall_apply]
    exact ends _ { m with calls := m.calls.enter.2 }
  leaves := by
    rintro k m _ rfl
    exact ⟨rfl, rfl⟩
  unwinds := by
    rintro k e m _ _ ⟨rfl, rfl⟩
    exact ⟨rfl, rfl⟩
  unwinds_stopped := by
    rintro e m₁ m₂ ⟨⟨name, rfl⟩, hlater⟩
    exact ⟨⟨name, rfl⟩, hlater⟩
  runs := by
    refine Or.inr ⟨rfl, fun hxy => ?_⟩
    rw [guarded_reporting, guarded_reporting]
    exact pairs_guarded hxy

/-- The outcomes are the same up to the rule, or the first is that a definition is refused. -/
theorem same_or_refused {x y : Except Failure α × Machine}
    (h : lockstep.Ends fail after Eq x y) :
    y = (x.1, x.2.redefining true) ∨
      (∃ name, x.1 = .error (.script (.alreadyDefined name))) ∧
        (x.2.redefining true).Later y.2 := by
  obtain ⟨result₁, m₁⟩ := x
  obtain ⟨result₂, m₂⟩ := y
  cases result₁ with
  | ok a =>
    cases result₂ with
    | ok b =>
      obtain ⟨rfl, rfl⟩ := h
      exact Or.inl rfl
    | error e => exact h.elim
  | error e₁ =>
    have stops (hstop : lockstep.stopped e₁ m₁ m₂) :
        (∃ name, (.error e₁ : Except Failure α) = .error (.script (.alreadyDefined name))) ∧
          (m₁.redefining true).Later m₂ := by
      obtain ⟨⟨name, rfl⟩, hlater⟩ := hstop
      exact ⟨⟨name, rfl⟩, hlater⟩
    cases result₂ with
    | ok b => exact Or.inr (stops h)
    | error e₂ =>
      rcases h with ⟨rfl, rfl⟩ | hstop
      · exact Or.inl rfl
      · exact Or.inr (stops hstop)

end Strictness

/-! ## Whole runs -/

namespace Machine

variable (m : Machine) (fuel : Nat) (body : List Node)

/-- Where names can be defined again a run is the same, or it goes on from where the other one
stops. -/
theorem run_redefining :
    run fuel body (m.redefining true)
        = ((run fuel body m).1, (run fuel body m).2.redefining true) ∨
      (∃ name, (run fuel body m).1 = .error (.script (.alreadyDefined name))) ∧
        ((run fuel body m).2.redefining true).Later (run fuel body (m.redefining true)).2 := by
  have hruns := Strictness.simulation.ends_runProbed (Or.inl (Eq.refl fuel)) rfl
    (fun hxy => by
      rw [guarded_reporting, guarded_reporting]
      exact Strictness.pairs_guarded hxy) body (Eq.refl (m.redefining true)) rfl
  rw [runProbed_nothing] at hruns
  exact Strictness.same_or_refused hruns

/-- **Strict scopes only refuse.** A run in strict scopes that does not end by a refused definition
is also the run where names can be defined again: it has the same outcome and leaves the same
machine, up to the rule. If a definition is refused, then what was printed and read by then is also
printed and read first where names can be defined again, however long that run is.

The error of a refused definition takes no frames of the stack here. So this is about hosts that
have some frames left for it where a program nests deepest; one that lacks just these ends the
strict run for lack of room instead. -/
theorem strict_only_refuses :
    ((∀ name, (run fuel body (m.redefining false)).1 ≠ .error (.script (.alreadyDefined name))) →
      run fuel body (m.redefining true) = ((run fuel body (m.redefining false)).1,
        (run fuel body (m.redefining false)).2.redefining true)) ∧
    ∀ name, (run fuel body (m.redefining false)).1 = .error (.script (.alreadyDefined name)) →
      ∀ more ≥ fuel,
        (run fuel body (m.redefining false)).2.output.toList <+:
          (run more body (m.redefining true)).2.output.toList ∧
        ∃ read₁ read₂, m.Consumes read₁ (run fuel body (m.redefining false)).2 ∧
          m.Consumes read₂ (run more body (m.redefining true)).2 ∧ read₁ <+: read₂ := by
  have hruns (fuel : Nat) := run_redefining (m.redefining false) fuel body
  refine ⟨fun hended => ?_, fun name hrefused more hmore => ?_⟩
  · rcases hruns fuel with hsame | ⟨⟨name, hrefused⟩, _⟩
    · exact hsame
    · exact absurd hrefused (hended name)
  · have hended : (run fuel body (m.redefining false)).1 ≠ .error .outOfFuel := by
      rw [hrefused]
      exact nofun
    rw [← run_eq_of_le hmore hended]
    have hlater : ((run more body (m.redefining false)).2.redefining true).Later
        (run more body (m.redefining true)).2 := by
      rcases hruns more with hsame | ⟨_, hlater⟩
      · have hmachine := congrArg Prod.snd hsame
        rw [show m.redefining true = (m.redefining false).redefining true from rfl, hmachine]
        exact Machine.Later.refl _
      · exact hlater
    obtain ⟨read, hread⟩ := (forward_run more body (m.redefining false)).consumes
    obtain ⟨rest, hrest⟩ := hlater.consumes
    exact ⟨hlater.output, read, read ++ rest, hread, hread.trans hrest, List.prefix_append _ _⟩

/-- An interpreter with two lines of input. -/
def twoLines : Machine :=
  (new {}).feed (some "one\ntwo\n")

/-- A program in which an inner scope defines the name of a variable. -/
def shadowing : List Node :=
  [.definition "x" (.input .text),
    .conditional (.literal (.bool true)) (.block [.definition "x" (.literal .void)]) none,
    .print [.reference "x"]]

/-- A program that reads, calls a function with two parameters of one name, and reads again. -/
def twinParameters : List Node :=
  [.print [.input .text], .function "f" ["a", "a"] (.block []),
    .callStatement "f" [.literal .void, .literal .void], .print [.input .text]]

/-- The inner scope is no reason to refuse, and the second parameter is one. -/
theorem strict_only_refuses_twinParameters :
    run 2 shadowing (twoLines.redefining true) = (.ok none,
        (run 2 shadowing (twoLines.redefining false)).2.redefining true) ∧
      (run 2 shadowing (twoLines.redefining true)).2.output = #["one"] ∧
      (run 2 twinParameters (twoLines.redefining false)).1
        = .error (.script (.alreadyDefined "a")) ∧
      (run 2 twinParameters (twoLines.redefining false)).2.output = #["one"] ∧
      (run 2 twinParameters (twoLines.redefining true)).2.output = #["one", "two"] ∧
      ∃ read₁ read₂, twoLines.Consumes read₁ (run 2 twinParameters (twoLines.redefining false)).2 ∧
        twoLines.Consumes read₂ (run 2 twinParameters (twoLines.redefining true)).2 ∧
        read₁ <+: read₂ := by
  have hresult : (run 2 shadowing (twoLines.redefining false)).1 = .ok none := by
    decide +kernel
  have hrefused : (run 2 twinParameters (twoLines.redefining false)).1
      = .error (.script (.alreadyDefined "a")) := by decide +kernel
  have hended (name : String) : (run 2 shadowing (twoLines.redefining false)).1
      ≠ .error (.script (.alreadyDefined name)) := by
    rw [hresult]
    intro h
    cases h
  have hsame := (strict_only_refuses twoLines 2 shadowing).1 hended
  have hread := ((strict_only_refuses twoLines 2 twinParameters).2 "a" hrefused 2 (by decide)).2
  rw [hresult] at hsame
  exact ⟨hsame, by decide +kernel, hrefused, by decide +kernel, by decide +kernel, hread⟩

end Machine

end ScriptLang
