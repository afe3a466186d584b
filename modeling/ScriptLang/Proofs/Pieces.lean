import ScriptLang.Proofs.Nesting
import ScriptLang.Proofs.Traces
import ScriptLang.Proofs.UnlimitedStack

set_option autoImplicit false

/-! # Programs in pieces

A program that is run in two pieces, one after the other, does what it does in one run, as long as
the stack suffices (`Machine.run_append`). What statements leave to the ones after them is in the
machine, which stays between two runs. Only two things do not: the file for traces is closed and
opened again, and the limit of the stack, which calls make higher, is put back. So the second piece
finds machines that differ in their traces and in the limit of their stacks. That limit can decide
whether there is room for it (`Machine.run_climbing_subtracting`). -/

namespace ScriptLang

open Exec Evaluator

/-! ## A file that can be opened again -/

namespace Traces

/-- Whether two traces go to the same place, and both can be written there or neither can. -/
structure Alike (t₁ t₂ : Traces) : Prop where
  level : t₁.level = t₂.level
  path : t₁.path = t₂.path
  content : t₁.file.content.map (fun _ => ()) = t₂.file.content.map (fun _ => ())

variable {t t₁ t₂ t₃ : Traces}

theorem Alike.refl (t : Traces) : t.Alike t :=
  ⟨rfl, rfl, rfl⟩

theorem Alike.symm (h : t₁.Alike t₂) : t₂.Alike t₁ :=
  ⟨h.level.symm, h.path.symm, h.content.symm⟩

theorem Alike.trans (h : t₁.Alike t₂) (h' : t₂.Alike t₃) : t₁.Alike t₃ :=
  ⟨h.level.trans h'.level, h.path.trans h'.path, h.content.trans h'.content⟩

theorem alike_noted (t : Traces) (level : Nat) (line : String) : (t.noted level line).Alike t := by
  unfold Traces.noted
  by_cases hdetail : level ≤ t.level
  · by_cases hopen : t.file.isOpen = true
    · simp only [hdetail, hopen, if_true]
      refine ⟨rfl, rfl, ?_⟩
      cases t.file.content <;> rfl
    · simp only [hdetail, hopen, if_true]
      exact ⟨rfl, rfl, rfl⟩
  · simp only [hdetail, if_false]
    exact .refl t

theorem alike_closed (t : Traces) : t.closed.Alike t :=
  ⟨rfl, rfl, rfl⟩

theorem alike_opened {u : Traces} (h : t.opened = .ok u) : u.Alike t := by
  unfold Traces.opened at h
  by_cases hfile : t.toFile = true
  · simp only [hfile, if_true] at h
    cases hcontent : t.file.content with
    | error e => simp [hcontent, Except.map] at h
    | ok text =>
      simp only [hcontent, Except.map, Except.ok.injEq] at h
      subst h
      refine ⟨rfl, rfl, ?_⟩
      rw [hcontent]
      rfl
  · simp only [hfile] at h
    cases h
    exact .refl t

/-- The file can be opened from both or from neither. -/
theorem Alike.opened (h : t₁.Alike t₂) :
    t₁.opened.map (fun _ => ()) = t₂.opened.map (fun _ => ()) := by
  have hplace : t₁.toFile = t₂.toFile := by
    unfold toFile
    rw [h.level, h.path]
  have hcontent := h.content
  unfold Traces.opened
  rw [hplace]
  by_cases hfile : t₂.toFile = true
  · simp only [hfile, if_true]
    generalize t₁.file.content = content₁ at hcontent
    generalize t₂.file.content = content₂ at hcontent
    cases content₁ <;> cases content₂ <;> simp_all [Except.map]
  · simp only [hfile]
    rfl

end Traces

/-- The traces of both runs are like those at the start. -/
def TraceRelation.alike (start : Traces) : TraceRelation where
  holds t₁ t₂ := t₁.Alike start ∧ t₂.Alike start
  noted level line h := ⟨(Traces.alike_noted ..).trans h.1, (Traces.alike_noted ..).trans h.2⟩
  opened := by
    intro t₁ t₂ h
    have hopened := (h.1.trans h.2.symm).opened
    cases h₁ : t₁.opened with
    | error e =>
      cases h₂ : t₂.opened with
      | error e' =>
        simp only [h₁, h₂, Except.map, Except.error.injEq] at hopened
        exact Or.inl ⟨e, rfl, hopened ▸ rfl⟩
      | ok u₂ => simp [h₁, h₂, Except.map] at hopened
    | ok u₁ =>
      cases h₂ : t₂.opened with
      | error e' => simp [h₁, h₂, Except.map] at hopened
      | ok u₂ =>
        have hu : u₁.Alike start ∧ u₂.Alike start :=
          ⟨(Traces.alike_opened h₁).trans h.1, (Traces.alike_opened h₂).trans h.2⟩
        exact Or.inr ⟨u₁, u₂, rfl, rfl, hu⟩
  closed h := ⟨(Traces.alike_closed _).trans h.1, (Traces.alike_closed _).trans h.2⟩

/-! ## Statements in a row -/

namespace Evaluator

/-- The statements after some others are executed where these end without a value. -/
theorem executeAll_append (callee : Callee) (fuel : Nat) (scope : Scope) (frames : Nat)
    (first second : List Node) :
    executeAll callee fuel scope frames (first ++ second) = (do
      match ← executeAll callee fuel scope frames first with
      | some value => return some value
      | none => executeAll callee fuel scope frames second) := by
  induction first with
  | nil => rfl
  | cons statement first ih =>
    simp only [List.cons_append, executeAll, ih, bind_assoc]
    congr 1
    funext result
    cases result <;> rfl

/-- The statements after a program are executed in its place. -/
theorem executeProgram_append (callee : Callee) (fuel frames : Nat) (first second : List Node) :
    executeProgram callee fuel frames (first ++ second) = (do
      match ← executeProgram callee fuel frames first with
      | some value => return some value
      | none => executeAll callee fuel Scope.root (frames + 1) second) := by
  simp only [executeProgram, nested, executeAll_append, bind_assoc]

theorem executeProgram_of_unlimited {m : Machine} (h : m.stack.limit = none) (callee : Callee)
    (fuel frames : Nat) (body : List Node) :
    executeProgram callee fuel frames body m
      = executeAll callee fuel Scope.root (frames + 1) body m := by
  have hroom : m.stack.allows (frames + 2) := by rw [Stack.allows, h]; rfl
  rw [executeProgram_of_allows hroom, Stack.reserve_of_none h]

/-- Statements leave traces like the ones they find. -/
theorem alike_executeAll (fuel : Nat) (scope : Scope) (frames : Nat) (statements : List Node)
    (m : Machine) :
    (executeAll (call fuel) fuel scope frames statements m).2.traces.Alike m.traces := by
  have hends := (TraceRelation.alike m.traces).ends_executeAll ⟨.refl _, .refl _⟩ fuel scope frames
    statements
  obtain ⟨_, t, _, ht, _⟩ := TraceRelation.of_ends hends
  exact ht

end Evaluator

namespace Machine

variable {m m₁ m₂ : Machine}

/-- Traces that were open once can be opened again. -/
theorem openTrace_closeTrace (hopen : m.openTrace = .ok m₁)
    (h : m₂.traces.Alike m₁.traces) :
    ∃ t, m₂.closeTrace.openTrace = .ok (m₂.withTraces t) ∧ t.Alike m₂.traces := by
  rw [openTrace_eq_withTraces] at hopen
  cases hstart : m.traces.opened with
  | error e => simp [hstart, Except.map] at hopen
  | ok u =>
    simp only [hstart, Except.map, Except.ok.injEq] at hopen
    subst hopen
    have halike : m₂.traces.closed.Alike m.traces :=
      (Traces.alike_closed _).trans (h.trans (Traces.alike_opened hstart))
    have hopened := halike.opened
    cases hagain : m₂.traces.closed.opened with
    | error e => simp [hstart, hagain, Except.map] at hopened
    | ok t =>
      refine ⟨t, ?_, (Traces.alike_opened hagain).trans (Traces.alike_closed _)⟩
      rw [openTrace_eq_withTraces, show m₂.closeTrace.traces = m₂.traces.closed from rfl, hagain]
      rfl

/-- Outcomes with traces alike are the same but for what was traced. -/
theorem same_of_ends {start : Traces} {x y : Except Failure (Option Value) × Machine}
    (h : (TraceRelation.alike start).lockstep.Ends 0 0 Eq x y) :
    x.1 = y.1 ∧ ∃ trace traceFile, x.2 = { y.2 with trace, traceFile } := by
  obtain ⟨hresult, t, hmachine, hx, ht⟩ := TraceRelation.of_ends h
  have halike := hx.trans ht.symm
  refine ⟨hresult, x.2.trace, x.2.traceFile, ?_⟩
  rw [hmachine]
  show x.2 = x.2.withTraces ⟨t.level, t.path, x.2.trace, x.2.traceFile⟩
  rw [← halike.level, ← halike.path]
  rfl

theorem finish_error_ne_ok {α : Type} (e : Failure) (m : Machine) (a : α) :
    (finish (.error e, m)).1 ≠ (.ok a : Except Failure α) := by
  cases e <;> exact nofun

/-- If the first piece gives a value or fails, the second one is left out. -/
theorem run_append_of_ne {fuel : Nat} {first : List Node} {m : Machine}
    (h : (run fuel first m).1 ≠ .ok none) (second : List Node) :
    run fuel (first ++ second) m = run fuel first m := by
  cases hopen : m.openTrace with
  | error e => rw [run_of_error hopen, run_of_error hopen]
  | ok m₁ =>
    rw [run_of_ok hopen] at h ⊢
    rw [run_of_ok hopen, executeProgram_append]
    rcases hfirst : executeProgram (call fuel) fuel m.stack.base first m₁ with ⟨result, m₂⟩
    rw [hfirst] at h
    cases result with
    | error e => rw [bind_of_error hfirst]
    | ok value =>
      rw [bind_of_ok hfirst]
      cases value with
      | some v => rfl
      | none => exact absurd rfl h

/-- On a stack without a limit, the second piece goes on where the first one ends. -/
theorem run_append_of_unlimited {m' : Machine} (hlimit : m.stack.limit = none) {fuel : Nat}
    {first : List Node} (h : run fuel first m = (.ok none, m')) (second : List Node) :
    (run fuel (first ++ second) m).1 = (run fuel second m').1 ∧
      ∃ trace traceFile, (run fuel (first ++ second) m).2
        = { (run fuel second m').2 with trace, traceFile } := by
  cases hopen : m.openTrace with
  | error e =>
    rw [run_of_error hopen] at h
    cases h
  | ok m₁ =>
    have hstack := stack_of_openTrace hopen
    have hlimit₁ : m₁.stack.limit = none := hstack ▸ hlimit
    rw [run_of_ok hopen, executeProgram_of_unlimited hlimit₁] at h
    rw [run_of_ok hopen, executeProgram_append]
    have halike := alike_executeAll fuel Scope.root (m.stack.base + 1) first m₁
    have hlater :=
      forward_executeAll (forward_call fuel) fuel Scope.root (m.stack.base + 1) first m₁
    rcases hfirst : executeAll (call fuel) fuel Scope.root (m.stack.base + 1) first m₁ with
      ⟨result, m₂⟩
    rw [hfirst] at h halike hlater
    have hstack₂ : m₂.stack = m.stack := (hlater.stack hlimit₁).trans hstack
    cases result with
    | error e => exact absurd (congrArg Prod.fst h) (finish_error_ne_ok e m₂ none)
    | ok value =>
      obtain rfl : value = none := Except.ok.inj (congrArg Prod.fst h)
      have hmachine : { m₂.closeTrace with stack := m.stack } = m' := congrArg Prod.snd h
      rw [← hstack₂] at hmachine
      obtain rfl : m₂.closeTrace = m' := hmachine
      -- the second piece starts with the file opened again, in the other run it is still open
      obtain ⟨t, hagain, ht⟩ := openTrace_closeTrace hopen halike
      have hlimit₂ : (m₂.withTraces t).stack.limit = none := hstack₂ ▸ hlimit
      have hstack' : m₂.closeTrace.stack = m.stack := hstack₂
      rw [bind_of_ok ((executeProgram_of_unlimited hlimit₁ ..).trans hfirst), run_of_ok hagain,
        executeProgram_of_unlimited hlimit₂, hstack']
      have hends := (TraceRelation.alike m₂.traces).ends_executeAll ⟨.refl _, ht⟩ fuel Scope.root
        (m.stack.base + 1) second
      exact same_of_ends (TraceRelation.ends_restore (TraceRelation.ends_finish hends) m.stack)

/-- A run leaves the stack as it is. -/
theorem stack_run (fuel : Nat) (body : List Node) (m : Machine) :
    (run fuel body m).2.stack = m.stack := by
  cases hopen : m.openTrace with
  | error e => rw [run_of_error hopen]
  | ok m₁ =>
    rw [run_of_ok hopen]
    rfl

theorem eq_of_unlimited (h : m₁.unlimited = m₂.unlimited) (hstack : m₁.stack = m₂.stack) :
    m₁ = m₂ := by
  have hback (m : Machine) : { m.unlimited with stack := m.stack } = m := rfl
  rw [← hback m₁, h, hstack, hback m₂]

/-- **A program can be run in pieces**, as far as the stack goes. If the first piece gives a value
or fails, then so does a run of both in one, and leaves the very same machine. Suppose that it ends
without a value. If neither a run of both pieces in one exhausts the stack nor a run of the second
piece on the machine that the first one leaves, then these two give the same, and leave the same
machine, up to the traces. In any case they do so or one of them ends at a limit, and one prints a
beginning of what the other prints. -/
theorem run_append (fuel : Nat) (first second : List Node) (m : Machine) :
    (∀ m', run fuel first m = (.ok none, m') →
      let both := run fuel (first ++ second) m
      let apart := run fuel second m'
      let same := both.1 = apart.1 ∧
        ∃ trace traceFile, both.2 = { apart.2 with trace, traceFile }
      (¬ m.Exhausts fuel (first ++ second) → ¬ m'.Exhausts fuel second → same) ∧
      (same ∨ both.1 = .error (.script (.recursionLimit m.calls.limit)) ∨
        apart.1 = .error (.script (.recursionLimit m.calls.limit))) ∧
      (both.2.output.toList <+: apart.2.output.toList ∨
        apart.2.output.toList <+: both.2.output.toList)) ∧
    ((run fuel first m).1 ≠ .ok none → run fuel (first ++ second) m = run fuel first m) := by
  refine ⟨fun m' hfirst => ?_, fun h => run_append_of_ne h second⟩
  intro both apart same
  have hunlimited : run fuel first m.unlimited = (.ok none, m'.unlimited) := by
    rcases run_unlimited fuel first m with hsame | ⟨hexhausted, -⟩
    · rw [hsame, hfirst]
    · rw [hfirst] at hexhausted
      cases hexhausted
  obtain ⟨hresult, trace, traceFile, hmachine⟩ := run_append_of_unlimited rfl hunlimited second
  have hleft : m' = (run fuel first m).2 := by rw [hfirst]
  have hsame (hboth : run fuel (first ++ second) m.unlimited = (both.1, both.2.unlimited))
      (hapart : run fuel second m'.unlimited = (apart.1, apart.2.unlimited)) : same := by
    rw [hboth, hapart] at hresult hmachine
    refine ⟨hresult, trace, traceFile, eq_of_unlimited hmachine ?_⟩
    calc both.2.stack
      _ = m.stack := stack_run ..
      _ = m'.stack := by rw [hleft, stack_run]
      _ = apart.2.stack := (stack_run ..).symm
  refine ⟨fun hboth hapart => ?_, ?_, ?_⟩
  · exact hsame (run_unlimited_of_not_exhausts hboth) (run_unlimited_of_not_exhausts hapart)
  · have hlimit : m'.calls.limit = m.calls.limit := hleft ▸ (forward_run fuel first m).limit
    rcases run_unlimited fuel (first ++ second) m with hboth | ⟨hboth, -⟩
    · rcases run_unlimited fuel second m' with hapart | ⟨hapart, -⟩
      · exact Or.inl (hsame hboth hapart)
      · exact Or.inr (Or.inr (hlimit ▸ hapart))
    · exact Or.inr (Or.inl hboth)
  · -- both print a beginning of what is printed on the stack without a limit
    have hboth := output_run_prefix fuel (first ++ second) m
    have hapart := output_run_prefix fuel second m'
    rw [hmachine] at hboth
    exact List.prefix_or_prefix_of_prefix hboth hapart

/-- An interpreter that traces to a file, with a line of input. -/
def tracing : Machine :=
  (new { debugLevel := 1, debugFile := some "trace" }).feed (some "line\n")

/-- A program that keeps a line of input and declares a function that prints it. -/
def declaring : List Node :=
  [.definition "x" (.input .text), .function "f" [] (.block [.print [.reference "x"]])]

/-- A program that calls the function, and then fails. -/
def calling : List Node :=
  [.callStatement "f" [], .print [.reference "y"]]

/-- The second piece uses what the first one declares, and is left out if the first one returns. -/
theorem run_append_declaring :
    (run 2 declaring tracing).1 = .ok none ∧
      (run 2 (declaring ++ calling) tracing).1 = .error (.script (.undefinedVariable "y")) ∧
      (run 2 (declaring ++ calling) tracing).2.output = #["line"] ∧
      (run 2 (declaring ++ calling) tracing).1 = (run 2 calling (run 2 declaring tracing).2).1 ∧
      (∃ trace traceFile, (run 2 (declaring ++ calling) tracing).2
        = { (run 2 calling (run 2 declaring tracing).2).2 with trace, traceFile }) ∧
      run 2 ([.returning (.literal .void)] ++ calling) tracing
        = run 2 [.returning (.literal .void)] tracing := by
  have hfirst : (run 2 declaring tracing).1 = .ok none := by decide +kernel
  have hfails : (run 2 (declaring ++ calling) tracing).1
      = .error (.script (.undefinedVariable "y")) := by decide +kernel
  have hfails' : (run 2 calling (run 2 declaring tracing).2).1
      = .error (.script (.undefinedVariable "y")) := by decide +kernel
  have hroom {m : Machine} {body : List Node}
      (h : (run 2 body m).1 = .error (.script (.undefinedVariable "y"))) :
      ¬ m.Exhausts 2 body := by
    intro hexhausts
    obtain ⟨limit, hlimit⟩ := hexhausts.exists_recursionLimit
    rw [h] at hlimit
    cases hlimit
  have hpieces := ((run_append 2 declaring calling tracing).1 (run 2 declaring tracing).2
    (Prod.ext hfirst rfl)).1 (hroom hfails) (hroom hfails')
  have hends := (run_append 2 [.returning (.literal .void)] calling tracing).2
    (by decide +kernel)
  exact ⟨hfirst, hfails, by decide +kernel, hpieces.1, hpieces.2, hends⟩

end Machine

/-! ## Pieces that exhaust the stack -/

/-- `1 - (1 - (… - 1))` with so many operators. -/
def Value.alternating (levels : Nat) : Value :=
  .integer (if levels % 2 = 0 then 1 else 0)

theorem Value.sub_alternating (levels : Nat) :
    (Operator.arithmetic .sub).apply (.integer 1) (alternating levels)
      = .ok (alternating (levels + 1)) := by
  rcases Nat.mod_two_eq_zero_or_one levels with h | h
  · have hnext : ¬ (levels + 1) % 2 = 0 := by omega
    rw [alternating, alternating, if_pos h, if_neg hnext]
    rfl
  · have hnext : (levels + 1) % 2 = 0 := by omega
    rw [alternating, alternating, if_neg (by omega), if_pos hnext]
    rfl

namespace Machine

/-- A program that calls a function inside so many subtractions. -/
def climbing (levels : Nat) : List Node :=
  [.function "f" [] (.block [.returning (.literal (.integer 1))]),
    .definition "x" (.subtractions (.integer 1) (.call "f" []) levels)]

/-- A program that only subtracts. -/
def subtracting (levels : Nat) : List Node :=
  [.returning (.subtractions (.integer 1) (.reference "x") levels)]

theorem exists_executeAll_climbing :
    ∃ m, executeAll (call 1) 1 Scope.root 2 (climbing 1800)
        { new {} with stack := (new {}).stack.reserve 3 } = (.ok none, m) ∧
      m.tracesToFile = false ∧ m.stack = ⟨some 5614, 1, 7⟩ ∧ m.calls = ⟨64, 0⟩ ∧
      m.scopes.lookup? Scope.root "x" = some (.integer 1) := by
  let start : Machine := { new {} with stack := (new {}).stack.reserve 3 }
  let f : Node := .function "f" [] (.block [.returning (.literal (.integer 1))])
  let declared := (execute (call 1) 1 Scope.root 3 f start).2
  let called := (evaluate (call 1) Scope.root 1804 (.call "f" []) [] declared).2
  have hdeclare : execute (call 1) 1 Scope.root 3 f start = (.ok none, declared) := rfl
  have hcall : evaluate (call 1) Scope.root 1804 (.call "f" []) [] declared
      = (.ok (Value.alternating 0), called) := Prod.ext (by decide +kernel) rfl
  have hvalue : value (call 1) Scope.root 3 (.subtractions (.integer 1) (.call "f" []) 1800)
      declared = (.ok (.integer 1), called) := by
    have hroom : declared.stack.allows (4 + 1800) := by decide +kernel
    have hroom' : called.stack.allows
        (4 + Node.subtractionFrames called.stack.operation 1800) := by
      rw [Node.subtractionFrames_succ]
      decide +kernel
    rw [value, nested_of_allows (Stack.allows_of_le hroom (by decide))]
    exact evaluate_subtractions Value.sub_alternating hroom hroom' hcall
  let defined : Machine :=
    { called with scopes := (called.scopes.define Scope.root "x" (.integer 1)).2 }
  have hdefine : execute (call 1) 1 Scope.root 3
      (.definition "x" (.subtractions (.integer 1) (.call "f" []) 1800)) declared
      = (.ok none, defined) := by
    have hnew : (called.scopes.define Scope.root "x" (.integer 1)).1 = .ok () := by
      decide +kernel
    have hupdate : updateScopes (·.define Scope.root "x" (.integer 1)) called
        = (.ok (), defined) := by
      rw [updateScopes_apply, hnew]
      rfl
    rw [execute, bind_of_ok hvalue, bind_of_ok hupdate]
    rfl
  refine ⟨defined, ?_, ?_, ?_, ?_, ?_⟩
  · rw [climbing, executeAll_cons_of_none hdeclare, executeAll_cons_of_none hdefine]
    rfl
  · decide +kernel
  · decide +kernel
  · decide +kernel
  · decide +kernel

/-- One run has room where two have not: a call deep inside the first piece makes the limit of the
stack higher, and the end of the run puts it back. -/
theorem run_climbing_subtracting :
    (run 1 (climbing 1800) (new {})).1 = .ok none ∧
      (run 1 (climbing 1800 ++ subtracting 4500) (new {})).1 = .ok (some (.integer 1)) ∧
      (run 1 (subtracting 4500) (run 1 (climbing 1800) (new {})).2).1
        = .error (.script (.recursionLimit 64)) := by
  obtain ⟨m, hfirst, hopen, hstack, hcalls, hlookup⟩ := exists_executeAll_climbing
  have hstart : (new {}).openTrace = .ok (new {}) := rfl
  have hprogram : executeProgram (call 1) 1 (new {}).stack.base (climbing 1800) (new {})
      = (.ok none, m) :=
    (executeProgram_of_allows (by decide) _).trans hfirst
  have hclimbing : run 1 (climbing 1800) (new {})
      = restore (new {}).stack (finish (.ok none, m)) := by
    rw [run_of_ok hstart, hprogram]
  have hinner {frames : Nat} {m' : Machine} (hscopes : m'.scopes = m.scopes) :
      evaluate (call 1) Scope.root frames (.reference "x") [] m'
        = (.ok (Value.alternating 0), m') := by
    rw [evaluate_reference, lookup_apply, hscopes, hlookup]
    rfl
  refine ⟨by rw [hclimbing]; rfl, ?_, ?_⟩
  · let frames := (new {}).stack.base + 1 + 2
    have hroom : m.stack.allows (frames + Node.subtractionFrames m.stack.operation 4500) := by
      rw [hstack, Node.subtractionFrames_succ]
      decide
    have hlevels : m.stack.allows (frames + 4500) :=
      Stack.allows_of_le hroom (Nat.add_le_add_left (Node.le_subtractionFrames ..) _)
    have hvalue : evaluate (call 1) Scope.root frames
        (.subtractions (.integer 1) (.reference "x") 4500) [] m = (.ok (.integer 1), m) :=
      evaluate_subtractions Value.sub_alternating hlevels hroom (hinner rfl)
    have hstatement : m.stack.allows frames := Stack.allows_of_le hlevels (by decide)
    rw [run_of_ok hstart, executeProgram_append, bind_of_ok hprogram]
    dsimp only
    rw [subtracting, executeAll_returning_of_allows hstatement, map_eq_pure_bind,
      bind_of_ok hvalue]
    rfl
  · rw [hclimbing]
    let again : Machine := { m.closeTrace with stack := (new {}).stack }
    have hagain : again.openTrace = .ok again := if_neg (Bool.eq_false_iff.1 hopen)
    have hlimit : again.calls.limit = 64 := congrArg Calls.limit hcalls
    let stack := (new {}).stack
    have hroom : stack.fits (Node.subtractionFrames stack.operation 4500) = false := by
      rw [Node.subtractionFrames_succ]
      decide
    rw [← hlimit]
    exact run_returning_of_not_fits (fun cost => Node.subtractionFrames cost 4500) hagain hroom
      fun hscopes hframes hdeep =>
        evaluate_subtractions_of_not_allows Value.sub_alternating hframes hdeep (hinner hscopes)

end Machine

end ScriptLang
