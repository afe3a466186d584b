import ScriptLang.Proofs.Progress

set_option autoImplicit false

/-! # How deep expressions can nest

Each right operand of an operator is evaluated in one more frame of the stack, and the operator is
applied in some more, so how deep expressions can nest depends on the stack alone. A program first
reserves frames; `Stack.fits` says how many the expressions of its statements can then take.
Subtractions inside each other (`Node.subtractions`) take one each, and the innermost those of the
operator (`Node.subtractionFrames`). -/

namespace ScriptLang

open Exec

/-! ## Stacks -/

namespace Stack

variable {stack : Stack} {m n : Nat}

theorem allows_of_le (h : stack.allows n) (hle : m ≤ n) : stack.allows m := by
  unfold allows at *
  cases hlimit : stack.limit with
  | none => rfl
  | some limit =>
    rw [hlimit] at h
    simp only [Option.all_some, decide_eq_true_eq] at h ⊢
    omega

theorem not_allows_of_le (h : stack.allows m = false) (hle : m ≤ n) : stack.allows n = false :=
  Bool.eq_false_iff.2 fun hn => Bool.eq_false_iff.1 h (allows_of_le hn hle)

theorem allows_add_max (stack : Stack) (frames m n : Nat) :
    stack.allows (frames + max m n) = (stack.allows (frames + m) && stack.allows (frames + n)) := by
  unfold allows
  cases stack.limit with
  | none => rfl
  | some limit =>
    simp only [Option.all_some, ← Bool.decide_and]
    exact decide_eq_decide.2 (by omega)

/-- After frames are reserved, as many as the margin are free. -/
theorem allows_reserve (stack : Stack) (frames : Nat) :
    (stack.reserve frames).allows (frames + margin) := by
  unfold reserve allows
  cases stack.limit with
  | none => rfl
  | some limit =>
    simp only [Option.map_some, Option.all_some, decide_eq_true_eq]
    split <;> omega

/-- After a run has reserved frames, there is room to evaluate the expressions of its statements. -/
theorem allows_statement (stack : Stack) :
    (stack.reserve (stack.base + 2)).allows (stack.base + 3) :=
  allows_of_le (stack.allows_reserve _) (by unfold margin; omega)

/-- Whether the expressions of a program's statements have room for so many frames above their own.
A run takes its frames at `base`, and an expression of a statement starts three frames above. -/
def fits (stack : Stack) (frames : Nat) : Bool :=
  stack.allows (stack.base + 2) && (stack.reserve (stack.base + 2)).allows (stack.base + 3 + frames)

theorem fits_of_le (h : stack.fits n) (hle : m ≤ n) : stack.fits m := by
  simp only [fits, Bool.and_eq_true] at h ⊢
  exact ⟨h.1, allows_of_le h.2 (by omega)⟩

end Stack

/-! ## Statements -/

namespace Evaluator

variable {call : Callee} {fuel : Nat} {scope : Scope} {frames : Nat} {m : Machine}

/-- A program starts if there is room to reserve its frames. -/
theorem executeProgram_of_allows (h : m.stack.allows (frames + 2)) (body : List Node) :
    executeProgram call fuel frames body m
      = executeAll call fuel Scope.root (frames + 1) body
          { m with stack := m.stack.reserve (frames + 2) } := by
  have hroom : (m.stack.reserve (frames + 2)).allows (frames + 1) :=
    Stack.allows_of_le (m.stack.allows_reserve _) (by omega)
  rw [executeProgram, bind_of_ok (reserve_of_allows h), nested_of_allows hroom]

theorem executeProgram_of_not_allows (h : m.stack.allows (frames + 2) = false) (body : List Node) :
    executeProgram call fuel frames body m = (.error .exhausted, m) := by
  rw [executeProgram, bind_of_error]
  rw [reserve, bind_of_error (demand_of_not_allows h)]

/-- A statement that returns nothing is followed by the next one. -/
theorem executeAll_cons_of_none {statement : Node} {m' : Machine}
    (h : execute call fuel scope (frames + 1) statement m = (.ok none, m'))
    (statements : List Node) :
    executeAll call fuel scope frames (statement :: statements) m
      = executeAll call fuel scope frames statements m' := by
  rw [executeAll, bind_of_ok h]

/-- What is returned is evaluated two frames above the row of statements. -/
theorem executeAll_returning_of_allows (hroom : m.stack.allows (frames + 2)) (e : Node) :
    executeAll call fuel scope frames [.returning e] m
      = (some <$> evaluate call scope (frames + 2) e []) m := by
  rw [executeAll_returning, map_eq_pure_bind, map_eq_pure_bind, bind_apply, bind_apply, value,
    nested_of_allows hroom]

end Evaluator

namespace Machine

open Evaluator

variable {m m' : Machine} {fuel : Nat} {e : Node}

/-- A run reserves frames and executes the statements one frame above its own. -/
theorem run_of_allows (hopen : m.openTrace = .ok m') (hroom : m.stack.allows (m.stack.base + 2))
    (body : List Node) :
    run fuel body m = restore m.stack (finish
      (executeAll (call fuel) fuel Scope.root (m.stack.base + 1) body
        { m' with stack := m.stack.reserve (m.stack.base + 2) })) := by
  have hstack := stack_of_openTrace hopen
  rw [run_of_ok hopen, executeProgram_of_allows (by rwa [hstack]), hstack]

theorem run_of_not_allows (hopen : m.openTrace = .ok m')
    (hroom : m.stack.allows (m.stack.base + 2) = false) (body : List Node) :
    (run fuel body m).1 = .error (.script (.recursionLimit m.calls.limit)) := by
  have hstack := stack_of_openTrace hopen
  rw [run_of_ok hopen, executeProgram_of_not_allows (by rwa [hstack]),
    ← (later_openTrace hopen).limit]
  rfl

/-- A program that only returns evaluates the expression three frames above its own. -/
theorem run_returning (hopen : m.openTrace = .ok m') (hroom : m.stack.allows (m.stack.base + 2)) :
    run fuel [.returning e] m = restore m.stack (finish
      ((some <$> evaluate (call fuel) Scope.root (m.stack.base + 3) e [])
        { m' with stack := m.stack.reserve (m.stack.base + 2) })) := by
  rw [run_of_allows hopen hroom, executeAll_returning_of_allows m.stack.allows_statement]

/-- An expression that nests so deep that the stack is exhausted ends the run. How many frames it
takes depends on how many an operator takes. -/
theorem run_returning_of_not_fits (needed : Nat → Nat) (hopen : m.openTrace = .ok m')
    (hroom : m.stack.fits (needed m.stack.operation) = false)
    (hdeep : ∀ {frames : Nat} {start : Machine}, start.scopes = m'.scopes →
      start.stack.allows frames →
      start.stack.allows (frames + needed start.stack.operation) = false →
      evaluate (call fuel) Scope.root frames e [] start = (.error .exhausted, start)) :
    (run fuel [.returning e] m).1 = .error (.script (.recursionLimit m.calls.limit)) := by
  cases hstart : m.stack.allows (m.stack.base + 2) with
  | false => exact run_of_not_allows hopen hstart _
  | true =>
    rw [Stack.fits, hstart, Bool.true_and] at hroom
    let start : Machine := { m' with stack := m.stack.reserve (m.stack.base + 2) }
    have hvalue := @hdeep _ start rfl m.stack.allows_statement hroom
    rw [run_returning hopen hstart, map_eq_pure_bind, bind_of_error hvalue,
      ← (later_openTrace hopen).limit]
    rfl

end Machine

/-! ## Subtractions inside each other -/

/-- `left - (left - (… - inner))` with so many operators. -/
def Node.subtractions (left : Value) (inner : Node) : (levels : Nat) → Node
  | 0 => inner
  | levels + 1 => .binary (.arithmetic .sub) (.literal left) (subtractions left inner levels)

/-- How many frames above its own an expression takes for so many subtractions inside each other, if
an operator takes `operation`. -/
def Node.subtractionFrames (operation : Nat) : (levels : Nat) → Nat
  | 0 => 0
  | levels + 1 => max (subtractionFrames operation levels + 1) operation

theorem Node.subtractionFrames_succ (operation levels : Nat) :
    subtractionFrames operation (levels + 1) = levels + max 1 operation := by
  induction levels with
  | zero => simp only [subtractionFrames, Nat.zero_add]
  | succ levels ih =>
    rw [subtractionFrames, ih]
    omega

theorem Node.le_subtractionFrames (operation levels : Nat) :
    levels ≤ subtractionFrames operation levels := by
  cases levels with
  | zero => exact Nat.zero_le _
  | succ levels =>
    rw [subtractionFrames_succ]
    omega

namespace Evaluator

variable {call : Callee} {scope : Scope} {left : Value} {inner : Node}

theorem leftmost_literal (frames : Nat) :
    leftmost frames (.literal left) (fun frames => evaluate call scope frames (.literal left) [])
      = nested frames fun _ => pure left := rfl

variable {values : Nat → Value}
  (hvalues : ∀ k, (Operator.arithmetic .sub).apply left (values k) = .ok (values (k + 1)))
  {levels frames : Nat} {m m' : Machine}

include hvalues

/-- Each subtraction takes one more frame for its operands. What is inside can leave another stack,
on which they are applied. -/
theorem evaluate_subtractions (hroom : m.stack.allows (frames + levels))
    (hroom' : m'.stack.allows (frames + Node.subtractionFrames m'.stack.operation levels))
    (h : evaluate call scope (frames + levels) inner [] m = (.ok (values 0), m')) :
    evaluate call scope frames (.subtractions left inner levels) [] m
      = (.ok (values levels), m') := by
  induction levels generalizing frames with
  | zero => exact h
  | succ levels ih =>
    have hframe : m.stack.allows (frames + 1) := Stack.allows_of_le hroom (by omega)
    rw [Node.subtractionFrames, Stack.allows_add_max, Bool.and_eq_true] at hroom'
    have hright := @ih (frames + 1) (by rwa [Nat.add_right_comm, Nat.add_assoc])
      (by rw [Nat.add_right_comm, Nat.add_assoc]; exact hroom'.1)
      (by rwa [Nat.add_right_comm, Nat.add_assoc])
    rw [Node.subtractions, evaluate_binary, leftmost_literal,
      bind_of_ok (nested_of_allows hframe _),
      bind_of_ok ((nested_of_allows hframe _).trans hright), operate_apply, if_pos hroom'.2,
      hvalues]

/-- Without room for all of them there is no result. -/
theorem evaluate_subtractions_of_not_allows (hframes : m.stack.allows frames)
    (hroom : m.stack.allows (frames + Node.subtractionFrames m.stack.operation levels) = false)
    (h : evaluate call scope (frames + levels) inner [] m = (.ok (values 0), m)) :
    evaluate call scope frames (.subtractions left inner levels) [] m
      = (.error .exhausted, m) := by
  induction levels generalizing frames with
  | zero => exact absurd hframes (Bool.eq_false_iff.1 hroom)
  | succ levels ih =>
    rw [Node.subtractions, evaluate_binary, leftmost_literal]
    cases hframe : m.stack.allows (frames + 1) with
    | false => rw [bind_of_error (nested_of_not_allows hframe _)]
    | true =>
      rw [bind_of_ok (nested_of_allows hframe _)]
      rw [Nat.add_comm levels, ← Nat.add_assoc] at h
      cases hinner : m.stack.allows
          (frames + 1 + Node.subtractionFrames m.stack.operation levels) with
      | false => rw [bind_of_error ((nested_of_allows hframe _).trans (ih hframe hinner h))]
      | true =>
        -- the operands have values, so it is the operator that lacks room
        have hoperation : m.stack.allows (frames + m.stack.operation) = false := by
          rw [Node.subtractionFrames, Stack.allows_add_max, Nat.add_comm _ 1, ← Nat.add_assoc,
            hinner, Bool.true_and] at hroom
          exact hroom
        have hlevels : m.stack.allows (frames + 1 + levels) :=
          Stack.allows_of_le hinner (Nat.add_le_add_left (Node.le_subtractionFrames ..) _)
        have hright := evaluate_subtractions hvalues hlevels hinner h
        rw [bind_of_ok ((nested_of_allows hframe _).trans hright), operate_apply, hoperation]
        rfl

end Evaluator

end ScriptLang
