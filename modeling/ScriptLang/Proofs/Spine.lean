import ScriptLang.Evaluator

set_option autoImplicit false

/-! # Expressions without pending operations

`Evaluator.evaluate` walks a chain of operators down to its first operand and keeps the operations
that are still to be done. What is pending can be taken out (`evaluate_pending`): evaluating with
operations pending is evaluating without, followed by the operations. So an operator evaluates its
left operand, then its right one (`evaluate_binary`), as if there were no chains; only that a chain
on the left shares its frame. -/

namespace ScriptLang.Evaluator

open Exec

/-- The evaluation of a left operand, which has a frame of its own unless it goes on with a chain.
-/
def leftmost {α : Type} (frames : Nat) (node : Node) (inner : Nat → Exec α) : Exec α :=
  match node with
  | .binary _ _ _ => inner frames
  | _ => nested frames inner

variable (call : Callee) (scope : Scope) (frames : Nat)

/-- What is pending is done after the evaluation. -/
theorem evaluate_pending : ∀ (node : Node) (first : Value → Exec Value)
    (rest : List (Value → Exec Value)),
    evaluate call scope frames node (first :: rest)
      = leftmost frames node (fun frames => evaluate call scope frames node [])
        >>= resume (first :: rest)
  | .binary operator left right, first, rest => by
    -- both sides evaluate the left operand with nothing pending and then resume
    simp only [evaluate, leftmost]
    rw [evaluate_pending left, evaluate_pending left _ []]
    simp only [resume, bind_assoc, pure_bind]
  | .literal _, _, _ | .reference _, _, _ | .call _ _, _, _ | .input _, _, _ | .block _, _, _
  | .program _, _, _ | .print _, _, _ | .definition _ _, _, _ | .assignment _ _, _, _
  | .conditional _ _ _, _, _ | .loop _ _, _, _ | .function _ _ _, _, _ | .callStatement _ _, _, _
  | .returning _, _, _ | .expressionStatement _, _, _ | .valueStatement _, _, _
  | .fragment _, _, _ => rfl

theorem evaluate_literal (value : Value) :
    evaluate call scope frames (.literal value) [] = pure value := rfl

theorem evaluate_reference (name : String) :
    evaluate call scope frames (.reference name) [] = lookup scope name := rfl

/-- The left operand is evaluated first, then the right one, in one more frame. -/
theorem evaluate_binary (operator : Operator) (left right : Node) :
    evaluate call scope frames (.binary operator left right) [] = (do
      let a ← leftmost frames left fun frames => evaluate call scope frames left []
      let b ← nested frames fun frames => evaluate call scope frames right []
      operate frames operator a b) := by
  rw [evaluate, evaluate_pending]
  simp only [resume, bind_pure]

theorem evaluate_call (name : String) (arguments : List Node) :
    evaluate call scope frames (.call name arguments) [] = (do
      let values ← values call scope frames arguments
      nested frames fun frames => call frames name values scope) := rfl

theorem evaluate_input (kind : InputKind) :
    evaluate call scope frames (.input kind) [] = readInput kind := rfl

end ScriptLang.Evaluator
