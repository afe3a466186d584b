import ScriptLang.Proofs.Nesting

set_option autoImplicit false

/-! # Integer expressions as machine arithmetic

An expression of integer literals and arithmetic operators (`Calculation`) can be computed over
32-bit words, where sums, differences and products wrap around and the signed division truncates
(`Calculation.word?`). The evaluator works on integers of any size and wraps after each operation.
Both give the same result (`Evaluator.evaluate_toNode`), as long as the stack has room for the
frames that the evaluation takes (`Calculation.frames`). Without it the run ends
(`Machine.run_toNode`). -/

namespace ScriptLang

/-! ## Operations on words -/

namespace Integer

/-- The remainder that lies between the least and the greatest 32-bit number. -/
theorem toInt_wrap (n : Int) :
    (wrap n).toInt = (n + 2147483648) % 4294967296 - 2147483648 := by
  have hbmod : (wrap n).toInt = n.bmod 4294967296 := Int32.toInt_ofInt
  rw [hbmod, Int.bmod_def]
  omega

theorem toBitVec_wrap (n : Int) : (wrap n).toBitVec = BitVec.ofInt 32 n :=
  Int32.toBitVec_ofInt n

theorem ofInt_toInt (n : Int32) : BitVec.ofInt 32 n.toInt = n.toBitVec := by
  rw [← Int32.toInt_toBitVec, BitVec.ofInt_toInt]

/-- A number is zero exactly if its word is. -/
theorem toBitVec_eq_zero_iff (n : Int32) : n.toBitVec = 0 ↔ n.toInt = 0 := by
  rw [← Int32.toInt_toBitVec, ← BitVec.toInt_inj]
  rfl

/-- A word stands for one of the 32-bit numbers. -/
theorem toInt_mem_range (w : BitVec 32) : -2147483648 ≤ w.toInt ∧ w.toInt ≤ 2147483647 := by
  have hlow := BitVec.le_toInt w
  have hhigh := @BitVec.toInt_lt _ w
  omega

end Integer

namespace Arithmetic

/-- An operation on 32-bit words; there is no division by zero. -/
def onWords (operation : Arithmetic) (a b : BitVec 32) : Option (BitVec 32) :=
  match operation with
  | .sum => some (a + b)
  | .sub => some (a - b)
  | .mult => some (a * b)
  | .div => if b = 0 then none else some (a.sdiv b)

/-- The one quotient that is out of range. -/
example : div.onWords (BitVec.intMin 32) (-1) = some (BitVec.intMin 32) := by
  decide

/-- An operation on integers of any size, without wrapping. -/
def onExact (operation : Arithmetic) (m n : Int) : Int :=
  match operation with
  | .sum => m + n
  | .sub => m - n
  | .mult => m * n
  | .div => m.tdiv n

end Arithmetic

/-- The value of a word, or the error if there is none. -/
def Value.ofWord? : Option (BitVec 32) → Except ScriptError Value
  | some w => .ok (.integer (Int32.ofBitVec w))
  | none => .error .divideByZero

theorem Value.ofWord?_ofInt (n : Int) : ofWord? (some (BitVec.ofInt 32 n)) = .ok (ofInt n) := by
  rw [ofWord?, Int32.ofBitVec_ofInt, ofInt, Integer.wrap]

namespace Arithmetic

open Integer

/-- Reducing to 32 bits turns exact operations other than the division into operations on words. -/
theorem onWords_ofInt {operation : Arithmetic} (h : operation ≠ .div) (m n : Int) :
    operation.onWords (BitVec.ofInt 32 m) (BitVec.ofInt 32 n)
      = some (BitVec.ofInt 32 (operation.onExact m n)) := by
  cases operation with
  | sum => rw [onWords, onExact, BitVec.ofInt_add]
  | sub => rw [onWords, onExact, Int.sub_eq_add_neg, BitVec.ofInt_add, BitVec.ofInt_neg,
      BitVec.sub_eq_add_neg]
  | mult => rw [onWords, onExact, BitVec.ofInt_mul]
  | div => exact absurd rfl h

/-- The signed division of words truncates; the one quotient that is out of range wraps around. -/
theorem sdiv_toBitVec (m n : Int32) :
    m.toBitVec.sdiv n.toBitVec = BitVec.ofInt 32 (m.toInt.tdiv n.toInt) := by
  rw [← BitVec.toInt_inj, BitVec.toInt_sdiv, BitVec.toInt_ofInt, Int32.toInt_toBitVec,
    Int32.toInt_toBitVec]

/-- Operations on integers are operations on their words. -/
theorem onIntegers_eq (operation : Arithmetic) (m n : Int32) :
    operation.onIntegers m n = Value.ofWord? (operation.onWords m.toBitVec n.toBitVec) := by
  by_cases hdiv : operation = .div
  · subst hdiv
    by_cases hn : n.toInt = 0
    · rw [onWords, if_pos ((toBitVec_eq_zero_iff n).2 hn), onIntegers, quotient?, if_pos hn]
      rfl
    · rw [onWords, if_neg (hn ∘ (toBitVec_eq_zero_iff n).1), sdiv_toBitVec, Value.ofWord?_ofInt,
        onIntegers, quotient?, if_neg hn]
  · rw [← ofInt_toInt m, ← ofInt_toInt n, onWords_ofInt hdiv, Value.ofWord?_ofInt]
    cases operation with
    | sum | sub | mult => rfl
    | div => exact absurd rfl hdiv

end Arithmetic

/-! ## Calculations -/

/-- An expression of integer literals and arithmetic operators. -/
inductive Calculation where
  | literal (n : Int32)
  | apply (operation : Arithmetic) (left right : Calculation)

namespace Calculation

/-- The syntax tree of a calculation. -/
def toNode : Calculation → Node
  | literal n => .literal (.integer n)
  | apply operation left right => .binary (.arithmetic operation) left.toNode right.toNode

/-- The result over 32-bit words, the left operand first; there is none if a divisor is zero. -/
def word? : Calculation → Option (BitVec 32)
  | literal n => some n.toBitVec
  | apply operation left right => do operation.onWords (← left.word?) (← right.word?)

/-- The result over integers of any size. -/
def exact : Calculation → Int
  | literal n => n.toInt
  | apply operation left right => operation.onExact left.exact right.exact

/-- The operators of a calculation. -/
def operations : Calculation → List Arithmetic
  | literal _ => []
  | apply operation left right => operation :: left.operations ++ right.operations

/-- How many frames above its own the evaluation takes, if an operator takes `cost` when it is
applied. The operands of an operator have one frame more than it, only that an operator on the left
goes on with the chain. A right operand is not evaluated at all if the left one divides by zero, and
an operator is not applied unless both operands have results. -/
def frames (cost : Nat) : Calculation → Nat
  | literal _ => 0
  | apply _ left right =>
    max (max 1 (left.frames cost))
      (if left.word?.isSome then
        max (right.frames cost + 1) (if right.word?.isSome then cost else 0)
      else 0)

theorem frames_apply_ne_zero (cost : Nat) (operation : Arithmetic) (left right : Calculation) :
    (apply operation left right).frames cost ≠ 0 := by
  rw [frames]
  omega

/-- Without division, the word is the exact result reduced to 32 bits. -/
theorem word?_eq_exact : ∀ {e : Calculation}, .div ∉ e.operations →
    e.word? = some (BitVec.ofInt 32 e.exact)
  | literal n, _ => congrArg some (Integer.ofInt_toInt n).symm
  | apply operation left right, h => by
    simp only [operations, List.cons_append, List.mem_cons, List.mem_append, not_or] at h
    obtain ⟨hoperation, hleft, hright⟩ := h
    rw [word?, word?_eq_exact hleft, word?_eq_exact hright, exact]
    exact Arithmetic.onWords_ofInt (Ne.symm hoperation) left.exact right.exact

/-- What a calculation gives: its result if there is room for it, and a failure otherwise. -/
def within (e : Calculation) (room : Bool) : Except Failure Value :=
  if room then (Value.ofWord? e.word?).mapError .script else .error .exhausted

theorem within_none {e : Calculation} (h : e.word? = none) :
    e.within true = .error (.script .divideByZero) := by
  rw [within, if_pos rfl, h]
  rfl

theorem within_some {e : Calculation} {w : BitVec 32} (h : e.word? = some w) :
    e.within true = .ok (.integer (Int32.ofBitVec w)) := by
  rw [within, if_pos rfl, h]
  rfl

/-- An operator takes the result of its left operand, then that of the right one, for which there
must be room only if there is a result on the left. There must be room for the operator itself only
if both have results. -/
theorem within_apply (operation : Arithmetic) (left right : Calculation)
    (room room' room'' : Bool) :
    (do
      let a ← left.within room
      let b ← right.within room'
      if room'' then (Operator.arithmetic operation).apply a b else .error .exhausted)
      = (apply operation left right).within
          (room && (!left.word?.isSome || room' && (!right.word?.isSome || room''))) := by
  cases room with
  | false => rfl
  | true =>
    cases ha : left.word? with
    | none =>
      have hword : (apply operation left right).word? = none := by
        rw [word?, ha]
        rfl
      rw [within_none ha, Option.isSome_none, Bool.not_false, Bool.true_or, Bool.and_true,
        within_none hword]
      rfl
    | some a =>
      rw [within_some ha, Option.isSome_some, Bool.not_true, Bool.false_or, Bool.true_and]
      cases room' with
      | false => rfl
      | true =>
        cases hb : right.word? with
        | none =>
          have hword : (apply operation left right).word? = none := by
            rw [word?, ha, hb]
            rfl
          rw [within_none hb, Option.isSome_none, Bool.not_false, Bool.true_or, Bool.true_and,
            within_none hword]
          rfl
        | some b =>
          rw [within_some hb, Option.isSome_some, Bool.not_true, Bool.false_or, Bool.true_and]
          cases room'' with
          | false => rfl
          | true =>
            have hword : (apply operation left right).word? = operation.onWords a b := by
              rw [word?, ha, hb]
              rfl
            rw [within, if_pos rfl, hword]
            exact congrArg (Except.mapError Failure.script)
              (operation.onIntegers_eq (Int32.ofBitVec a) (Int32.ofBitVec b))

/-- There is room for an operator if there is room for its operands, and to apply it. -/
theorem allows_apply (stack : Stack) (start cost : Nat) (operation : Arithmetic)
    (left right : Calculation) :
    stack.allows (start + (apply operation left right).frames cost)
      = (stack.allows (start + max 1 (left.frames cost)) &&
        (!left.word?.isSome || stack.allows (start + 1 + right.frames cost) &&
          (!right.word?.isSome || stack.allows (start + cost)))) := by
  rw [frames]
  cases left.word?.isSome with
  | false =>
    rw [if_neg Bool.false_ne_true, Nat.max_eq_left (Nat.zero_le _), Bool.not_false, Bool.true_or,
      Bool.and_true]
  | true =>
    rw [if_pos rfl, Stack.allows_add_max, Bool.not_true, Bool.false_or, Nat.add_assoc start 1,
      Nat.add_comm 1]
    cases right.word?.isSome with
    | false =>
      rw [if_neg Bool.false_ne_true, Nat.max_eq_left (Nat.zero_le _), Bool.not_false, Bool.true_or,
        Bool.and_true]
    | true =>
      rw [if_pos rfl, stack.allows_add_max start (right.frames cost + 1), Bool.not_true,
        Bool.false_or]

end Calculation

namespace Evaluator

open Exec

variable (call : Callee) (scope : Scope)

/-- In a frame of its own, a calculation needs room for that too. -/
theorem nested_toNode {e : Calculation} {frames needed : Nat} {m : Machine}
    (h : evaluate call scope (frames + 1) e.toNode [] m
      = (e.within (needed == 0 || m.stack.allows (frames + 1 + needed)), m)) :
    nested frames (fun frames => evaluate call scope frames e.toNode []) m
      = (e.within (m.stack.allows (frames + 1 + needed)), m) := by
  cases hframe : m.stack.allows (frames + 1) with
  | true =>
    rw [nested_of_allows hframe, h]
    by_cases hneeded : needed = 0
    · rw [hneeded, Nat.add_zero, hframe, Bool.or_true]
    · rw [beq_false_of_ne hneeded, Bool.false_or]
  | false =>
    rw [nested_of_not_allows hframe, Stack.not_allows_of_le hframe (Nat.le_add_right ..)]
    rfl

/-- The evaluation of a calculation leaves the machine as it is and gives the result over words, if
there is room for it. -/
theorem evaluate_toNode (m : Machine) : ∀ (e : Calculation) (frames : Nat),
    evaluate call scope frames e.toNode [] m
      = (e.within (e.frames m.stack.operation == 0 ||
          m.stack.allows (frames + e.frames m.stack.operation)), m)
  | .literal n, frames => rfl
  | .apply operation left right, frames => by
    have hleft : leftmost frames left.toNode
        (fun frames => evaluate call scope frames left.toNode []) m
          = (left.within (m.stack.allows (frames + max 1 (left.frames m.stack.operation))), m) := by
      cases left with
      | literal n => exact @nested_toNode call scope (.literal n) frames 0 m rfl
      | apply operation' left' right' =>
        have hchain := evaluate_toNode m (.apply operation' left' right') frames
        have hneeded := Calculation.frames_apply_ne_zero m.stack.operation operation' left' right'
        rw [beq_false_of_ne hneeded, Bool.false_or] at hchain
        rw [Nat.max_eq_right (Nat.one_le_iff_ne_zero.2 hneeded)]
        exact hchain
    have hright := nested_toNode call scope (evaluate_toNode m right (frames + 1))
    rw [beq_false_of_ne (Calculation.frames_apply_ne_zero _ _ _ _), Bool.false_or,
      Calculation.allows_apply, ← Calculation.within_apply, Calculation.toNode, evaluate_binary,
      bind_apply, hleft]
    cases left.within (m.stack.allows (frames + max 1 (left.frames m.stack.operation))) with
    | error failure => rfl
    | ok a =>
      dsimp only
      rw [bind_apply, hright]
      cases right.within (m.stack.allows (frames + 1 + right.frames m.stack.operation)) with
      | error failure => rfl
      | ok b => exact operate_apply frames (.arithmetic operation) a b m

/-- A calculation takes more frames than there is room for. -/
theorem evaluate_toNode_of_not_allows {e : Calculation} {frames : Nat} {m : Machine}
    (hframes : m.stack.allows frames)
    (hroom : m.stack.allows (frames + e.frames m.stack.operation) = false) :
    evaluate call scope frames e.toNode [] m = (.error .exhausted, m) := by
  have hneeded : e.frames m.stack.operation ≠ 0 := by
    intro hzero
    rw [hzero, Nat.add_zero, hframes] at hroom
    cases hroom
  rw [evaluate_toNode, beq_false_of_ne hneeded, hroom]
  rfl

end Evaluator

/-- A program that returns a calculation gives the result over words, and the error exactly if a
divisor is zero there, if the stack has room for it. Otherwise the run ends for lack of room. -/
theorem Machine.run_toNode (e : Calculation) (fuel : Nat) {m m' : Machine}
    (hopen : m.openTrace = .ok m') :
    (run fuel [.returning e.toNode] m).1
      = if m.stack.fits (e.frames m.stack.operation) then
          match e.word? with
          | some w => .ok (some (.integer (Int32.ofBitVec w)))
          | none => .error (.script .divideByZero)
        else .error (.script (.recursionLimit m.calls.limit)) := by
  cases hroom : m.stack.fits (e.frames m.stack.operation) with
  | false =>
    exact run_returning_of_not_fits (fun cost => e.frames cost) hopen hroom fun _ hframes hdeep =>
      Evaluator.evaluate_toNode_of_not_allows _ _ hframes hdeep
  | true =>
    rw [Stack.fits, Bool.and_eq_true] at hroom
    have hvalue (m' : Machine) (hstack : m'.stack = m.stack.reserve (m.stack.base + 2)) :
        Evaluator.evaluate (Evaluator.call fuel) Scope.root (m.stack.base + 3) e.toNode [] m'
          = (e.within true, m') := by
      have hoperation : m'.stack.operation = m.stack.operation := by rw [hstack]; rfl
      rw [Evaluator.evaluate_toNode, hoperation, hstack, hroom.2, Bool.or_true]
    rw [run_returning hopen hroom.1, map_eq_pure_bind, Exec.bind_apply, hvalue _ rfl]
    cases hword : e.word? with
    | none => rw [Calculation.within_none hword]; rfl
    | some w => rw [Calculation.within_some hword]; rfl

namespace Evaluator

variable (call : Callee) (scope : Scope)

/-- Integer expressions are machine arithmetic: the evaluation gives the result over 32-bit words,
and the error exactly if a divisor is zero there, where the stack has room for the frames that it
takes. So does a program that returns the expression, and without enough room the run ends with an
error of its own. The result is a 32-bit number, and without division it is the exact result,
wrapped once. -/
theorem evaluate_calculation (frames : Nat) (e : Calculation) (m : Machine) :
    let needed := e.frames m.stack.operation
    evaluate call scope frames e.toNode [] m
        = (if needed = 0 ∨ m.stack.allows (frames + needed) then
            match e.word? with
            | some w => .ok (.integer (Int32.ofBitVec w))
            | none => .error (.script .divideByZero)
          else .error .exhausted, m)
      ∧ (∀ fuel m', m.openTrace = .ok m' → (Machine.run fuel [.returning e.toNode] m).1
        = if m.stack.fits needed then
            match e.word? with
            | some w => .ok (some (.integer (Int32.ofBitVec w)))
            | none => .error (.script .divideByZero)
          else .error (.script (.recursionLimit m.calls.limit)))
      ∧ (∀ w, e.word? = some w → (Int32.ofBitVec w).toInt = w.toInt
        ∧ -2147483648 ≤ w.toInt ∧ w.toInt ≤ 2147483647)
      ∧ (.div ∉ e.operations → e.word? = some (Integer.wrap e.exact).toBitVec
        ∧ (Integer.wrap e.exact).toInt = (e.exact + 2147483648) % 4294967296 - 2147483648) := by
  refine ⟨?_, fun fuel m' hopen => Machine.run_toNode e fuel hopen,
    fun w _ => ⟨rfl, Integer.toInt_mem_range w⟩, fun hdiv => ⟨?_, Integer.toInt_wrap e.exact⟩⟩
  · rw [evaluate_toNode, Calculation.within]
    simp only [Bool.or_eq_true, beq_iff_eq]
    cases e.word? <;> rfl
  · rw [Integer.toBitVec_wrap, Calculation.word?_eq_exact hdiv]

/-- One more than the greatest number is the least one. -/
theorem evaluate_calculation_overflow :
    let e := Calculation.apply .sum (.literal 2147483647) (.literal 1)
    .div ∉ e.operations ∧ (Machine.new {}).openTrace = .ok (Machine.new {})
      ∧ evaluate (Evaluator.call 0) Scope.root 1 e.toNode [] (Machine.new {})
        = (.ok (.integer Int32.minValue), Machine.new {})
      ∧ (Machine.run 0 [.returning e.toNode] (Machine.new {})).1
        = .ok (some (.integer Int32.minValue))
      ∧ e.word? = some (Integer.wrap e.exact).toBitVec := by
  intro e
  have hdiv : .div ∉ e.operations := by decide
  have hopen : (Machine.new {}).openTrace = .ok (Machine.new {}) := rfl
  have h := evaluate_calculation (Evaluator.call 0) Scope.root 1 e (Machine.new {})
  exact ⟨hdiv, hopen, h.1, h.2.1 0 _ hopen, (h.2.2.2 hdiv).1⟩

end Evaluator

/-! ## Calculations without enough room -/

namespace Calculation

/-- `1 - (1 - (… - 1))` with `n` operators. -/
def comb : (n : Nat) → Calculation
  | 0 => literal 1
  | n + 1 => apply .sub (literal 1) (comb n)

theorem word?_comb : ∀ n : Nat, (comb n).word? = some (if n % 2 = 0 then 1 else 0)
  | 0 => rfl
  | n + 1 => by
    rw [comb, word?, word?_comb n]
    rcases Nat.mod_two_eq_zero_or_one n with h | h
    · simp [word?, Arithmetic.onWords, h, Nat.add_mod]
    · simp [word?, Arithmetic.onWords, h, Nat.add_mod]

theorem frames_comb (cost : Nat) : ∀ n : Nat,
    (comb n).frames cost = Node.subtractionFrames cost n
  | 0 => rfl
  | n + 1 => by
    rw [comb, frames, frames_comb cost n, word?_comb n]
    simp only [frames, word?, Option.isSome_some, if_true, Node.subtractionFrames]
    omega

end Calculation

namespace Machine

/-- A calculation can be too deep to be evaluated, though it has a result over words. -/
theorem run_comb_deep :
    (Calculation.comb 4500).word? = some 1
      ∧ (run ampleFuel [.returning (Calculation.comb 4500).toNode] (new {})).1
        = .error (.script (.recursionLimit 64)) := by
  have hopen : (new {}).openTrace = .ok (new {}) := rfl
  have hroom : (new {}).stack.fits ((Calculation.comb 4500).frames (new {}).stack.operation)
      = false := by
    rw [Calculation.frames_comb, Node.subtractionFrames_succ]
    decide
  refine ⟨Calculation.word?_comb 4500, ?_⟩
  rw [run_toNode _ _ hopen, hroom]
  rfl

end Machine

end ScriptLang
