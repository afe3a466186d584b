import ScriptLang.Proofs.Nesting
import ScriptLang.Proofs.Refusal
import ScriptLang.Proofs.Scopes
import ScriptLang.Proofs.Widening

set_option autoImplicit false

/-! # Minus signs before numbers and before variables

A minus sign before a number is part of the literal: the tree has the number with the other sign.
Before anything else it stands for a subtraction from zero, which is evaluated. The two agree for
all numbers that a literal can give but one, `0.0`: the literal `-0.0` is the negative zero, and the
difference `0 - 0.0` is the positive one (`Machine.runSource_signs`). -/

namespace ScriptLang

/-! ## Values -/

namespace Value

/-- The number with the other sign. -/
def negated : Value → Value
  | integer n => ofInt (-n.toInt)
  | float x => float x.neg
  | v => v

/-- Whether the value is a float that is zero. -/
def isZeroFloat : Value → Bool
  | float x => x.isZero
  | _ => false

theorem kind_negated (v : Value) : v.negated.kind = v.kind := by
  cases v <;> rfl

theorem isZeroFloat_negated (v : Value) : v.negated.isZeroFloat = v.isZeroFloat := by
  cases v with
  | float x => exact Floating.isZero_neg x
  | _ => rfl

/-- Subtracting a number from zero changes its sign, but a float that is zero becomes the positive
zero. -/
theorem zero_sub {v : Value} (h : v.kind.isNumeric = true) :
    (Operator.arithmetic .sub).apply (.integer 0) v
      = .ok (if v.isZeroFloat then .float (Floating.zero false) else v.negated) := by
  cases v with
  | integer n =>
    show Except.ok (ofInt (0 - n.toInt)) = .ok (ofInt (-n.toInt))
    rw [Int.zero_sub]
  | float x =>
    show Except.ok (float (Single.sub (Floating.zero false) x)) = _
    rw [Single.zero_sub, isZeroFloat, negated]
    cases x.isZero <;> rfl
  | void => cases h
  | string text => cases h
  | bool truth => cases h

theorem kind_iterate_negated (v : Value) (k : Nat) : (negated^[k] v).kind = v.kind := by
  induction k with
  | zero => rfl
  | succ k ih => rw [Function.iterate_succ_apply', kind_negated, ih]

theorem isZeroFloat_iterate_negated (v : Value) (k : Nat) :
    (negated^[k] v).isZeroFloat = v.isZeroFloat := by
  induction k with
  | zero => rfl
  | succ k ih => rw [Function.iterate_succ_apply', isZeroFloat_negated, ih]

/-- Whether the value is a number without a sign, as literals are. -/
def isUnsigned : Value → Bool
  | integer n => 0 ≤ n.toInt
  | float x => !x.isNegative
  | _ => false

theorem isNumeric_of_isUnsigned {v : Value} (h : v.isUnsigned = true) :
    v.kind.isNumeric = true := by
  cases v with
  | integer n => rfl
  | float x => rfl
  | _ => cases h

theorem eq_zero_of_isUnsigned {v : Value} (h : v.isUnsigned = true) (hzero : v.isZeroFloat = true) :
    v = .float (Floating.zero false) := by
  cases v with
  | float x =>
    cases x with
    | finite negative n e hcanonical =>
      obtain rfl : negative = false := by simpa [isUnsigned, Floating.isNegative] using h
      obtain rfl : n = 0 := by simpa [isZeroFloat, Floating.isZero] using hzero
      rw [Floating.eq_zero_of_canonical]
    | _ => cases hzero
  | _ => cases hzero

theorem isZeroFloat_iff {v : Value} (h : v.isUnsigned = true) :
    v.isZeroFloat = true ↔ v = .float (Floating.zero false) := by
  refine ⟨eq_zero_of_isUnsigned h, ?_⟩
  rintro rfl
  have hzero : (Floating.zero false : Single).isZero = true :=
    Floating.isZero_zero (by decide) false
  exact hzero

/-- What is left after subtracting from zero `k` times. -/
def subtracted (v : Value) (k : Nat) : Value :=
  if v.isZeroFloat then v else negated^[k] v

/-- One more subtraction. -/
theorem zero_sub_subtracted {v : Value} (h : v.isUnsigned = true) (k : Nat) :
    (Operator.arithmetic .sub).apply (.integer 0) (v.subtracted k)
      = .ok (v.subtracted (k + 1)) := by
  unfold subtracted
  by_cases hzero : v.isZeroFloat = true
  · rw [if_pos hzero, if_pos hzero, zero_sub (isNumeric_of_isUnsigned h), if_pos hzero,
      ← eq_zero_of_isUnsigned h hzero]
  · have hnumeric : (negated^[k] v).kind.isNumeric = true := by
      rw [kind_iterate_negated]
      exact isNumeric_of_isUnsigned h
    rw [if_neg hzero, if_neg hzero, zero_sub hnumeric, isZeroFloat_iterate_negated, if_neg hzero,
      Function.iterate_succ_apply']

/-- The positive zero has a negative sign after an odd number of changes. -/
theorem iterate_negated_zero (k : Nat) :
    negated^[k] (.float (Floating.zero false)) = .float (Floating.zero (k % 2 = 1)) := by
  induction k with
  | zero => rfl
  | succ k ih =>
    have hsign (negative : Bool) :
        negated (.float (Floating.zero negative)) = .float (Floating.zero (!negative)) := by
      cases negative <;> rfl
    have hodd : (!decide (k % 2 = 1)) = decide ((k + 1) % 2 = 1) := by
      rw [← decide_not]
      exact decide_eq_decide.2 (by omega)
    rw [Function.iterate_succ_apply', ih, hsign, hodd]

end Value

/-! ## Texts -/

/-- A number of minus signs. -/
def signs (k : Nat) : String :=
  String.ofList (List.replicate k '-')

theorem Source.passes_signs {code : List Char} (h : Passes code) (k : Nat) :
    Passes (List.replicate k '-' ++ code) := by
  induction k with
  | zero => exact h
  | succ k ih =>
    have hsign : Passes ['-'] := passes_ordinary (by decide)
    exact hsign.append ih

namespace Reader

variable {code : List Char} {e : Node}

theorem isExpression_negated (e : Node) : (Rule.negated e).isExpression = true := by
  unfold Rule.negated
  split <;> rfl

theorem isExpression_iterate_negated (he : e.isExpression = true) (k : Nat) :
    (Rule.negated^[k] e).isExpression = true := by
  cases k with
  | zero => exact he
  | succ k =>
    rw [Function.iterate_succ_apply']
    exact isExpression_negated _

/-- Signs before an operand negate it one after the other, the last sign first. -/
theorem ReadsOperand.signs (h : ReadsOperand code e) (he : e.isExpression = true) (k : Nat) :
    ReadsOperand (List.replicate k '-' ++ code) (Rule.negated^[k] e) := by
  induction k with
  | zero => exact h
  | succ k ih =>
    rw [Function.iterate_succ_apply']
    exact ih.negated (isExpression_iterate_negated he k)

end Reader

/-- Signs before a number make another number. -/
theorem Rule.iterate_negated_literal {v : Value} (h : v.kind.isNumeric = true) (k : Nat) :
    negated^[k] (.literal v) = .literal (Value.negated^[k] v) := by
  induction k with
  | zero => rfl
  | succ k ih =>
    rw [Function.iterate_succ_apply', Function.iterate_succ_apply', ih]
    have hnumeric : (Value.negated^[k] v).kind.isNumeric = true := by
      rw [Value.kind_iterate_negated, h]
    generalize Value.negated^[k] v = w at hnumeric
    cases w with
    | integer n => rfl
    | float x => rfl
    | _ => cases hnumeric

/-- Signs before a name are subtractions from zero. -/
theorem Rule.iterate_negated_reference (name : String) (k : Nat) :
    negated^[k] (.reference name) = .subtractions (.integer 0) (.reference name) k := by
  induction k with
  | zero => rfl
  | succ k ih =>
    rw [Function.iterate_succ_apply', ih]
    cases k <;> rfl

/-! ## Number literals -/

namespace Floating

variable {f g : Format}

theorem isNegative_ofParts (negative : Bool) (n : Nat) (e : Int) :
    (ofParts negative n e : Floating f).isNegative = negative := by
  unfold ofParts
  split <;> rfl

theorem isNegative_ofRatio (negative : Bool) (num den : Nat) :
    (ofRatio negative num den : Floating f).isNegative = negative := by
  unfold ofRatio
  split
  · exact isNegative_ofParts ..
  dsimp only
  split <;> exact isNegative_ofParts ..

theorem isNegative_convert (x : Floating f) :
    (x.convert : Floating g).isNegative = x.isNegative := by
  cases x with
  | nan => rfl
  | infinite negative => rfl
  | finite negative n e h => exact isNegative_ofRatio ..

end Floating

theorem Decimal.isNegative_round {f : Format} (negative : Bool) (d : Decimal) :
    (d.round negative : Floating f).isNegative = negative := by
  unfold round
  split
  · exact Floating.isNegative_ofParts ..
  split
  · rfl
  · exact Floating.isNegative_ofRatio ..

namespace Program

open Reader

variable {names : Text.Names}

/-- A whole number that is a program is an integer. -/
theorem whole_of_parse {digits : List Char} {body : List Node} (h : IsNumeral digits)
    (hbody : parse names (String.ofList digits) = .ok body) :
    digits.length ≤ Integer.maxDigits ∧ numeral digits ≤ 2147483647 := by
  obtain ⟨start, stop, tree, hread, hderives⟩ := Tree.read_numeral h
  have hproper : ∀ t ∈ [(⟨.whole, String.ofList digits, start⟩ : Token),
      ⟨.symbol .semicolon, ";", stop⟩], t.IsProper := by
    simp [Token.IsProper, Terminal.Matches, h, Symbol.text]
  rcases parse_of_derives hread hderives hproper with ⟨-, hsound⟩ | ⟨hlong, -⟩ | ⟨⟨e, herror, -⟩, -⟩
  · have hnumber := hsound _ (List.mem_cons_self ..)
    simpa [Token.isSound] using hnumber
  · cases hbody.symm.trans hlong
  · cases hbody.symm.trans herror

/-- A number text that is a program is a literal, and its value has no sign. -/
theorem exists_literal {t : String} {body : List Node}
    (ht : Terminal.whole.Matches t.toList ∨ Terminal.decimal.Matches t.toList)
    (hbody : parse names t = .ok body) :
    ∃ v, body = [.expressionStatement (.literal v)] ∧ v.isUnsigned = true ∧
      Source.Passes t.toList ∧ ReadsOperand t.toList (.literal v) := by
  have hliteral {v : Value} (hpasses : Source.Passes t.toList)
      (hreads : ReadsOperand t.toList (.literal v)) :
      body = [.expressionStatement (.literal v)] := by
    have hparse := @parse_line names _ _ hpasses (readsLine_literal hreads.alone)
    rw [hbody] at hparse
    exact Except.ok.inj hparse
  rcases ht with hwhole | ⟨whole, fraction, hcs, hwhole, hfraction⟩
  · obtain ⟨hlength, hn⟩ := @whole_of_parse names t.toList body hwhole
      (by rwa [String.ofList_toList])
    have hpasses := Source.passes_numeral hwhole
    have hreads := readsOperand_whole hwhole hlength hn
    refine ⟨_, hliteral hpasses hreads, ?_, hpasses, hreads⟩
    have hwrap : (Integer.wrap (numeral t.toList)).toInt = numeral t.toList :=
      Int32.toInt_ofInt_of_le (by omega) (by omega)
    simp [Value.ofInt, Value.isUnsigned, hwrap]
  · have hx := Double.readGrouped?_decimal hcs hwhole hfraction
    have hpasses := Source.passes_decimal hwhole hfraction
    have hreads := readsOperand_decimal hwhole hfraction (by rwa [← hcs, String.ofList_toList])
    rw [← hcs] at hpasses hreads
    refine ⟨_, hliteral hpasses hreads, ?_, hpasses, hreads⟩
    simp [Value.ofDouble, Value.isUnsigned, Floating.isNegative_convert, Decimal.isNegative_round]

variable {t : String} {v : Value}

theorem parse_signs_literal (names : Text.Names) (hv : v.isUnsigned = true)
    (hpasses : Source.Passes t.toList) (hreads : ReadsOperand t.toList (.literal v)) (k : Nat) :
    parse names ("return " ++ signs k ++ t)
      = .ok [.returning (.literal (Value.negated^[k] v))] := by
  have htext : ("return " ++ signs k ++ t).toList
      = "return ".toList ++ (List.replicate k '-' ++ t.toList) := by
    simp [signs]
  have hcode := hreads.signs rfl k
  rw [Rule.iterate_negated_literal (Value.isNumeric_of_isUnsigned hv)] at hcode
  apply parse_line
  · rw [htext]
    exact Source.passes_returning (Source.passes_signs hpasses k)
  · rw [htext]
    exact readsLine_returning rfl hcode.alone

theorem parse_signs_variable (names : Text.Names) (hpasses : Source.Passes t.toList)
    (hreads : ReadsOperand t.toList (.literal v)) (k : Nat) :
    parse names ("x := " ++ t ++ "\nreturn " ++ signs k ++ "x")
      = .ok [.definition "x" (.literal v), .returning (Rule.negated^[k] (.reference "x"))] := by
  have hname : isName "x" = true := by decide
  let first := ("x".toList ++ " := ".toList ++ t.toList, Node.definition "x" (.literal v))
  let second := ("return ".toList ++ (List.replicate k '-' ++ "x".toList),
    Node.returning (Rule.negated^[k] (.reference "x")))
  have htext : ("x := " ++ t ++ "\nreturn " ++ signs k ++ "x").toList
      = onLines [] ([first, second].map Prod.fst) := by
    simp [signs, onLines, first, second]
  have hvariable := (readsOperand_reference hname).signs rfl k
  refine parse_lines htext (by simp) ?_ ?_
  · exact List.forall_mem_cons.2 ⟨Source.passes_definition hname hpasses,
      List.forall_mem_singleton.2 (Source.passes_returning
        (Source.passes_signs (Source.passes_name hname) k))⟩
  · exact List.forall_mem_cons.2 ⟨readsLine_definition hname rfl hreads.alone,
      List.forall_mem_singleton.2 (readsLine_returning
        (isExpression_iterate_negated rfl k) hvariable.alone)⟩

end Program

/-! ## Evaluation -/

theorem Scopes.lookup?_bindVariable {scopes : Scopes} {scope : Scope}
    (h : scope.here < scopes.frames.size) (name : String) (v : Value) :
    (scopes.bindVariable scope.here name v).lookup? scope name = some v := by
  simp [lookup?, Scope.chain, valueAt?, frame_bindVariable, h, Bindings.find?_insert]

namespace Evaluator

open Exec

/-- Subtractions from zero nest. -/
theorem evaluate_signs (call : Callee) {scope : Scope} {name : String} {m : Machine} {v : Value}
    (hv : v.isUnsigned = true) (hlookup : m.scopes.lookup? scope name = some v) {k frames : Nat}
    (hframes : m.stack.allows frames) :
    evaluate call scope frames (Rule.negated^[k] (.reference name)) [] m
      = (if m.stack.allows (frames + Node.subtractionFrames m.stack.operation k) then
          .ok (v.subtracted k) else .error .exhausted, m) := by
  have hvariable : evaluate call scope (frames + k) (.reference name) [] m
      = (.ok (v.subtracted 0), m) := by
    have hsubtracted : v.subtracted 0 = v := by simp [Value.subtracted]
    rw [evaluate_reference, lookup_apply, hlookup, hsubtracted]
  have hvalues := Value.zero_sub_subtracted hv
  rw [Rule.iterate_negated_reference]
  cases hroom : m.stack.allows (frames + Node.subtractionFrames m.stack.operation k) with
  | false => exact evaluate_subtractions_of_not_allows hvalues hframes hroom hvariable
  | true =>
    have hlevels : m.stack.allows (frames + k) :=
      Stack.allows_of_le hroom (Nat.add_le_add_left (Node.le_subtractionFrames ..) _)
    exact evaluate_subtractions hvalues hlevels hroom hvariable

/-- A name that is defined for the first time has its value from then on. -/
theorem execute_definition (call : Callee) (fuel : Nat) {scope : Scope} {name : String}
    {m : Machine} (hscope : scope.here < m.scopes.frames.size)
    (hnew : m.scopes.valueAt? scope.here name = none) {frames : Nat}
    (hroom : m.stack.allows (frames + 1)) (v : Value) :
    ∃ m', execute call fuel scope frames (.definition name (.literal v)) m = (.ok none, m') ∧
      m'.scopes.lookup? scope name = some v ∧ m'.calls = m.calls ∧ m'.stack = m.stack := by
  have hvalue : value call scope frames (.literal v) m = (.ok v, m) := nested_of_allows hroom _
  have hupdate : updateScopes (fun scopes => scopes.define scope name v) m
      = (.ok (), { m with scopes := m.scopes.bindVariable scope.here name v }) := by
    rw [updateScopes_apply, Scopes.define, if_neg (by simp [hnew])]
    rfl
  have hlookup := Scopes.lookup?_bindVariable hscope name v
  rw [execute, bind_of_ok hvalue, bind_of_ok hupdate]
  refine ⟨_, rfl, ?_⟩
  dsimp only
  -- the definition may be traced, which changes neither the scopes nor the calls nor the stack
  split
  · unfold Machine.traced
    split <;> exact ⟨hlookup, rfl, rfl⟩
  · exact ⟨hlookup, rfl, rfl⟩

end Evaluator

namespace Machine

open Evaluator Exec

theorem runSource_of_parse {names : Text.Names} {source : String} {body : List Node}
    (h : Program.parse names source = .ok body) (fuel : Nat) (m : Machine) :
    runSource fuel names source m = run fuel body m := by
  unfold runSource Evaluator.runText
  rw [h]

theorem exists_openTrace_new (config : Config) (stack : Stack) :
    ∃ m, ({ new config with stack } : Machine).openTrace = .ok m ∧
      m.scopes = Scopes.new (!config.allowRedefinition) ∧
      m.calls.limit = config.recursionLimit := by
  unfold openTrace
  split
  · exact ⟨_, rfl, rfl, rfl⟩
  · exact ⟨_, rfl, rfl, rfl⟩

/-- A number that is returned is the result, if the program can run at all. -/
theorem run_literal (config : Config) (stack : Stack) (fuel : Nat) (v : Value) :
    (run fuel [.returning (.literal v)] { new config with stack }).1
      = if stack.fits 0 then .ok (some v)
        else .error (.script (.recursionLimit config.recursionLimit)) := by
  obtain ⟨m, hopen, -⟩ := exists_openTrace_new config stack
  have hfits : stack.fits 0 = stack.allows (stack.base + 2) := by
    rw [Stack.fits, Nat.add_zero, stack.allows_statement, Bool.and_true]
  rw [hfits]
  cases hstart : stack.allows (stack.base + 2) with
  | false => exact run_of_not_allows hopen hstart _
  | true =>
    rw [run_returning hopen hstart]
    rfl

/-- Signs before a variable are subtractions, if the stack has room for them. -/
theorem run_signs {v : Value} (hv : v.isUnsigned = true) (config : Config) (stack : Stack)
    (fuel k : Nat) :
    (run fuel [.definition "x" (.literal v), .returning (Rule.negated^[k] (.reference "x"))]
        { new config with stack }).1
      = if stack.fits (Node.subtractionFrames stack.operation k) then .ok (some (v.subtracted k))
        else .error (.script (.recursionLimit config.recursionLimit)) := by
  obtain ⟨m, hopen, hscopes, hlimit⟩ := exists_openTrace_new config stack
  rw [Stack.fits]
  cases hstart : stack.allows (stack.base + 2) with
  | false => exact run_of_not_allows hopen hstart _
  | true =>
    let start : Machine := { m with stack := stack.reserve (stack.base + 2) }
    have hscope : Scope.root.here < start.scopes.frames.size := by
      rw [show start.scopes = _ from hscopes]
      exact Nat.one_pos
    have hnew : start.scopes.valueAt? Scope.root.here "x" = none := by
      rw [show start.scopes = _ from hscopes]
      rfl
    obtain ⟨m', hdefinition, hlookup, hcalls, hstack⟩ :=
      execute_definition (call fuel) fuel hscope hnew stack.allows_statement v
    have hoperation : m'.stack.operation = stack.operation := by
      rw [hstack]
      rfl
    have hroom : m'.stack.allows (stack.base + 3) := by
      rw [hstack]
      exact stack.allows_statement
    rw [run_of_allows hopen hstart, executeAll_cons_of_none hdefinition,
      executeAll_returning_of_allows hroom, map_eq_pure_bind, bind_apply,
      evaluate_signs (call fuel) hv hlookup hroom, hoperation, hstack, Bool.true_and]
    cases (stack.reserve (stack.base + 2)).allows
      (stack.base + 3 + Node.subtractionFrames stack.operation k) with
    | true => rfl
    | false =>
      rw [← hlimit]
      exact congrArg (fun calls => Except.error (Failure.script (.recursionLimit calls.limit)))
        hcalls

/-- **Signs before a number and before a variable agree, unless the number is `0.0`.** A number text
is the literal of a number. The same text after some signs gives the number with its sign changed as
often, on any stack that a program can run on. If a variable has the number as its value, then as
many signs before the variable give the same, as long as the stack has room for the subtractions.
Only a float that is zero stays as it is, and so an odd number of signs tells the two apart. -/
theorem runSource_signs {names : Text.Names} {t : String} {body : List Node}
    (ht : Terminal.whole.Matches t.toList ∨ Terminal.decimal.Matches t.toList)
    (hbody : Program.parse names t = .ok body) (config : Config) (stack : Stack) (fuel k : Nat) :
    ∃ v, body = [.expressionStatement (.literal v)] ∧
      let result := fun source => (runSource fuel names source { new config with stack }).1
      let folded := result ("return " ++ signs k ++ t)
      let evaluated := result ("x := " ++ t ++ "\nreturn " ++ signs k ++ "x")
      let refused := .error (.script (.recursionLimit config.recursionLimit))
      let room := stack.fits (Node.subtractionFrames stack.operation k)
      folded = (if stack.fits 0 then .ok (some (Value.negated^[k] v)) else refused) ∧
      (v ≠ .float (Floating.zero false) → room → evaluated = folded) ∧
      (v = .float (Floating.zero false) →
        (stack.fits 0 → folded = .ok (some (.float (Floating.zero (k % 2 = 1))))) ∧
        (room → evaluated = .ok (some (.float (Floating.zero false))))) ∧
      (room = false → evaluated = refused) ∧
      (Value.float (Floating.zero false)).display = "0" ∧
      (Value.float (Floating.zero true)).display = "-0" := by
  obtain ⟨v, hv, hunsigned, hpasses, hreads⟩ := Program.exists_literal ht hbody
  have hfolded := Program.parse_signs_literal names hunsigned hpasses hreads k
  have hevaluated := Program.parse_signs_variable names hpasses hreads k
  refine ⟨v, hv, ?_⟩
  dsimp only
  rw [runSource_of_parse hfolded, runSource_of_parse hevaluated, run_literal,
    run_signs hunsigned config stack fuel k, Value.subtracted]
  refine ⟨rfl, fun hzero hk => ?_, fun hzero => ⟨fun hstart => ?_, fun hk => ?_⟩, fun hk => ?_, ?_⟩
  · rw [if_pos hk, if_pos (Stack.fits_of_le hk (Nat.zero_le _)),
      if_neg (mt (Value.isZeroFloat_iff hunsigned).1 hzero)]
  · rw [if_pos hstart, hzero, Value.iterate_negated_zero]
  · rw [if_pos hk, if_pos ((Value.isZeroFloat_iff hunsigned).2 hzero), hzero]
  · rw [hk]
    rfl
  · decide +kernel

/-- A sign before `0.0`, and before a variable with this value. -/
theorem runSource_signs_zero :
    Terminal.decimal.Matches "0.0".toList ∧
      Program.parse Text.unnamed "0.0"
        = .ok [.expressionStatement (.literal (.float (Floating.zero false)))] ∧
      (runSource 0 Text.unnamed "return -0.0" (new {})).1
        = .ok (some (.float (Floating.zero true))) ∧
      (runSource 0 Text.unnamed "x := 0.0\nreturn -x" (new {})).1
        = .ok (some (.float (Floating.zero false))) := by
  have hdigit : IsNumeral ['0'] := ⟨by simp, List.forall_mem_singleton.2 (by decide)⟩
  have hmatches : Terminal.decimal.Matches "0.0".toList := ⟨['0'], ['0'], rfl, hdigit, hdigit⟩
  have hparse : Program.parse Text.unnamed "0.0"
      = .ok [.expressionStatement (.literal (.float (Floating.zero false)))] := by
    have hread : Double.readGrouped? "0.0" = some (Floating.zero false) := by decide +kernel
    have hparse := @Program.parse_decimal Text.unnamed _ _ _ hdigit hdigit hread
    rwa [Value.ofDouble, Floating.convert_zero (by decide)] at hparse
  obtain ⟨v, hv, -, -, hzero, -⟩ := runSource_signs (.inr hmatches) hparse {} {} 0 1
  obtain rfl : v = .float (Floating.zero false) := by simpa using hv.symm
  obtain ⟨hfolded, hevaluated⟩ := hzero rfl
  exact ⟨hmatches, hparse, hfolded (by decide), hevaluated (by decide)⟩

end Machine

end ScriptLang
