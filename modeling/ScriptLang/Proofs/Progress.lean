import ScriptLang.Proofs.Spine

set_option autoImplicit false

/-! # How a machine moves on

Whatever a run does, some things stay or change in one direction only: the settings, the functions
of the host, the limit of calls and a stack without a limit stay, scopes are added and never
removed, output is appended and input is taken off the front. `Machine.Later` says this of two
machines and `Exec.Forward` of a computation; there is one lemma per action, and `Exec.Forward.bind`
puts actions together. -/

namespace ScriptLang

/-! ## Computations applied to a machine -/

/-- The value that a line of input is read as. -/
def InputKind.read (kind : InputKind) (line : List Char) : Except Failure Value :=
  let text := String.ofList (Text.trim line)
  match kind with
  | .number =>
    match Double.read? text with
    | some x => .ok (Value.ofDouble x)
    | none => .error (.script (.unreadableNumber text .float))
  | .text | .other _ => .ok (.string text)

namespace Exec

variable {α β : Type}

@[simp]
theorem pure_apply (a : α) (m : Machine) : (pure a : Exec α) m = (.ok a, m) := rfl

@[simp]
theorem throw_apply (e : Failure) (m : Machine) : (throw e : Exec α) m = (.error e, m) := rfl

@[simp]
theorem get_apply (m : Machine) : (get : Exec Machine) m = (.ok m, m) := rfl

@[simp]
theorem modify_apply (f : Machine → Machine) (m : Machine) :
    (modify f : Exec Unit) m = (.ok (), f m) := rfl

@[simp]
theorem modifyGet_apply (f : Machine → α × Machine) (m : Machine) :
    (modifyGet f : Exec α) m = (.ok (f m).1, (f m).2) := rfl

/-- A computation goes on with the value and the machine that the one before it leaves; a failure
ends both. -/
theorem bind_apply (x : Exec α) (f : α → Exec β) (m : Machine) :
    (x >>= f) m = match x m with
      | (.ok a, m) => f a m
      | (.error e, m) => (.error e, m) := by
  show (ExceptT.bind x f) m = _
  simp only [ExceptT.bind, ExceptT.mk, bind, StateT.bind]
  rcases x m with ⟨r, m'⟩
  cases r <;> rfl

theorem bind_of_ok {x : Exec α} {m m' : Machine} {a : α} (h : x m = (.ok a, m'))
    (f : α → Exec β) : (x >>= f) m = f a m' := by
  rw [bind_apply, h]

theorem bind_of_error {x : Exec α} {m m' : Machine} {e : Failure} (h : x m = (.error e, m'))
    (f : α → Exec β) : (x >>= f) m = (.error e, m') := by
  rw [bind_apply, h]

@[simp]
theorem ofExcept_apply (r : Except ScriptError α) (m : Machine) :
    ofExcept r m = (r.mapError Failure.script, m) := by
  cases r <;> rfl

theorem updateScopes_apply (update : Scopes → Except ScriptError Unit × Scopes) (m : Machine) :
    updateScopes update m
      = ((update m.scopes).1.mapError Failure.script,
          { m with scopes := (update m.scopes).2 }) := by
  unfold updateScopes
  rw [bind_of_ok (modifyGet_apply ..), ofExcept_apply]

theorem lookup_apply (scope : Scope) (name : String) (m : Machine) :
    lookup scope name m = (match m.scopes.lookup? scope name with
      | some value => .ok value
      | none => .error (.script (.undefinedVariable name)), m) := by
  unfold lookup
  rw [bind_of_ok (get_apply m)]
  cases m.scopes.lookup? scope name <;> rfl

theorem readLine_apply (m : Machine) :
    readLine m = match m.input with
      | none => (.error (.script .noInput), m)
      | some cs => (.ok (cs.takeWhile (· ≠ '\n')),
          { m with input := some (cs.drop ((cs.takeWhile (· ≠ '\n')).length + 1)) }) := by
  unfold readLine
  rw [bind_of_ok (get_apply m)]
  cases h : m.input <;> rfl

theorem readInput_apply (kind : InputKind) (m : Machine) :
    readInput kind m = match m.input with
      | none => (.error (.script .noInput), m)
      | some cs => (kind.read (cs.takeWhile (· ≠ '\n')),
          { m with input := some (cs.drop ((cs.takeWhile (· ≠ '\n')).length + 1)) }) := by
  have hline := readLine_apply m
  unfold readInput
  cases hinput : m.input with
  | none =>
    rw [hinput] at hline
    exact bind_of_error hline _
  | some cs =>
    rw [hinput] at hline
    rw [bind_of_ok hline]
    unfold InputKind.read
    cases kind with
    | number =>
      dsimp only
      cases Double.read? (String.ofList (Text.trim (cs.takeWhile (· ≠ '\n')))) <;> rfl
    | text => rfl
    | other name => rfl

theorem enterCall_apply (m : Machine) :
    enterCall m
      = (m.calls.enter.1.mapError Failure.script, { m with calls := m.calls.enter.2 }) := by
  unfold enterCall
  rw [bind_of_ok (get_apply m)]
  show (modify (fun m' : Machine => { m' with calls := m.calls.enter.2 }) >>=
    fun _ => ofExcept m.calls.enter.1) m = _
  rw [bind_of_ok (modify_apply ..), ofExcept_apply]

/-- A call that the limit allows is counted. -/
theorem enterCall_of_lt {m : Machine} (h : m.calls.depth < m.calls.limit) :
    enterCall m = (.ok (), { m with calls := { m.calls with depth := m.calls.depth + 1 } }) := by
  rw [enterCall_apply, Calls.enter, if_neg (by omega)]
  rfl

/-- A call beyond the limit fails and gives up all active calls. -/
theorem enterCall_of_le {m : Machine} (h : m.calls.limit ≤ m.calls.depth) :
    enterCall m = (.error (.script (.recursionLimit m.calls.limit)), m.resetCalls) := by
  rw [enterCall_apply, Calls.enter, if_pos (by omega)]
  rfl

theorem demand_apply (needed : Stack → Nat) (m : Machine) :
    demand needed m
      = (if m.stack.allows (needed m.stack) then .ok () else .error .exhausted, m) := by
  unfold demand
  rw [bind_of_ok (get_apply m)]
  cases m.stack.allows (needed m.stack) <;> rfl

theorem demand_of_allows {needed : Stack → Nat} {m : Machine}
    (h : m.stack.allows (needed m.stack)) : demand needed m = (.ok (), m) := by
  rw [demand_apply, if_pos h]

theorem demand_of_not_allows {needed : Stack → Nat} {m : Machine}
    (h : m.stack.allows (needed m.stack) = false) : demand needed m = (.error .exhausted, m) := by
  rw [demand_apply, h]
  rfl

/-- An operator gives its result if there are frames for it, and leaves the machine as it is. -/
theorem operate_apply (frames : Nat) (operator : Operator) (a b : Value) (m : Machine) :
    operate frames operator a b m
      = (if m.stack.allows (frames + m.stack.operation) then operator.apply a b
          else .error .exhausted, m) := by
  unfold operate
  cases hroom : m.stack.allows (frames + m.stack.operation) with
  | true =>
    rw [bind_of_ok (demand_of_allows hroom)]
    cases operator.apply a b <;> rfl
  | false => rw [bind_of_error (demand_of_not_allows hroom)]; rfl

theorem reserve_of_allows {frames : Nat} {m : Machine} (h : m.stack.allows (frames + 2)) :
    reserve frames m = (.ok (), { m with stack := m.stack.reserve (frames + 2) }) := by
  unfold reserve
  rw [bind_of_ok (demand_of_allows h), modify_apply]

theorem nested_of_allows {frames : Nat} {m : Machine} (h : m.stack.allows (frames + 1))
    (inner : Nat → Exec α) : nested frames inner m = inner (frames + 1) m := by
  unfold nested
  rw [bind_of_ok (demand_of_allows h)]

theorem nested_of_not_allows {frames : Nat} {m : Machine}
    (h : m.stack.allows (frames + 1) = false) (inner : Nat → Exec α) :
    nested frames inner m = (.error .exhausted, m) := by
  unfold nested
  rw [bind_of_error (demand_of_not_allows h)]

end Exec

/-! ## Later machines -/

/-- A stack without a limit has room for everything. -/
theorem Stack.reserve_of_none {stack : Stack} (h : stack.limit = none) (frames : Nat) :
    stack.reserve frames = stack := by
  unfold reserve
  rw [h, Option.map_none, ← h]

/-- `after` has the scopes of `before` and perhaps more of them. -/
structure Scopes.Later (before after : Scopes) : Prop where
  strict : after.strict = before.strict
  size : before.frames.size ≤ after.frames.size

/-- `after` is what a run can have made of `before`. -/
structure Machine.Later (before after : Machine) : Prop where
  config : after.config = before.config
  hosts : after.hosts = before.hosts
  limit : after.calls.limit = before.calls.limit
  scopes : before.scopes.Later after.scopes
  output : before.output.toList <+: after.output.toList
  input : Option.Rel (· <:+ ·) after.input before.input
  stack : before.stack.limit = none → after.stack = before.stack

theorem Scopes.Later.refl (scopes : Scopes) : scopes.Later scopes :=
  ⟨rfl, Nat.le_refl _⟩

theorem Scopes.Later.trans {a b c : Scopes} (h : a.Later b) (h' : b.Later c) : a.Later c :=
  ⟨h'.strict.trans h.strict, Nat.le_trans h.size h'.size⟩

private theorem suffix_refl (input : Option (List Char)) : Option.Rel (· <:+ ·) input input := by
  cases input with
  | none => exact .none
  | some cs => exact .some (List.suffix_refl cs)

private theorem suffix_trans {a b c : Option (List Char)} (h : Option.Rel (· <:+ ·) b a)
    (h' : Option.Rel (· <:+ ·) c b) : Option.Rel (· <:+ ·) c a := by
  cases h with
  | none => exact h'
  | some h => cases h' with
    | some h' => exact .some (h'.trans h)

theorem Machine.Later.refl (m : Machine) : m.Later m :=
  ⟨rfl, rfl, rfl, .refl _, List.prefix_refl _, suffix_refl _, fun _ => rfl⟩

theorem Machine.Later.trans {a b c : Machine} (h : a.Later b) (h' : b.Later c) : a.Later c where
  config := h'.config.trans h.config
  hosts := h'.hosts.trans h.hosts
  limit := h'.limit.trans h.limit
  scopes := h.scopes.trans h'.scopes
  output := h.output.trans h'.output
  input := suffix_trans h.input h'.input
  stack hlimit := by
    have hstack := h.stack hlimit
    exact (h'.stack (hstack ▸ hlimit)).trans hstack

/-! ## Scopes move on -/

namespace Scopes

theorem later_child (scopes : Scopes) (scope : Scope) : scopes.Later (scopes.child scope).2 :=
  ⟨rfl, by simp [child]⟩

theorem later_bindVariable (scopes : Scopes) (number : Nat) (name : String) (value : Value) :
    scopes.Later (scopes.bindVariable number name value) :=
  ⟨rfl, by simp [bindVariable]⟩

theorem later_define (scopes : Scopes) (scope : Scope) (name : String) (value : Value) :
    scopes.Later (scopes.define scope name value).2 := by
  unfold define
  split
  · exact .refl _
  · exact scopes.later_bindVariable ..

theorem later_assign (scopes : Scopes) (scope : Scope) (name : String) (value : Value) :
    scopes.Later (scopes.assign scope name value).2 := by
  unfold assign
  split
  · exact .refl _
  · exact scopes.later_bindVariable ..

theorem later_declare (scopes : Scopes) (scope : Scope) (f : Function) :
    scopes.Later (scopes.declare scope f) :=
  ⟨rfl, by simp [declare]⟩

end Scopes

/-! ## Actions move on -/

namespace Machine

theorem later_of_scopes {m : Machine} {scopes : Scopes} (h : m.scopes.Later scopes) :
    m.Later { m with scopes } :=
  ⟨rfl, rfl, rfl, h, List.prefix_refl _, suffix_refl _, fun _ => rfl⟩

theorem later_of_calls {m : Machine} {calls : Calls} (h : calls.limit = m.calls.limit) :
    m.Later { m with calls } :=
  ⟨rfl, rfl, h, .refl _, List.prefix_refl _, suffix_refl _, fun _ => rfl⟩

theorem later_of_stack {m : Machine} {stack : Stack}
    (h : m.stack.limit = none → stack = m.stack) : m.Later { m with stack } :=
  ⟨rfl, rfl, rfl, .refl _, List.prefix_refl _, suffix_refl _, h⟩

theorem later_reserve (m : Machine) (frames : Nat) :
    m.Later { m with stack := m.stack.reserve frames } :=
  later_of_stack (Stack.reserve_of_none · frames)

theorem later_traced (m : Machine) (line : String) : m.Later (m.traced line) := by
  unfold traced
  split
  · exact ⟨rfl, rfl, rfl, .refl _, List.prefix_refl _, suffix_refl _, fun _ => rfl⟩
  · exact ⟨rfl, rfl, rfl, .refl _, List.prefix_refl _, suffix_refl _, fun _ => rfl⟩

theorem later_resetCalls (m : Machine) : m.Later m.resetCalls :=
  later_of_calls rfl

theorem later_closeTrace (m : Machine) : m.Later m.closeTrace :=
  ⟨rfl, rfl, rfl, .refl _, List.prefix_refl _, suffix_refl _, fun _ => rfl⟩

/-- Opening the file for traces changes nothing else. -/
theorem eq_of_openTrace {m m' : Machine} (h : m.openTrace = .ok m') :
    ∃ traceFile, m' = { m with traceFile } := by
  unfold openTrace at h
  split at h
  · cases hc : m.traceFile.content with
    | error e => simp [hc, Except.map] at h
    | ok text =>
      simp only [hc, Except.map, Except.ok.injEq] at h
      exact ⟨_, h.symm⟩
  · cases h
    exact ⟨_, rfl⟩

theorem stack_of_openTrace {m m' : Machine} (h : m.openTrace = .ok m') : m'.stack = m.stack := by
  obtain ⟨traceFile, rfl⟩ := eq_of_openTrace h
  rfl

theorem later_openTrace {m m' : Machine} (h : m.openTrace = .ok m') : m.Later m' := by
  obtain ⟨traceFile, rfl⟩ := eq_of_openTrace h
  exact ⟨rfl, rfl, rfl, .refl _, List.prefix_refl _, suffix_refl _, fun _ => rfl⟩

end Machine

/-- Whether a computation only moves machines on. -/
def Exec.Forward {α : Type} (x : Exec α) : Prop :=
  ∀ m : Machine, m.Later (x m).2

namespace Exec

variable {α β : Type}

theorem forward_pure (a : α) : (pure a : Exec α).Forward :=
  fun m => .refl m

theorem forward_throw (e : Failure) : (throw e : Exec α).Forward :=
  fun m => .refl m

theorem Forward.bind {x : Exec α} {f : α → Exec β} (hx : x.Forward) (hf : ∀ a, (f a).Forward) :
    (x >>= f).Forward := by
  intro m
  have h := hx m
  rcases hxm : x m with ⟨r, m'⟩
  rw [hxm] at h
  cases r with
  | ok a =>
    rw [bind_of_ok hxm]
    exact h.trans (hf a m')
  | error e =>
    rw [bind_of_error hxm]
    exact h

theorem forward_get : (get : Exec Machine).Forward :=
  fun m => .refl m

theorem forward_ofExcept (r : Except ScriptError α) : (ofExcept r).Forward := by
  intro m
  rw [ofExcept_apply]
  exact .refl m

theorem forward_operate (frames : Nat) (operator : Operator) (a b : Value) :
    (operate frames operator a b).Forward := by
  intro m
  rw [operate_apply]
  exact .refl m

theorem forward_trace (level : Nat) (line : Machine → String) : (trace level line).Forward := by
  intro m
  show m.Later (if level ≤ m.config.debugLevel then m.traced (line m) else m)
  split
  · exact m.later_traced _
  · exact .refl m

theorem forward_print (values : List Value) : (print values).Forward := by
  intro m
  refine ⟨rfl, rfl, rfl, .refl _, ?_, suffix_refl _, fun _ => rfl⟩
  show m.output.toList <+: (m.output.push _).toList
  rw [Array.toList_push]
  exact List.prefix_append ..

theorem forward_readLine : readLine.Forward := by
  intro m
  rw [readLine_apply]
  cases h : m.input with
  | none => exact .refl m
  | some cs =>
    refine ⟨rfl, rfl, rfl, .refl _, List.prefix_refl _, ?_, fun _ => rfl⟩
    rw [h]
    exact .some (List.drop_suffix ..)

theorem forward_readInput (kind : InputKind) : (readInput kind).Forward := by
  refine forward_readLine.bind fun line => ?_
  cases kind with
  | number =>
    dsimp only
    cases Double.read? (String.ofList (Text.trim line)) with
    | some number => exact forward_pure _
    | none => exact forward_throw _
  | text => exact forward_pure _
  | other name => exact forward_pure _

theorem forward_openScope (scope : Scope) : (openScope scope).Forward :=
  fun m => Machine.later_of_scopes (m.scopes.later_child scope)

theorem forward_lookup (scope : Scope) (name : String) : (lookup scope name).Forward := by
  intro m
  rw [lookup_apply]
  exact .refl m

theorem forward_updateScopes {update : Scopes → Except ScriptError Unit × Scopes}
    (h : ∀ scopes : Scopes, scopes.Later (update scopes).2) : (updateScopes update).Forward := by
  intro m
  rw [updateScopes_apply]
  exact Machine.later_of_scopes (h m.scopes)

theorem forward_enterCall : enterCall.Forward := by
  intro m
  rw [enterCall_apply]
  refine Machine.later_of_calls ?_
  unfold Calls.enter
  split <;> rfl

theorem forward_leaveCall : leaveCall.Forward :=
  fun _ => Machine.later_of_calls rfl

theorem forward_demand (needed : Stack → Nat) : (demand needed).Forward := by
  intro m
  rw [demand_apply]
  exact .refl m

theorem forward_reserve (frames : Nat) : (reserve frames).Forward :=
  (forward_demand _).bind fun _ m => m.later_reserve _

theorem later_finish {m : Machine} (r : Except Failure α × Machine) (h : m.Later r.2) :
    m.Later (finish r).2 := by
  unfold finish
  split
  · exact h.trans (Machine.later_closeTrace _)
  · exact (h.trans (Machine.later_resetCalls _)).trans (Machine.later_closeTrace _)
  · exact (h.trans (Machine.later_resetCalls _)).trans (Machine.later_closeTrace _)
  · exact h.trans (Machine.later_closeTrace _)

theorem Forward.guarded {x : Exec α} (hx : x.Forward) : (guarded x).Forward := by
  intro m
  unfold Exec.guarded
  cases hopen : m.openTrace with
  | error e => exact .refl m
  | ok m' =>
    have hfinish := later_finish (x m') ((Machine.later_openTrace hopen).trans (hx m'))
    exact { hfinish with stack := fun _ => rfl }

end Exec

/-! ## Evaluation and execution move on -/

namespace Exec

variable {α : Type}

theorem forward_nested {frames : Nat} {inner : Nat → Exec α}
    (h : ∀ frames, (inner frames).Forward) : (nested frames inner).Forward :=
  (forward_demand _).bind fun _ => h _

theorem forward_leftmost {frames : Nat} {inner : Nat → Exec α} (node : Node)
    (h : ∀ frames, (inner frames).Forward) : (Evaluator.leftmost frames node inner).Forward := by
  unfold Evaluator.leftmost
  split
  · exact h frames
  · exact forward_nested h

theorem forward_repeatWhile {condition : Exec Bool} {body : Exec (Option Value)}
    (hc : condition.Forward) (hb : body.Forward) (fuel : Nat) :
    (repeatWhile condition body fuel).Forward := by
  induction fuel with
  | zero => exact forward_throw .outOfFuel
  | succ fuel ih =>
    refine hc.bind fun holds => ?_
    cases holds with
    | false => exact forward_pure none
    | true =>
      refine hb.bind fun result => ?_
      cases result with
      | none => exact ih
      | some value => exact forward_pure _

end Exec

namespace Evaluator

open Exec

/-- Whether calls only move machines on. -/
def Callee.Forward (call : Callee) : Prop :=
  ∀ frames name arguments scope, (call frames name arguments scope).Forward

theorem execute_conditional (call : Callee) (fuel : Nat) (scope : Scope) (frames : Nat)
    (condition thenBlock : Node) (elseBlock : Option Node) :
    execute call fuel scope frames (.conditional condition thenBlock elseBlock) = (do
      let holds ← truth (← value call scope frames condition)
      trace 3 fun _ => "if condition -> " ++ Value.inspectBool holds
      if holds then
        let inner ← openScope scope
        nested frames fun frames => executeBlock call fuel inner frames thenBlock
      else
        match elseBlock with
        | none => return none
        | some block =>
          let inner ← openScope scope
          nested frames fun frames => executeBlock call fuel inner frames block) := by
  cases elseBlock <;> rfl

mutual

theorem forward_evaluate {call : Callee} (hcall : call.Forward) (scope : Scope) (frames : Nat) :
    ∀ node : Node, (evaluate call scope frames node []).Forward
  | .literal value => forward_pure value
  | .reference name => by
    rw [evaluate_reference]
    exact forward_lookup scope name
  | .binary operator left right => by
    rw [evaluate_binary]
    refine (forward_leftmost left fun frames => forward_evaluate hcall scope frames left).bind
      fun a => ?_
    refine (forward_nested fun frames => forward_evaluate hcall scope frames right).bind fun b => ?_
    exact forward_operate frames operator a b
  | .call name arguments => by
    rw [evaluate_call]
    refine (forward_nested fun frames => forward_evaluateAll hcall scope frames arguments).bind
      fun values => ?_
    exact forward_nested fun frames => hcall frames name values scope
  | .input kind => by
    rw [evaluate_input]
    exact forward_readInput kind
  | .block _ | .program _ | .print _ | .definition _ _ | .assignment _ _ | .conditional _ _ _
  | .loop _ _ | .function _ _ _ | .callStatement _ _ | .returning _ | .expressionStatement _
  | .valueStatement _ | .fragment _ => forward_throw _
termination_by structural node => node

theorem forward_evaluateAll {call : Callee} (hcall : call.Forward) (scope : Scope) (frames : Nat) :
    ∀ nodes : List Node, (evaluateAll call scope frames nodes).Forward
  | [] => forward_pure []
  | node :: nodes => by
    rw [evaluateAll]
    refine (forward_nested fun frames => forward_evaluate hcall scope frames node).bind
      fun value => ?_
    exact (forward_evaluateAll hcall scope frames nodes).bind fun values => forward_pure _
termination_by structural nodes => nodes

end

theorem forward_value {call : Callee} (hcall : call.Forward) (scope : Scope) (frames : Nat)
    (node : Node) : (value call scope frames node).Forward :=
  forward_nested fun frames => forward_evaluate hcall scope frames node

theorem forward_values {call : Callee} (hcall : call.Forward) (scope : Scope) (frames : Nat)
    (nodes : List Node) : (values call scope frames nodes).Forward :=
  forward_nested fun frames => forward_evaluateAll hcall scope frames nodes

mutual

theorem forward_execute {call : Callee} (hcall : call.Forward) (fuel : Nat) (scope : Scope)
    (frames : Nat) : ∀ node : Node, (execute call fuel scope frames node).Forward
  | .print expressions => by
    rw [execute]
    refine (forward_values hcall scope frames expressions).bind fun values => ?_
    exact (forward_print values).bind fun _ => forward_pure none
  | .definition name expression => by
    rw [execute]
    refine (forward_value hcall scope frames expression).bind fun v => ?_
    refine (forward_updateScopes fun scopes => scopes.later_define scope name v).bind fun _ => ?_
    exact (forward_trace _ _).bind fun _ => forward_pure none
  | .assignment name expression => by
    rw [execute]
    refine (forward_value hcall scope frames expression).bind fun v => ?_
    refine (forward_updateScopes fun scopes => scopes.later_assign scope name v).bind fun _ => ?_
    exact (forward_trace _ _).bind fun _ => forward_pure none
  | .conditional condition thenBlock elseBlock => by
    rw [execute_conditional]
    refine (forward_value hcall scope frames condition).bind fun v => ?_
    refine (forward_ofExcept v.toBool).bind fun holds => ?_
    refine (forward_trace _ _).bind fun _ => ?_
    cases holds with
    | true =>
      refine (forward_openScope scope).bind fun inner => ?_
      exact forward_nested fun frames => forward_executeBlock hcall fuel inner frames thenBlock
    | false =>
      match elseBlock with
      | none => exact forward_pure none
      | some block =>
        refine (forward_openScope scope).bind fun inner => ?_
        exact forward_nested fun frames => forward_executeBlock hcall fuel inner frames block
  | .loop condition body => by
    rw [execute]
    refine forward_repeatWhile ?_ ?_ fuel
    · refine (forward_value hcall scope frames condition).bind fun v => ?_
      refine (forward_ofExcept v.toBool).bind fun holds => ?_
      exact (forward_trace _ _).bind fun _ => forward_pure holds
    · refine (forward_openScope scope).bind fun inner => ?_
      exact forward_nested fun frames => forward_executeBlock hcall fuel inner frames body
  | .function name parameters body => by
    rw [execute]
    refine (forward_updateScopes fun scopes => scopes.later_declare scope _).bind fun _ => ?_
    exact (forward_trace _ _).bind fun _ => forward_pure none
  | .callStatement name arguments => by
    rw [execute]
    refine (forward_values hcall scope frames arguments).bind fun values => ?_
    refine (forward_nested fun frames => hcall frames name values scope).bind fun _ => ?_
    exact forward_pure none
  | .returning expression => by
    rw [execute]
    exact (forward_value hcall scope frames expression).bind fun v => forward_pure _
  | .expressionStatement expression => by
    rw [execute]
    exact (forward_value hcall scope frames expression).bind fun _ => forward_pure none
  | .valueStatement _ => forward_pure none
  | .reference _ | .literal _ | .binary _ _ _ | .call _ _ | .input _ | .block _ | .program _
  | .fragment _ => forward_throw _
termination_by structural node => node

theorem forward_executeBlock {call : Callee} (hcall : call.Forward) (fuel : Nat) (scope : Scope)
    (frames : Nat) : ∀ node : Node, (executeBlock call fuel scope frames node).Forward
  | .block statements => by
    rw [executeBlock]
    exact forward_executeAll hcall fuel scope frames statements
  | .reference _ | .literal _ | .binary _ _ _ | .call _ _ | .input _ | .program _ | .print _
  | .definition _ _ | .assignment _ _ | .conditional _ _ _ | .loop _ _ | .function _ _ _
  | .callStatement _ _ | .returning _ | .expressionStatement _ | .valueStatement _
  | .fragment _ => forward_throw _
termination_by structural node => node

theorem forward_executeAll {call : Callee} (hcall : call.Forward) (fuel : Nat) (scope : Scope)
    (frames : Nat) :
    ∀ statements : List Node, (executeAll call fuel scope frames statements).Forward
  | [] => forward_pure none
  | statement :: statements => by
    rw [executeAll]
    refine (forward_execute hcall fuel scope (frames + 1) statement).bind fun result => ?_
    cases result with
    | none => exact forward_executeAll hcall fuel scope frames statements
    | some value => exact forward_pure _
termination_by structural statements => statements

end

end Evaluator

/-! ## Runs -/

/-- A body that only returns gives what the expression gives. -/
theorem Evaluator.executeAll_returning (call : Callee) (fuel : Nat) (scope : Scope) (frames : Nat)
    (e : Node) :
    executeAll call fuel scope frames [.returning e]
      = some <$> value call scope (frames + 1) e := by
  simp only [executeAll, execute, bind_assoc, pure_bind, map_eq_pure_bind]

namespace Machine

variable {m m' : Machine} {fuel : Nat} {body : List Node}

theorem run_of_error {e : FileError} (h : m.openTrace = .error e) :
    run fuel body m = (.error (.fault (.file e)), m) := by
  unfold run Evaluator.runBody Exec.guarded
  rw [h]

theorem run_of_ok (h : m.openTrace = .ok m') :
    run fuel body m = Exec.restore m.stack (Exec.finish
      (Evaluator.executeProgram (Evaluator.call fuel) fuel m.stack.base body m')) := by
  unfold run Evaluator.runBody Exec.guarded
  rw [h]

end Machine

end ScriptLang
