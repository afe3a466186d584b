import ScriptLang.Proofs.Simulation
import Mathlib.Data.List.Forall2

set_option autoImplicit false

/-! # Calls depend on where a function is declared

A call sees the scope that declares the function and the scopes around that one, and nothing else:
two machines that agree there give the same result and still agree there afterwards
(`Evaluator.call_agrees`), whatever the scopes are that the calls are made from. The two runs number
their new scopes differently, so they are compared up to a `Renaming`. -/

namespace ScriptLang

/-! ## Agreement -/

/-- Two scopes bind the same names to the same values and functions. -/
def Frame.Agrees (a b : Frame) : Prop :=
  ∀ name, a.values.find? name = b.values.find? name ∧
    a.functions.find? name = b.functions.find? name

/-- Whether a scope and all scopes around it exist. -/
def Scopes.Has (scopes : Scopes) (scope : Scope) : Prop :=
  ∀ n ∈ scope.chain, n < scopes.frames.size

instance (scopes : Scopes) (scope : Scope) : Decidable (scopes.Has scope) :=
  inferInstanceAs (Decidable (∀ n ∈ scope.chain, n < scopes.frames.size))

theorem Scopes.Has.owner {scopes : Scopes} {scope owner : Scope} {name : String}
    (h : scopes.Has scope) (hscope : scopes.functionScope? scope name = some owner) :
    scopes.Has owner := by
  obtain ⟨⟨_, f⟩, hfound, rfl⟩ := Option.map_eq_some_iff.1 hscope
  exact fun n hn => h n ((scopes.declaration?_suffix hfound).subset hn)

/-- Two machines agree on all that they have in common: settings, calls, the stack, functions of the
host, input, output, and what `scope` and the scopes around it bind. -/
structure Machine.AgreesOn (scope : Scope) (m₁ m₂ : Machine) : Prop where
  config : m₁.config = m₂.config
  calls : m₁.calls = m₂.calls
  stack : m₁.stack = m₂.stack
  hosts : m₁.hosts = m₂.hosts
  strict : m₁.scopes.strict = m₂.scopes.strict
  input : m₁.input = m₂.input
  output : m₁.output = m₂.output
  frames : ∀ n ∈ scope.chain, (m₁.scopes.frame n).Agrees (m₂.scopes.frame n)

theorem Frame.Agrees.bind {a b : Frame} (h : a.Agrees b) (name : String) (v : Value) :
    ({ a with values := a.values.insert name v } : Frame).Agrees
      { b with values := b.values.insert name v } := by
  intro other
  refine ⟨?_, (h other).2⟩
  rw [Bindings.find?_insert, Bindings.find?_insert, (h other).1]

theorem Frame.Agrees.declare {a b : Frame} (h : a.Agrees b) (f : Function) :
    ({ a with functions := a.functions.insert f.name f } : Frame).Agrees
      { b with functions := b.functions.insert f.name f } := by
  intro other
  refine ⟨(h other).1, ?_⟩
  rw [Bindings.find?_insert, Bindings.find?_insert, (h other).2]

/-! ## Renamings -/

/-- The numbers of the scopes that two runs share, and those from which on each counts its own. -/
structure Renaming where
  shared : List Nat
  first : Nat
  second : Nat
  below : ∀ n ∈ shared, n < first ∧ n < second

/-- Two numbers stand for the same scope. -/
def Renaming.Twins (r : Renaming) (n₁ n₂ : Nat) : Prop :=
  (n₁ = n₂ ∧ n₁ ∈ r.shared) ∨ ∃ k, n₁ = r.first + k ∧ n₂ = r.second + k

/-- Two chains of scopes stand for each other. -/
def Renaming.Chains (r : Renaming) (s₁ s₂ : Scope) : Prop :=
  List.Forall₂ r.Twins s₁.chain s₂.chain

/-- Two runs have opened equally many scopes, and scopes that stand for each other agree. -/
structure Renaming.Matches (r : Renaming) (a b : Scopes) : Prop where
  strict : a.strict = b.strict
  size : ∃ k, a.frames.size = r.first + k ∧ b.frames.size = r.second + k
  frames : ∀ {n₁ n₂}, r.Twins n₁ n₂ → (a.frame n₁).Agrees (b.frame n₂)

namespace Renaming

variable {r : Renaming} {a b : Scopes} {s₁ s₂ : Scope} {n₁ n₂ : Nat}

/-- No two scopes stand for one. -/
theorem Twins.eq_iff {k₁ k₂ : Nat} (h : r.Twins n₁ n₂) (h' : r.Twins k₁ k₂) :
    n₁ = k₁ ↔ n₂ = k₂ := by
  rcases h with ⟨rfl, hn⟩ | ⟨i, rfl, rfl⟩ <;> rcases h' with ⟨rfl, hk⟩ | ⟨j, rfl, rfl⟩
  · rfl
  · have := r.below n₁ hn
    omega
  · have := r.below k₁ hk
    omega
  · omega

theorem Matches.lt_size_iff (h : r.Matches a b) (hn : r.Twins n₁ n₂) :
    n₁ < a.frames.size ↔ n₂ < b.frames.size := by
  obtain ⟨k, ha, hb⟩ := h.size
  rcases hn with ⟨rfl, hn⟩ | ⟨i, rfl, rfl⟩
  · have := r.below n₁ hn
    omega
  · omega

theorem Matches.child (h : r.Matches a b) (hs : r.Chains s₁ s₂) :
    r.Chains (a.child s₁).1 (b.child s₂).1 ∧ r.Matches (a.child s₁).2 (b.child s₂).2 := by
  obtain ⟨k, ha, hb⟩ := h.size
  refine ⟨.cons (Or.inr ⟨k, ha, hb⟩) hs, h.strict, ⟨k + 1, ?_, ?_⟩, fun hn => ?_⟩
  · rw [Scopes.size_child, ha]
    rfl
  · rw [Scopes.size_child, hb]
    rfl
  · rw [Scopes.frame_child, Scopes.frame_child]
    exact h.frames hn

/-- A change that two agreeing scopes survive can be made to scopes that stand for each other. -/
theorem Matches.modify (h : r.Matches a b) (hn : r.Twins n₁ n₂) {change : Frame → Frame}
    (hc : ∀ {f g : Frame}, f.Agrees g → (change f).Agrees (change g)) :
    r.Matches { a with frames := a.frames.modify n₁ change }
      { b with frames := b.frames.modify n₂ change } := by
  obtain ⟨k, ha, hb⟩ := h.size
  refine ⟨h.strict, ⟨k, by simpa using ha, by simpa using hb⟩, fun {k₁ k₂} hk => ?_⟩
  rw [Scopes.frame_modify, Scopes.frame_modify]
  -- two scopes that stand for each other are both changed or both not
  have hcond : (k₁ = n₁ ∧ k₁ < a.frames.size) ↔ (k₂ = n₂ ∧ k₂ < b.frames.size) :=
    and_congr (hk.eq_iff hn) (h.lt_size_iff hk)
  by_cases hc₁ : k₁ = n₁ ∧ k₁ < a.frames.size
  · rw [if_pos hc₁, if_pos (hcond.1 hc₁)]
    exact hc (h.frames hk)
  · rw [if_neg hc₁, if_neg (fun hc₂ => hc₁ (hcond.2 hc₂))]
    exact h.frames hk

theorem Matches.valueAt? (h : r.Matches a b) (hn : r.Twins n₁ n₂) (name : String) :
    a.valueAt? n₁ name = b.valueAt? n₂ name :=
  (h.frames hn name).1

theorem Matches.functionAt? (h : r.Matches a b) (hn : r.Twins n₁ n₂) (name : String) :
    a.functionAt? n₁ name = b.functionAt? n₂ name :=
  (h.frames hn name).2

theorem Matches.lookup? (h : r.Matches a b) (hs : r.Chains s₁ s₂) (name : String) :
    a.lookup? s₁ name = b.lookup? s₂ name := by
  unfold Scopes.lookup?
  unfold Chains at hs
  generalize s₁.chain = chain₁ at hs
  generalize s₂.chain = chain₂ at hs
  induction hs with
  | nil => rfl
  | cons hn _ ih => rw [List.findSome?_cons, List.findSome?_cons, h.valueAt? hn name, ih]

theorem Matches.declaration? (h : r.Matches a b) (hs : r.Chains s₁ s₂) (name : String) :
    Option.Rel (fun x y => r.Chains x.1 y.1 ∧ x.2 = y.2) (a.declaration? s₁ name)
      (b.declaration? s₂ name) := by
  obtain ⟨here₁, above₁⟩ := s₁
  obtain ⟨here₂, above₂⟩ := s₂
  unfold Scopes.declaration?
  unfold Chains Scope.chain at hs
  dsimp only at hs ⊢
  cases hs with
  | cons hn habove =>
    -- outward along both chains, from a pair of scopes that need not be the innermost
    induction habove generalizing here₁ here₂ with
    | nil =>
      simp only [Scopes.declarationFrom?, h.functionAt? hn name]
      cases b.functionAt? here₂ name with
      | none => exact .none
      | some f => exact .some ⟨.cons hn .nil, rfl⟩
    | cons hnext habove ih =>
      simp only [Scopes.declarationFrom?, h.functionAt? hn name]
      cases b.functionAt? here₂ name with
      | none => exact ih _ _ hnext
      | some f => exact .some ⟨.cons hn (.cons hnext habove), rfl⟩

theorem Matches.define (h : r.Matches a b) (hs : r.Chains s₁ s₂) (name : String) (v : Value) :
    (a.define s₁ name v).1 = (b.define s₂ name v).1 ∧
      r.Matches (a.define s₁ name v).2 (b.define s₂ name v).2 := by
  cases hs with
  | cons hn _ =>
    unfold Scopes.define
    rw [h.strict, h.valueAt? hn name]
    split
    · exact ⟨rfl, h⟩
    · exact ⟨rfl, h.modify hn fun hf => hf.bind name v⟩

theorem Matches.declare (h : r.Matches a b) (hs : r.Chains s₁ s₂) (f : Function) :
    r.Matches (a.declare s₁ f) (b.declare s₂ f) := by
  cases hs with
  | cons hn _ => exact h.modify hn fun hf => hf.declare f

/-- The scope that binds a name is the same on both sides. -/
theorem Matches.find? (h : r.Matches a b) {chain₁ chain₂ : List Nat}
    (hs : List.Forall₂ r.Twins chain₁ chain₂) (name : String) :
    Option.Rel r.Twins (chain₁.find? fun n => (a.valueAt? n name).isSome)
      (chain₂.find? fun n => (b.valueAt? n name).isSome) := by
  induction hs with
  | nil => exact .none
  | @cons n₁ n₂ _ _ hn _ ih =>
    rw [List.find?_cons, List.find?_cons, h.valueAt? hn name]
    cases (b.valueAt? n₂ name).isSome with
    | true => exact .some hn
    | false => exact ih

theorem Matches.assign (h : r.Matches a b) (hs : r.Chains s₁ s₂) (name : String) (v : Value) :
    (a.assign s₁ name v).1 = (b.assign s₂ name v).1 ∧
      r.Matches (a.assign s₁ name v).2 (b.assign s₂ name v).2 := by
  have hfind := h.find? hs name
  unfold Scopes.assign
  generalize s₁.chain.find? _ = found₁ at hfind
  generalize s₂.chain.find? _ = found₂ at hfind
  cases hfind with
  | none => exact ⟨rfl, h⟩
  | some hn => exact ⟨rfl, h.modify hn fun hf => hf.bind name v⟩

end Renaming

/-! ## The simulation -/

/-- Two machines that agree up to a renaming. -/
structure Renaming.InStep (r : Renaming) (m₁ m₂ : Machine) : Prop where
  quiet : m₁.QuietHosts
  config : m₁.config = m₂.config
  calls : m₁.calls = m₂.calls
  stack : m₁.stack = m₂.stack
  hosts : m₁.hosts = m₂.hosts
  input : m₁.input = m₂.input
  output : m₁.output = m₂.output
  scopes : r.Matches m₁.scopes m₂.scopes

namespace Renaming

variable {r : Renaming} {m₁ m₂ : Machine}

theorem InStep.withScopes (h : r.InStep m₁ m₂) {a b : Scopes} (hs : r.Matches a b) :
    r.InStep { m₁ with scopes := a } { m₂ with scopes := b } :=
  { h with scopes := hs }

theorem InStep.withCalls (h : r.InStep m₁ m₂) (calls : Calls) :
    r.InStep { m₁ with calls } { m₂ with calls } :=
  { h with calls := rfl }

theorem InStep.reserved (h : r.InStep m₁ m₂) (frames : Nat) :
    r.InStep (m₁.reserved frames) (m₂.reserved frames) :=
  { h with stack := congrArg (Stack.reserve · frames) h.stack }

theorem InStep.traced (h : r.InStep m₁ m₂) (line : String) :
    r.InStep (m₁.traced line) (m₂.traced line) := by
  unfold Machine.traced
  split <;> split <;> exact { h with }

theorem InStep.readLine (h : r.InStep m₁ m₂) :
    (Exec.readLine m₁).1 = (Exec.readLine m₂).1 ∧
      r.InStep (Exec.readLine m₁).2 (Exec.readLine m₂).2 := by
  rw [Exec.readLine_apply, Exec.readLine_apply, ← h.input]
  cases m₁.input with
  | none => exact ⟨rfl, h⟩
  | some cs => exact ⟨rfl, { h with input := rfl }⟩

variable (r)

def lockstep : Lockstep where
  inStep _ m₁ m₂ := r.InStep m₁ m₂
  failed _ e₁ m₁ e₂ m₂ := e₁ = e₂ ∧ r.InStep m₁ m₂
  stopped _ _ _ := False
  persists h _ := h

theorem ends {α : Type} {fail after : Nat} {x y : Except Failure α × Machine} (hr : x.1 = y.1)
    (hm : r.InStep x.2 y.2) : r.lockstep.Ends fail after Eq x y := by
  obtain ⟨result, m₁⟩ := x
  obtain ⟨_, m₂⟩ := y
  cases hr
  cases result with
  | ok a => exact ⟨rfl, hm⟩
  | error e => exact Or.inl ⟨rfl, hm⟩

theorem of_ends {α : Type} {fail after : Nat} {x y : Except Failure α × Machine}
    (h : r.lockstep.Ends fail after Eq x y) : x.1 = y.1 ∧ r.InStep x.2 y.2 := by
  obtain ⟨result₁, m₁⟩ := x
  obtain ⟨result₂, m₂⟩ := y
  cases result₁ with
  | ok a =>
    cases result₂ with
    | ok b => exact ⟨congrArg Except.ok h.1, h.2⟩
    | error e => exact h.elim
  | error e₁ =>
    cases result₂ with
    | ok b => exact h.elim
    | error e₂ =>
      rcases h with ⟨rfl, hm⟩ | h
      · exact ⟨rfl, hm⟩
      · exact h.elim

theorem ends_updateScopes {fail after : Nat} (h : r.InStep m₁ m₂)
    {update₁ update₂ : Scopes → Except ScriptError Unit × Scopes}
    (hu : (update₁ m₁.scopes).1 = (update₂ m₂.scopes).1 ∧
      r.Matches (update₁ m₁.scopes).2 (update₂ m₂.scopes).2) :
    r.lockstep.Ends fail after Eq (Exec.updateScopes update₁ m₁)
      (Exec.updateScopes update₂ m₂) := by
  rw [Exec.updateScopes_apply, Exec.updateScopes_apply]
  exact r.ends (congrArg (Except.mapError Failure.script) hu.1) (h.withScopes hu.2)

/-- Scopes that stand for each other are used alike. -/
def simulation : Simulation {} {} where
  toLockstep := r.lockstep
  seen := r.Chains
  owned := r.Chains
  seen_of_owned h := h
  throws _ h := ⟨rfl, h⟩
  depth h := congrArg Calls.depth h.calls
  hosts h := h.hosts
  notes {_ m₁ m₂} level line h := by
    show r.InStep (m₁.noted level line) (m₂.noted level line)
    unfold Machine.noted
    rw [h.config]
    split
    · exact h.traced line
    · exact h
  prints record h := { h with output := congrArg (Array.push · record) h.output }
  demands needed h := by
    rw [Exec.demand_apply, Exec.demand_apply, h.stack]
    exact r.ends rfl h
  reserves frames h := h.reserved frames
  reads h := r.ends h.readLine.1 h.readLine.2
  opens hs h := ⟨(h.scopes.child hs).1, h.withScopes (h.scopes.child hs).2⟩
  looksUp name hs h := h.scopes.lookup? hs name
  resolves name hs h := h.scopes.declaration? hs name
  defines name v hs h := r.ends_updateScopes h (h.scopes.define hs name v)
  assigns name v hs h := r.ends_updateScopes h (h.scopes.assign hs name v)
  declares f hs h := r.ends_updateScopes h ⟨rfl, h.scopes.declare hs f⟩
  enters {k m₁ m₂} h := by
    rw [Exec.enterProbed_nothing, Exec.enterCall_apply, Exec.enterCall_apply, h.calls]
    exact r.ends rfl (h.withCalls _)
  leaves {k m₁ m₂} h := by
    refine ⟨rfl, ?_⟩
    show r.InStep { m₁ with calls := m₁.calls.leave } { m₂ with calls := m₂.calls.leave }
    rw [h.calls]
    exact h.withCalls _
  unwinds := by
    rintro k e m₁ _ m₂ ⟨rfl, h⟩
    exact ⟨rfl, h⟩
  unwinds_stopped h := h
  runs := Or.inl fun h => h.quiet

end Renaming

/-! ## Calls -/

namespace Evaluator

/-- A call depends on the scope it is made from only through the scope that declares the
function. -/
theorem call_eq_call_owner (fuel frames : Nat) (name : String) (arguments : List Value)
    {m : Machine} {scope owner : Scope} (h : m.scopes.functionScope? scope name = some owner) :
    call fuel frames name arguments scope m = call fuel frames name arguments owner m := by
  cases fuel with
  | zero => rfl
  | succ fuel =>
    obtain ⟨⟨_, f⟩, hfound, rfl⟩ := Option.map_eq_some_iff.1 h
    rw [call, call, Exec.bind_of_ok (Exec.get_apply m), Exec.bind_of_ok (Exec.get_apply m)]
    rw [hfound, m.scopes.declaration?_owner hfound]

/-- **Lexical scoping.** Take two machines and two scopes from which a name denotes a function that
the same scope declares. If the machines agree on this scope and the scopes around it, then the
calls, with the same frames in use, give the same result, and the machines agree on these scopes
afterwards. What the calling scopes and all other scopes bind makes no difference. -/
theorem call_agrees (fuel frames : Nat) (name : String) (arguments : List Value)
    {m₁ m₂ : Machine} {s₁ s₂ owner : Scope} (hosts : m₁.QuietHosts) (has₁ : m₁.scopes.Has s₁)
    (has₂ : m₂.scopes.Has s₂) (found₁ : m₁.scopes.functionScope? s₁ name = some owner)
    (found₂ : m₂.scopes.functionScope? s₂ name = some owner) (agree : m₁.AgreesOn owner m₂) :
    (call fuel frames name arguments s₁ m₁).1 = (call fuel frames name arguments s₂ m₂).1 ∧
      (call fuel frames name arguments s₁ m₁).2.AgreesOn owner
        (call fuel frames name arguments s₂ m₂).2 := by
  rw [call_eq_call_owner fuel frames name arguments found₁]
  rw [call_eq_call_owner fuel frames name arguments found₂]
  -- the runs share the scopes around the owner and number their own from here on
  let r : Renaming :=
    { shared := owner.chain
      first := m₁.scopes.frames.size
      second := m₂.scopes.frames.size
      below := fun n hn => ⟨has₁.owner found₁ n hn, has₂.owner found₂ n hn⟩ }
  have hstep : r.InStep m₁ m₂ := by
    refine ⟨hosts, agree.config, agree.calls, agree.stack, agree.hosts, agree.input, agree.output,
      agree.strict, ⟨0, rfl, rfl⟩, fun {n₁ n₂} hn => ?_⟩
    rcases hn with ⟨rfl, hn⟩ | ⟨k, rfl, rfl⟩
    · exact agree.frames n₁ hn
    · -- no scope has been opened yet
      rw [Scopes.frame_of_size_le (Nat.le_add_right ..)]
      rw [Scopes.frame_of_size_le (Nat.le_add_right ..)]
      exact fun _ => ⟨rfl, rfl⟩
  have howner : r.Chains owner owner := List.forall₂_same.2 fun n hn => Or.inl ⟨rfl, hn⟩
  have hcall := r.simulation.callees_callProbed (Or.inl (Eq.refl fuel)) 0
  rw [callProbed_nothing] at hcall
  obtain ⟨hresult, hafter⟩ := r.of_ends ((hcall.pairs frames name arguments howner).ends hstep)
  refine ⟨hresult, hafter.config, hafter.calls, hafter.stack, hafter.hosts, hafter.scopes.strict,
    hafter.input, hafter.output, fun n hn => ?_⟩
  exact hafter.scopes.frames (Or.inl ⟨rfl, hn⟩)

/-- An interpreter with a variable and a function that gives its value, and an inner scope in which
the name of the variable has another value. -/
def shadowing (inner : Int) : Machine :=
  { Machine.counting with
    scopes := ⟨false, #[
      { values := [("x", Value.ofInt 7)]
        functions := [("f", ⟨"f", [], .block [.returning (.reference "x")]⟩)] },
      { values := [("x", Value.ofInt inner)] }]⟩ }

/-- The function gives the value that it sees where it is declared. -/
theorem call_agrees_shadowing :
    let m₁ := shadowing 1
    let m₂ := shadowing 2
    m₁.QuietHosts ∧ m₁.scopes.Has ⟨1, [0]⟩ ∧ m₂.scopes.Has ⟨1, [0]⟩ ∧
      m₁.scopes.functionScope? ⟨1, [0]⟩ "f" = some Scope.root ∧
      m₂.scopes.functionScope? ⟨1, [0]⟩ "f" = some Scope.root ∧ m₁.AgreesOn Scope.root m₂ ∧
      (call 1 5 "f" [] ⟨1, [0]⟩ m₁).1 = .ok (Value.ofInt 7) ∧
      (call 1 5 "f" [] ⟨1, [0]⟩ m₁).1 = (call 1 5 "f" [] ⟨1, [0]⟩ m₂).1 ∧
      (call 1 5 "f" [] ⟨1, [0]⟩ m₁).2.AgreesOn Scope.root (call 1 5 "f" [] ⟨1, [0]⟩ m₂).2 := by
  intro m₁ m₂
  have hosts : m₁.QuietHosts := Machine.quietHosts_counting
  have has₁ : m₁.scopes.Has ⟨1, [0]⟩ := by decide
  have has₂ : m₂.scopes.Has ⟨1, [0]⟩ := by decide
  have agree : m₁.AgreesOn Scope.root m₂ := by
    refine ⟨rfl, rfl, rfl, rfl, rfl, rfl, rfl, fun n hn name => ?_⟩
    rw [List.mem_singleton.1 hn]
    exact ⟨rfl, rfl⟩
  exact ⟨hosts, has₁, has₂, rfl, rfl, agree, rfl,
    call_agrees 1 5 "f" [] hosts has₁ has₂ rfl rfl agree⟩

end Evaluator

end ScriptLang
