import ScriptLang.Proofs.Probe
import ScriptLang.Proofs.Scopes

set_option autoImplicit false

/-! # Runs side by side

Two runs of the same code are compared action by action. A `Lockstep` says when two machines are in
step and how the runs may end otherwise, and `Lockstep.Couples` says of two computations that they
keep machines in step. A `Simulation` is a lockstep that every action of a run respects; then all
evaluation, execution and calls respect it, too (`Simulation.callees_callProbed`). A statement about
single runs is the special case of a run beside itself. -/

namespace ScriptLang

/-! ## Functions of the host that keep to themselves -/

/-- Whether an action of the host leaves the interpreter alone: it can look at the number of active
calls, but runs no program. -/
inductive HostAction.Quiet : HostAction → Prop
  | done (result : Option Value) : Quiet (.done result)
  | fail (failure : Failure) : Quiet (.fail failure)
  | depth {next : Int → HostAction} (h : ∀ n, Quiet (next n)) : Quiet (.depth next)

/-- Whether all functions of the host leave the interpreter alone. -/
def Machine.QuietHosts (m : Machine) : Prop :=
  ∀ name f, m.hosts.find? name = some f → ∀ arguments, (f.body arguments).Quiet

theorem Machine.quietHosts_new (config : Config) : (new config).QuietHosts :=
  nofun

theorem Machine.QuietHosts.bind {m : Machine} (h : m.QuietHosts) {f : HostFunction}
    (hf : ∀ arguments, (f.body arguments).Quiet) : (m.bind f).QuietHosts := by
  intro name g hg
  simp only [Machine.bind, Bindings.find?_insert] at hg
  split at hg
  · obtain rfl := Option.some.inj hg
    exact hf
  · exact h name g hg

/-- An interpreter with one function of the host, which gives the number of active calls. -/
def Machine.counting : Machine :=
  (Machine.new {}).bind
    { name := "depth", arity := some 0
      body := fun _ => .depth fun n => .done (some (Value.ofInt n)) }

theorem Machine.quietHosts_counting : counting.QuietHosts :=
  (quietHosts_new {}).bind fun _ => .depth fun n => .done (some (Value.ofInt n))

/-! ## Coupled computations -/

/-- How two runs relate while `active` calls of declared functions are active. -/
structure Lockstep where
  /-- Both runs go on. -/
  inStep : (active : Nat) → Machine → Machine → Prop
  /-- Both runs have failed. -/
  failed : (active : Nat) → Failure → Machine → Failure → Machine → Prop
  /-- The first run has failed, and the second may have gone on for a while. -/
  stopped : Failure → Machine → Machine → Prop
  persists : ∀ {e : Failure} {m₁ m₂ m₂' : Machine},
    stopped e m₁ m₂ → m₂.Later m₂' → stopped e m₁ m₂'

namespace Lockstep

variable (L : Lockstep) {α β γ δ : Type}

/-- How two outcomes relate: where both have a value, the values are related by `post` and the
machines in step with `after` calls active. Failures are seen with `fail` calls active. -/
def Ends (fail after : Nat) (post : α → β → Prop) :
    Except Failure α × Machine → Except Failure β × Machine → Prop
  | (.ok a, m₁), (.ok b, m₂) => post a b ∧ L.inStep after m₁ m₂
  | (.error e₁, m₁), (.error e₂, m₂) => L.failed fail e₁ m₁ e₂ m₂ ∨ L.stopped e₁ m₁ m₂
  | (.error e₁, m₁), (.ok _, m₂) => L.stopped e₁ m₁ m₂
  | (.ok _, _), (.error _, _) => False

/-- Whether two computations take machines in step, with `before` calls active, to outcomes that
relate. -/
structure Couples (fail before after : Nat) (x : Exec α) (y : Exec β) (post : α → β → Prop) :
    Prop where
  forward : y.Forward
  ends : ∀ {m₁ m₂ : Machine}, L.inStep before m₁ m₂ → L.Ends fail after post (x m₁) (y m₂)

/-- Whether two computations give the same value and keep machines in step. -/
def Pairs (active : Nat) (x y : Exec α) : Prop :=
  L.Couples active active active x y Eq

variable {L} {fail before middle after active : Nat} {post : γ → δ → Prop}

theorem Ends.of_stopped {e : Failure} {m₁ : Machine} {r : Except Failure δ × Machine}
    (h : L.stopped e m₁ r.2) : L.Ends fail after post (.error e, m₁) r := by
  rcases r with ⟨r, m₂⟩
  cases r with
  | ok b => exact h
  | error e₂ => exact Or.inr h

/-- Computations with the same values are continued in step. When the first has stopped, the second
only moves on. -/
theorem Couples.bind {x y : Exec α} {f : α → Exec γ} {g : α → Exec δ}
    (hx : L.Couples fail before middle x y Eq)
    (hf : ∀ a, L.Couples fail middle after (f a) (g a) post) :
    L.Couples fail before after (x >>= f) (y >>= g) post := by
  refine ⟨hx.forward.bind fun a => (hf a).forward, fun {m₁ m₂} h => ?_⟩
  have he := hx.ends h
  rcases hx₁ : x m₁ with ⟨r₁, m₁'⟩
  rcases hy₂ : y m₂ with ⟨r₂, m₂'⟩
  rw [hx₁, hy₂] at he
  cases r₁ with
  | ok a =>
    cases r₂ with
    | ok b =>
      obtain ⟨rfl, hs⟩ := he
      rw [Exec.bind_of_ok hx₁, Exec.bind_of_ok hy₂]
      exact (hf a).ends hs
    | error e => exact he.elim
  | error e₁ =>
    rw [Exec.bind_of_error hx₁]
    cases r₂ with
    | ok b =>
      -- the first run has stopped, so the second only has to move on
      rw [Exec.bind_of_ok hy₂]
      exact Ends.of_stopped (L.persists he ((hf b).forward m₂'))
    | error e₂ =>
      rw [Exec.bind_of_error hy₂]
      exact he

theorem couples_pure {a : γ} {b : δ} (h : post a b) :
    L.Couples fail active active (pure a) (pure b) post :=
  ⟨Exec.forward_pure b, fun hs => ⟨h, hs⟩⟩

theorem pairs_pure (a : α) : L.Pairs active (pure a) (pure a) :=
  couples_pure rfl

/-- Machines in step are read, each by its own run. -/
theorem couples_get {f : Machine → Exec γ} {g : Machine → Exec δ}
    (hg : (get >>= g : Exec δ).Forward)
    (h : ∀ {m₁ m₂}, L.inStep before m₁ m₂ → L.Ends fail after post (f m₁ m₁) (g m₂ m₂)) :
    L.Couples fail before after (get >>= f) (get >>= g) post := by
  refine ⟨hg, fun {m₁ m₂} hs => ?_⟩
  rw [Exec.bind_of_ok (Exec.get_apply m₁), Exec.bind_of_ok (Exec.get_apply m₂)]
  exact h hs

end Lockstep

/-! ## Simulations -/

/-- Optional values that are the same are related if their value is related to itself. -/
theorem optionRel_self {α : Type} {r : α → α → Prop} {x : Option α}
    (h : ∀ a, x = some a → r a a) : Option.Rel r x x := by
  cases x with
  | none => exact .none
  | some a => exact .some (h a rfl)

/-- The machine after a line of the trace. -/
def Machine.noted (m : Machine) (level : Nat) (line : String) : Machine :=
  if level ≤ m.config.debugLevel then m.traced line else m

/-- A line of the trace changes nothing else. -/
theorem Machine.noted_eq (m : Machine) (level : Nat) (line : String) :
    ∃ trace traceFile, m.noted level line = { m with trace, traceFile } := by
  unfold noted traced
  split
  · split
    · exact ⟨_, _, rfl⟩
    · exact ⟨_, _, rfl⟩
  · exact ⟨_, _, rfl⟩

/-- The machine after frames have been reserved. -/
def Machine.reserved (m : Machine) (frames : Nat) : Machine :=
  { m with stack := m.stack.reserve frames }

/-- The machine after a record of output. -/
def Machine.printed (m : Machine) (record : String) : Machine :=
  { m with output := m.output.push record }

open Exec in
/-- A lockstep that all actions of two runs respect, under the probes `p₁` and `p₂`. -/
structure Simulation (p₁ p₂ : Probe) extends Lockstep where
  /-- Scopes in which names mean the same. -/
  seen : Scope → Scope → Prop
  /-- Scopes in which names may also be defined. -/
  owned : Scope → Scope → Prop
  seen_of_owned : ∀ {s₁ s₂}, owned s₁ s₂ → seen s₁ s₂
  /-- Both runs can fail in the same way. -/
  throws : ∀ {k m₁ m₂} (e : Failure), inStep k m₁ m₂ → failed k e m₁ e m₂
  depth : ∀ {k m₁ m₂}, inStep k m₁ m₂ → m₁.calls.depth = m₂.calls.depth
  hosts : ∀ {k m₁ m₂}, inStep k m₁ m₂ → m₁.hosts = m₂.hosts
  notes : ∀ {k m₁ m₂} (level : Nat) (line : String), inStep k m₁ m₂ →
    inStep k (m₁.noted level line) (m₂.noted level line)
  prints : ∀ {k m₁ m₂} (record : String), inStep k m₁ m₂ →
    inStep k (m₁.printed record) (m₂.printed record)
  demands : ∀ {k m₁ m₂} (needed : Stack → Nat), inStep k m₁ m₂ →
    toLockstep.Ends k k Eq (demand needed m₁) (demand needed m₂)
  reserves : ∀ {k m₁ m₂} (frames : Nat), inStep k m₁ m₂ →
    inStep k (m₁.reserved frames) (m₂.reserved frames)
  reads : ∀ {k m₁ m₂}, inStep k m₁ m₂ → toLockstep.Ends k k Eq (readLine m₁) (readLine m₂)
  opens : ∀ {k m₁ m₂ s₁ s₂}, seen s₁ s₂ → inStep k m₁ m₂ →
    toLockstep.Ends k k owned (openScope s₁ m₁) (openScope s₂ m₂)
  looksUp : ∀ {k m₁ m₂ s₁ s₂} (name : String), seen s₁ s₂ → inStep k m₁ m₂ →
    m₁.scopes.lookup? s₁ name = m₂.scopes.lookup? s₂ name
  resolves : ∀ {k m₁ m₂ s₁ s₂} (name : String), seen s₁ s₂ → inStep k m₁ m₂ →
    Option.Rel (fun a b => seen a.1 b.1 ∧ a.2 = b.2)
      (m₁.scopes.declaration? s₁ name) (m₂.scopes.declaration? s₂ name)
  defines : ∀ {k m₁ m₂ s₁ s₂} (name : String) (v : Value), owned s₁ s₂ → inStep k m₁ m₂ →
    toLockstep.Ends k k Eq (updateScopes (·.define s₁ name v) m₁)
      (updateScopes (·.define s₂ name v) m₂)
  assigns : ∀ {k m₁ m₂ s₁ s₂} (name : String) (v : Value), seen s₁ s₂ → inStep k m₁ m₂ →
    toLockstep.Ends k k Eq (updateScopes (·.assign s₁ name v) m₁)
      (updateScopes (·.assign s₂ name v) m₂)
  declares : ∀ {k m₁ m₂ s₁ s₂} (f : Function), owned s₁ s₂ → inStep k m₁ m₂ →
    toLockstep.Ends k k Eq (updateScopes (fun scopes => (.ok (), scopes.declare s₁ f)) m₁)
      (updateScopes (fun scopes => (.ok (), scopes.declare s₂ f)) m₂)
  enters : ∀ {k m₁ m₂}, inStep k m₁ m₂ →
    toLockstep.Ends k (k + 1) Eq (enterProbed p₁ (k + 1) m₁) (enterProbed p₂ (k + 1) m₂)
  leaves : ∀ {k m₁ m₂}, inStep (k + 1) m₁ m₂ →
    toLockstep.Ends (k + 1) k Eq (leaveCall m₁) (leaveCall m₂)
  /-- A failure leaves a call on both sides. -/
  unwinds : ∀ {k e₁ m₁ e₂ m₂}, failed (k + 1) e₁ m₁ e₂ m₂ →
    failed k (e₁.mapFault p₁.leaving) m₁ (e₂.mapFault p₂.leaving) m₂
  unwinds_stopped : ∀ {e m₁ m₂}, stopped e m₁ m₂ → stopped (e.mapFault p₁.leaving) m₁ m₂
  /-- Either no program is run from inside, or such a program keeps the runs in step. -/
  runs : (∀ {k m₁ m₂}, inStep k m₁ m₂ → m₁.QuietHosts) ∨
    (owned Scope.root Scope.root ∧ ∀ {k} {x y : Exec (Option Value)}, toLockstep.Pairs k x y →
      toLockstep.Pairs k (guarded (reporting p₁.exhausted x)) (guarded (reporting p₂.exhausted y)))

/-! ## Actions in step -/

namespace Simulation

open Exec Evaluator Lockstep

variable {p₁ p₂ : Probe} (sim : Simulation p₁ p₂) {active : Nat} {s₁ s₂ : Scope} {α : Type}

theorem pairs_throw (e : Failure) : sim.Pairs active (throw e : Exec α) (throw e) :=
  ⟨forward_throw e, fun h => Or.inl (sim.throws e h)⟩

theorem pairs_ofExcept (r : Except ScriptError α) : sim.Pairs active (ofExcept r) (ofExcept r) := by
  cases r with
  | ok a => exact pairs_pure a
  | error e => exact sim.pairs_throw _

theorem pairs_demand (needed : Stack → Nat) : sim.Pairs active (demand needed) (demand needed) :=
  ⟨forward_demand needed, fun h => sim.demands needed h⟩

theorem pairs_operate (frames : Nat) (operator : Operator) (a b : Value) :
    sim.Pairs active (operate frames operator a b) (operate frames operator a b) := by
  refine (sim.pairs_demand _).bind fun _ => ?_
  cases operator.apply a b with
  | ok value => exact pairs_pure value
  | error e => exact sim.pairs_throw e

theorem pairs_trace (level : Nat) {line₁ line₂ : Machine → String}
    (h : ∀ {m₁ m₂}, sim.inStep active m₁ m₂ → line₁ m₁ = line₂ m₂) :
    sim.Pairs active (trace level line₁) (trace level line₂) := by
  refine ⟨forward_trace level line₂, fun {m₁ m₂} hs => ?_⟩
  show () = () ∧ sim.inStep active (m₁.noted level (line₁ m₁)) (m₂.noted level (line₂ m₂))
  rw [h hs]
  exact ⟨rfl, sim.notes level _ hs⟩

theorem pairs_print (values : List Value) : sim.Pairs active (print values) (print values) :=
  ⟨forward_print values, fun hs => ⟨rfl, sim.prints _ hs⟩⟩

theorem pairs_readInput (kind : InputKind) :
    sim.Pairs active (readInput kind) (readInput kind) := by
  have hline : sim.Pairs active readLine readLine := ⟨forward_readLine, fun hs => sim.reads hs⟩
  refine hline.bind fun line => ?_
  cases kind with
  | number =>
    dsimp only
    cases Double.read? (String.ofList (Text.trim line)) with
    | some number => exact pairs_pure _
    | none => exact sim.pairs_throw _
  | text => exact pairs_pure _
  | other name => exact pairs_pure _

theorem pairs_lookup (hs : sim.seen s₁ s₂) (name : String) :
    sim.Pairs active (lookup s₁ name) (lookup s₂ name) := by
  refine ⟨forward_lookup s₂ name, fun {m₁ m₂} h => ?_⟩
  rw [lookup_apply, lookup_apply, sim.looksUp name hs h]
  cases m₂.scopes.lookup? s₂ name with
  | some value => exact ⟨rfl, h⟩
  | none => exact Or.inl (sim.throws _ h)

theorem pairs_define (hs : sim.owned s₁ s₂) (name : String) (v : Value) :
    sim.Pairs active (updateScopes (·.define s₁ name v)) (updateScopes (·.define s₂ name v)) :=
  ⟨forward_updateScopes fun scopes => scopes.later_define s₂ name v,
    fun h => sim.defines name v hs h⟩

theorem pairs_assign (hs : sim.seen s₁ s₂) (name : String) (v : Value) :
    sim.Pairs active (updateScopes (·.assign s₁ name v)) (updateScopes (·.assign s₂ name v)) :=
  ⟨forward_updateScopes fun scopes => scopes.later_assign s₂ name v,
    fun h => sim.assigns name v hs h⟩

theorem pairs_declare (hs : sim.owned s₁ s₂) (f : Function) :
    sim.Pairs active (updateScopes fun scopes => (.ok (), scopes.declare s₁ f))
      (updateScopes fun scopes => (.ok (), scopes.declare s₂ f)) :=
  ⟨forward_updateScopes fun scopes => scopes.later_declare s₂ f, fun h => sim.declares f hs h⟩

/-- What runs in new scopes is in step if it is in step for all scopes that names may be defined
in. -/
theorem couples_openScope {γ : Type} {fail after : Nat} {f g : Scope → Exec γ}
    (hs : sim.seen s₁ s₂) (hg : ∀ inner, (g inner).Forward)
    (h : ∀ {i₁ i₂}, sim.owned i₁ i₂ → sim.Couples fail active after (f i₁) (g i₂) Eq) :
    sim.Couples fail active after (openScope s₁ >>= f) (openScope s₂ >>= g) Eq := by
  refine ⟨(forward_openScope s₂).bind hg, fun {m₁ m₂} hm => ?_⟩
  obtain ⟨ho, hm'⟩ := sim.opens hs hm
  exact (h ho).ends hm'

theorem pairs_reserve (frames : Nat) : sim.Pairs active (reserve frames) (reserve frames) := by
  refine (sim.pairs_demand _).bind fun _ => ?_
  exact ⟨fun m => m.later_reserve _, fun h => ⟨rfl, sim.reserves _ h⟩⟩

theorem pairs_nested {frames : Nat} {f g : Nat → Exec α}
    (h : ∀ frames, sim.Pairs active (f frames) (g frames)) :
    sim.Pairs active (nested frames f) (nested frames g) :=
  (sim.pairs_demand _).bind fun _ => h _

theorem pairs_leftmost {frames : Nat} {f g : Nat → Exec α} (node : Node)
    (h : ∀ frames, sim.Pairs active (f frames) (g frames)) :
    sim.Pairs active (leftmost frames node f) (leftmost frames node g) := by
  unfold leftmost
  split
  · exact h frames
  · exact sim.pairs_nested h

/-! ## Evaluation in step -/

/-- Whether two ways to call functions keep machines in step. -/
structure Callees (active : Nat) (c₁ c₂ : Callee) : Prop where
  forward : c₂.Forward
  pairs : ∀ (frames : Nat) (name : String) (arguments : List Value) {s₁ s₂}, sim.seen s₁ s₂ →
    sim.Pairs active (c₁ frames name arguments s₁) (c₂ frames name arguments s₂)

variable {sim} {c₁ c₂ : Callee}

mutual

theorem Callees.evaluate (hc : sim.Callees active c₁ c₂) (hs : sim.seen s₁ s₂) (frames : Nat) :
    ∀ node : Node, sim.Pairs active (evaluate c₁ s₁ frames node []) (evaluate c₂ s₂ frames node [])
  | .literal value => pairs_pure value
  | .reference name => by
    rw [evaluate_reference, evaluate_reference]
    exact sim.pairs_lookup hs name
  | .binary operator left right => by
    rw [evaluate_binary, evaluate_binary]
    refine (sim.pairs_leftmost left fun frames => Callees.evaluate hc hs frames left).bind
      fun a => ?_
    refine (sim.pairs_nested fun frames => Callees.evaluate hc hs frames right).bind fun b => ?_
    exact sim.pairs_operate frames operator a b
  | .call name arguments => by
    rw [evaluate_call, evaluate_call]
    refine (sim.pairs_nested fun frames => Callees.evaluateAll hc hs frames arguments).bind
      fun values => ?_
    exact sim.pairs_nested fun frames => hc.pairs frames name values hs
  | .input kind => by
    rw [evaluate_input, evaluate_input]
    exact sim.pairs_readInput kind
  | .block _ | .program _ | .print _ | .definition _ _ | .assignment _ _ | .conditional _ _ _
  | .loop _ _ | .function _ _ _ | .callStatement _ _ | .returning _ | .expressionStatement _
  | .valueStatement _ | .fragment _ => sim.pairs_throw _
termination_by structural node => node

theorem Callees.evaluateAll (hc : sim.Callees active c₁ c₂) (hs : sim.seen s₁ s₂) (frames : Nat) :
    ∀ nodes : List Node,
      sim.Pairs active (evaluateAll c₁ s₁ frames nodes) (evaluateAll c₂ s₂ frames nodes)
  | [] => pairs_pure []
  | node :: nodes => by
    rw [Evaluator.evaluateAll, Evaluator.evaluateAll]
    refine (sim.pairs_nested fun frames => Callees.evaluate hc hs frames node).bind fun value => ?_
    exact (Callees.evaluateAll hc hs frames nodes).bind fun values => pairs_pure _
termination_by structural nodes => nodes

end

theorem Callees.value (hc : sim.Callees active c₁ c₂) (hs : sim.seen s₁ s₂) (frames : Nat)
    (node : Node) : sim.Pairs active (value c₁ s₁ frames node) (value c₂ s₂ frames node) :=
  sim.pairs_nested fun frames => hc.evaluate hs frames node

theorem Callees.values (hc : sim.Callees active c₁ c₂) (hs : sim.seen s₁ s₂) (frames : Nat)
    (nodes : List Node) :
    sim.Pairs active (values c₁ s₁ frames nodes) (values c₂ s₂ frames nodes) :=
  sim.pairs_nested fun frames => hc.evaluateAll hs frames nodes

/-! ## Execution in step

The first run may have less fuel, if running out of it counts as having stopped. -/

/-- Whether amounts of fuel for the two runs keep them in step. -/
def Fuels (sim : Simulation p₁ p₂) (f₁ f₂ : Nat) : Prop :=
  f₁ = f₂ ∨ (f₁ ≤ f₂ ∧ ∀ {k m₁ m₂}, sim.inStep k m₁ m₂ → sim.stopped .outOfFuel m₁ m₂)

variable {f₁ f₂ : Nat}

theorem Fuels.of_succ (h : sim.Fuels (f₁ + 1) f₂) : ∃ f, f₂ = f + 1 ∧ sim.Fuels f₁ f := by
  rcases h with rfl | ⟨hle, hstop⟩
  · exact ⟨f₁, rfl, Or.inl rfl⟩
  · exact ⟨f₂ - 1, by omega, Or.inr ⟨by omega, hstop⟩⟩

theorem Fuels.pairs_outOfFuel (hf : sim.Fuels 0 f₂) {y : Exec α} (hy : y.Forward)
    (hzero : f₂ = 0 → y = throw .outOfFuel) : sim.Pairs active (throw .outOfFuel) y := by
  rcases hf with rfl | ⟨_, hstop⟩
  · rw [hzero rfl]
    exact sim.pairs_throw _
  · exact ⟨hy, fun h => Ends.of_stopped (sim.persists (hstop h) (hy _))⟩

theorem Fuels.repeatWhile (hf : sim.Fuels f₁ f₂) {condition₁ condition₂ : Exec Bool}
    {body₁ body₂ : Exec (Option Value)} (hc : sim.Pairs active condition₁ condition₂)
    (hb : sim.Pairs active body₁ body₂) :
    sim.Pairs active (repeatWhile condition₁ body₁ f₁) (repeatWhile condition₂ body₂ f₂) := by
  induction f₁ generalizing f₂ with
  | zero =>
    refine hf.pairs_outOfFuel (forward_repeatWhile hc.forward hb.forward f₂) fun h => ?_
    rw [h]
    rfl
  | succ f₁ ih =>
    obtain ⟨f, rfl, hf'⟩ := hf.of_succ
    refine hc.bind fun holds => ?_
    cases holds with
    | false => exact pairs_pure none
    | true =>
      refine hb.bind fun result => ?_
      cases result with
      | none => exact ih hf'
      | some value => exact pairs_pure _

end Simulation

/-- Whether executing the node itself binds a name in the scope where it stands. -/
def Node.declares : Node → Bool
  | .definition .. | .function .. => true
  | _ => false

namespace Simulation

open Exec Evaluator Lockstep

variable {p₁ p₂ : Probe} {sim : Simulation p₁ p₂} {active : Nat} {s₁ s₂ : Scope} {c₁ c₂ : Callee}
  {f₁ f₂ : Nat}

/-- The body of a branch or a loop runs in a scope of its own. -/
theorem Callees.inNewScope (hc : sim.Callees active c₁ c₂) (hs : sim.seen s₁ s₂) (frames : Nat)
    (block : Node)
    (h : ∀ {i₁ i₂}, sim.owned i₁ i₂ → ∀ frames,
      sim.Pairs active (executeBlock c₁ f₁ i₁ frames block) (executeBlock c₂ f₂ i₂ frames block)) :
    sim.Pairs active
      (do let inner ← openScope s₁
          nested frames fun frames => executeBlock c₁ f₁ inner frames block)
      (do let inner ← openScope s₂
          nested frames fun frames => executeBlock c₂ f₂ inner frames block) := by
  refine sim.couples_openScope hs (fun inner => ?_) fun ho => ?_
  · exact forward_nested fun frames => forward_executeBlock hc.forward f₂ inner frames block
  · exact sim.pairs_nested fun frames => h ho frames

mutual

/-- Statements keep machines in step. Those that bind a name need scopes in which they may. -/
theorem Callees.execute (hc : sim.Callees active c₁ c₂) (hf : sim.Fuels f₁ f₂)
    {s₁ s₂ : Scope} (hs : sim.seen s₁ s₂) (frames : Nat) :
    ∀ node : Node, (node.declares = true → sim.owned s₁ s₂) →
      sim.Pairs active (execute c₁ f₁ s₁ frames node) (execute c₂ f₂ s₂ frames node)
  | .print expressions, _ => by
    rw [Evaluator.execute, Evaluator.execute]
    refine (hc.values hs frames expressions).bind fun values => ?_
    exact (sim.pairs_print values).bind fun _ => pairs_pure none
  | .definition name expression, ho => by
    rw [Evaluator.execute, Evaluator.execute]
    refine (hc.value hs frames expression).bind fun v => ?_
    refine (sim.pairs_define (ho rfl) name v).bind fun _ => ?_
    exact (sim.pairs_trace 2 fun _ => rfl).bind fun _ => pairs_pure none
  | .assignment name expression, _ => by
    rw [Evaluator.execute, Evaluator.execute]
    refine (hc.value hs frames expression).bind fun v => ?_
    refine (sim.pairs_assign hs name v).bind fun _ => ?_
    exact (sim.pairs_trace 2 fun _ => rfl).bind fun _ => pairs_pure none
  | .conditional condition thenBlock elseBlock, _ => by
    rw [execute_conditional, execute_conditional]
    refine (hc.value hs frames condition).bind fun v => ?_
    refine (sim.pairs_ofExcept v.toBool).bind fun holds => ?_
    refine (sim.pairs_trace 3 fun _ => rfl).bind fun _ => ?_
    cases holds with
    | true =>
      exact hc.inNewScope hs frames thenBlock fun ho frames =>
        Callees.executeBlock hc hf ho frames thenBlock
    | false =>
      match elseBlock with
      | none => exact pairs_pure none
      | some block =>
        exact hc.inNewScope hs frames block fun ho frames =>
          Callees.executeBlock hc hf ho frames block
  | .loop condition body, _ => by
    rw [Evaluator.execute, Evaluator.execute]
    refine hf.repeatWhile ?_ ?_
    · refine (hc.value hs frames condition).bind fun v => ?_
      refine (sim.pairs_ofExcept v.toBool).bind fun holds => ?_
      exact (sim.pairs_trace 3 fun _ => rfl).bind fun _ => pairs_pure holds
    · exact hc.inNewScope hs frames body fun ho frames => Callees.executeBlock hc hf ho frames body
  | .function name parameters body, ho => by
    rw [Evaluator.execute, Evaluator.execute]
    refine (sim.pairs_declare (ho rfl) _).bind fun _ => ?_
    exact (sim.pairs_trace 2 fun _ => rfl).bind fun _ => pairs_pure none
  | .callStatement name arguments, _ => by
    rw [Evaluator.execute, Evaluator.execute]
    refine (hc.values hs frames arguments).bind fun values => ?_
    refine (sim.pairs_nested fun frames => hc.pairs frames name values hs).bind fun _ => ?_
    exact pairs_pure none
  | .returning expression, _ => by
    rw [Evaluator.execute, Evaluator.execute]
    exact (hc.value hs frames expression).bind fun v => pairs_pure _
  | .expressionStatement expression, _ => by
    rw [Evaluator.execute, Evaluator.execute]
    exact (hc.value hs frames expression).bind fun _ => pairs_pure none
  | .valueStatement _, _ => pairs_pure none
  | .reference _, _ | .literal _, _ | .binary _ _ _, _ | .call _ _, _ | .input _, _ | .block _, _
  | .program _, _ | .fragment _, _ => sim.pairs_throw _
termination_by structural node => node

theorem Callees.executeBlock (hc : sim.Callees active c₁ c₂) (hf : sim.Fuels f₁ f₂)
    {s₁ s₂ : Scope} (ho : sim.owned s₁ s₂) (frames : Nat) :
    ∀ node : Node,
      sim.Pairs active (executeBlock c₁ f₁ s₁ frames node) (executeBlock c₂ f₂ s₂ frames node)
  | .block statements => by
    rw [Evaluator.executeBlock, Evaluator.executeBlock]
    exact Callees.executeAll hc hf ho frames statements
  | .reference _ | .literal _ | .binary _ _ _ | .call _ _ | .input _ | .program _ | .print _
  | .definition _ _ | .assignment _ _ | .conditional _ _ _ | .loop _ _ | .function _ _ _
  | .callStatement _ _ | .returning _ | .expressionStatement _ | .valueStatement _
  | .fragment _ => sim.pairs_throw _
termination_by structural node => node

theorem Callees.executeAll (hc : sim.Callees active c₁ c₂) (hf : sim.Fuels f₁ f₂)
    {s₁ s₂ : Scope} (ho : sim.owned s₁ s₂) (frames : Nat) :
    ∀ statements : List Node,
      sim.Pairs active (executeAll c₁ f₁ s₁ frames statements)
        (executeAll c₂ f₂ s₂ frames statements)
  | [] => pairs_pure none
  | statement :: statements => by
    rw [Evaluator.executeAll, Evaluator.executeAll]
    refine (Callees.execute hc hf (sim.seen_of_owned ho) (frames + 1) statement fun _ => ho).bind
      fun result => ?_
    cases result with
    | none => exact Callees.executeAll hc hf ho frames statements
    | some value => exact pairs_pure _
termination_by structural statements => statements

end

theorem Callees.executeProgram (hc : sim.Callees active c₁ c₂) (hf : sim.Fuels f₁ f₂)
    (hroot : sim.owned Scope.root Scope.root) (frames : Nat) (body : List Node) :
    sim.Pairs active (executeProgram c₁ f₁ frames body) (executeProgram c₂ f₂ frames body) := by
  refine (sim.pairs_reserve frames).bind fun _ => ?_
  exact sim.pairs_nested fun frames => hc.executeAll hf hroot frames body

/-! ## Calls in step -/

theorem pairs_defineAll {bindings : List (String × Value)} (ho : sim.owned s₁ s₂) :
    sim.Pairs active (defineAll s₁ bindings) (defineAll s₂ bindings) := by
  induction bindings with
  | nil => exact pairs_pure ()
  | cons binding rest ih =>
    obtain ⟨name, v⟩ := binding
    exact (sim.pairs_define ho name v).bind fun _ => ih

theorem pairs_checkCount (f : Function) (name : String) (arguments : List Value) :
    sim.Pairs active (checkCount f name arguments) (checkCount f name arguments) := by
  unfold checkCount
  split
  · exact sim.pairs_throw _
  · exact pairs_pure ()

/-- The function runs with one more call active, and that call is left at its end. -/
theorem couples_activate {body₁ body₂ : (frames : Nat) → Scope → Node → Exec (Option Value)}
    (frames : Nat) (f : Function) (name : String) (arguments : List Value) (hs : sim.seen s₁ s₂)
    (hforward : ∀ frames inner node, (body₂ frames inner node).Forward)
    (hbody : ∀ frames {i₁ i₂}, sim.owned i₁ i₂ →
      sim.Pairs (active + 1) (body₁ frames i₁ f.body) (body₂ frames i₂ f.body)) :
    sim.Couples (active + 1) (active + 1) active (activate body₁ frames s₁ f name arguments)
      (activate body₂ frames s₂ f name arguments) Eq := by
  have hleave : sim.Couples (active + 1) (active + 1) active leaveCall leaveCall Eq :=
    ⟨forward_leaveCall, fun h => sim.leaves h⟩
  refine Couples.bind (sim.pairs_reserve frames) fun _ => ?_
  refine Couples.bind (sim.pairs_trace 1 fun h => ?_) fun _ => ?_
  · rw [sim.depth h]
  refine sim.couples_openScope hs (fun inner => ?_) fun ho => ?_
  · refine (forward_defineAll inner _).bind fun _ => ?_
    refine (forward_nested fun frames => hforward frames inner f.body).bind fun result => ?_
    exact forward_leaveCall.bind fun _ => (forward_trace _ _).bind fun _ => forward_pure _
  refine Couples.bind (pairs_defineAll ho) fun _ => ?_
  refine Couples.bind (sim.pairs_nested fun frames => hbody frames ho) fun result => ?_
  refine hleave.bind fun _ => ?_
  -- what is traced after the call cannot fail, so it does not matter how failures would be seen
  refine ⟨(forward_trace _ _).bind fun _ => forward_pure _, fun h => ?_⟩
  exact ⟨rfl, sim.notes 1 _ h⟩

/-- A failure of the call is seen outside it. -/
theorem couples_mapFailure {x y : Exec Value}
    (h : sim.Couples (active + 1) (active + 1) active x y Eq) :
    sim.Couples active (active + 1) active (mapFailure (Failure.mapFault p₁.leaving) x)
      (mapFailure (Failure.mapFault p₂.leaving) y) Eq := by
  refine ⟨h.forward, fun {m₁ m₂} hs => ?_⟩
  have he := h.ends hs
  unfold mapFailure
  rcases hx : x m₁ with ⟨r₁, m₁'⟩
  rcases hy : y m₂ with ⟨r₂, m₂'⟩
  rw [hx, hy] at he
  cases r₁ with
  | ok a =>
    cases r₂ with
    | ok b => exact he
    | error e₂ => exact he.elim
  | error e₁ =>
    cases r₂ with
    | ok b => exact sim.unwinds_stopped he
    | error e₂ => exact he.imp sim.unwinds sim.unwinds_stopped

theorem pairs_act {run₁ run₂ : Text.Names → String → Exec (Option Value)} (action : HostAction)
    (hrun : action.Quiet ∨
      ∀ names source, sim.Pairs active (run₁ names source) (run₂ names source)) :
    sim.Pairs active (act run₁ action) (act run₂ action) := by
  induction action with
  | done result => exact pairs_pure result
  | fail failure => exact sim.pairs_throw failure
  | depth next ih =>
    have hnext : ∀ n, sim.Pairs active (act run₁ (next n)) (act run₂ (next n)) := by
      intro n
      refine ih n (hrun.imp_left fun hq => ?_)
      cases hq with
      | depth h => exact h n
    refine couples_get (forward_get.bind fun m => (hnext _).forward) fun {m₁ m₂} h => ?_
    rw [← sim.depth h]
    exact (hnext m₁.calls.depth).ends h
  | run names source next ih =>
    rcases hrun with hq | hrun
    · cases hq
    · exact (hrun names source).bind fun result => ih result (Or.inr hrun)

theorem pairs_checkArity (f : HostFunction) (arguments : List Value) :
    sim.Pairs active (checkArity f arguments) (checkArity f arguments) := by
  unfold checkArity
  cases f.arity with
  | none => exact pairs_pure ()
  | some arity =>
    dsimp only
    split
    · exact sim.pairs_throw _
    · exact pairs_pure ()

theorem pairs_callHost {run₁ run₂ : (frames : Nat) → Text.Names → String → Exec (Option Value)}
    (frames : Nat) (f : HostFunction) (arguments : List Value)
    (hrun : (f.body arguments).Quiet ∨ ∀ frames names source,
      sim.Pairs active (run₁ frames names source) (run₂ frames names source)) :
    sim.Pairs active (callHost run₁ frames f arguments) (callHost run₂ frames f arguments) := by
  refine (sim.pairs_trace 1 fun _ => rfl).bind fun _ => sim.pairs_nested fun frames => ?_
  refine (pairs_checkArity f arguments).bind fun _ => (sim.pairs_demand _).bind fun _ => ?_
  refine (pairs_act _ (hrun.imp_right fun h => h _)).bind fun result => ?_
  exact pairs_pure (result.getD .void)

/-- A program that the host runs keeps machines in step, if the simulation covers such programs. -/
theorem Callees.runSourceProbed (hc : sim.Callees active c₁ c₂) (hf : sim.Fuels f₁ f₂)
    (hroot : sim.owned Scope.root Scope.root)
    (hguard : ∀ {x y : Exec (Option Value)}, sim.Pairs active x y →
      sim.Pairs active (guarded (reporting p₁.exhausted x)) (guarded (reporting p₂.exhausted y)))
    (frames : Nat) (names : Text.Names) (source : String) :
    sim.Pairs active (runSourceProbed p₁ c₁ f₁ frames names source)
      (runSourceProbed p₂ c₂ f₂ frames names source) := by
  unfold Evaluator.runSourceProbed runText
  cases Program.parse names source with
  | ok body =>
    exact sim.pairs_nested fun frames => hguard (hc.executeProgram hf hroot frames body)
  | error failure => exact sim.pairs_throw failure

/-- **Calls keep machines in step.** -/
theorem callees_callProbed (sim : Simulation p₁ p₂) (hf : sim.Fuels f₁ f₂) (active : Nat) :
    sim.Callees active (callProbed p₁ f₁ active) (callProbed p₂ f₂ active) := by
  -- by induction on the fuel of the first run: a declared function runs with less of it, while one
  -- more call is active
  induction f₁ generalizing f₂ active with
  | zero =>
    refine ⟨forward_callProbed p₂ f₂ active, fun frames name arguments s₁ s₂ _ => ?_⟩
    refine hf.pairs_outOfFuel (forward_callProbed p₂ f₂ active frames name arguments s₂) fun h => ?_
    rw [h]
    rfl
  | succ f₁ ih =>
    obtain ⟨f, rfl, hf'⟩ := hf.of_succ
    have hforward := forward_callProbed p₂ (f + 1) active
    refine ⟨hforward, fun frames name arguments s₁ s₂ hs => ?_⟩
    have hcall := hforward frames name arguments s₂
    rw [callProbed] at hcall ⊢
    rw [callProbed]
    refine couples_get hcall fun {m₁ m₂} h => ?_
    rw [← sim.hosts h]
    cases hhost : m₁.hosts.find? name with
    | some host =>
      refine (pairs_callHost frames host arguments ?_).ends h
      rcases sim.runs with hquiet | ⟨hroot, hguard⟩
      · exact Or.inl (hquiet h name host hhost arguments)
      · exact Or.inr ((ih hf' active).runSourceProbed hf' hroot hguard)
    | none =>
      have hfound := sim.resolves name hs h
      dsimp only
      generalize m₁.scopes.declaration? s₁ name = found₁ at hfound
      generalize m₂.scopes.declaration? s₂ name = found₂ at hfound
      cases hfound with
      | none => exact (sim.pairs_throw _).ends h
      | @some found₁ found₂ hfound =>
        obtain ⟨owner₁, function⟩ := found₁
        obtain ⟨owner₂, _⟩ := found₂
        obtain ⟨howner, rfl⟩ := hfound
        have henter : sim.Couples active active (active + 1) (enterProbed p₁ (active + 1))
            (enterProbed p₂ (active + 1)) Eq :=
          ⟨forward_enterProbed p₂ (active + 1), fun h => sim.enters h⟩
        refine (Couples.bind (pairs_checkCount function name arguments) fun _ =>
          henter.bind fun _ => couples_mapFailure ?_).ends h
        refine couples_activate frames function name arguments howner (fun frames inner node => ?_)
          fun frames _ _ ho => ?_
        · exact forward_executeBlock (ih hf' (active + 1)).forward f inner frames node
        · exact (ih hf' (active + 1)).executeBlock hf' ho frames function.body

/-- Whole runs keep machines in step, if what ends a program does. -/
theorem ends_runProbed (sim : Simulation p₁ p₂) (hf : sim.Fuels f₁ f₂)
    (hroot : sim.owned Scope.root Scope.root)
    (hguard : ∀ {x y : Exec (Option Value)}, sim.Pairs 0 x y →
      sim.Pairs 0 (guarded (reporting p₁.exhausted x)) (guarded (reporting p₂.exhausted y)))
    (body : List Node) {m₁ m₂ : Machine} (h : sim.inStep 0 m₁ m₂)
    (hbase : m₁.stack.base = m₂.stack.base) :
    sim.Ends 0 0 Eq (Machine.runProbed p₁ f₁ body m₁) (Machine.runProbed p₂ f₂ body m₂) := by
  unfold Machine.runProbed
  rw [hbase]
  exact (hguard ((sim.callees_callProbed hf 0).executeProgram hf hroot _ body)).ends h

end Simulation

end ScriptLang
