import ScriptLang.Proofs.Simulation

set_option autoImplicit false

/-! # What single runs keep

An `Invariant` is a property of machines that every action keeps. It makes a run beside itself a
simulation, so evaluation, execution and calls keep it, too, whether they complete or fail. Which
scopes the code may see and define names in is part of the invariant. -/

namespace ScriptLang

open Exec Evaluator

/-- A property of machines that all actions of a run keep while the functions of the host leave the
interpreter alone. -/
structure Invariant where
  holds : Machine → Prop
  /-- Scopes that code may run in. -/
  seen : Scope → Prop
  /-- Scopes in which that code may also define names. -/
  owned : Scope → Prop
  seen_of_owned : ∀ {s}, owned s → seen s
  quiet : ∀ {m}, holds m → m.QuietHosts
  notes : ∀ {m} (level : Nat) (line : String), holds m → holds (m.noted level line)
  prints : ∀ {m} (record : String), holds m → holds (m.printed record)
  reserves : ∀ {m} (stack : Stack), holds m → holds { m with stack }
  reads : ∀ {m}, holds m → holds (readLine m).2
  opens : ∀ {m s}, seen s → holds m →
    owned (m.scopes.child s).1 ∧ holds { m with scopes := (m.scopes.child s).2 }
  resolves : ∀ {m s owner} {name : String} {f : Function}, seen s → holds m →
    m.scopes.declaration? s name = some (owner, f) → seen owner
  defines : ∀ {m s} (name : String) (v : Value), owned s → holds m →
    holds { m with scopes := (m.scopes.define s name v).2 }
  assigns : ∀ {m s} (name : String) (v : Value), seen s → holds m →
    holds { m with scopes := (m.scopes.assign s name v).2 }
  declares : ∀ {m s} (f : Function), owned s → holds m →
    holds { m with scopes := m.scopes.declare s f }
  enters : ∀ {m}, holds m → holds { m with calls := m.calls.enter.2 }
  leaves : ∀ {m}, holds m → holds { m with calls := m.calls.leave }

namespace Invariant

variable (I : Invariant)

/-- A run beside itself. -/
def lockstep : Lockstep where
  inStep _ m₁ m₂ := m₁ = m₂ ∧ I.holds m₁
  failed _ e₁ m₁ e₂ m₂ := e₁ = e₂ ∧ m₁ = m₂ ∧ I.holds m₁
  stopped _ _ _ := False
  persists h _ := h

theorem ends {α : Type} {fail after : Nat} {r : Except Failure α × Machine} (h : I.holds r.2) :
    I.lockstep.Ends fail after Eq r r := by
  rcases r with ⟨r, m⟩
  cases r with
  | ok a => exact ⟨rfl, rfl, h⟩
  | error e => exact Or.inl ⟨rfl, rfl, h⟩

theorem ends_updateScopes {fail after : Nat} {m : Machine}
    {update : Scopes → Except ScriptError Unit × Scopes}
    (h : I.holds { m with scopes := (update m.scopes).2 }) :
    I.lockstep.Ends fail after Eq (updateScopes update m) (updateScopes update m) := by
  apply I.ends
  rw [updateScopes_apply]
  exact h

/-- A run beside itself is a simulation. -/
def simulation : Simulation {} {} where
  toLockstep := I.lockstep
  seen s₁ s₂ := s₁ = s₂ ∧ I.seen s₁
  owned s₁ s₂ := s₁ = s₂ ∧ I.owned s₁
  seen_of_owned h := ⟨h.1, I.seen_of_owned h.2⟩
  throws _ h := ⟨rfl, h⟩
  depth h := h.1 ▸ rfl
  hosts h := h.1 ▸ rfl
  notes level line := by
    rintro ⟨rfl, h⟩
    exact ⟨rfl, I.notes level line h⟩
  prints record := by
    rintro ⟨rfl, h⟩
    exact ⟨rfl, I.prints record h⟩
  demands needed := by
    rintro ⟨rfl, h⟩
    apply I.ends
    rw [demand_apply]
    exact h
  reserves frames := by
    rintro ⟨rfl, h⟩
    exact ⟨rfl, I.reserves _ h⟩
  reads := by
    rintro k m _ ⟨rfl, h⟩
    exact I.ends (I.reads h)
  opens := by
    rintro k m _ s _ ⟨rfl, hs⟩ ⟨rfl, h⟩
    obtain ⟨ho, hm⟩ := I.opens hs h
    exact ⟨⟨rfl, ho⟩, rfl, hm⟩
  looksUp name := by
    rintro ⟨rfl, _⟩ ⟨rfl, _⟩
    rfl
  resolves name := by
    rintro ⟨rfl, hs⟩ ⟨rfl, h⟩
    exact optionRel_self fun _ hfound => ⟨⟨rfl, I.resolves hs h hfound⟩, rfl⟩
  defines name v := by
    rintro ⟨rfl, hs⟩ ⟨rfl, h⟩
    exact I.ends_updateScopes (I.defines name v hs h)
  assigns name v := by
    rintro ⟨rfl, hs⟩ ⟨rfl, h⟩
    exact I.ends_updateScopes (I.assigns name v hs h)
  declares f := by
    rintro ⟨rfl, hs⟩ ⟨rfl, h⟩
    exact I.ends_updateScopes (I.declares f hs h)
  enters := by
    rintro k m _ ⟨rfl, h⟩
    rw [enterProbed_nothing]
    apply I.ends
    rw [enterCall_apply]
    exact I.enters h
  leaves := by
    rintro k m _ ⟨rfl, h⟩
    exact I.ends (r := leaveCall m) (I.leaves h)
  unwinds := by
    rintro k e m _ _ ⟨rfl, rfl, h⟩
    exact ⟨rfl, rfl, h⟩
  unwinds_stopped h := h
  runs := Or.inl fun h => I.quiet h.2

variable {m : Machine} {s : Scope}

private theorem holds_of_pairs {α : Type} {x : Exec α} (hx : I.simulation.Pairs 0 x x)
    (h : I.holds m) : I.holds (x m).2 := by
  have he := hx.ends ⟨rfl, h⟩
  rcases hxm : x m with ⟨r, m'⟩
  rw [hxm] at he
  cases r with
  | ok a => exact he.2.2
  | error e => exact he.elim (fun hf => hf.2.2) False.elim

private theorem callees (fuel : Nat) : I.simulation.Callees 0 (call fuel) (call fuel) := by
  have hc := I.simulation.callees_callProbed (Or.inl (Eq.refl fuel)) 0
  rwa [callProbed_nothing] at hc

theorem holds_call (hs : I.seen s) (h : I.holds m) (fuel frames : Nat) (name : String)
    (arguments : List Value) : I.holds (call fuel frames name arguments s m).2 :=
  I.holds_of_pairs ((I.callees fuel).pairs frames name arguments ⟨rfl, hs⟩) h

theorem holds_evaluate (hs : I.seen s) (h : I.holds m) (fuel frames : Nat) (node : Node) :
    I.holds (evaluate (call fuel) s frames node [] m).2 :=
  I.holds_of_pairs ((I.callees fuel).evaluate ⟨rfl, hs⟩ frames node) h

theorem holds_value (hs : I.seen s) (h : I.holds m) (fuel frames : Nat) (node : Node) :
    I.holds (value (call fuel) s frames node m).2 :=
  I.holds_of_pairs ((I.callees fuel).value ⟨rfl, hs⟩ frames node) h

/-- A statement that binds no name itself needs no scope in which it may. -/
theorem holds_execute (hs : I.seen s) (h : I.holds m) (fuel turns frames : Nat) {node : Node}
    (hn : node.declares = false) : I.holds (execute (call fuel) turns s frames node m).2 := by
  refine I.holds_of_pairs ((I.callees fuel).execute (Or.inl rfl) ⟨rfl, hs⟩ frames node ?_) h
  rw [hn]
  exact nofun

end Invariant

end ScriptLang
