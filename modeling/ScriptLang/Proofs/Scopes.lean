import ScriptLang.Scope

set_option autoImplicit false

/-! # What scopes bind after each operation

A table is seen through `Bindings.names` and `Bindings.find?`, and scopes through the frame of each
number. Opening a scope changes no frame, and every other operation changes at most one. -/

namespace ScriptLang

/-! ## Tables -/

namespace Bindings

variable {α : Type}

/-- The names that a table binds, in the order of their first binding. -/
def names (table : Bindings α) : List String :=
  table.map Prod.fst

theorem find?_insert (name other : String) (value : α) (table : Bindings α) :
    (table.insert name value).find? other
      = if name = other then some value else table.find? other := by
  induction table with
  | nil => rfl
  | cons entry rest ih =>
    obtain ⟨first, old⟩ := entry
    simp only [insert]
    by_cases hfirst : first = name
    · subst hfirst
      simp only [if_true, find?]
      split <;> rfl
    · rw [if_neg hfirst]
      simp only [find?, ih]
      by_cases hother : first = other
      · have hne : ¬ name = other := fun he => hfirst (hother.trans he.symm)
        rw [if_pos hother, if_neg hne, if_pos hother]
      · rw [if_neg hother, if_neg hother]

theorem isSome_find?_iff (name : String) (table : Bindings α) :
    (table.find? name).isSome = true ↔ name ∈ table.names := by
  induction table with
  | nil => simp [find?, names]
  | cons entry rest ih =>
    obtain ⟨first, old⟩ := entry
    simp only [find?, names, List.map_cons, List.mem_cons] at ih ⊢
    by_cases hfirst : first = name
    · simp [hfirst]
    · have hne : ¬ name = first := fun he => hfirst he.symm
      rw [if_neg hfirst, ih]
      simp [hne]

theorem names_insert_of_mem {name : String} (value : α) {table : Bindings α}
    (h : name ∈ table.names) : (table.insert name value).names = table.names := by
  induction table with
  | nil => simp [names] at h
  | cons entry rest ih =>
    obtain ⟨first, old⟩ := entry
    simp only [insert]
    split
    · next hfirst => simp [names, hfirst]
    · next hfirst =>
      simp only [names, List.map_cons, List.mem_cons] at h ih ⊢
      rcases h with h | h
      · exact absurd h.symm hfirst
      · rw [ih h]

theorem names_insert_of_not_mem {name : String} (value : α) {table : Bindings α}
    (h : name ∉ table.names) : (table.insert name value).names = table.names ++ [name] := by
  induction table with
  | nil => rfl
  | cons entry rest ih =>
    obtain ⟨first, old⟩ := entry
    simp only [names, List.map_cons, List.mem_cons, not_or] at h ih ⊢
    obtain ⟨hfirst, hrest⟩ := h
    have hne : ¬ first = name := fun he => hfirst he.symm
    simp only [insert, if_neg hne, List.map_cons, ih hrest, List.cons_append]

end Bindings

/-! ## Frames -/

namespace Scopes

theorem frame_of_size_le {scopes : Scopes} {n : Nat} (h : scopes.frames.size ≤ n) :
    scopes.frame n = {} := by
  simp [frame, Array.getElem?_eq_none h]

/-- Changing one frame changes no other one; a number without a frame stays so. -/
theorem frame_modify (scopes : Scopes) (number : Nat) (change : Frame → Frame) (n : Nat) :
    ({ scopes with frames := scopes.frames.modify number change } : Scopes).frame n
      = if n = number ∧ n < scopes.frames.size then change (scopes.frame n)
        else scopes.frame n := by
  simp only [frame, Array.getElem?_modify]
  by_cases hn : number = n
  · subst hn
    by_cases hlt : number < scopes.frames.size
    · simp [hlt]
    · simp [hlt]
  · have hne : ¬ n = number := fun he => hn he.symm
    simp [hn, hne]

theorem frame_bindVariable (scopes : Scopes) (number : Nat) (name : String) (value : Value)
    (n : Nat) :
    (scopes.bindVariable number name value).frame n
      = if n = number ∧ n < scopes.frames.size then
          { scopes.frame n with values := (scopes.frame n).values.insert name value }
        else scopes.frame n :=
  scopes.frame_modify number _ n

theorem frame_declare (scopes : Scopes) (scope : Scope) (f : Function) (n : Nat) :
    (scopes.declare scope f).frame n
      = if n = scope.here ∧ n < scopes.frames.size then
          { scopes.frame n with functions := (scopes.frame n).functions.insert f.name f }
        else scopes.frame n :=
  scopes.frame_modify scope.here _ n

theorem frame_bindVariable_of_ne (scopes : Scopes) {number n : Nat} (hn : n ≠ number)
    (name : String) (value : Value) :
    (scopes.bindVariable number name value).frame n = scopes.frame n := by
  rw [frame_bindVariable, if_neg (fun h => hn h.1)]

theorem frame_declare_of_ne (scopes : Scopes) {scope : Scope} {n : Nat} (hn : n ≠ scope.here)
    (f : Function) : (scopes.declare scope f).frame n = scopes.frame n := by
  rw [frame_declare, if_neg (fun h => hn h.1)]

/-- A new scope binds nothing, like a number without a frame. -/
theorem frame_child (scopes : Scopes) (scope : Scope) (n : Nat) :
    (scopes.child scope).2.frame n = scopes.frame n := by
  simp only [child, frame, Array.getElem?_push]
  by_cases hn : n = scopes.frames.size
  · subst hn
    simp
  · rw [if_neg hn]

@[simp]
theorem size_bindVariable (scopes : Scopes) (number : Nat) (name : String) (value : Value) :
    (scopes.bindVariable number name value).frames.size = scopes.frames.size := by
  simp [bindVariable]

@[simp]
theorem size_declare (scopes : Scopes) (scope : Scope) (f : Function) :
    (scopes.declare scope f).frames.size = scopes.frames.size := by
  simp [declare]

@[simp]
theorem size_child (scopes : Scopes) (scope : Scope) :
    (scopes.child scope).2.frames.size = scopes.frames.size + 1 := by
  simp [child]

/-! ## Walks along the chain -/

theorem declarationFrom?_suffix (scopes : Scopes) (name : String) {owner : Scope} {f : Function}
    (here : Nat) (above : List Nat)
    (h : scopes.declarationFrom? name here above = some (owner, f)) :
    owner.chain <:+ here :: above := by
  induction above generalizing here with
  | nil =>
    simp only [declarationFrom?, Option.map_eq_some_iff] at h
    obtain ⟨g, _, heq⟩ := h
    cases heq
    exact List.suffix_refl _
  | cons next above ih =>
    simp only [declarationFrom?] at h
    split at h
    · cases h
      exact List.suffix_refl _
    · exact (ih next h).trans (List.suffix_cons here _)

/-- The scope that declares a function is the scope itself or one around it. -/
theorem declaration?_suffix (scopes : Scopes) {scope owner : Scope} {name : String} {f : Function}
    (h : scopes.declaration? scope name = some (owner, f)) : owner.chain <:+ scope.chain :=
  scopes.declarationFrom?_suffix name scope.here scope.above h

theorem declarationFrom?_owner (scopes : Scopes) (name : String) {owner : Scope} {f : Function}
    (here : Nat) (above : List Nat)
    (h : scopes.declarationFrom? name here above = some (owner, f)) :
    scopes.declaration? owner name = some (owner, f) := by
  induction above generalizing here with
  | nil =>
    have hfrom := h
    simp only [declarationFrom?, Option.map_eq_some_iff] at h
    obtain ⟨g, _, heq⟩ := h
    cases heq
    exact hfrom
  | cons next above ih =>
    have hfrom := h
    simp only [declarationFrom?] at h
    split at h
    · cases h
      exact hfrom
    · exact ih next h

/-- Seen from the scope that declares a function, the name denotes the same function. -/
theorem declaration?_owner (scopes : Scopes) {scope owner : Scope} {name : String} {f : Function}
    (h : scopes.declaration? scope name = some (owner, f)) :
    scopes.declaration? owner name = some (owner, f) :=
  scopes.declarationFrom?_owner name scope.here scope.above h

/-! ## Bodies of declared functions -/

/-- Whether the bodies of all declared functions have a property. -/
def ForallBodies (p : Node → Prop) (scopes : Scopes) : Prop :=
  ∀ number name f, scopes.functionAt? number name = some f → p f.body

variable {p : Node → Prop} {scopes : Scopes}

theorem ForallBodies.of_frames (h : scopes.ForallBodies p) {scopes' : Scopes}
    (hframes : ∀ n, (scopes'.frame n).functions = (scopes.frame n).functions) :
    scopes'.ForallBodies p := by
  intro number name f hf
  rw [functionAt?, hframes] at hf
  exact h number name f hf

theorem forallBodies_new (strict : Bool) : (Scopes.new strict).ForallBodies p := by
  intro number name f hf
  match number with
  | 0 => cases hf
  | n + 1 => cases hf

theorem ForallBodies.child (h : scopes.ForallBodies p) (scope : Scope) :
    (scopes.child scope).2.ForallBodies p :=
  h.of_frames fun n => by rw [frame_child]

theorem ForallBodies.bindVariable (h : scopes.ForallBodies p) (number : Nat) (name : String)
    (value : Value) : (scopes.bindVariable number name value).ForallBodies p := by
  refine h.of_frames fun n => ?_
  rw [frame_bindVariable]
  split <;> rfl

theorem ForallBodies.define (h : scopes.ForallBodies p) (scope : Scope) (name : String)
    (value : Value) : (scopes.define scope name value).2.ForallBodies p := by
  unfold Scopes.define
  split
  · exact h
  · exact h.bindVariable _ _ _

theorem ForallBodies.assign (h : scopes.ForallBodies p) (scope : Scope) (name : String)
    (value : Value) : (scopes.assign scope name value).2.ForallBodies p := by
  unfold Scopes.assign
  split
  · exact h
  · exact h.bindVariable _ _ _

theorem ForallBodies.declare (h : scopes.ForallBodies p) (scope : Scope) {f : Function}
    (hf : p f.body) : (scopes.declare scope f).ForallBodies p := by
  intro number name g hg
  rw [functionAt?, frame_declare] at hg
  split at hg
  · rw [Bindings.find?_insert] at hg
    split at hg
    · cases hg
      exact hf
    · exact h number name g hg
  · exact h number name g hg

theorem ForallBodies.declarationFrom? (h : scopes.ForallBodies p) {name : String} {owner : Scope}
    {f : Function} (here : Nat) (above : List Nat)
    (hf : scopes.declarationFrom? name here above = some (owner, f)) : p f.body := by
  induction above generalizing here with
  | nil =>
    obtain ⟨g, hg, heq⟩ := Option.map_eq_some_iff.1 hf
    cases heq
    exact h here name f hg
  | cons next above ih =>
    rw [Scopes.declarationFrom?] at hf
    split at hf
    · next hg =>
      cases hf
      exact h here name f hg
    · exact ih next hf

/-- The body of a function that a name denotes has the property. -/
theorem ForallBodies.declaration? (h : scopes.ForallBodies p) {scope owner : Scope}
    {name : String} {f : Function} (hf : scopes.declaration? scope name = some (owner, f)) :
    p f.body :=
  h.declarationFrom? scope.here scope.above hf

end Scopes

end ScriptLang
