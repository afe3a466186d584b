import ScriptLang.Proofs.Scopes

set_option autoImplicit false

/-! # Scope trees as nested environments

A scope tree grows from its root by opening scopes and by defining, assigning and declaring names
in any of its scopes. Whatever the order of these steps is, each scope answers like an environment
inside those of its parents: a name has the meaning that the first scope outward gives it, and a
step changes the answers of those scopes only whose walk outward ends where the step wrote
(`ScopeTree.AnswersNested`). What carries the proof is that no two scopes of a tree have one number
and that the parents of its scopes are scopes of it (`ScopeTree.Formed`). -/

namespace ScriptLang

/-! ## The walk outward -/

namespace Scope

/-- The scope in which a scope was opened. -/
def parent? (scope : Scope) : Option Scope :=
  match scope.above with
  | [] => none
  | next :: rest => some ⟨next, rest⟩

/-- The scope `here :: above`, its parent, and so on. -/
def lineageFrom (here : Nat) : List Nat → List Scope
  | [] => [⟨here, []⟩]
  | next :: rest => ⟨here, next :: rest⟩ :: lineageFrom next rest

/-- A scope, its parent, and so on to the outermost one. -/
def lineage (scope : Scope) : List Scope :=
  lineageFrom scope.here scope.above

theorem lineage_of_parent?_eq_none {t : Scope} (h : t.parent? = none) : t.lineage = [t] := by
  obtain ⟨here, above⟩ := t
  cases above with
  | nil => rfl
  | cons next rest => cases h

theorem lineage_of_parent?_eq_some {t p : Scope} (h : t.parent? = some p) :
    t.lineage = t :: p.lineage := by
  obtain ⟨here, above⟩ := t
  cases above with
  | nil => cases h
  | cons next rest =>
    cases h
    rfl

/-- What holds of the outermost scopes, and of a scope if it holds of the parent, holds of all. -/
theorem parent_induction {p : Scope → Prop} (outermost : ∀ t : Scope, t.parent? = none → p t)
    (inner : ∀ t u : Scope, t.parent? = some u → p u → p t) (t : Scope) : p t := by
  obtain ⟨here, above⟩ := t
  induction above generalizing here with
  | nil => exact outermost _ rfl
  | cons next rest ih => exact inner _ ⟨next, rest⟩ rfl (ih next)

theorem map_here_lineage (t : Scope) : t.lineage.map here = t.chain := by
  obtain ⟨here, above⟩ := t
  induction above generalizing here with
  | nil => rfl
  | cons next rest ih => exact congrArg (here :: ·) (ih next)

end Scope

namespace Scopes

/-- Whether a scope itself binds a variable. -/
def binds (scopes : Scopes) (name : String) (scope : Scope) : Bool :=
  (scopes.valueAt? scope.here name).isSome

/-- Whether a scope itself declares a function. -/
def declares (scopes : Scopes) (name : String) (scope : Scope) : Bool :=
  (scopes.functionAt? scope.here name).isSome

/-- The first scope outward that binds a variable. -/
def binder? (scopes : Scopes) (scope : Scope) (name : String) : Option Scope :=
  scope.lineage.find? (scopes.binds name)

/-- The first scope outward that declares a function. -/
def declarer? (scopes : Scopes) (scope : Scope) (name : String) : Option Scope :=
  scope.lineage.find? (scopes.declares name)

end Scopes

/-- The first value that a list gives is that of its first element with a value. -/
theorem findSome?_eq_bind_find? {α β : Type} (value : α → Option β) (xs : List α) :
    xs.findSome? value = (xs.find? fun x => (value x).isSome).bind value := by
  induction xs with
  | nil => rfl
  | cons x xs ih =>
    rw [List.findSome?_cons, List.find?_cons]
    cases h : value x with
    | none => simpa using ih
    | some v => simp [h]

namespace Scopes

variable (scopes : Scopes)

theorem lookup?_eq_findSome? (t : Scope) (name : String) :
    scopes.lookup? t name = t.lineage.findSome? fun u => scopes.valueAt? u.here name := by
  rw [lookup?, ← Scope.map_here_lineage, List.findSome?_map]
  rfl

/-- A variable has the value that the first scope outward binds it to. -/
theorem lookup?_eq (t : Scope) (name : String) :
    scopes.lookup? t name
      = (scopes.binder? t name).bind fun owner => scopes.valueAt? owner.here name := by
  rw [lookup?_eq_findSome?, findSome?_eq_bind_find?]
  rfl

theorem declaration?_eq_findSome? (t : Scope) (name : String) :
    scopes.declaration? t name
      = t.lineage.findSome? fun u => (scopes.functionAt? u.here name).map (u, ·) := by
  obtain ⟨here, above⟩ := t
  rw [declaration?, Scope.lineage]
  induction above generalizing here with
  | nil =>
    rw [declarationFrom?, Scope.lineageFrom, List.findSome?_singleton]
  | cons next rest ih =>
    rw [declarationFrom?, Scope.lineageFrom, List.findSome?_cons, ih next]
    cases scopes.functionAt? here name <;> rfl

theorem declaration?_eq (t : Scope) (name : String) :
    scopes.declaration? t name = (scopes.declarer? t name).bind fun owner =>
      (scopes.functionAt? owner.here name).map (owner, ·) := by
  rw [declaration?_eq_findSome?, findSome?_eq_bind_find?]
  simp only [Option.isSome_map]
  rfl

/-- The scope of a function is the first scope outward that declares it. -/
theorem functionScope?_eq (t : Scope) (name : String) :
    scopes.functionScope? t name = scopes.declarer? t name := by
  rw [functionScope?, declaration?_eq]
  cases h : scopes.declarer? t name with
  | none => rfl
  | some owner =>
    have hdeclares : scopes.declares name owner = true := List.find?_some h
    obtain ⟨f, hf⟩ := Option.isSome_iff_exists.1 hdeclares
    simp [hf]

/-- A function name denotes what the first scope outward that declares it declares. -/
theorem resolve?_eq (t : Scope) (name : String) :
    scopes.resolve? t name
      = (scopes.declarer? t name).bind fun owner => scopes.functionAt? owner.here name := by
  rw [resolve?, declaration?_eq, Option.map_bind]
  congr 1
  funext owner
  simp [Function.comp_def]

theorem find?_chain_eq (s : Scope) (name : String) :
    s.chain.find? (fun number => (scopes.valueAt? number name).isSome)
      = (scopes.binder? s name).map Scope.here := by
  rw [← Scope.map_here_lineage, List.find?_map]
  rfl

end Scopes

/-! ## What one write changes -/

/-- Along a walk that meets `s` under no other handle, giving `s` a value changes the first value if
`s` is now the first with one, and nothing otherwise. -/
theorem findSome?_overwrite {β : Type} {before after : Scope → Option β} {s : Scope} {value : β}
    (hs : after s = some value) (hother : ∀ u : Scope, u.here ≠ s.here → after u = before u)
    {walk : List Scope} (hwalk : ∀ u ∈ walk, u.here = s.here → u = s) :
    walk.findSome? after
      = if (walk.find? fun u => (after u).isSome) = some s then some value
        else walk.findSome? before := by
  induction walk with
  | nil => rfl
  | cons u walk ih =>
    rw [List.findSome?_cons, List.find?_cons, List.findSome?_cons]
    by_cases hu : u.here = s.here
    · obtain rfl : u = s := hwalk u List.mem_cons_self hu
      simp [hs]
    · have hne : u ≠ s := fun he => hu (he ▸ rfl)
      rw [hother u hu, ih fun w hw => hwalk w (List.mem_cons_of_mem u hw)]
      cases before u with
      | none => rfl
      | some old => simp [hne]

namespace Scopes

variable (scopes : Scopes)

theorem valueAt?_bindVariable {number : Nat} (h : number < scopes.frames.size) (name : String)
    (value : Value) (n : Nat) (other : String) :
    (scopes.bindVariable number name value).valueAt? n other
      = if other = name ∧ n = number then some value else scopes.valueAt? n other := by
  rw [valueAt?, frame_bindVariable]
  by_cases hn : n = number
  · subst hn
    simp [h, Bindings.find?_insert, valueAt?, eq_comm]
  · simp [hn, valueAt?]

theorem functionAt?_bindVariable (number : Nat) (name : String) (value : Value) (n : Nat)
    (other : String) :
    (scopes.bindVariable number name value).functionAt? n other = scopes.functionAt? n other := by
  rw [functionAt?, functionAt?, frame_bindVariable]
  split <;> rfl

theorem functionAt?_declare {s : Scope} (h : s.here < scopes.frames.size) (f : Function) (n : Nat)
    (other : String) :
    (scopes.declare s f).functionAt? n other
      = if other = f.name ∧ n = s.here then some f else scopes.functionAt? n other := by
  rw [functionAt?, frame_declare]
  by_cases hn : n = s.here
  · subst hn
    simp [h, Bindings.find?_insert, functionAt?, eq_comm]
  · simp [hn, functionAt?]

theorem valueAt?_declare (s : Scope) (f : Function) (n : Nat) (other : String) :
    (scopes.declare s f).valueAt? n other = scopes.valueAt? n other := by
  rw [valueAt?, valueAt?, frame_declare]
  split <;> rfl

variable {scopes} {scopes' : Scopes}

theorem lookup?_congr {name : String} (h : ∀ n, scopes'.valueAt? n name = scopes.valueAt? n name)
    (t : Scope) : scopes'.lookup? t name = scopes.lookup? t name := by
  simp only [lookup?, h]

theorem declaration?_congr {name : String}
    (h : ∀ n, scopes'.functionAt? n name = scopes.functionAt? n name) (t : Scope) :
    scopes'.declaration? t name = scopes.declaration? t name := by
  simp only [declaration?_eq_findSome?, h]

section Write

variable {s t : Scope} (hs : s.here < scopes.frames.size)
  (ht : ∀ u ∈ t.lineage, u.here = s.here → u = s)

include hs ht

/-- Binding a variable in `s` is seen from `t` if `s` is now the first outward to bind it. -/
theorem lookup?_bindVariable_eq (name : String) (value : Value) (other : String) :
    (scopes.bindVariable s.here name value).lookup? t other
      = if other = name ∧ (scopes.bindVariable s.here name value).binder? t name = some s then
          some value
        else scopes.lookup? t other := by
  by_cases hother : other = name
  · subst hother
    have hwritten :
        (scopes.bindVariable s.here other value).valueAt? s.here other = some value := by
      rw [valueAt?_bindVariable _ hs, if_pos ⟨rfl, rfl⟩]
    have hkept : ∀ u : Scope, u.here ≠ s.here →
        (scopes.bindVariable s.here other value).valueAt? u.here other
          = scopes.valueAt? u.here other := by
      intro u hu
      rw [valueAt?_bindVariable _ hs, if_neg fun h => hu h.2]
    simp only [lookup?_eq_findSome?, findSome?_overwrite hwritten hkept ht, true_and]
    rfl
  · rw [if_neg fun h => hother h.1]
    refine lookup?_congr (fun n => ?_) t
    rw [valueAt?_bindVariable _ hs, if_neg fun h => hother h.1]

/-- Declaring a function in `s` is seen from `t` if `s` is now the first outward to declare it. -/
theorem declaration?_declare_eq (f : Function) (other : String) :
    (scopes.declare s f).declaration? t other
      = if other = f.name ∧ (scopes.declare s f).declarer? t f.name = some s then some (s, f)
        else scopes.declaration? t other := by
  by_cases hother : other = f.name
  · subst hother
    have hwritten : ((scopes.declare s f).functionAt? s.here f.name).map (s, ·) = some (s, f) := by
      rw [functionAt?_declare _ hs, if_pos ⟨rfl, rfl⟩, Option.map_some]
    have hkept : ∀ u : Scope, u.here ≠ s.here →
        ((scopes.declare s f).functionAt? u.here f.name).map (u, ·)
          = (scopes.functionAt? u.here f.name).map (u, ·) := by
      intro u hu
      rw [functionAt?_declare _ hs, if_neg fun h => hu h.2]
    simp only [declaration?_eq_findSome?, findSome?_overwrite hwritten hkept ht, Option.isSome_map,
      true_and]
    rfl
  · rw [if_neg fun h => hother h.1]
    refine declaration?_congr (fun n => ?_) t
    rw [functionAt?_declare _ hs, if_neg fun h => hother h.1]

end Write

end Scopes

/-! ## Trees of scopes -/

/-- What scopes bind, and the scopes that have been opened so far. -/
structure ScopeTree where
  scopes : Scopes
  members : List Scope

/-- One step on a scope tree. -/
inductive ScopeOperation where
  | child (s : Scope)
  | define (s : Scope) (name : String) (value : Value)
  | assign (s : Scope) (name : String) (value : Value)
  | declare (s : Scope) (f : Function)

/-- The scope on which a step is made. -/
def ScopeOperation.target : ScopeOperation → Scope
  | child s | define s _ _ | assign s _ _ | declare s _ => s

namespace ScopeTree

/-- A tree that is its root. -/
def new (strict : Bool) : ScopeTree :=
  ⟨.new strict, [.root]⟩

/-- The tree after a step, also after one that fails. -/
def perform (tree : ScopeTree) : ScopeOperation → ScopeTree
  | .child s => ⟨(tree.scopes.child s).2, (tree.scopes.child s).1 :: tree.members⟩
  | .define s name value => ⟨(tree.scopes.define s name value).2, tree.members⟩
  | .assign s name value => ⟨(tree.scopes.assign s name value).2, tree.members⟩
  | .declare s f => ⟨tree.scopes.declare s f, tree.members⟩

/-- The trees that grow from a root by steps on their own scopes. -/
inductive Reachable (strict : Bool) : ScopeTree → Prop
  | root : Reachable strict (new strict)
  | step {tree : ScopeTree} (op : ScopeOperation) (h : Reachable strict tree)
      (htarget : op.target ∈ tree.members) : Reachable strict (tree.perform op)

/-- What every step keeps: a scope has a number of its own, larger than those of the scopes around
it, and all of them are scopes of the tree. -/
structure Formed (strict : Bool) (tree : ScopeTree) : Prop where
  strict_eq : tree.scopes.strict = strict
  lt_size : ∀ t ∈ tree.members, t.here < tree.scopes.frames.size
  eq_of_here : ∀ s ∈ tree.members, ∀ t ∈ tree.members, s.here = t.here → s = t
  parent : ∀ t ∈ tree.members, t = .root ∨ ∃ p ∈ tree.members, t.parent? = some p
  decreasing : ∀ t ∈ tree.members, t.chain.Pairwise (· > ·)

variable {strict : Bool} {tree : ScopeTree}

theorem formed_new (strict : Bool) : (new strict).Formed strict where
  strict_eq := rfl
  lt_size t ht := by
    obtain rfl := List.mem_singleton.1 ht
    exact Nat.one_pos
  eq_of_here s hs t ht _ := (List.mem_singleton.1 hs).trans (List.mem_singleton.1 ht).symm
  parent t ht := .inl (List.mem_singleton.1 ht)
  decreasing t ht := by
    obtain rfl := List.mem_singleton.1 ht
    exact List.pairwise_singleton _ _

namespace Formed

/-- A step that opens no scope only has to keep the number of frames. -/
theorem of_size (h : tree.Formed strict) {scopes : Scopes}
    (hstrict : scopes.strict = tree.scopes.strict)
    (hsize : scopes.frames.size = tree.scopes.frames.size) :
    (⟨scopes, tree.members⟩ : ScopeTree).Formed strict where
  strict_eq := hstrict.trans h.strict_eq
  lt_size t ht := hsize ▸ h.lt_size t ht
  eq_of_here := h.eq_of_here
  parent := h.parent
  decreasing := h.decreasing

theorem lt_size_of_mem_chain (h : tree.Formed strict) {t : Scope} (ht : t ∈ tree.members) {n : Nat}
    (hn : n ∈ t.chain) : n < tree.scopes.frames.size := by
  have hhere := h.lt_size t ht
  rcases List.mem_cons.1 hn with rfl | hn
  · exact hhere
  · exact Nat.lt_trans (List.rel_of_pairwise_cons (h.decreasing t ht) hn) hhere

theorem child (h : tree.Formed strict) {s : Scope} (hs : s ∈ tree.members) :
    (tree.perform (.child s)).Formed strict where
  strict_eq := h.strict_eq
  lt_size t ht := by
    simp only [perform, Scopes.size_child]
    rcases List.mem_cons.1 ht with rfl | ht
    · exact Nat.lt_succ_self _
    · exact Nat.lt_succ_of_lt (h.lt_size t ht)
  eq_of_here u hu t ht heq := by
    rcases List.mem_cons.1 hu with rfl | hu <;> rcases List.mem_cons.1 ht with rfl | ht
    · rfl
    · exact absurd heq.symm (Nat.ne_of_lt (h.lt_size t ht))
    · exact absurd heq (Nat.ne_of_lt (h.lt_size u hu))
    · exact h.eq_of_here u hu t ht heq
  parent t ht := by
    rcases List.mem_cons.1 ht with rfl | ht
    · exact .inr ⟨s, List.mem_cons_of_mem _ hs, rfl⟩
    · exact (h.parent t ht).imp_right fun ⟨p, hp, heq⟩ => ⟨p, List.mem_cons_of_mem _ hp, heq⟩
  decreasing t ht := by
    rcases List.mem_cons.1 ht with rfl | ht
    · exact List.pairwise_cons.2 ⟨fun n hn => h.lt_size_of_mem_chain hs hn, h.decreasing s hs⟩
    · exact h.decreasing t ht

theorem perform (h : tree.Formed strict) {op : ScopeOperation} (hop : op.target ∈ tree.members) :
    (tree.perform op).Formed strict := by
  cases op with
  | child s => exact h.child hop
  | define s name value =>
    refine h.of_size ?_ ?_ <;> unfold Scopes.define <;> split <;> simp [Scopes.bindVariable]
  | assign s name value =>
    refine h.of_size ?_ ?_ <;> unfold Scopes.assign <;> split <;> simp [Scopes.bindVariable]
  | declare s f => exact h.of_size rfl (Scopes.size_declare ..)

end Formed

theorem Reachable.formed (h : tree.Reachable strict) : tree.Formed strict := by
  induction h with
  | root => exact formed_new strict
  | step op _ hop ih => exact ih.perform hop

namespace Formed

variable {s t : Scope}

theorem parent_mem (h : tree.Formed strict) (ht : t ∈ tree.members) (hs : t.parent? = some s) :
    s ∈ tree.members := by
  obtain rfl | ⟨p, hp, hparent⟩ := h.parent t ht
  · cases hs
  · obtain rfl : p = s := Option.some.inj (hparent.symm.trans hs)
    exact hp

theorem eq_root (h : tree.Formed strict) (ht : t ∈ tree.members) (hnone : t.parent? = none) :
    t = .root := by
  obtain hroot | ⟨p, -, hparent⟩ := h.parent t ht
  · exact hroot
  · cases hnone.symm.trans hparent

theorem lineage_subset (h : tree.Formed strict) (ht : t ∈ tree.members) :
    t.lineage ⊆ tree.members := by
  induction t using Scope.parent_induction with
  | outermost t hnone =>
    rw [Scope.lineage_of_parent?_eq_none hnone]
    exact List.cons_subset.2 ⟨ht, List.nil_subset _⟩
  | inner t u hu ih =>
    rw [Scope.lineage_of_parent?_eq_some hu]
    exact List.cons_subset.2 ⟨ht, ih (h.parent_mem ht hu)⟩

theorem getLast?_lineage (h : tree.Formed strict) (ht : t ∈ tree.members) :
    t.lineage.getLast? = some .root := by
  induction t using Scope.parent_induction with
  | outermost t hnone =>
    rw [Scope.lineage_of_parent?_eq_none hnone, h.eq_root ht hnone]
    rfl
  | inner t u hu ih =>
    rw [Scope.lineage_of_parent?_eq_some hu, List.getLast?_cons, ih (h.parent_mem ht hu),
      Option.getD_some]

theorem nodup_lineage (h : tree.Formed strict) (ht : t ∈ tree.members) : t.lineage.Nodup := by
  have hpairwise := h.decreasing t ht
  rw [← Scope.map_here_lineage, List.pairwise_map] at hpairwise
  refine hpairwise.imp ?_
  rintro u w hlt rfl
  exact Nat.lt_irrefl _ hlt

theorem here_inj (h : tree.Formed strict) (hs : s ∈ tree.members) (ht : t ∈ tree.members) :
    s.here = t.here ↔ s = t :=
  ⟨h.eq_of_here s hs t ht, congrArg Scope.here⟩

/-- A walk outward meets each scope of the tree under its own handle only. -/
theorem eq_of_mem_lineage (h : tree.Formed strict) (hs : s ∈ tree.members) (ht : t ∈ tree.members) :
    ∀ u ∈ t.lineage, u.here = s.here → u = s :=
  fun u hu => h.eq_of_here u (h.lineage_subset ht hu) s hs

end Formed

/-! ## What each step changes -/

/-- In `after`, the functions that `u` sees are those that `t` sees in `before`. -/
def SameFunctions (before after : Scopes) (t u : Scope) : Prop :=
  ∀ y, after.functionScope? u y = before.functionScope? t y
    ∧ after.resolve? u y = before.resolve? t y

theorem SameFunctions.of_declaration? {before after : Scopes} {t u : Scope}
    (h : ∀ y, after.declaration? u y = before.declaration? t y) :
    SameFunctions before after t u := by
  intro y
  rw [Scopes.functionScope?, Scopes.resolve?, h y]
  exact ⟨rfl, rfl⟩

/-- `inner` is a new scope in `s`, which sees what `s` sees; nothing else changes. -/
structure Opened (tree : ScopeTree) (s inner : Scope) (after : Scopes) : Prop where
  new : inner ∉ tree.members
  parent : inner.parent? = some s
  lookup_inner : ∀ y, after.lookup? inner y = tree.scopes.lookup? s y
  functions_inner : SameFunctions tree.scopes after s inner
  lookup : ∀ t ∈ tree.members, ∀ y, after.lookup? t y = tree.scopes.lookup? t y
  functions : ∀ t ∈ tree.members, SameFunctions tree.scopes after t t

/-- `s` itself now binds `x` to `v`, which is seen where `s` is now the first outward to bind
`x`. -/
structure Defined (tree : ScopeTree) (s : Scope) (x : String) (v : Value) (after : Scopes) :
    Prop where
  binds : ∀ u ∈ tree.members, ∀ y,
    after.binds y u = true ↔ tree.scopes.binds y u = true ∨ y = x ∧ u = s
  lookup : ∀ t ∈ tree.members, ∀ y, after.lookup? t y
    = if y = x ∧ after.binder? t x = some s then some v else tree.scopes.lookup? t y
  functions : ∀ t ∈ tree.members, SameFunctions tree.scopes after t t

/-- `owner`, which binds `x` already, now binds it to `v`; every scope binds the names it bound. -/
structure Assigned (tree : ScopeTree) (owner : Scope) (x : String) (v : Value) (after : Scopes) :
    Prop where
  names : ∀ u ∈ tree.members,
    (after.frame u.here).values.names = (tree.scopes.frame u.here).values.names
  lookup : ∀ t ∈ tree.members, ∀ y, after.lookup? t y
    = if y = x ∧ tree.scopes.binder? t x = some owner then some v else tree.scopes.lookup? t y
  functions : ∀ t ∈ tree.members, SameFunctions tree.scopes after t t

/-- `s` itself now declares `f`, which is seen where `s` is now the first outward to declare a
function of that name. -/
structure Declared (tree : ScopeTree) (s : Scope) (f : Function) (after : Scopes) : Prop where
  declares : ∀ u ∈ tree.members, ∀ y,
    after.declares y u = true ↔ tree.scopes.declares y u = true ∨ y = f.name ∧ u = s
  functionScope : ∀ t ∈ tree.members, ∀ y, after.functionScope? t y
    = if y = f.name ∧ after.declarer? t f.name = some s then some s
      else tree.scopes.functionScope? t y
  resolve : ∀ t ∈ tree.members, ∀ y, after.resolve? t y
    = if y = f.name ∧ after.declarer? t f.name = some s then some f else tree.scopes.resolve? t y
  lookup : ∀ t ∈ tree.members, ∀ y, after.lookup? t y = tree.scopes.lookup? t y

namespace Formed

variable {s : Scope}

theorem opened (h : tree.Formed strict) (s : Scope) :
    tree.Opened s (tree.scopes.child s).1 (tree.scopes.child s).2 := by
  have hvalue : ∀ y n, (tree.scopes.child s).2.valueAt? n y = tree.scopes.valueAt? n y := by
    intro y n
    rw [Scopes.valueAt?, Scopes.frame_child, Scopes.valueAt?]
  have hfunction : ∀ y n,
      (tree.scopes.child s).2.functionAt? n y = tree.scopes.functionAt? n y := by
    intro y n
    rw [Scopes.functionAt?, Scopes.frame_child, Scopes.functionAt?]
  have hfresh : tree.scopes.frame tree.scopes.frames.size = {} :=
    Scopes.frame_of_size_le (Nat.le_refl _)
  have hlineage : (tree.scopes.child s).1.lineage = (tree.scopes.child s).1 :: s.lineage :=
    Scope.lineage_of_parent?_eq_some rfl
  refine ⟨fun hmem => Nat.lt_irrefl _ (h.lt_size _ hmem), rfl, fun y => ?_,
    .of_declaration? fun y => ?_, fun t _ y => Scopes.lookup?_congr (hvalue y) t,
    fun t _ => .of_declaration? fun y => Scopes.declaration?_congr (hfunction y) t⟩
  · have hnone : tree.scopes.valueAt? (tree.scopes.child s).1.here y = none := by
      simp only [Scopes.child, Scopes.valueAt?, hfresh]
      rfl
    rw [Scopes.lookup?_congr (hvalue y), Scopes.lookup?_eq_findSome?, hlineage,
      List.findSome?_cons, hnone, Scopes.lookup?_eq_findSome?]
  · have hnone : tree.scopes.functionAt? (tree.scopes.child s).1.here y = none := by
      simp only [Scopes.child, Scopes.functionAt?, hfresh]
      rfl
    rw [Scopes.declaration?_congr (hfunction y), Scopes.declaration?_eq_findSome?, hlineage,
      List.findSome?_cons, hnone, Option.map_none, Scopes.declaration?_eq_findSome?]

theorem defined (h : tree.Formed strict) (hs : s ∈ tree.members) (x : String) (v : Value) :
    tree.Defined s x v (tree.scopes.bindVariable s.here x v) where
  binds u hu y := by
    rw [Scopes.binds, Scopes.valueAt?_bindVariable _ (h.lt_size s hs), Scopes.binds]
    simp only [h.here_inj hu hs]
    by_cases hwritten : y = x ∧ u = s <;> simp [hwritten]
  lookup t ht y :=
    Scopes.lookup?_bindVariable_eq (h.lt_size s hs) (h.eq_of_mem_lineage hs ht) x v y
  functions t _ := .of_declaration? fun y =>
    Scopes.declaration?_congr (fun n => Scopes.functionAt?_bindVariable _ s.here x v n y) t

/-- Writing a variable that its scope binds already adds no name, so that the first scope outward to
bind a name is the one it was. -/
theorem assigned (h : tree.Formed strict) (hs : s ∈ tree.members) {x : String}
    (hx : tree.scopes.binds x s = true) (v : Value) :
    tree.Assigned s x v (tree.scopes.bindVariable s.here x v) where
  names u hu := by
    rw [Scopes.frame_bindVariable]
    split
    · next hhere =>
      obtain rfl := h.eq_of_here u hu s hs hhere.1
      exact Bindings.names_insert_of_mem v ((Bindings.isSome_find?_iff _ _).1 hx)
    · rfl
  lookup t ht y := by
    have hbinder : (tree.scopes.bindVariable s.here x v).binder? t x = tree.scopes.binder? t x := by
      rw [Scopes.binder?, Scopes.binder?, ← List.head?_filter, ← List.head?_filter]
      refine congrArg List.head? (List.filter_congr fun u hu => ?_)
      rw [Bool.eq_iff_iff, (h.defined hs x v).binds u (h.lineage_subset ht hu), or_iff_left_iff_imp]
      rintro ⟨-, rfl⟩
      exact hx
    rw [(h.defined hs x v).lookup t ht, hbinder]
  functions := (h.defined hs x v).functions

theorem declared (h : tree.Formed strict) (hs : s ∈ tree.members) (f : Function) :
    tree.Declared s f (tree.scopes.declare s f) := by
  have hlt : s.here < tree.scopes.frames.size := h.lt_size s hs
  refine ⟨fun u hu y => ?_, fun t ht y => ?_, fun t ht y => ?_, fun t _ y => ?_⟩
  · rw [Scopes.declares, Scopes.functionAt?_declare _ hlt, Scopes.declares]
    simp only [h.here_inj hu hs]
    by_cases hwritten : y = f.name ∧ u = s <;> simp [hwritten]
  · rw [Scopes.functionScope?, Scopes.declaration?_declare_eq hlt (h.eq_of_mem_lineage hs ht),
      apply_ite (Option.map Prod.fst)]
    rfl
  · rw [Scopes.resolve?, Scopes.declaration?_declare_eq hlt (h.eq_of_mem_lineage hs ht),
      apply_ite (Option.map Prod.snd)]
    rfl
  · exact Scopes.lookup?_congr (fun n => Scopes.valueAt?_declare _ s f n y) t

end Formed

/-! ## Nested environments -/

/-- What it means that a tree of scopes answers like nested environments, now and after one more
step on any of its scopes. -/
structure AnswersNested (strict : Bool) (tree : ScopeTree) : Prop where
  /-- A walk outward meets scopes of the tree only, none of them twice, and ends at the root. -/
  walk : ∀ t ∈ tree.members,
    t.lineage ⊆ tree.members ∧ t.lineage.Nodup ∧ t.lineage.getLast? = some .root
  /-- A variable has the value that it has in the first scope outward that binds it. -/
  lookup : ∀ t ∈ tree.members, ∀ y, tree.scopes.lookup? t y
    = (tree.scopes.binder? t y).bind fun owner => tree.scopes.valueAt? owner.here y
  /-- A function belongs to the first scope outward that declares it. -/
  functionScope : ∀ t ∈ tree.members, ∀ y,
    tree.scopes.functionScope? t y = tree.scopes.declarer? t y
  /-- A function name denotes what that scope declares. -/
  resolve : ∀ t ∈ tree.members, ∀ y, tree.scopes.resolve? t y
    = (tree.scopes.declarer? t y).bind fun owner => tree.scopes.functionAt? owner.here y
  child : ∀ s ∈ tree.members, ∃ inner after,
    tree.scopes.child s = (inner, after) ∧ tree.Opened s inner after
  /-- Only a strict scope that binds the name itself refuses a definition. -/
  define : ∀ s ∈ tree.members, ∀ x v,
    if strict = true ∧ tree.scopes.binds x s = true then
      tree.scopes.define s x v = (.error (.alreadyDefined x), tree.scopes)
    else ∃ after, tree.scopes.define s x v = (.ok (), after) ∧ tree.Defined s x v after
  /-- Only a name that no scope outward binds cannot be assigned. -/
  assign : ∀ s ∈ tree.members, ∀ x v,
    if ∀ u ∈ s.lineage, tree.scopes.binds x u = false then
      tree.scopes.assign s x v = (.error (.undefinedVariable x), tree.scopes)
    else ∃ owner after, tree.scopes.binder? s x = some owner
      ∧ tree.scopes.assign s x v = (.ok (), after) ∧ tree.Assigned owner x v after
  declare : ∀ s ∈ tree.members, ∀ f, tree.Declared s f (tree.scopes.declare s f)

namespace Formed

variable {s : Scope}

theorem define (h : tree.Formed strict) (hs : s ∈ tree.members) (x : String) (v : Value) :
    if strict = true ∧ tree.scopes.binds x s = true then
      tree.scopes.define s x v = (.error (.alreadyDefined x), tree.scopes)
    else ∃ after, tree.scopes.define s x v = (.ok (), after) ∧ tree.Defined s x v after := by
  have hrefused : (tree.scopes.strict && (tree.scopes.valueAt? s.here x).isSome) = true
      ↔ strict = true ∧ tree.scopes.binds x s = true := by
    rw [Bool.and_eq_true, h.strict_eq]
    rfl
  unfold Scopes.define
  split
  · next hr => rw [if_pos (hrefused.2 hr)]
  · next hr => exact ⟨_, if_neg (mt hrefused.1 hr), h.defined hs x v⟩

theorem assign (h : tree.Formed strict) (hs : s ∈ tree.members) (x : String) (v : Value) :
    if ∀ u ∈ s.lineage, tree.scopes.binds x u = false then
      tree.scopes.assign s x v = (.error (.undefinedVariable x), tree.scopes)
    else ∃ owner after, tree.scopes.binder? s x = some owner
      ∧ tree.scopes.assign s x v = (.ok (), after) ∧ tree.Assigned owner x v after := by
  rw [Scopes.assign, Scopes.find?_chain_eq]
  split
  · next hnone =>
    have hbinder : tree.scopes.binder? s x = none :=
      List.find?_eq_none.2 fun u hu => by simp [hnone u hu]
    rw [hbinder]
    rfl
  · next hsome =>
    cases hbinder : tree.scopes.binder? s x with
    | none =>
      exact absurd (fun u hu => Bool.eq_false_iff.2 (List.find?_eq_none.1 hbinder u hu)) hsome
    | some owner =>
      have howner : owner ∈ tree.members := h.lineage_subset hs (List.mem_of_find?_eq_some hbinder)
      exact ⟨owner, _, rfl, rfl, h.assigned howner (List.find?_some hbinder) v⟩

end Formed

/-- Every tree that grows from a root, strict or not, answers like nested environments. -/
theorem answersNested (h : tree.Reachable strict) : tree.AnswersNested strict where
  walk _ ht := ⟨h.formed.lineage_subset ht, h.formed.nodup_lineage ht, h.formed.getLast?_lineage ht⟩
  lookup t _ := tree.scopes.lookup?_eq t
  functionScope t _ := tree.scopes.functionScope?_eq t
  resolve t _ := tree.scopes.resolve?_eq t
  child s _ := ⟨_, _, rfl, h.formed.opened s⟩
  define _ hs := h.formed.define hs
  assign _ hs := h.formed.assign hs
  declare _ hs := h.formed.declared hs

/-- Two scopes of a strict root, of which only the first shadows its variable. -/
theorem answersNested_shadowed :
    ∃ tree, Reachable true tree ∧ tree.AnswersNested true
      ∧ tree.scopes.lookup? ⟨1, [0]⟩ "x" = some (.integer 2)
      ∧ tree.scopes.lookup? ⟨2, [0]⟩ "x" = some (.integer 1) := by
  have hroot : Reachable true _ := .step (.define .root "x" (.integer 1)) .root (by decide)
  have hfirst : Reachable true _ := .step (.child .root) hroot (by decide)
  have hshadow : Reachable true _ := .step (.define ⟨1, [0]⟩ "x" (.integer 2)) hfirst (by decide)
  have hsecond : Reachable true _ := .step (.child .root) hshadow (by decide)
  exact ⟨_, hsecond, answersNested hsecond, rfl, rfl⟩

end ScopeTree

end ScriptLang
