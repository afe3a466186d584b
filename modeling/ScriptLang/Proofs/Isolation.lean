import ScriptLang.Proofs.Invariant

set_option autoImplicit false

/-! # Lexical isolation

Code that runs in a scope leaves the scopes outside the chain of that scope alone, and the scopes
around it keep their names. Only a definition or a declaration that stands directly in the scope
binds names in it, and only its own (`Evaluator.execution_isolated`). The core is an invariant:
`Scopes.Confined` holds on while code runs in scopes that are new or on the chain, and defines names
in new ones only. -/

namespace ScriptLang

/-! ## What may happen to a scope -/

/-- `after` is `before` with some of `names` bound anew or over what they were. -/
inductive Bindings.Rebinds {α : Type} (names : List String) (before : Bindings α) :
    Bindings α → Prop
  | refl : Rebinds names before before
  | insert {after : Bindings α} {name : String} (value : α) (h : Rebinds names before after)
      (hn : name ∈ names) : Rebinds names before (after.insert name value)

/-- The names and functions of a scope stay; the values of its names may change. -/
structure Frame.Keeps (before after : Frame) : Prop where
  names : after.values.names = before.values.names
  functions : after.functions = before.functions

/-- A scope gets no names but some of `defined`, behind those it has, and no functions but some of
`functions`. -/
structure Frame.Gains (defined functions : List String) (before after : Frame) : Prop where
  names : ∃ gained, gained ⊆ defined ∧ after.values.names = before.values.names ++ gained
  functions : before.functions.Rebinds functions after.functions

/-- What code in `scope` that writes `defined` and `functions` there can do to the scopes that
exist before it runs. -/
structure Scopes.Isolated (scope : Scope) (defined functions : List String)
    (before after : Scopes) : Prop where
  size : before.frames.size ≤ after.frames.size
  apart : ∀ n < before.frames.size, n ∉ scope.chain → after.frame n = before.frame n
  above : ∀ n < before.frames.size, n ∈ scope.chain → n ≠ scope.here →
    (before.frame n).Keeps (after.frame n)
  here : scope.here < before.frames.size →
    (before.frame scope.here).Gains defined functions (after.frame scope.here)

theorem Bindings.Rebinds.trans {α : Type} {names : List String} {a b c : Bindings α}
    (h : a.Rebinds names b) (h' : b.Rebinds names c) : a.Rebinds names c := by
  induction h' with
  | refl => exact h
  | insert value _ hn ih => exact ih.insert value hn

theorem Bindings.Rebinds.mono {α : Type} {names others : List String} {a b : Bindings α}
    (h : a.Rebinds names b) (hs : names ⊆ others) : a.Rebinds others b := by
  induction h with
  | refl => exact .refl
  | insert value _ hn ih => exact ih.insert value (hs hn)

theorem Bindings.Rebinds.eq_of_nil {α : Type} {a b : Bindings α} (h : a.Rebinds [] b) : b = a := by
  cases h with
  | refl => rfl
  | insert value _ hn => exact absurd hn List.not_mem_nil

namespace Frame

theorem Keeps.refl (frame : Frame) : frame.Keeps frame :=
  ⟨rfl, rfl⟩

theorem Keeps.trans {a b c : Frame} (h : a.Keeps b) (h' : b.Keeps c) : a.Keeps c :=
  ⟨h'.names.trans h.names, h'.functions.trans h.functions⟩

theorem Keeps.gains {a b : Frame} (h : a.Keeps b) (defined functions : List String) :
    a.Gains defined functions b where
  names := ⟨[], List.nil_subset _, by rw [h.names, List.append_nil]⟩
  functions := by
    rw [h.functions]
    exact .refl

theorem Gains.keeps {a b : Frame} (h : a.Gains [] [] b) : a.Keeps b := by
  obtain ⟨gained, hsub, hnames⟩ := h.names
  obtain rfl := List.subset_nil.1 hsub
  exact ⟨hnames.trans (List.append_nil _), h.functions.eq_of_nil⟩

theorem Gains.mono {defined functions defined' functions' : List String} {a b : Frame}
    (h : a.Gains defined functions b) (hv : defined ⊆ defined')
    (hf : functions ⊆ functions') : a.Gains defined' functions' b := by
  obtain ⟨gained, hsub, hnames⟩ := h.names
  exact ⟨⟨gained, fun _ hx => hv (hsub hx), hnames⟩, h.functions.mono hf⟩

theorem Gains.trans {defined functions : List String} {a b c : Frame}
    (h : a.Gains defined functions b) (h' : b.Gains defined functions c) :
    a.Gains defined functions c := by
  obtain ⟨gained, hsub, hnames⟩ := h.names
  obtain ⟨gained', hsub', hnames'⟩ := h'.names
  refine ⟨⟨gained ++ gained', List.append_subset.2 ⟨hsub, hsub'⟩, ?_⟩, ?_⟩
  · rw [hnames', hnames, List.append_assoc]
  · exact h.functions.trans h'.functions

end Frame

namespace Scopes.Isolated

variable {scope : Scope} {defined functions defined' functions' : List String} {a b c : Scopes}

theorem mono (h : a.Isolated scope defined functions b) (hv : defined ⊆ defined')
    (hf : functions ⊆ functions') : a.Isolated scope defined' functions' b :=
  ⟨h.size, h.apart, h.above, fun hn => (h.here hn).mono hv hf⟩

theorem trans (h : a.Isolated scope defined functions b)
    (h' : b.Isolated scope defined' functions' c) :
    a.Isolated scope (defined ++ defined') (functions ++ functions') c where
  size := Nat.le_trans h.size h'.size
  apart n hn hout := (h'.apart n (Nat.lt_of_lt_of_le hn h.size) hout).trans (h.apart n hn hout)
  above n hn hin hne :=
    (h.above n hn hin hne).trans (h'.above n (Nat.lt_of_lt_of_le hn h.size) hin hne)
  here hn :=
    ((h.here hn).mono (List.subset_append_left ..) (List.subset_append_left ..)).trans
      ((h'.here (Nat.lt_of_lt_of_le hn h.size)).mono (List.subset_append_right ..)
        (List.subset_append_right ..))

/-- Code that writes no name in its scope leaves the names of all scopes as they are. -/
theorem keeps (h : a.Isolated scope [] [] b) (n : Nat) (hn : n < a.frames.size) :
    (a.frame n).Keeps (b.frame n) := by
  by_cases hin : n ∈ scope.chain
  · by_cases hhere : n = scope.here
    · subst hhere
      exact (h.here hn).keeps
    · exact h.above n hn hin hhere
  · rw [h.apart n hn hin]
    exact .refl _

/-- A change to the scope itself is isolated if it only writes the names that it may. -/
theorem of_frame_eq (hsize : b.frames.size = a.frames.size)
    (hframe : ∀ n, n ≠ scope.here → b.frame n = a.frame n)
    (hhere : scope.here < a.frames.size →
      (a.frame scope.here).Gains defined functions (b.frame scope.here)) :
    a.Isolated scope defined functions b := by
  refine ⟨Nat.le_of_eq hsize.symm, fun n _ hout => hframe n ?_, fun n _ _ hne => ?_, hhere⟩
  · rintro rfl
    exact hout (List.mem_cons_self ..)
  · rw [hframe n hne]
    exact .refl _

end Scopes.Isolated

/-! ## The invariant -/

/-- The scopes of `before` keep their names and functions, and those that are not in `chain` keep
everything. -/
structure Scopes.Confined (chain : List Nat) (before after : Scopes) : Prop where
  size : before.frames.size ≤ after.frames.size
  keeps : ∀ n < before.frames.size, (before.frame n).Keeps (after.frame n)
  apart : ∀ n < before.frames.size, n ∉ chain → after.frame n = before.frame n

namespace Scopes.Confined

variable {chain : List Nat} {before after : Scopes}

theorem refl (chain : List Nat) (scopes : Scopes) : scopes.Confined chain scopes :=
  ⟨Nat.le_refl _, fun _ _ => .refl _, fun _ _ _ => rfl⟩

theorem isolated {scope : Scope} (h : before.Confined scope.chain after) :
    before.Isolated scope [] [] after :=
  ⟨h.size, h.apart, fun n hn _ _ => h.keeps n hn, fun hn => (h.keeps _ hn).gains [] []⟩

theorem child (h : before.Confined chain after) (scope : Scope) :
    before.Confined chain (after.child scope).2 := by
  refine ⟨Nat.le_trans h.size (by simp), fun n hn => ?_, fun n hn hout => ?_⟩
  · rw [frame_child]
    exact h.keeps n hn
  · rw [frame_child]
    exact h.apart n hn hout

/-- A new scope, which `before` does not have, may change in any way. -/
theorem of_frame_eq {after' : Scopes} (h : before.Confined chain after) {number : Nat}
    (hnew : before.frames.size ≤ number) (hsize : after'.frames.size = after.frames.size)
    (hframe : ∀ n, n ≠ number → after'.frame n = after.frame n) :
    before.Confined chain after' := by
  refine ⟨hsize ▸ h.size, fun n hn => ?_, fun n hn hout => ?_⟩
  · rw [hframe n (by omega)]
    exact h.keeps n hn
  · rw [hframe n (by omega)]
    exact h.apart n hn hout

theorem define (h : before.Confined chain after) {scope : Scope}
    (hnew : before.frames.size ≤ scope.here) (name : String) (v : Value) :
    before.Confined chain (after.define scope name v).2 := by
  unfold Scopes.define
  split
  · exact h
  · exact h.of_frame_eq hnew (size_bindVariable ..) fun n hn =>
      after.frame_bindVariable_of_ne hn name v

theorem declare (h : before.Confined chain after) {scope : Scope}
    (hnew : before.frames.size ≤ scope.here) (f : Function) :
    before.Confined chain (after.declare scope f) :=
  h.of_frame_eq hnew (size_declare ..) fun _ hn => after.frame_declare_of_ne hn f

/-- A variable is assigned where it is bound, so no name is added. -/
theorem assign (h : before.Confined chain after) {scope : Scope}
    (hin : ∀ n ∈ scope.chain, before.frames.size ≤ n ∨ n ∈ chain) (name : String) (v : Value) :
    before.Confined chain (after.assign scope name v).2 := by
  unfold Scopes.assign
  split
  · exact h
  · next number hfind =>
    -- the scope that is assigned to binds the name already, and is new or on the chain
    have hbound : name ∈ (after.frame number).values.names :=
      (Bindings.isSome_find?_iff ..).1 (by simpa [valueAt?] using List.find?_some hfind)
    have hchain := hin number (List.mem_of_find?_eq_some hfind)
    refine ⟨by simpa using h.size, fun n hn => ?_, fun n hn hout => ?_⟩
    · refine (h.keeps n hn).trans ?_
      rw [frame_bindVariable]
      split
      · next hc =>
        obtain ⟨rfl, _⟩ := hc
        exact ⟨Bindings.names_insert_of_mem v hbound, rfl⟩
      · exact .refl _
    · have hne : n ≠ number := by
        rintro rfl
        rcases hchain with hnew | hmem
        · omega
        · exact hout hmem
      rw [after.frame_bindVariable_of_ne hne]
      exact h.apart n hn hout

end Scopes.Confined

/-- Code that runs in new scopes and in scopes of a chain, and defines names in new scopes only, is
confined. -/
def Scopes.confinement (before : Scopes) (chain : List Nat) : Invariant where
  holds m := m.QuietHosts ∧ before.Confined chain m.scopes
  seen scope := ∀ n ∈ scope.chain, before.frames.size ≤ n ∨ n ∈ chain
  owned scope := before.frames.size ≤ scope.here ∧
    ∀ n ∈ scope.chain, before.frames.size ≤ n ∨ n ∈ chain
  seen_of_owned h := h.2
  quiet h := h.1
  notes {m} level line h := by
    obtain ⟨trace, traceFile, heq⟩ := m.noted_eq level line
    rw [heq]
    exact h
  prints _ h := h
  reserves _ h := h
  reads {m} h := by
    rw [Exec.readLine_apply]
    cases m.input <;> exact h
  opens {m s} hs h := by
    refine ⟨⟨h.2.size, fun n hn => ?_⟩, h.1, h.2.child s⟩
    rcases List.mem_cons.1 hn with rfl | hn
    · exact Or.inl h.2.size
    · exact hs n hn
  resolves hs _ hfound n hn := hs n ((declaration?_suffix _ hfound).subset hn)
  defines name v ho h := ⟨h.1, h.2.define ho.1 name v⟩
  assigns name v hs h := ⟨h.1, h.2.assign hs name v⟩
  declares f ho h := ⟨h.1, h.2.declare ho.1 f⟩
  enters h := h
  leaves h := h

theorem Scopes.confinement_seen (scopes : Scopes) (scope : Scope) :
    (scopes.confinement scope.chain).seen scope :=
  fun _ hn => Or.inr hn

/-! ## Code in one scope -/

/-- The variables that a statement defines in the scope where it stands. -/
def Node.definedNames : Node → List String
  | .definition name _ => [name]
  | _ => []

/-- The functions that a statement declares in the scope where it stands. -/
def Node.declaredNames : Node → List String
  | .function name _ _ => [name]
  | _ => []

/-- The statements that stand directly in a block. -/
def Node.statements : Node → List Node
  | .block statements => statements
  | _ => []

/-- Whether a computation does to scopes what code in `scope` may do, if the functions of the host
leave the interpreter alone. -/
def Exec.Isolates {α : Type} (scope : Scope) (defined functions : List String) (x : Exec α) :
    Prop :=
  ∀ m : Machine, m.QuietHosts →
    (x m).2.QuietHosts ∧ m.scopes.Isolated scope defined functions (x m).2.scopes

namespace Exec

variable {α β : Type} {scope : Scope} {defined functions defined' functions' : List String}

theorem Isolates.bind {x : Exec α} {f : α → Exec β} (hx : x.Isolates scope defined functions)
    (hf : ∀ a, (f a).Isolates scope defined' functions') :
    (x >>= f).Isolates scope (defined ++ defined') (functions ++ functions') := by
  intro m hm
  have h := hx m hm
  rcases hxm : x m with ⟨r, m'⟩
  rw [hxm] at h
  cases r with
  | ok a =>
    rw [bind_of_ok hxm]
    obtain ⟨hq, hi⟩ := hf a m' h.1
    exact ⟨hq, h.2.trans hi⟩
  | error e =>
    rw [bind_of_error hxm]
    exact ⟨h.1, h.2.mono (List.subset_append_left ..) (List.subset_append_left ..)⟩

theorem Isolates.mono {x : Exec α} (hx : x.Isolates scope defined functions)
    (hv : defined ⊆ defined') (hf : functions ⊆ functions') :
    x.Isolates scope defined' functions' :=
  fun m hm => ⟨(hx m hm).1, (hx m hm).2.mono hv hf⟩

/-- Code that keeps the invariant binds no name in the scope. -/
theorem isolates_of_confined {x : Exec α}
    (h : ∀ m : Machine, (m.scopes.confinement scope.chain).holds m →
      (m.scopes.confinement scope.chain).holds (x m).2) : x.Isolates scope [] [] := by
  intro m hm
  obtain ⟨hquiet, hconfined⟩ := h m ⟨hm, .refl ..⟩
  exact ⟨hquiet, hconfined.isolated⟩

theorem isolates_pure (a : α) : (pure a : Exec α).Isolates scope [] [] :=
  isolates_of_confined fun _ hm => hm

theorem isolates_trace (level : Nat) (line : Machine → String) :
    (trace level line).Isolates scope [] [] :=
  isolates_of_confined fun m hm => Invariant.notes _ level (line m) hm

theorem isolates_define (name : String) (v : Value) :
    (updateScopes (·.define scope name v)).Isolates scope [name] [] := by
  intro m hm
  rw [updateScopes_apply]
  refine ⟨hm, ?_⟩
  unfold Scopes.define
  split
  · exact ((Scopes.Confined.refl scope.chain m.scopes).isolated).mono (List.nil_subset _)
      (List.Subset.refl _)
  · refine .of_frame_eq (Scopes.size_bindVariable ..)
      (fun n hn => m.scopes.frame_bindVariable_of_ne hn name v) fun hn => ?_
    rw [Scopes.frame_bindVariable, if_pos ⟨rfl, hn⟩]
    refine ⟨?_, .refl⟩
    by_cases hbound : name ∈ (m.scopes.frame scope.here).values.names
    · refine ⟨[], List.nil_subset _, ?_⟩
      rw [Bindings.names_insert_of_mem v hbound, List.append_nil]
    · exact ⟨[name], List.Subset.refl _, Bindings.names_insert_of_not_mem v hbound⟩

theorem isolates_declare (f : Function) :
    (updateScopes fun scopes => (.ok (), scopes.declare scope f)).Isolates scope [] [f.name] := by
  intro m hm
  rw [updateScopes_apply]
  refine ⟨hm, .of_frame_eq (Scopes.size_declare ..)
    (fun n hn => m.scopes.frame_declare_of_ne hn f) fun hn => ?_⟩
  rw [Scopes.frame_declare, if_pos ⟨rfl, hn⟩]
  exact ⟨⟨[], List.nil_subset _, (List.append_nil _).symm⟩,
    Bindings.Rebinds.refl.insert f (List.mem_cons_self ..)⟩

end Exec

namespace Evaluator

open Exec

variable (fuel turns frames : Nat) (scope : Scope)

theorem isolates_call (name : String) (arguments : List Value) :
    (call fuel frames name arguments scope).Isolates scope [] [] :=
  isolates_of_confined fun m hm =>
    Invariant.holds_call _ (m.scopes.confinement_seen scope) hm fuel frames name arguments

theorem isolates_evaluate (node : Node) :
    (evaluate (call fuel) scope frames node []).Isolates scope [] [] :=
  isolates_of_confined fun m hm =>
    Invariant.holds_evaluate _ (m.scopes.confinement_seen scope) hm fuel frames node

theorem isolates_value (node : Node) :
    (value (call fuel) scope frames node).Isolates scope [] [] :=
  isolates_of_confined fun m hm =>
    Invariant.holds_value _ (m.scopes.confinement_seen scope) hm fuel frames node

theorem isolates_execute_of_not_declares {node : Node} (hn : node.declares = false) :
    (execute (call fuel) turns scope frames node).Isolates scope [] [] :=
  isolates_of_confined fun m hm =>
    Invariant.holds_execute _ (m.scopes.confinement_seen scope) hm fuel turns frames hn

theorem isolates_execute (node : Node) :
    (execute (call fuel) turns scope frames node).Isolates scope node.definedNames
      node.declaredNames := by
  -- only two kinds of statements bind names where they stand, so the invariant covers the others
  cases node with
  | definition name expression =>
    rw [execute]
    refine (isolates_value fuel frames scope expression).bind fun v => ?_
    refine (isolates_define name v).bind fun _ => ?_
    exact (isolates_trace _ _).bind fun _ => isolates_pure none
  | function name parameters body =>
    rw [execute]
    refine (isolates_declare _).bind fun _ => ?_
    exact (isolates_trace _ _).bind fun _ => isolates_pure none
  | _ => exact isolates_execute_of_not_declares fuel turns frames scope rfl

theorem isolates_executeAll (statements : List Node) :
    (executeAll (call fuel) turns scope frames statements).Isolates scope
      (statements.flatMap Node.definedNames) (statements.flatMap Node.declaredNames) := by
  induction statements with
  | nil => exact isolates_pure none
  | cons statement statements ih =>
    rw [executeAll]
    refine (isolates_execute fuel turns (frames + 1) scope statement).bind fun result => ?_
    cases result with
    | none => exact ih
    | some v => exact (isolates_pure _).mono (List.nil_subset _) (List.nil_subset _)

theorem isolates_executeBlock (node : Node) :
    (executeBlock (call fuel) turns scope frames node).Isolates scope
      (node.statements.flatMap Node.definedNames) (node.statements.flatMap Node.declaredNames) := by
  cases node with
  | block statements =>
    rw [executeBlock]
    exact isolates_executeAll fuel turns frames scope statements
  | _ => exact isolates_of_confined fun _ hm => hm

/-- **Lexical isolation.** In every state of an interpreter and however it ends, code that runs in a
scope changes nothing outside the chain of that scope, and the scopes around it keep their names and
functions. The scope itself keeps them, too, except for what a definition or a declaration that
stands directly in it writes. So expressions, calls and statements that are neither add no name to
any scope that exists, and take none away. -/
theorem execution_isolated {m : Machine} (hosts : m.QuietHosts) :
    (∀ node, m.scopes.Isolated scope [] []
      (evaluate (call fuel) scope frames node [] m).2.scopes) ∧
    (∀ name arguments, m.scopes.Isolated scope [] []
      (call fuel frames name arguments scope m).2.scopes) ∧
    (∀ node : Node, m.scopes.Isolated scope node.definedNames node.declaredNames
      (execute (call fuel) turns scope frames node m).2.scopes) ∧
    (∀ node : Node, m.scopes.Isolated scope (node.statements.flatMap Node.definedNames)
      (node.statements.flatMap Node.declaredNames)
      (executeBlock (call fuel) turns scope frames node m).2.scopes) ∧
    (∀ statements : List Node, m.scopes.Isolated scope (statements.flatMap Node.definedNames)
      (statements.flatMap Node.declaredNames)
      (executeAll (call fuel) turns scope frames statements m).2.scopes) ∧
    ∀ n < m.scopes.frames.size,
      (∀ node, (m.scopes.frame n).Keeps
        ((evaluate (call fuel) scope frames node [] m).2.scopes.frame n)) ∧
      (∀ name arguments, (m.scopes.frame n).Keeps
        ((call fuel frames name arguments scope m).2.scopes.frame n)) ∧
      ∀ node : Node, node.declares = false → (m.scopes.frame n).Keeps
        ((execute (call fuel) turns scope frames node m).2.scopes.frame n) := by
  have hevaluate node := (isolates_evaluate fuel frames scope node m hosts).2
  have hcall name arguments := (isolates_call fuel frames scope name arguments m hosts).2
  refine ⟨hevaluate, hcall, fun node => ?_, fun node => ?_, fun statements => ?_, fun n hn => ?_⟩
  · exact (isolates_execute fuel turns frames scope node m hosts).2
  · exact (isolates_executeBlock fuel turns frames scope node m hosts).2
  · exact (isolates_executeAll fuel turns frames scope statements m hosts).2
  · refine ⟨fun node => (hevaluate node).keeps n hn,
      fun name arguments => (hcall name arguments).keeps n hn, fun node hnode => ?_⟩
    exact (isolates_execute_of_not_declares fuel turns frames scope hnode m hosts).2.keeps n hn

/-- An assignment in an inner scope changes the value of an outer name, and a definition there adds
a name to the inner scope. -/
theorem execution_isolated_inner :
    let scopes : Scopes := ⟨true, #[{ values := [("x", Value.ofInt 7)] }, {}, {}]⟩
    let m : Machine := { Machine.counting with scopes := scopes }
    let body := [.assignment "x" (.call "depth" []), .definition "n" (.reference "x")]
    let after := (executeAll (call 1) 1 ⟨2, [0]⟩ 3 body m).2.scopes
    m.QuietHosts ∧ scopes.Isolated ⟨2, [0]⟩ ["n"] [] after ∧
      after.valueAt? 0 "x" = some (Value.ofInt 0) ∧
      after.valueAt? 2 "n" = some (Value.ofInt 0) := by
  intro scopes m body after
  have hosts : m.QuietHosts := Machine.quietHosts_counting
  exact ⟨hosts, (execution_isolated 1 1 3 ⟨2, [0]⟩ hosts).2.2.2.2.1 body, rfl, rfl⟩

end Evaluator

end ScriptLang
