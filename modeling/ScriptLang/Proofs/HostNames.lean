import ScriptLang.Proofs.Correspondence
import ScriptLang.Proofs.Probe
import ScriptLang.Proofs.Scopes
import ScriptLang.Proofs.Traces

set_option autoImplicit false

/-! # Names that the host binds

A function of the host takes precedence over every declared function of its name. So what a script
declares under such a name can never be called, and the declarations can as well be left out
(`Machine.run_without`).

The run is compared with one in which declarations of the name have no effect
(`Interpretation.ignoring`). That run goes through the same machines without those declarations, and
it does not matter to it whether they stand in the code. -/

namespace ScriptLang

open Plain

/-! ## Code without the declarations of a name -/

namespace Node

/-- Whether the node declares a function of the given name. -/
def declaresFunction (n : String) : Node → Bool
  | .function name _ _ => name == n
  | _ => false

mutual

/-- The node, without the declarations of functions of the given name among its statements, however
deep they stand. -/
def without (n : String) : Node → Node
  | .block statements => .block (withoutAll n statements)
  | .program body => .program (withoutAll n body)
  | .conditional condition thenBlock elseBlock =>
    .conditional condition (thenBlock.without n) (match elseBlock with
      | none => none
      | some branch => some (branch.without n))
  | .loop condition body => .loop condition (body.without n)
  | .function name parameters body => .function name parameters (body.without n)
  | node => node
termination_by structural node => node

/-- The statements, without the declarations of functions of the given name. -/
def withoutAll (n : String) : List Node → List Node
  | [] => []
  | statement :: statements =>
    if statement.declaresFunction n then withoutAll n statements
    else statement.without n :: withoutAll n statements
termination_by structural statements => statements

end

variable (n : String)

theorem without_conditional (condition thenBlock : Node) (elseBlock : Option Node) :
    (Node.conditional condition thenBlock elseBlock).without n
      = .conditional condition (thenBlock.without n) (elseBlock.map (·.without n)) := by
  cases elseBlock <;> rfl

@[simp]
theorem declaresFunction_without (node : Node) :
    (node.without n).declaresFunction n = node.declaresFunction n := by
  cases node with
  | conditional condition thenBlock elseBlock => rw [without_conditional]; rfl
  | _ => rfl

mutual

/-- What is left out once is not there to be left out again. -/
theorem without_without : ∀ node : Node, (node.without n).without n = node.without n
  | .block statements => congrArg Node.block (withoutAll_withoutAll statements)
  | .program body => congrArg Node.program (withoutAll_withoutAll body)
  | .conditional condition thenBlock none =>
    congrArg (Node.conditional condition · none) (without_without thenBlock)
  | .conditional condition thenBlock (some elseBlock) => by
    show Node.conditional condition ((thenBlock.without n).without n)
      (some ((elseBlock.without n).without n)) = _
    rw [without_without thenBlock, without_without elseBlock]
    rfl
  | .loop condition body => congrArg (Node.loop condition) (without_without body)
  | .function name parameters body =>
    congrArg (Node.function name parameters) (without_without body)
  | .reference _ | .literal _ | .binary _ _ _ | .call _ _ | .input _ | .print _
  | .definition _ _ | .assignment _ _ | .callStatement _ _ | .returning _
  | .expressionStatement _ | .valueStatement _ | .fragment _ => rfl
termination_by structural node => node

theorem withoutAll_withoutAll : ∀ statements : List Node,
    withoutAll n (withoutAll n statements) = withoutAll n statements
  | [] => rfl
  | statement :: statements => by
    rw [withoutAll]
    split
    · exact withoutAll_withoutAll statements
    · next hkept =>
      rw [withoutAll, declaresFunction_without, if_neg hkept, without_without statement,
        withoutAll_withoutAll statements]
termination_by structural statements => statements

end

end Node

/-- The function, without declarations of the given name in its body. -/
def Function.without (n : String) (f : Function) : Function :=
  { f with body := f.body.without n }

/-! ## Machines without the declarations of a name -/

/-- The table without its entry for the given name and without declarations of it in the bodies. -/
def Bindings.without (n : String) : Bindings Function → Bindings Function
  | [] => []
  | (name, f) :: rest =>
    if name = n then without n rest else (name, f.without n) :: without n rest

/-- What a scope binds, without the functions of the given name. -/
def Frame.without (n : String) (frame : Frame) : Frame :=
  { frame with functions := frame.functions.without n }

/-- The scopes without the functions of the given name. -/
def Scopes.without (n : String) (scopes : Scopes) : Scopes :=
  { scopes with frames := scopes.frames.map (Frame.without n) }

/-- The machine without the declared functions of the given name. -/
def Machine.without (n : String) (m : Machine) : Machine :=
  { m with scopes := m.scopes.without n }

namespace Bindings

theorem find?_without {n name : String} (h : name ≠ n) (table : Bindings Function) :
    (table.without n).find? name = (table.find? name).map (Function.without n) := by
  induction table with
  | nil => rfl
  | cons entry rest ih =>
    obtain ⟨first, f⟩ := entry
    simp only [without, find?]
    by_cases hfirst : first = name
    · subst hfirst
      simp [h, find?]
    · by_cases hn : first = n
      · rw [if_pos hn, if_neg hfirst, ih]
      · rw [if_neg hn, if_neg hfirst, find?, if_neg hfirst, ih]

/-- A hidden function can be bound without a trace. -/
theorem without_insert_self (n : String) (f : Function) (table : Bindings Function) :
    (table.insert n f).without n = table.without n := by
  induction table with
  | nil => simp [insert, without]
  | cons entry rest ih =>
    obtain ⟨first, old⟩ := entry
    by_cases hfirst : first = n
    · simp [insert, without, hfirst]
    · simp [insert, without, hfirst, ih]

theorem without_insert {n name : String} (h : name ≠ n) (f : Function) (table : Bindings Function) :
    (table.insert name f).without n = (table.without n).insert name (f.without n) := by
  induction table with
  | nil => simp [insert, without, h]
  | cons entry rest ih =>
    obtain ⟨first, old⟩ := entry
    by_cases hfirst : first = name
    · subst hfirst
      simp [insert, without, h]
    · by_cases hn : first = n
      · subst hn
        simp [insert, without, hfirst, ih]
      · simp [insert, without, hfirst, hn, ih]

end Bindings

namespace Scopes

variable (n : String) (scopes : Scopes)

theorem frame_without (number : Nat) :
    (scopes.without n).frame number = (scopes.frame number).without n := by
  unfold frame without
  rw [Array.getElem?_map]
  cases scopes.frames[number]? <;> rfl

theorem valueAt?_without (number : Nat) (name : String) :
    (scopes.without n).valueAt? number name = scopes.valueAt? number name := by
  unfold valueAt?
  rw [frame_without]
  rfl

theorem lookup?_without (scope : Scope) (name : String) :
    (scopes.without n).lookup? scope name = scopes.lookup? scope name := by
  unfold lookup?
  simp only [valueAt?_without]

theorem child_without (scope : Scope) :
    (scopes.without n).child scope
      = ((scopes.child scope).1, (scopes.child scope).2.without n) := by
  simp [child, without, Frame.without, Bindings.without]

/-- A change of one frame can be made before or after functions are hidden. -/
theorem without_modify (number : Nat) {change change' : Frame → Frame}
    (h : ∀ frame, (change frame).without n = change' (frame.without n)) :
    ({ scopes with frames := scopes.frames.modify number change } : Scopes).without n
      = { scopes.without n with frames := (scopes.without n).frames.modify number change' } := by
  unfold without
  congr 1
  refine Array.ext_getElem? fun k => ?_
  simp only [Array.getElem?_map, Array.getElem?_modify]
  by_cases hk : number = k
  · simp [hk, Function.comp_def, h]
  · simp [hk]

theorem without_bindVariable (number : Nat) (name : String) (value : Value) :
    (scopes.bindVariable number name value).without n
      = (scopes.without n).bindVariable number name value :=
  without_modify n scopes number fun _ => rfl

theorem define_without (scope : Scope) (name : String) (value : Value) :
    (scopes.without n).define scope name value
      = ((scopes.define scope name value).1, (scopes.define scope name value).2.without n) := by
  have hstrict : (scopes.without n).strict = scopes.strict := rfl
  unfold define
  rw [valueAt?_without, hstrict]
  split
  · rfl
  · rw [without_bindVariable]

theorem assign_without (scope : Scope) (name : String) (value : Value) :
    (scopes.without n).assign scope name value
      = ((scopes.assign scope name value).1, (scopes.assign scope name value).2.without n) := by
  unfold assign
  simp only [valueAt?_without]
  split
  · rfl
  · rw [without_bindVariable]

/-- A function of the hidden name is declared without a trace. -/
theorem without_declare_self (scope : Scope) (f : Function) (h : f.name = n) :
    (scopes.declare scope f).without n = scopes.without n := by
  have hmodify : ∀ frame : Frame,
      Frame.without n { frame with functions := frame.functions.insert f.name f }
        = id (frame.without n) :=
    fun frame => congrArg (Frame.mk frame.values) (h ▸ Bindings.without_insert_self f.name f _)
  rw [declare, without_modify n scopes scope.here hmodify]
  refine congrArg (Scopes.mk scopes.strict) (Array.ext_getElem? fun k => ?_)
  simp [Array.getElem?_modify, without]

theorem without_declare (scope : Scope) (f : Function) (h : f.name ≠ n) :
    (scopes.declare scope f).without n = (scopes.without n).declare scope (f.without n) :=
  without_modify n scopes scope.here fun frame =>
    congrArg (Frame.mk frame.values) (Bindings.without_insert h f frame.functions)

variable {n}

theorem declarationFrom?_without {name : String} (h : name ≠ n) (here : Nat) (above : List Nat) :
    (scopes.without n).declarationFrom? name here above
      = (scopes.declarationFrom? name here above).map fun found =>
          (found.1, found.2.without n) := by
  have hat (number : Nat) : (scopes.without n).functionAt? number name
      = (scopes.functionAt? number name).map (Function.without n) := by
    unfold functionAt?
    rw [frame_without]
    exact Bindings.find?_without h _
  induction above generalizing here with
  | nil =>
    unfold declarationFrom?
    rw [hat]
    cases scopes.functionAt? here name <;> rfl
  | cons next above ih =>
    unfold declarationFrom?
    rw [hat, ih]
    cases scopes.functionAt? here name <;> rfl

end Scopes

/-! ## Runs that ignore the declarations of a name -/

/-- What an action does where declarations of functions of the given name have no effect and only
calls are traced. -/
def Action.execIgnoring (n : String) {α : Type} : Action α → Exec α
  | .declare scope f =>
    if f.name = n then pure () else Action.exec (.declare scope (f.without n))
  | .trace level line => if 2 ≤ level then pure () else Action.exec (.trace level line)
  | action => action.exec

/-- Declarations of functions of the given name have no effect. -/
def Interpretation.ignoring (n : String) : Interpretation Exec where
  perform := Action.execIgnoring n
  print := direct.print
  resolve := direct.resolve
  calling := direct.calling
  guarded := direct.guarded

namespace Plain

open Interpretation (direct ignoring)

variable (n : String) (call : Callee Exec)

/-- A declaration of the ignored name does nothing. -/
theorem execute_of_declaresFunction (fuel : Nat) (scope : Scope) (frames : Nat) {node : Node}
    (h : node.declaresFunction n = true) :
    execute (ignoring n) call fuel scope frames node = pure none := by
  cases node with
  | function name parameters body =>
    have hname : name = n := eq_of_beq h
    have hdeclare : (ignoring n).perform (.declare scope ⟨name, parameters, body⟩) = pure () :=
      if_pos hname
    rw [execute, hdeclare]
    rfl
  | _ => exact absurd h Bool.false_ne_true

mutual

/-- The declarations of the ignored name do not matter. -/
theorem execute_ignoring (fuel : Nat) (scope : Scope) (frames : Nat) : ∀ node : Node,
    execute (ignoring n) call fuel scope frames (node.without n)
      = execute (ignoring n) call fuel scope frames node
  | .conditional condition thenBlock elseBlock => by
    have hthen (inner : Scope) :
        (fun frames => executeBlock (ignoring n) call fuel inner frames (thenBlock.without n))
          = fun frames => executeBlock (ignoring n) call fuel inner frames thenBlock :=
      funext fun frames => executeBlock_ignoring fuel inner frames thenBlock
    rw [Node.without_conditional, execute_conditional, execute_conditional]
    rcases elseBlock with _ | block
    · simp only [hthen, Option.map_none]
    · have helse (inner : Scope) :
          (fun frames => executeBlock (ignoring n) call fuel inner frames (block.without n))
            = fun frames => executeBlock (ignoring n) call fuel inner frames block :=
        funext fun frames => executeBlock_ignoring fuel inner frames block
      simp only [hthen, Option.map_some, helse]
  | .loop condition body => by
    have hbody (inner : Scope) :
        (fun frames => executeBlock (ignoring n) call fuel inner frames (body.without n))
          = fun frames => executeBlock (ignoring n) call fuel inner frames body :=
      funext fun frames => executeBlock_ignoring fuel inner frames body
    rw [Node.without, execute, execute]
    simp only [hbody]
  | .function name parameters body => by
    have hdeclare : (ignoring n).perform (.declare scope ⟨name, parameters, body.without n⟩)
        = (ignoring n).perform (.declare scope ⟨name, parameters, body⟩) := by
      simp only [ignoring, Action.execIgnoring, Function.without, Node.without_without]
    rw [Node.without, execute, execute, hdeclare]
  | .block _ | .program _ => rfl
  | .reference _ | .literal _ | .binary _ _ _ | .call _ _ | .input _ | .print _
  | .definition _ _ | .assignment _ _ | .callStatement _ _ | .returning _
  | .expressionStatement _ | .valueStatement _ | .fragment _ => rfl
termination_by structural node => node

theorem executeBlock_ignoring (fuel : Nat) (scope : Scope) (frames : Nat) : ∀ node : Node,
    executeBlock (ignoring n) call fuel scope frames (node.without n)
      = executeBlock (ignoring n) call fuel scope frames node
  | .block statements => executeAll_ignoring fuel scope frames statements
  | .conditional condition thenBlock elseBlock => by
    rw [Node.without_conditional]
    rfl
  | .reference _ | .literal _ | .binary _ _ _ | .call _ _ | .input _ | .program _ | .print _
  | .definition _ _ | .assignment _ _ | .loop _ _ | .function _ _ _
  | .callStatement _ _ | .returning _ | .expressionStatement _ | .valueStatement _
  | .fragment _ => rfl
termination_by structural node => node

theorem executeAll_ignoring (fuel : Nat) (scope : Scope) (frames : Nat) : ∀ statements : List Node,
    executeAll (ignoring n) call fuel scope frames (Node.withoutAll n statements)
      = executeAll (ignoring n) call fuel scope frames statements
  | [] => rfl
  | statement :: statements => by
    rw [Node.withoutAll]
    split
    · next hskipped =>
      rw [executeAll, execute_of_declaresFunction n call fuel scope (frames + 1) hskipped,
        pure_bind]
      exact executeAll_ignoring fuel scope frames statements
    · rw [executeAll, executeAll, execute_ignoring fuel scope (frames + 1) statement,
        executeAll_ignoring fuel scope frames statements]
termination_by structural statements => statements

end

end Plain

/-! ## Machines that differ in hidden functions -/

/-- Whether the host binds the name and declarations are not traced. -/
structure Machine.Hides (n : String) (m : Machine) : Prop where
  bound : (m.hosts.find? n).isSome = true
  untraced : m.config.debugLevel < 2

theorem Machine.Hides.later {n : String} {m m' : Machine} (h : m.Hides n) (hm : m.Later m') :
    m'.Hides n where
  bound := by rw [hm.hosts]; exact h.bound
  untraced := by rw [hm.config]; exact h.untraced

/-- Whether `y` does without the functions of the given name what `x` does with them. -/
structure Exec.MirroredBy (n : String) {α : Type} (x y : Exec α) : Prop where
  forward : x.Forward
  agrees {m : Machine} : m.Hides n → y (m.without n) = ((x m).1, (x m).2.without n)

namespace Exec

variable {n : String} {α β : Type}

theorem MirroredBy.bind {x y : Exec α} {f g : α → Exec β} (hx : x.MirroredBy n y)
    (hf : ∀ a, (f a).MirroredBy n (g a)) : (x >>= f).MirroredBy n (y >>= g) := by
  refine ⟨hx.forward.bind fun a => (hf a).forward, fun {m} hm => ?_⟩
  have hy := hx.agrees hm
  have hlater := hx.forward m
  rcases hxm : x m with ⟨r, m'⟩
  rw [hxm] at hy hlater
  cases r with
  | ok a =>
    rw [bind_of_ok hxm, bind_of_ok hy]
    exact (hf a).agrees (hm.later hlater)
  | error e => rw [bind_of_error hxm, bind_of_error hy]

theorem MirroredBy.of_ignores {x : Exec α} (hx : x.Forward) (h : x.Ignores (·.without n)) :
    x.MirroredBy n x :=
  ⟨hx, fun {m} _ => h m⟩

theorem mirrored_updateScopes {update : Scopes → Except ScriptError Unit × Scopes}
    (hlater : ∀ scopes : Scopes, scopes.Later (update scopes).2)
    (h : ∀ scopes : Scopes,
      update (scopes.without n) = ((update scopes).1, (update scopes).2.without n)) :
    (updateScopes update).MirroredBy n (updateScopes update) := by
  refine .of_ignores (forward_updateScopes hlater) (ignores_updateScopes (fun m => ?_) fun m => ?_)
  · show (update (m.scopes.without n)).1 = (update m.scopes).1
    rw [h]
  · exact congrArg (fun r => { m with scopes := r.2 }) (h m.scopes)

end Exec

/-- Hiding functions has nothing to do with calls, the stack and traces. -/
theorem Machine.isAside_without (n : String) : Machine.IsAside (·.without n) :=
  ⟨fun _ => rfl, fun _ _ => rfl, fun _ => rfl, fun _ _ => rfl, fun _ => rfl, fun _ _ => rfl⟩

namespace Action

open Exec

variable {n : String}

theorem mirrored_declare (scope : Scope) (f : Function) :
    (Action.declare scope f).exec.MirroredBy n ((Action.declare scope f).execIgnoring n) := by
  refine ⟨forward_exec _, fun {m} _ => ?_⟩
  show (if f.name = n then pure () else Action.exec (.declare scope (f.without n))) (m.without n)
    = (Except.ok (), { m with scopes := (m.scopes.declare scope f).without n })
  by_cases hname : f.name = n
  · rw [if_pos hname, Scopes.without_declare_self n m.scopes scope f hname]
    rfl
  · rw [if_neg hname, Scopes.without_declare n m.scopes scope f hname]
    rfl

/-- Only what calls trace is traced at all. -/
theorem mirrored_trace (level : Nat) (line : Int → String) :
    (Action.trace level line).exec.MirroredBy n ((Action.trace level line).execIgnoring n) := by
  refine ⟨forward_exec _, fun {m} hm => ?_⟩
  show (if 2 ≤ level then pure () else Action.exec (.trace level line)) (m.without n)
    = (Except.ok (), (m.noted level (line m.calls.depth)).without n)
  by_cases hlevel : 2 ≤ level
  · have hquiet : ¬ level ≤ m.config.debugLevel := by
      have := hm.untraced
      omega
    rw [if_pos hlevel, Machine.noted, if_neg hquiet]
    rfl
  · rw [if_neg hlevel]
    exact ignores_trace (Machine.isAside_without n) level line m

/-- Every action is mirrored by what it does where the declarations are ignored. -/
theorem mirrored_exec {α : Type} (action : Action α) :
    action.exec.MirroredBy n (action.execIgnoring n) := by
  have haside := Machine.isAside_without n
  cases action with
  | fail failure => exact .of_ignores (forward_exec _) (ignores_throw failure)
  | lookup scope name =>
    exact .of_ignores (forward_exec _)
      (ignores_lookup fun m => m.scopes.lookup?_without n scope name)
  | operate frames operator a b =>
    exact .of_ignores (forward_exec _) (ignores_operate haside frames operator a b)
  | truth value => exact .of_ignores (forward_exec _) (ignores_truth value)
  | read kind =>
    refine .of_ignores (forward_exec _) fun m => ?_
    have hinput : (m.without n).input = m.input := rfl
    show readInput kind (m.without n) = ((readInput kind m).1, (readInput kind m).2.without n)
    rw [readInput_apply, readInput_apply, hinput]
    cases m.input <;> rfl
  | trace level line => exact mirrored_trace level line
  | openScope scope =>
    refine .of_ignores (forward_exec _) fun m => ?_
    have hchild := m.scopes.child_without n scope
    show (Except.ok (((m.scopes.without n).child scope).1),
      { m with scopes := ((m.scopes.without n).child scope).2 }) = _
    rw [hchild]
    rfl
  | define scope name value =>
    exact mirrored_updateScopes (fun scopes => scopes.later_define scope name value)
      fun scopes => scopes.define_without n scope name value
  | assign scope name value =>
    exact mirrored_updateScopes (fun scopes => scopes.later_assign scope name value)
      fun scopes => scopes.assign_without n scope name value
  | declare scope f => exact mirrored_declare scope f
  | checkCount count name arguments =>
    exact .of_ignores (forward_exec _) (ignores_checkCount count name arguments)
  | depth => exact .of_ignores (forward_exec _) (ignores_depth haside)
  | demand needed => exact .of_ignores (forward_exec _) (ignores_demand haside needed)
  | reserve frames => exact .of_ignores (forward_exec _) (ignores_reserve haside frames)

end Action

/-- The programs that run inside a run are mirrored, too. -/
theorem Exec.MirroredBy.guarded {n : String} {α : Type} {x y : Exec α} (h : x.MirroredBy n y) :
    (Exec.guarded x).MirroredBy n (Exec.guarded y) := by
  have haside := Machine.isAside_without n
  refine ⟨h.forward.guarded, fun {m} hm => ?_⟩
  unfold Exec.guarded
  rw [openTrace_change haside]
  cases hopen : m.openTrace with
  | error e => rfl
  | ok m' =>
    have hy := h.agrees (hm.later (Machine.later_openTrace hopen))
    show restore m.stack (finish (y (m'.without n))) = _
    rw [hy, finish_change haside, restore_change haside]
    rfl

/-- Calls are counted alike. -/
theorem Exec.MirroredBy.calling {n : String} {x y : Exec (Option Value)} (h : x.MirroredBy n y) :
    (Exec.calling x).MirroredBy n (Exec.calling y) := by
  have haside := Machine.isAside_without n
  refine (MirroredBy.of_ignores forward_enterCall (ignores_enterCall haside)).bind fun _ =>
    h.bind fun returned => ?_
  exact (MirroredBy.of_ignores forward_leaveCall (ignores_leaveCall haside)).bind fun _ =>
    .of_ignores (forward_pure returned) (ignores_pure returned)

/-- Runs correspond to runs in which the declarations of the name are ignored. -/
def Interpretation.mirror (n : String) :
    Correspondence Interpretation.direct (Interpretation.ignoring n) where
  related := Exec.MirroredBy n
  pure a := ⟨Exec.forward_pure a, fun _ => rfl⟩
  bind := Exec.MirroredBy.bind
  perform := Action.mirrored_exec
  calling := Exec.MirroredBy.calling

/-! ## Calls -/

/-- What a name denotes, without declarations of the given name in its body. -/
def Resolved.without (n : String) : Resolved → Resolved
  | .declared owner f => .declared owner (f.without n)
  | found => found

/-- A name means the same once functions of a name that the host binds are hidden, but for the
declarations in bodies: such a name means the function of the host in any case. -/
theorem Machine.resolve_without {n : String} {m : Machine} (hm : m.Hides n) (scope : Scope)
    (name : String) : (m.without n).resolve scope name = (m.resolve scope name).without n := by
  have hhosts : (m.without n).hosts = m.hosts := rfl
  unfold resolve
  rw [hhosts]
  cases hfind : m.hosts.find? name with
  | some f => rfl
  | none =>
    have hname : name ≠ n := by
      rintro rfl
      have hbound := hm.bound
      simp [hfind] at hbound
    have hfound : (m.without n).scopes.declaration? scope name
        = (m.scopes.declaration? scope name).map fun found => (found.1, found.2.without n) :=
      m.scopes.declarationFrom?_without hname scope.here scope.above
    dsimp only
    rw [hfound]
    cases m.scopes.declaration? scope name <;> rfl

namespace Plain

open Interpretation (direct ignoring mirror)

theorem mirrored_resolve {n : String} {α : Type} {f g : Resolved → Exec α} (scope : Scope)
    (name : String) (h : ∀ found, (f found).MirroredBy n (g (found.without n))) :
    (direct.resolve scope name >>= f).MirroredBy n ((ignoring n).resolve scope name >>= g) := by
  have hresolve (m : Machine) : direct.resolve scope name m = (.ok (m.resolve scope name), m) := rfl
  have hignoring (m : Machine) :
      (ignoring n).resolve scope name m = (.ok (m.resolve scope name), m) := rfl
  refine ⟨fun m => ?_, fun {m} hm => ?_⟩
  · rw [Exec.bind_of_ok (hresolve m)]
    exact (h _).forward m
  · rw [Exec.bind_of_ok (hresolve m), Exec.bind_of_ok (hignoring (m.without n)),
      Machine.resolve_without hm]
    exact (h _).agrees hm

theorem mirrored_print {n : String} {c d : Callee Exec} {fuel : Nat} {scope : Scope} {frames : Nat}
    {expressions : List Node}
    (h : (Plain.values direct c scope frames expressions).MirroredBy n
      (Plain.values (ignoring n) d scope frames expressions)) :
    (execute direct c fuel scope frames (.print expressions)).MirroredBy n
      (execute (ignoring n) d fuel scope frames (.print expressions)) := by
  refine h.bind fun values => Exec.MirroredBy.bind ?_ fun _ => (mirror n).pure none
  exact ⟨Exec.forward_print values, fun _ => rfl⟩

/-- Calls are mirrored: a stored body is run with or without the declarations of the name. -/
theorem callees_mirror (n : String) (fuel : Nat) :
    (mirror n).Callees (call direct fuel) (call (ignoring n) fuel) := by
  induction fuel with
  | zero => exact ⟨fun _ _ _ _ => (mirror n).perform (.fail .outOfFuel), mirrored_print⟩
  | succ fuel ih =>
    refine ⟨fun frames name arguments scope => mirrored_resolve scope name fun found => ?_,
      mirrored_print⟩
    cases found with
    | host f =>
      exact (mirror n).callHost
        (fun frames => (mirror n).act (ih.runSource Exec.MirroredBy.guarded fuel frames) _) frames
    | declared owner f =>
      refine (mirror n).callDeclared frames owner f (f.without n) rfl (fun frames inner => ?_) name
        arguments
      show (executeBlock direct (call direct fuel) fuel inner frames f.body).MirroredBy n
        (executeBlock (ignoring n) (call (ignoring n) fuel) fuel inner frames (f.body.without n))
      rw [executeBlock_ignoring]
      exact ih.executeBlock fuel inner frames f.body
    | unknown => exact (mirror n).perform (.fail (.script (.undefinedFunction name)))

end Plain

/-! ## Runs -/

namespace Machine

open Interpretation (direct ignoring)

/-- A run is mirrored by the run that ignores the declarations of the name, in which they may as
well be missing. -/
theorem mirrored_run (n : String) (fuel frames : Nat) (body : List Node) :
    (Plain.run direct fuel frames body).MirroredBy n
      (Plain.run (ignoring n) fuel frames (Node.withoutAll n body)) := by
  have hbody : (fun frames => executeAll (ignoring n) (call (ignoring n) fuel) fuel Scope.root
        frames (Node.withoutAll n body))
      = fun frames =>
        executeAll (ignoring n) (call (ignoring n) fuel) fuel Scope.root frames body :=
    funext fun frames => executeAll_ignoring n _ fuel Scope.root frames body
  unfold Plain.run Plain.runBody Plain.executeProgram
  rw [hbody]
  exact ((callees_mirror n fuel).executeProgram fuel frames body).guarded

/-- **Names that the host binds hide declared functions.** If the host binds a name and
declarations are not traced, all declarations of functions of that name can be left out of a
program: the result or the failure is the same, and so is all of the machine but its scopes, the
output and the unread input included. The scopes bind the same variables, and the same functions
once those of the name and the declarations of it in the bodies are left out.

A declaration takes no frames of the stack here. So this is about hosts that have some frames left
for it where a program nests deepest; one that lacks just these ends a run at a declaration that
could be left out. -/
theorem run_without {n : String} {m : Machine} (bound : (m.hosts.find? n).isSome = true)
    (untraced : m.config.debugLevel < 2) (fuel : Nat) (body : List Node) :
    let full := run fuel body m
    let reduced := run fuel (Node.withoutAll n body) m
    reduced.1 = full.1 ∧ reduced.2 = { full.2 with scopes := reduced.2.scopes } ∧
      ∀ number, (reduced.2.scopes.frame number).values = (full.2.scopes.frame number).values ∧
        (reduced.2.scopes.frame number).functions.without n
          = (full.2.scopes.frame number).functions.without n := by
  intro full reduced
  have hmirrored (body : List Node) :
      Plain.run (ignoring n) fuel m.stack.base (Node.withoutAll n body) (m.without n)
        = ((run fuel body m).1, (run fuel body m).2.without n) := by
    rw [← run_direct]
    exact (mirrored_run n fuel m.stack.base body).agrees ⟨bound, untraced⟩
  have hfull : Plain.run (ignoring n) fuel m.stack.base (Node.withoutAll n body) (m.without n)
      = (full.1, full.2.without n) := hmirrored body
  have hreduced := hmirrored (Node.withoutAll n body)
  rw [Node.withoutAll_withoutAll, hfull] at hreduced
  obtain ⟨hresult, hmachine⟩ := Prod.mk.inj hreduced
  refine ⟨hresult.symm, ?_, fun number => ?_⟩
  · exact congrArg (fun m' => { m' with scopes := reduced.2.scopes }) hmachine.symm
  · have hframe : (reduced.2.scopes.frame number).without n
        = (full.2.scopes.frame number).without n := by
      rw [← Scopes.frame_without, ← Scopes.frame_without]
      exact congrArg (fun m' => m'.scopes.frame number) hmachine.symm
    exact Frame.mk.inj hframe

/-- A program that declares functions under a name of the host, outside and inside another
function. -/
def overshadowed : List Node :=
  [.function "depth" [] (.block [.returning (.literal (.integer 7))]),
    .function "f" []
      (.block [.function "depth" [] (.block []), .returning (.call "depth" [])]),
    .print [.call "f" [], .call "depth" []]]

/-- Both times the host is asked, and what is left of the program prints the same. -/
theorem run_without_overshadowed :
    (counting.hosts.find? "depth").isSome = true ∧ counting.config.debugLevel < 2 ∧
      Node.withoutAll "depth" overshadowed
        = [.function "f" [] (.block [.returning (.call "depth" [])]),
          .print [.call "f" [], .call "depth" []]] ∧
      (run 3 overshadowed counting).2.output = #["1 0"] ∧
      ((run 3 overshadowed counting).2.scopes.frame 0).functions.names = ["depth", "f"] ∧
      (let reduced := run 3 (Node.withoutAll "depth" overshadowed) counting;
        reduced.1 = (run 3 overshadowed counting).1 ∧
          reduced.2 = { (run 3 overshadowed counting).2 with scopes := reduced.2.scopes } ∧
          (reduced.2.scopes.frame 0).functions.without "depth"
            = ((run 3 overshadowed counting).2.scopes.frame 0).functions.without "depth") := by
  have bound : (counting.hosts.find? "depth").isSome = true := rfl
  have hrun := run_without bound (by decide : counting.config.debugLevel < 2) 3 overshadowed
  exact ⟨bound, by decide, rfl, by decide +kernel, by decide +kernel, hrun.1, hrun.2.1,
    (hrun.2.2 0).2⟩

end Machine

end ScriptLang
