import ScriptLang.Proofs.Correspondence
import Mathlib.Control.Monad.Basic

set_option autoImplicit false

/-! # Input and output, action by action

A run is followed action by action (`Interpretation.recorded`): beside its outcome it gives the
events in their order, each with the machine after it. At every point between two events the output
is what the events so far have printed, and the unread input is what they have left. Each printed
record stems from a statement whose expressions have all been evaluated just before
(`Machine.run_dialogue`). -/

namespace ScriptLang

open Plain

/-! ## Lines -/

namespace Text

/-- What follows the first line of a text. -/
def afterLine (text : List Char) : List Char :=
  text.drop ((text.takeWhile (· ≠ '\n')).length + 1)

/-- What follows so many lines of a text. -/
def afterLines : (count : Nat) → List Char → List Char
  | 0, text => text
  | count + 1, text => afterLines count (afterLine text)

/-- Lines, each ended by a line feed. -/
def joined (lines : List (List Char)) : List Char :=
  lines.flatMap (· ++ ['\n'])

theorem map_afterLines_zero (input : Option (List Char)) : input.map (afterLines 0) = input := by
  cases input <;> rfl

theorem afterLines_add (count more : Nat) (text : List Char) :
    afterLines (count + more) text = afterLines more (afterLines count text) := by
  induction count generalizing text with
  | zero => rw [Nat.zero_add, afterLines]
  | succ count ih => rw [Nat.succ_add, afterLines, ih, afterLines]

theorem takeWhile_line {line : List Char} (h : '\n' ∉ line) (rest : List Char) :
    (line ++ '\n' :: rest).takeWhile (· ≠ '\n') = line := by
  rw [List.takeWhile_append_of_pos]
  · simp
  · intro c hc
    have hne : c ≠ '\n' := fun he => h (he ▸ hc)
    simpa using hne

theorem afterLine_line {line : List Char} (h : '\n' ∉ line) (rest : List Char) :
    afterLine (line ++ '\n' :: rest) = rest := by
  rw [afterLine, takeWhile_line h]
  simp

theorem joined_cons (line : List Char) (lines : List (List Char)) (rest : List Char) :
    joined (line :: lines) ++ rest = line ++ '\n' :: (joined lines ++ rest) := by
  simp [joined]

theorem afterLines_joined {lines : List (List Char)} (h : ∀ line ∈ lines, '\n' ∉ line) {count : Nat}
    (hcount : count ≤ lines.length) (rest : List Char) :
    afterLines count (joined lines ++ rest) = joined (lines.drop count) ++ rest := by
  induction count generalizing lines with
  | zero => rfl
  | succ count ih =>
    cases lines with
    | nil => simp at hcount
    | cons line lines =>
      rw [joined_cons, afterLines, afterLine_line (h line List.mem_cons_self), List.drop_succ_cons]
      refine ih (fun other hother => h other (List.mem_cons_of_mem line hother)) ?_
      simpa using hcount

theorem ofLines_push (lines : Array String) (line : String) :
    ofLines (lines.push line) = ofLines lines ++ (line ++ "\n") := by
  unfold ofLines
  rw [Array.foldl_push, String.append_assoc]

end Text

/-! ## Events -/

/-- What an action does to input and output. -/
inductive Deed where
  /-- A statement with these expressions prints these values. -/
  | print (expressions : List Node) (values : List Value)
  | read
  | other

/-- An action of a run. -/
structure Event where
  deed : Deed
  /-- The machine after the action. -/
  machine : Machine

/-- The record of a statement that prints these values. -/
def Value.record (values : List Value) : String :=
  " ".intercalate (values.map Value.display)

namespace Event

/-- The text that the action adds to the output. -/
def written (event : Event) : String :=
  match event.deed with
  | .print _ values => Value.record values ++ "\n"
  | .read | .other => ""

/-- Whether the action reads a line. -/
def isRead (event : Event) : Bool :=
  match event.deed with
  | .read => true
  | .print _ _ | .other => false

/-- Whether the event is what its deed makes of a machine. -/
def Follows (event : Event) (m : Machine) : Prop :=
  match event.deed with
  | .print _ values => event.machine = m.printed (Value.record values)
  | .read => event.machine.output = m.output ∧ event.machine.input = m.input.map Text.afterLine
  | .other => event.machine.output = m.output ∧ event.machine.input = m.input

end Event

namespace Machine

/-- The machine after events. -/
def reached (m : Machine) : List Event → Machine
  | [] => m
  | event :: events => event.machine.reached events

/-- Whether events follow each other from a machine on. -/
def Sees (m : Machine) : List Event → Prop
  | [] => True
  | event :: events => event.Follows m ∧ event.machine.Sees events

@[simp]
theorem reached_append (m : Machine) (events more : List Event) :
    m.reached (events ++ more) = (m.reached events).reached more := by
  induction events generalizing m with
  | nil => rfl
  | cons event events ih => exact ih event.machine

@[simp]
theorem sees_append (m : Machine) (events more : List Event) :
    m.Sees (events ++ more) ↔ m.Sees events ∧ (m.reached events).Sees more := by
  induction events generalizing m with
  | nil => simp [Sees, reached]
  | cons event events ih => simp [Sees, reached, ih, and_assoc]

end Machine

/-- The text that events add to the output. -/
def writtenBy (events : List Event) : String :=
  String.join (events.map Event.written)

/-- How many lines events read. -/
def linesRead (events : List Event) : Nat :=
  events.countP Event.isRead

@[simp]
theorem linesRead_append (events more : List Event) :
    linesRead (events ++ more) = linesRead events + linesRead more :=
  List.countP_append

theorem Event.Follows.dialogue {event : Event} {m : Machine} (h : event.Follows m) :
    Text.ofLines event.machine.output = Text.ofLines m.output ++ event.written ∧
      event.machine.input = m.input.map (Text.afterLines (linesRead [event])) := by
  obtain ⟨deed, after⟩ := event
  have hnone := Text.map_afterLines_zero m.input
  cases deed with
  | print expressions values =>
    obtain rfl : after = m.printed (Value.record values) := h
    exact ⟨Text.ofLines_push _ _, hnone.symm⟩
  | read =>
    obtain ⟨houtput, hinput⟩ :
        after.output = m.output ∧ after.input = m.input.map Text.afterLine := h
    exact ⟨by simp [houtput, written], hinput⟩
  | other =>
    obtain ⟨houtput, hinput⟩ : after.output = m.output ∧ after.input = m.input := h
    exact ⟨by simp [houtput, written], hinput.trans hnone.symm⟩

/-- Events that follow each other add to the output, and they take lines off the input. -/
theorem Machine.Sees.dialogue {m : Machine} {events : List Event} (h : m.Sees events) :
    Text.ofLines (m.reached events).output = Text.ofLines m.output ++ writtenBy events ∧
      (m.reached events).input = m.input.map (Text.afterLines (linesRead events)) := by
  induction events generalizing m with
  | nil => exact ⟨by simp [reached, writtenBy], (Text.map_afterLines_zero m.input).symm⟩
  | cons event events ih =>
    obtain ⟨hevent, hrest⟩ := h
    obtain ⟨houtput, hinput⟩ := ih hrest
    obtain ⟨houtput', hinput'⟩ := hevent.dialogue
    have hlines : linesRead (event :: events) = linesRead [event] + linesRead events :=
      linesRead_append [event] events
    rw [reached, houtput, hinput, houtput', hinput', hlines]
    refine ⟨by simp [writtenBy, String.append_assoc], ?_⟩
    cases m.input with
    | none => rfl
    | some text => exact congrArg some (Text.afterLines_add _ _ text).symm

/-! ## Runs with their events -/

/-- Opens the file for traces. -/
def Exec.opening : Exec Unit := fun m =>
  match m.openTrace with
  | .error e => (.error (.fault (.file e)), m)
  | .ok m => (.ok (), m)

/-- A computation that gives its events beside its outcome. -/
def Recorded (α : Type) : Type :=
  Machine → (Except Failure α × Machine) × List Event

namespace Recorded

instance : Monad Recorded where
  pure a m := ((.ok a, m), [])
  bind x f m := match x m with
    | ((.ok a, m), events) => ((f a m).1, events ++ (f a m).2)
    | ((.error e, m), events) => ((.error e, m), events)

/-- A computation that is one event. -/
def event {α : Type} (deed : Deed) (x : Exec α) : Recorded α := fun m =>
  (x m, [⟨deed, (x m).2⟩])

/-- The stack before a program runs. -/
def stack : Recorded Stack := fun m =>
  ((.ok m.stack, m), [])

/-- A computation and the end of the program after it, which puts the stack back. -/
def finishing {α : Type} (stack : Stack) (body : Recorded α) : Recorded α := fun m =>
  let outcome := Exec.restore stack (Exec.finish (body m).1)
  (outcome, (body m).2 ++ [⟨.other, outcome.2⟩])

end Recorded

/-- What an action does to input and output. -/
def Action.deed {α : Type} : Action α → Deed
  | .read _ => .read
  | _ => .other

/-- All is done on the machine and recorded. -/
def Interpretation.recorded : Interpretation Recorded where
  perform action := Recorded.event action.deed action.exec
  print expressions values := Recorded.event (.print expressions values) (Exec.print values)
  resolve scope name := fun m => ((.ok (m.resolve scope name), m), [])
  calling body := do
    Recorded.event .other Exec.enterCall
    let returned ← body
    Recorded.event .other Exec.leaveCall
    return returned
  guarded body := do
    let stack ← Recorded.stack
    Recorded.event .other Exec.opening
    Recorded.finishing stack body

namespace Recorded

open Interpretation (recorded direct)

variable {α β : Type}

theorem bind_of_ok {x : Recorded α} {m m' : Machine} {a : α} {events : List Event}
    (h : x m = ((.ok a, m'), events)) (f : α → Recorded β) :
    (x >>= f) m = ((f a m').1, events ++ (f a m').2) := by
  show (match x m with
    | ((.ok a, m), events) => ((f a m).1, events ++ (f a m).2)
    | ((.error e, m), events) => ((.error e, m), events)) = _
  rw [h]

theorem bind_of_error {x : Recorded α} {m m' : Machine} {e : Failure} {events : List Event}
    (h : x m = ((.error e, m'), events)) (f : α → Recorded β) :
    (x >>= f) m = ((.error e, m'), events) := by
  show (match x m with
    | ((.ok a, m), events) => ((f a m).1, events ++ (f a m).2)
    | ((.error e, m), events) => ((.error e, m), events)) = _
  rw [h]

end Recorded

/-- Whether the values that a statement prints, after the events `past`, are those of its
expressions, which have been evaluated without failure in the last of these events. -/
def Machine.Justifies (m : Machine) (past : List Event) (expressions : List Node)
    (values : List Value) : Prop :=
  ∃ before during fuel scope frames, past = before ++ during ∧
    Plain.values Interpretation.recorded (call Interpretation.recorded fuel) scope frames
      expressions (m.reached before) = ((.ok values, m.reached past), during)

/-- What is justified after some events is justified after more of them in front. -/
theorem Machine.Justifies.after {m : Machine} {events past : List Event} {expressions : List Node}
    {values : List Value} (h : (m.reached events).Justifies past expressions values) :
    m.Justifies (events ++ past) expressions values := by
  obtain ⟨before, during, fuel, scope, frames, rfl, heval⟩ := h
  refine ⟨events ++ before, during, fuel, scope, frames, by simp, ?_⟩
  simpa using heval

/-- Whether all that the events print is justified. -/
def Machine.Backs (m : Machine) (events : List Event) : Prop :=
  ∀ ⦃past event future expressions values⦄, events = past ++ event :: future →
    event.deed = .print expressions values → m.Justifies past expressions values

/-- An event of two runs, one after the other, is one of the first or one of the second. -/
theorem Event.split_append {events more past future : List Event} {event : Event}
    (h : events ++ more = past ++ event :: future) :
    (∃ rest, events = past ++ event :: rest) ∨
      ∃ between, past = events ++ between ∧ more = between ++ event :: future := by
  rcases List.append_eq_append_iff.mp h with ⟨between, hpast, hmore⟩ | ⟨rest, hevents, hrest⟩
  · exact Or.inr ⟨between, hpast, hmore⟩
  · cases rest with
    | nil => exact Or.inr ⟨[], by simpa using hevents.symm, hrest.symm⟩
    | cons first rest =>
      obtain ⟨rfl, -⟩ := List.cons.inj hrest
      exact Or.inl ⟨rest, hevents⟩

namespace Machine

variable {m : Machine} {events : List Event}

theorem backs_nil (m : Machine) : m.Backs [] :=
  fun _ _ _ _ _ h => by simp at h

theorem Backs.append {more : List Event} (h : m.Backs events) (h' : (m.reached events).Backs more) :
    m.Backs (events ++ more) := by
  intro past event future expressions values hevents hdeed
  rcases Event.split_append hevents with ⟨rest, hfirst⟩ | ⟨between, rfl, hmore⟩
  · exact h hfirst hdeed
  · exact (h' hmore hdeed).after

theorem Backs.concat {event : Event} (h : m.Backs events)
    (h' : ∀ expressions values, event.deed = .print expressions values →
      m.Justifies events expressions values) : m.Backs (events ++ [event]) := by
  intro past event' future expressions values hevents hdeed
  rcases Event.split_append hevents with ⟨rest, hfirst⟩ | ⟨between, rfl, hmore⟩
  · exact h hfirst hdeed
  · rcases List.append_eq_cons_iff.mp hmore.symm with ⟨rfl, hevent⟩ | ⟨rest, -, hrest⟩
    · obtain ⟨rfl, -⟩ := List.cons.inj hevent
      rw [List.append_nil]
      exact h' expressions values hdeed
    · simp at hrest

end Machine

/-- The machine with another input. -/
def Machine.withInput (m : Machine) (text : List Char) : Machine :=
  { m with input := some text }

/-- Whether the events of `x` account for all that `y` does with input and output. -/
structure Recorded.Accounts {α : Type} (x : Recorded α) (y : Exec α) : Prop where
  outcome (m : Machine) : (x m).1 = y m
  sees (m : Machine) : m.Sees (x m).2
  reached (m : Machine) : m.reached (x m).2 = (x m).1.2
  /-- What is not read does not matter. -/
  replays {m : Machine} {lines : List (List Char)} {rest : List Char} (rest' : List Char) :
    (∀ line ∈ lines, '\n' ∉ line) → m.input = some (Text.joined lines ++ rest) →
      linesRead (x m).2 ≤ lines.length →
      (x (m.withInput (Text.joined lines ++ rest'))).1
        = ((x m).1.1,
          (x m).1.2.withInput (Text.joined (lines.drop (linesRead (x m).2)) ++ rest'))

/-- Whether, in addition, the printed records stem from expressions that have been evaluated. -/
structure Recorded.Records {α : Type} (x : Recorded α) (y : Exec α) : Prop extends
    Recorded.Accounts x y where
  backs (m : Machine) : m.Backs (x m).2

namespace Recorded

variable {α β : Type}

theorem records_pure (a : α) : (pure a : Recorded α).Records (pure a) where
  outcome _ := rfl
  sees _ := trivial
  reached _ := rfl
  replays _ _ _ _ := rfl
  backs m := m.backs_nil

section Bind

variable {x : Recorded α} {y : Exec α} {f : α → Recorded β} {g : α → Exec β}

/-- After the events of the first computation come those of the second, if it runs. -/
theorem Accounts.bind_cases (hx : x.Accounts y) (f : α → Recorded β) (m : Machine) :
    (∃ e, (x m).1.1 = .error e ∧ (x >>= f) m = ((.error e, (x m).1.2), (x m).2)) ∨
      ∃ a, (x m).1 = (.ok a, m.reached (x m).2) ∧
        (x >>= f) m = ((f a (m.reached (x m).2)).1, (x m).2 ++ (f a (m.reached (x m).2)).2) := by
  have hreached := hx.reached m
  rcases hxm : x m with ⟨⟨r, m'⟩, events⟩
  rw [hxm] at hreached
  cases r with
  | ok a =>
    right
    rw [hreached]
    exact ⟨a, rfl, bind_of_ok hxm f⟩
  | error e => exact Or.inl ⟨e, rfl, bind_of_error hxm f⟩

theorem Accounts.bind (hx : x.Accounts y) (hf : ∀ a, (f a).Accounts (g a)) :
    (x >>= f).Accounts (y >>= g) where
  outcome m := by
    have houtcome := hx.outcome m
    rcases hxm : x m with ⟨⟨r, m'⟩, events⟩
    rw [hxm] at houtcome
    cases r with
    | ok a =>
      rw [bind_of_ok hxm, Exec.bind_of_ok houtcome.symm]
      exact (hf a).outcome m'
    | error e => rw [bind_of_error hxm, Exec.bind_of_error houtcome.symm]
  sees m := by
    rcases hx.bind_cases f m with ⟨e, -, hbind⟩ | ⟨a, -, hbind⟩
    · rw [hbind]
      exact hx.sees m
    · rw [hbind, Machine.sees_append]
      exact ⟨hx.sees m, (hf a).sees _⟩
  reached m := by
    rcases hx.bind_cases f m with ⟨e, -, hbind⟩ | ⟨a, -, hbind⟩
    · rw [hbind]
      exact hx.reached m
    · rw [hbind, Machine.reached_append]
      exact (hf a).reached _
  replays {m lines rest} rest' hlines hinput hcount := by
    rcases hx.bind_cases f m with ⟨e, hfirst, hbind⟩ | ⟨a, hfirst, hbind⟩
    · rw [hbind] at hcount ⊢
      have hreplay := hx.replays rest' hlines hinput hcount
      rcases hx.bind_cases f (m.withInput (Text.joined lines ++ rest')) with
        ⟨e', hfirst', hbind'⟩ | ⟨a, hfirst', -⟩
      · rw [hreplay, hfirst] at hfirst'
        obtain rfl := Except.error.inj hfirst'
        rw [hbind', hreplay]
      · rw [hreplay, hfirst] at hfirst'
        cases hfirst'
    · rw [hbind, linesRead_append] at hcount
      rw [hbind, linesRead_append]
      have hreplay := hx.replays rest' hlines hinput (by omega)
      -- the second computation starts with the lines that the first one has left
      have hnext : (m.reached (x m).2).input
          = some (Text.joined (lines.drop (linesRead (x m).2)) ++ rest) := by
        rw [(hx.sees m).dialogue.2, hinput, Option.map_some,
          Text.afterLines_joined hlines (by omega)]
      have hsecond := (hf a).replays rest'
        (fun line hline => hlines line (List.mem_of_mem_drop hline)) hnext
        (by rw [List.length_drop]; omega)
      rcases hx.bind_cases f (m.withInput (Text.joined lines ++ rest')) with
        ⟨e, hfirst', -⟩ | ⟨a', hfirst', hbind'⟩
      · rw [hreplay, hfirst] at hfirst'
        cases hfirst'
      · rw [hreplay, hfirst] at hfirst'
        obtain ⟨ha, hmachine⟩ := Prod.mk.inj hfirst'
        obtain rfl := Except.ok.inj ha
        rw [hbind', ← hmachine, hsecond, List.drop_drop]

theorem Records.bind (hx : x.Records y) (hf : ∀ a, (f a).Records (g a)) :
    (x >>= f).Records (y >>= g) where
  toAccounts := hx.toAccounts.bind fun a => (hf a).toAccounts
  backs m := by
    rcases hx.bind_cases f m with ⟨e, -, hbind⟩ | ⟨a, -, hbind⟩
    · rw [hbind]
      exact hx.backs m
    · rw [hbind]
      exact (hx.backs m).append ((hf a).backs _)

end Bind

end Recorded

/-! ## Actions and their events -/

/-- The machine with another input and output. -/
def Machine.withDialogue (input : Option (List Char)) (output : Array String) (m : Machine) :
    Machine :=
  { m with input, output }

theorem Machine.isAside_withDialogue (input : Option (List Char)) (output : Array String) :
    IsAside (withDialogue input output) :=
  ⟨fun _ => rfl, fun _ _ => rfl, fun _ => rfl, fun _ _ => rfl, fun _ => rfl, fun _ _ => rfl⟩

/-- Whether a computation has nothing to do with input and output. -/
def Exec.Offline {α : Type} (x : Exec α) : Prop :=
  ∀ input output, x.Ignores (Machine.withDialogue input output)

/-- Only reading has to do with them. -/
theorem Action.offline_exec {α : Type} (action : Action α) (h : action.deed = .other) :
    action.exec.Offline := by
  intro input output
  have haside := Machine.isAside_withDialogue input output
  have hupdate (update : Scopes → Except ScriptError Unit × Scopes) :
      (Exec.updateScopes update).Ignores (Machine.withDialogue input output) :=
    Exec.ignores_updateScopes (fun _ => rfl) fun _ => rfl
  cases action with
  | fail failure => exact Exec.ignores_throw failure
  | lookup scope name => exact Exec.ignores_lookup fun _ => rfl
  | operate frames operator a b => exact Exec.ignores_operate haside frames operator a b
  | truth value => exact Exec.ignores_truth value
  | read kind => cases h
  | trace level line => exact Exec.ignores_trace haside level line
  | openScope scope => exact fun _ => rfl
  | define scope name value => exact hupdate fun scopes => scopes.define scope name value
  | assign scope name value => exact hupdate fun scopes => scopes.assign scope name value
  | declare scope f => exact hupdate fun scopes => (.ok (), scopes.declare scope f)
  | checkCount count name arguments => exact Exec.ignores_checkCount count name arguments
  | depth => exact Exec.ignores_depth haside
  | demand needed => exact Exec.ignores_demand haside needed
  | reserve frames => exact Exec.ignores_reserve haside frames

namespace Exec.Offline

variable {α : Type} {x : Exec α} (h : x.Offline) (m : Machine)

include h

theorem output_eq : (x m).2.output = m.output :=
  congrArg (fun r => r.2.output) (h m.input m.output m)

theorem input_eq : (x m).2.input = m.input :=
  congrArg (fun r => r.2.input) (h m.input m.output m)

theorem withInput (text : List Char) : x (m.withInput text) = ((x m).1, (x m).2.withInput text) :=
  calc x (m.withInput text)
    _ = ((x m).1, (x m).2.withDialogue (some text) m.output) := h (some text) m.output m
    _ = ((x m).1, (x m).2.withDialogue (some text) (x m).2.output) := by rw [h.output_eq m]

end Exec.Offline

theorem Exec.offline_opening : opening.Offline := by
  intro input output m
  unfold opening
  rw [openTrace_change (Machine.isAside_withDialogue input output)]
  cases m.openTrace <;> rfl

/-- How a program ends has nothing to do with input and output. -/
theorem Exec.finish_dialogue {α : Type} (r : Except Failure α × Machine) :
    (finish r).2.output = r.2.output ∧ (finish r).2.input = r.2.input := by
  have hsame := finish_change (Machine.isAside_withDialogue r.2.input r.2.output) r.1 r.2
  exact ⟨congrArg (fun r => r.2.output) hsame, congrArg (fun r => r.2.input) hsame⟩

theorem Exec.finish_withInput {α : Type} (r : Except Failure α × Machine) (text : List Char) :
    finish (r.1, r.2.withInput text) = ((finish r).1, (finish r).2.withInput text) := by
  have haside : Machine.IsAside (·.withInput text) :=
    ⟨fun _ => rfl, fun _ _ => rfl, fun _ => rfl, fun _ _ => rfl, fun _ => rfl, fun _ _ => rfl⟩
  exact finish_change haside r.1 r.2

/-- A line is read off the input. -/
theorem Exec.readInput_line (kind : InputKind) {m : Machine} {line rest : List Char}
    (hline : '\n' ∉ line) (hinput : m.input = some (line ++ '\n' :: rest)) :
    readInput kind m = (kind.read line, m.withInput rest) := by
  have hafter : (line ++ '\n' :: rest).drop (line.length + 1) = rest := by simp
  rw [readInput_apply, hinput]
  dsimp only
  rw [Text.takeWhile_line hline, hafter]
  rfl

namespace Recorded

variable {α : Type}

theorem accounts_offline {x : Exec α} (h : x.Offline) : (event .other x).Accounts x where
  outcome _ := rfl
  sees m := ⟨⟨h.output_eq m, h.input_eq m⟩, trivial⟩
  reached _ := rfl
  replays {m _ _} _ _ _ _ := h.withInput m _

theorem accounts_print (expressions : List Node) (values : List Value) :
    (event (.print expressions values) (Exec.print values)).Accounts (Exec.print values) where
  outcome _ := rfl
  sees _ := ⟨rfl, trivial⟩
  reached _ := rfl
  replays _ _ _ _ := rfl

theorem accounts_read (kind : InputKind) :
    (event .read (Exec.readInput kind)).Accounts (Exec.readInput kind) where
  outcome _ := rfl
  sees m := by
    refine ⟨?_, trivial⟩
    show (Exec.readInput kind m).2.output = m.output ∧
      (Exec.readInput kind m).2.input = m.input.map Text.afterLine
    rw [Exec.readInput_apply]
    cases hinput : m.input with
    | none => exact ⟨rfl, hinput⟩
    | some text => exact ⟨rfl, rfl⟩
  reached _ := rfl
  replays {m lines rest} rest' hlines hinput hcount := by
    cases lines with
    | nil => simp [event, linesRead, Event.isRead] at hcount
    | cons line lines =>
      have hline := hlines line List.mem_cons_self
      rw [Text.joined_cons] at hinput ⊢
      have hread := Exec.readInput_line kind hline hinput
      have hreplay :
          Exec.readInput kind (m.withInput (line ++ '\n' :: (Text.joined lines ++ rest')))
            = (kind.read line, m.withInput (Text.joined lines ++ rest')) :=
        Exec.readInput_line kind hline rfl
      show Exec.readInput kind _
        = ((Exec.readInput kind m).1, (Exec.readInput kind m).2.withInput _)
      rw [hreplay, hread]
      rfl

theorem records_event {deed : Deed} {x : Exec α} (h : (event deed x).Accounts x)
    (hdeed : ∀ expressions values, deed ≠ .print expressions values) :
    (event deed x).Records x where
  toAccounts := h
  backs m := m.backs_nil.concat fun expressions values h => absurd h (hdeed expressions values)

theorem records_perform (action : Action α) :
    (Interpretation.recorded.perform action).Records action.exec := by
  cases action with
  | read kind => exact records_event (accounts_read kind) fun _ _ h => by cases h
  | _ => exact records_event (accounts_offline (Action.offline_exec _ rfl)) fun _ _ h => by cases h

theorem accounts_finishing {x : Recorded α} {y : Exec α} (h : x.Accounts y) (stack : Stack) :
    (finishing stack x).Accounts (fun m => Exec.restore stack (Exec.finish (y m))) where
  outcome m := congrArg (fun r => Exec.restore stack (Exec.finish r)) (h.outcome m)
  sees m := by
    refine (Machine.sees_append ..).mpr ⟨h.sees m, ?_, trivial⟩
    rw [h.reached]
    exact Exec.finish_dialogue (x m).1
  reached m := by
    show m.reached ((x m).2 ++ [_]) = _
    rw [Machine.reached_append]
    rfl
  replays {m lines rest} rest' hlines hinput hcount := by
    have hlinesRead : linesRead (finishing stack x m).2 = linesRead (x m).2 := linesRead_append _ _
    rw [hlinesRead] at hcount ⊢
    show Exec.restore stack (Exec.finish (x _).1) = _
    rw [h.replays rest' hlines hinput hcount, Exec.finish_withInput (x m).1]
    rfl

theorem records_finishing {x : Recorded α} {y : Exec α} (h : x.Records y) (stack : Stack) :
    (finishing stack x).Records (fun m => Exec.restore stack (Exec.finish (y m))) where
  toAccounts := accounts_finishing h.toAccounts stack
  backs m := (h.backs m).concat fun _ _ hdeed => by cases hdeed

theorem guarded_eq (y : Exec α) :
    Exec.guarded y = (do
      let stack ← modifyGet fun m => (m.stack, m)
      Exec.opening
      fun m => Exec.restore stack (Exec.finish (y m))) := by
  funext m
  rw [Exec.bind_of_ok (Exec.modifyGet_apply _ m)]
  unfold Exec.guarded
  cases hopen : m.openTrace with
  | error e =>
    have hopening : Exec.opening m = (.error (.fault (.file e)), m) := by
      unfold Exec.opening
      rw [hopen]
    rw [Exec.bind_of_error hopening]
  | ok m' =>
    have hopening : Exec.opening m = (.ok (), m') := by
      unfold Exec.opening
      rw [hopen]
    rw [Exec.bind_of_ok hopening]

theorem records_stack : stack.Records (modifyGet fun m => (m.stack, m)) where
  outcome _ := rfl
  sees _ := trivial
  reached _ := rfl
  replays _ _ _ _ := rfl
  backs m := m.backs_nil

theorem records_guarded {x : Recorded (Option Value)} {y : Exec (Option Value)} (h : x.Records y) :
    (Interpretation.recorded.guarded x).Records (Exec.guarded y) := by
  rw [guarded_eq]
  refine Records.bind records_stack fun stack => ?_
  refine Records.bind (records_event ?_ fun _ _ hdeed => by cases hdeed) fun _ =>
    records_finishing h stack
  exact accounts_offline Exec.offline_opening

theorem records_calling {x : Recorded (Option Value)} {y : Exec (Option Value)} (h : x.Records y) :
    (Interpretation.recorded.calling x).Records (Exec.calling y) := by
  have haside := Machine.isAside_withDialogue
  refine Records.bind (records_event (accounts_offline fun input output => ?_) fun _ _ hdeed => by
    cases hdeed) fun _ => h.bind fun returned => ?_
  · exact Exec.ignores_enterCall (haside input output)
  · refine Records.bind (records_event (accounts_offline fun input output => ?_) fun _ _ hdeed => by
      cases hdeed) fun _ => records_pure returned
    exact Exec.ignores_leaveCall (haside input output)

theorem records_resolve (scope : Scope) (name : String) :
    (Interpretation.recorded.resolve scope name).Records
      (Interpretation.direct.resolve scope name) where
  outcome _ := rfl
  sees _ := trivial
  reached _ := rfl
  replays _ _ _ _ := rfl
  backs m := m.backs_nil

end Recorded

/-- The recorded run is the run. -/
def Interpretation.recording : Correspondence Interpretation.recorded Interpretation.direct where
  related := Recorded.Records
  pure := Recorded.records_pure
  bind := Recorded.Records.bind
  perform := Recorded.records_perform
  calling := Recorded.records_calling

namespace Recorded

open Interpretation (recorded direct recording)

/-- What a statement prints is justified by the evaluation of its expressions. -/
theorem records_print {callFuel fuel : Nat} {scope : Scope} {frames : Nat} {expressions : List Node}
    (h : (Plain.values recorded (call recorded callFuel) scope frames expressions).Records
      (Plain.values direct (call direct callFuel) scope frames expressions)) :
    (execute recorded (call recorded callFuel) fuel scope frames (.print expressions)).Records
      (execute direct (call direct callFuel) fuel scope frames (.print expressions)) where
  toAccounts := h.toAccounts.bind fun values =>
    (accounts_print expressions values).bind fun _ => (records_pure none).toAccounts
  backs m := by
    rw [execute]
    rcases h.bind_cases (fun values => do recorded.print expressions values; return none) m with
      ⟨e, -, hbind⟩ | ⟨values, hvalues, hbind⟩
    · rw [hbind]
      exact h.backs m
    · rw [hbind]
      refine (h.backs m).concat fun expressions' values' hdeed => ?_
      obtain ⟨rfl, rfl⟩ := Deed.print.inj hdeed
      exact ⟨[], _, callFuel, scope, frames, rfl, Prod.ext hvalues rfl⟩

theorem callees_recording (fuel : Nat) :
    recording.Callees (call recorded fuel) (call direct fuel) := by
  induction fuel with
  | zero => exact ⟨fun _ _ _ _ => recording.perform (.fail .outOfFuel), records_print⟩
  | succ fuel ih =>
    refine ⟨fun frames name arguments scope => ?_, records_print⟩
    refine (records_resolve scope name).bind fun found => ?_
    cases found with
    | host f =>
      exact recording.callHost
        (fun frames => recording.act (ih.runSource records_guarded fuel frames) _) frames
    | declared owner f =>
      refine recording.callDeclared frames owner f f rfl (fun frames inner => ?_) name arguments
      exact ih.executeBlock fuel inner frames f.body
    | unknown => exact recording.perform (.fail (.script (.undefinedFunction name)))

end Recorded

/-! ## Runs -/

namespace Machine

open Interpretation (recorded)

theorem records_run (fuel frames : Nat) (body : List Node) :
    (Plain.run recorded fuel frames body).Records
      (Plain.run Interpretation.direct fuel frames body) :=
  Recorded.records_guarded ((Recorded.callees_recording fuel).executeProgram fuel frames body)

/-- **Input and output are used in order.** The events of a run lead from its machine to the one
that it leaves, however it ends. From any point of it to any later one, the output only gains the
records printed in between, each with its line end, and the input only loses as many lines as have
been read in between. Each record holds the values of the expressions of a statement, which have
all been evaluated, without failure, just before it is printed. What the run does not read does not
matter: with any other text after the lines that it reads, it has the same outcome and leaves the
same machine, but for that text. -/
theorem run_dialogue (fuel : Nat) (body : List Node) (m : Machine) :
    let recording := Plain.run recorded fuel m.stack.base body m
    let events := recording.2
    recording.1 = run fuel body m ∧
      m.reached events = (run fuel body m).2 ∧
      (∀ past between future, events = past ++ between ++ future →
        Text.ofLines (m.reached (past ++ between)).output
            = Text.ofLines (m.reached past).output ++ writtenBy between ∧
          (m.reached (past ++ between)).input
            = (m.reached past).input.map (Text.afterLines (linesRead between))) ∧
      (∀ past event future expressions values, events = past ++ event :: future →
        event.deed = .print expressions values →
        ∃ before during fuel scope frames, past = before ++ during ∧
          Evaluator.values (Evaluator.call fuel) scope frames expressions (m.reached before)
            = (.ok values, m.reached past) ∧
          (Plain.values recorded (call recorded fuel) scope frames expressions
            (m.reached before)).2 = during) ∧
      ∀ lines rest rest', (∀ line ∈ lines, '\n' ∉ line) →
        m.input = some (Text.joined lines ++ rest) → linesRead events = lines.length →
        (run fuel body m).2.input = some rest ∧
          run fuel body (m.withInput (Text.joined lines ++ rest'))
            = ((run fuel body m).1, (run fuel body m).2.withInput rest') := by
  intro recording events
  have hrun := records_run fuel m.stack.base body
  have houtcome := (hrun.outcome m).trans (run_direct fuel body m)
  have hreached : m.reached events = (run fuel body m).2 := by
    rw [← houtcome]
    exact hrun.reached m
  refine ⟨houtcome, hreached, ?_, ?_, ?_⟩
  · intro past between future hevents
    have hsees : m.Sees (past ++ between ++ future) := hevents ▸ hrun.sees m
    rw [sees_append, sees_append] at hsees
    rw [reached_append]
    exact hsees.1.2.dialogue
  · intro past event future expressions values hevents hdeed
    obtain ⟨before, during, fuel', scope, frames, hpast, heval⟩ := hrun.backs m hevents hdeed
    have hdirect := ((Recorded.callees_recording fuel').values scope frames expressions).outcome
      (m.reached before)
    rw [heval, call_direct, values_direct] at hdirect
    exact ⟨before, during, fuel', scope, frames, hpast, hdirect.symm, congrArg Prod.snd heval⟩
  · intro lines rest rest' hlines hinput hcount
    have hreplay := hrun.replays rest' hlines hinput (Nat.le_of_eq hcount)
    have hall : Text.joined (lines.drop (linesRead events)) = [] := by
      rw [hcount, List.drop_length]
      rfl
    refine ⟨?_, ?_⟩
    · rw [← hreached, (hrun.sees m).dialogue.2, hinput, Option.map_some,
        Text.afterLines_joined hlines (Nat.le_of_eq hcount), hall, List.nil_append]
    · have hagain := (hrun.outcome (m.withInput (Text.joined lines ++ rest'))).trans
        (run_direct fuel body (m.withInput (Text.joined lines ++ rest')))
      rw [← hagain, hreplay, houtcome, hall, List.nil_append]

/-- A program that reads while it prints, and fails after that. -/
def conversing : List Node :=
  [.function "f" [] (.block [.print [.input .text], .returning (.input .text)]),
    .print [.call "f" [], .literal (.bool true)],
    .print [.input .number]]

/-- An interpreter with three lines of input. -/
def threeLines : Machine :=
  (new {}).withInput (Text.joined ["one".toList, "two".toList, "3x".toList] ++ ['4'])

/-- The first record is printed while the second one is made up, and the third line is read by the
statement that fails. What stands after it is left as it is. -/
theorem run_dialogue_conversing :
    (∀ line ∈ ["one".toList, "two".toList, "3x".toList], '\n' ∉ line) ∧
      linesRead (Plain.run recorded 2 1 conversing threeLines).2 = 3 ∧
      (run 2 conversing threeLines).1
        = .error (.script (.unreadableNumber "3x" .float)) ∧
      (run 2 conversing threeLines).2.output = #["one", "two true"] ∧
      (run 2 conversing threeLines).2.input = some ['4'] ∧
      ∀ rest', run 2 conversing
          (threeLines.withInput (Text.joined ["one".toList, "two".toList, "3x".toList] ++ rest'))
        = ((run 2 conversing threeLines).1, (run 2 conversing threeLines).2.withInput rest') := by
  have hlines : ∀ line ∈ ["one".toList, "two".toList, "3x".toList], '\n' ∉ line := by decide
  have hcount : linesRead (Plain.run recorded 2 1 conversing threeLines).2 = 3 := by decide +kernel
  have hrun := (run_dialogue 2 conversing threeLines).2.2.2.2
    ["one".toList, "two".toList, "3x".toList] ['4']
  exact ⟨hlines, hcount, by decide +kernel, by decide +kernel, (hrun [] hlines rfl hcount).1,
    fun rest' => (hrun rest' hlines rfl hcount).2⟩

end Machine

end ScriptLang
