import ScriptLang.Proofs.Traces
import Mathlib.Control.Monad.Basic

set_option autoImplicit false

/-! # How much is traced

A run that traces in more detail does what it does in less detail: it gives the same result and
leaves the same machine, up to the lines that are traced. The lines of the less detailed trace stand
in the other one, in the same order (`Machine.run_atLevel`). -/

namespace ScriptLang

open Exec Evaluator

namespace Traces

/-- The traces, at another level of detail and with more lines on the console. -/
def extended (t : Traces) (level : Nat) (lines : List String) : Traces :=
  { t with level, lines := t.lines ++ lines.toArray }

/-- Whether the traces go to the console: there is no file for them, and none is open. -/
structure ToConsole (t : Traces) : Prop where
  path : t.path.any (!·.isEmpty) = false
  file : t.file.isOpen = false

variable {t : Traces} {level : Nat} {lines : List String}

/-- The console gets the line if it is detailed enough. -/
theorem extended_noted (h : t.ToConsole) (detail : Nat) (line : String) :
    (t.extended level lines).noted detail line
      = t.extended level (if detail ≤ level then lines ++ [line] else lines) := by
  have hlevel : (t.extended level lines).level = level := rfl
  have hfile : (t.extended level lines).file = t.file := rfl
  unfold noted
  rw [hlevel, hfile, h.file]
  by_cases hdetail : detail ≤ level
  · simp [hdetail, extended]
  · simp [hdetail]

theorem extended_opened (h : t.ToConsole) :
    (t.extended level lines).opened = .ok (t.extended level lines) := by
  have hfile : (t.extended level lines).toFile = false := by
    have hpath : (t.extended level lines).path = t.path := rfl
    rw [toFile, hpath, h.path, Bool.and_false]
  rw [opened, hfile]
  rfl

theorem extended_closed (h : t.ToConsole) :
    (t.extended level lines).closed = t.extended level lines := by
  obtain ⟨_, _, _, content, isOpen⟩ := t
  obtain rfl : isOpen = false := h.file
  rfl

end Traces

/-- Both runs trace to the console, from the same start on. The lines of the first one, which traces
no more than the second, are some of those of the second. -/
def TraceRelation.detail {start : Traces} (hstart : start.ToConsole) {less more : Nat}
    (hle : less ≤ more) : TraceRelation where
  holds t₁ t₂ := ∃ lines₁ lines₂, t₁ = start.extended less lines₁ ∧
    t₂ = start.extended more lines₂ ∧ lines₁.Sublist lines₂
  noted := by
    rintro _ _ detail line ⟨lines₁, lines₂, rfl, rfl, hlines⟩
    refine ⟨_, _, Traces.extended_noted hstart detail line,
      Traces.extended_noted hstart detail line, ?_⟩
    by_cases hless : detail ≤ less
    · rw [if_pos hless, if_pos (Nat.le_trans hless hle)]
      exact hlines.append (.refl [line])
    · rw [if_neg hless]
      split
      · exact hlines.trans (List.sublist_append_left ..)
      · exact hlines
  opened := by
    rintro _ _ ⟨lines₁, lines₂, rfl, rfl, hlines⟩
    exact .inr ⟨_, _, Traces.extended_opened hstart, Traces.extended_opened hstart, lines₁, lines₂,
      rfl, rfl, hlines⟩
  closed := by
    rintro _ _ ⟨lines₁, lines₂, rfl, rfl, hlines⟩
    exact ⟨lines₁, lines₂, Traces.extended_closed hstart, Traces.extended_closed hstart, hlines⟩

namespace Machine

/-- The interpreter with another level of detail in its traces. -/
def atLevel (m : Machine) (level : Nat) : Machine :=
  { m with config := { m.config with debugLevel := level } }

theorem traces_atLevel (m : Machine) (level : Nat) :
    (m.atLevel level).traces = m.traces.extended level [] := by
  simp [traces, atLevel, Traces.extended]

/-- **Tracing never changes a run.** Two runs that trace to the console, one in no more detail than
the other, have the same result, and the machines that they leave differ in nothing but the level of
detail and the traced lines. The lines that the less detailed run adds are some of those that the
other one adds, in the same order.

A line of the trace takes no frames of the stack here. So this is about hosts that have some frames
left for it where a program nests deepest; one that lacks just these may end a run at a line that is
traced in one of the runs only. -/
theorem run_atLevel {m : Machine} (console : m.traces.ToConsole) {less more : Nat}
    (hle : less ≤ more) (fuel : Nat) (body : List Node) :
    (run fuel body (m.atLevel more)).1 = (run fuel body (m.atLevel less)).1 ∧
    (∃ trace, (run fuel body (m.atLevel more)).2
      = { (run fuel body (m.atLevel less)).2.atLevel more with trace }) ∧
    ∃ lines₁ lines₂ : List String,
      (run fuel body (m.atLevel less)).2.trace = m.trace ++ lines₁.toArray ∧
      (run fuel body (m.atLevel more)).2.trace = m.trace ++ lines₂.toArray ∧
      lines₁.Sublist lines₂ := by
  let R := TraceRelation.detail console hle
  have hstart : R.InStep (m.atLevel less) (m.atLevel more) := by
    refine ⟨_, (withTraces_traces (m.atLevel more)).symm, [], [], ?_, ?_, .refl []⟩
    · exact traces_atLevel m less
    · exact traces_atLevel m more
  have hruns := R.simulation.ends_runProbed (Or.inl (Eq.refl fuel)) rfl
    (fun hxy => by
      rw [guarded_reporting, guarded_reporting]
      exact TraceRelation.pairs_guarded hxy) body hstart rfl
  rw [runProbed_nothing] at hruns
  obtain ⟨hresult, t, hmachine, lines₁, lines₂, hless, rfl, hlines⟩ :=
    TraceRelation.of_ends hruns
  refine ⟨hresult.symm, ⟨m.trace ++ lines₂.toArray, ?_⟩, lines₁, lines₂,
    congrArg Traces.lines hless, ?_, hlines⟩
  · rw [hmachine]
    -- where traces go is the same in both runs, and the file for them was never used
    have hpath := congrArg Traces.path hless
    have hfile := congrArg Traces.file hless
    generalize (run fuel body (m.atLevel less)).2 = after at hpath hfile
    obtain ⟨config, _, _, _, _, _, _, _, _⟩ := after
    obtain ⟨_, _, _, _⟩ := config
    cases hpath
    cases hfile
    rfl
  · rw [hmachine]
    rfl

/-- An interpreter with a line of input. -/
def oneLine : Machine :=
  (new {}).feed (some "one\n")

/-- A program that calls a function that prints what it reads, defines a variable and then fails. -/
def eventful : List Node :=
  [.function "f" ["a"]
      (.block [.conditional (.reference "a") (.block [.print [.input .text]]) none]),
    .callStatement "f" [.literal (.bool true)], .definition "x" (.literal (.integer 1)),
    .print [.reference "y"]]

/-- What is traced of the call alone is also traced in full detail, and after the error the rest of
the machine is the same. -/
theorem run_atLevel_eventful :
    oneLine.traces.ToConsole ∧ (1 : Nat) ≤ 3 ∧
      (run 2 eventful (oneLine.atLevel 1)).2.trace
        = #["call f('true',) depth=1", "return f -> Value(kind='Void', data=None)"] ∧
      (run 2 eventful (oneLine.atLevel 3)).2.trace
        = #["define function f(a)", "call f('true',) depth=1", "if condition -> True",
          "return f -> Value(kind='Void', data=None)",
          "define x = Value(kind='Integer', data=1)"] ∧
      (run 2 eventful (oneLine.atLevel 1)).1 = .error (.script (.undefinedVariable "y")) ∧
      (run 2 eventful (oneLine.atLevel 3)).1 = (run 2 eventful (oneLine.atLevel 1)).1 ∧
      (∃ trace, (run 2 eventful (oneLine.atLevel 3)).2
        = { (run 2 eventful (oneLine.atLevel 1)).2.atLevel 3 with trace }) ∧
      (run 2 eventful (oneLine.atLevel 3)).2.output = #["one"] := by
  have console : oneLine.traces.ToConsole := ⟨rfl, rfl⟩
  have hruns := run_atLevel console (by decide : 1 ≤ 3) 2 eventful
  exact ⟨console, by decide, by decide +kernel, by decide +kernel, by decide +kernel, hruns.1,
    hruns.2.1, by decide +kernel⟩

end Machine

end ScriptLang
