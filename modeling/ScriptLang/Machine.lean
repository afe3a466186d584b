import ScriptLang.Config
import ScriptLang.Scope
import ScriptLang.Text.Escape

set_option autoImplicit false

/-! # The state of an interpreter

`Machine` holds all that a run can observe or change, and `Exec` is a computation on it. The
functions here are the elementary actions of a run: they trace, print, read, count calls, use the
scopes and take frames of the host's stack. -/

namespace ScriptLang

/-! ## Counting calls -/

/-- How many calls are active, and how many may be. -/
structure Calls where
  limit : Int
  depth : Int := 0
  deriving DecidableEq

namespace Calls

/-- No call is active. -/
def reset (calls : Calls) : Calls :=
  { calls with depth := 0 }

/-- One call fewer is active. -/
def leave (calls : Calls) : Calls :=
  { calls with depth := calls.depth - 1 }

/-- One more call is active, unless that exceeds the limit; then all calls are given up. -/
def enter (calls : Calls) : Except ScriptError Unit × Calls :=
  if calls.limit < calls.depth + 1 then (.error (.recursionLimit calls.limit), calls.reset)
  else (.ok (), { calls with depth := calls.depth + 1 })

end Calls

/-! ## The stack -/

/-- The stack of the host, on which programs are evaluated. -/
structure Stack where
  /-- How many frames there may be, if their number is limited. -/
  limit : Option Nat := some 1000
  /-- How many frames are in use where a program starts to run, that of the run included. -/
  base : Nat := 1
  /-- How many frames it takes to apply an operator to its operands. -/
  operation : Nat := 7
  deriving DecidableEq

namespace Stack

/-- How many frames are to be free above a call. -/
def margin : Nat := 1000

/-- Whether there may be so many frames. -/
def allows (stack : Stack) (frames : Nat) : Bool :=
  stack.limit.all fun limit => frames ≤ limit

/-- Sees to it that `margin` frames are free above those in use: a limit that is too low becomes
twice what is needed. -/
def reserve (stack : Stack) (frames : Nat) : Stack :=
  { stack with limit := stack.limit.map fun limit =>
      if limit < frames + margin then 2 * (frames + margin) else limit }

end Stack

/-! ## Functions of the host -/

/-- What a function of the host does. It can look at the number of active calls and run a program
text on the interpreter that calls it; a run that fails is a failure of the function, which does not
go on after it. -/
inductive HostAction where
  | done (result : Option Value)
  | fail (failure : Failure)
  | depth (next : Int → HostAction)
  | run (names : Text.Names) (source : String) (next : Option Value → HostAction)

/-- A function of the host; without an arity it takes any number of arguments. -/
structure HostFunction where
  name : String
  arity : Option Int
  body : List Value → HostAction
  /-- How many frames of the stack it takes. -/
  frames : Nat := 1

/-- The text of a function of the host in a listing. -/
def HostFunction.describe (f : HostFunction) : String :=
  "<builtin " ++ f.name ++ ">"

/-! ## The machine -/

/-- The file for traces. -/
structure TraceFile where
  /-- Its text, if it exists, or why it cannot be opened. -/
  content : Except FileError (Option String) := .ok none
  isOpen : Bool := false

/-- The state of an interpreter. -/
structure Machine where
  config : Config
  calls : Calls
  scopes : Scopes
  stack : Stack := {}
  /-- The functions of the host, which take precedence over declared ones. -/
  hosts : Bindings HostFunction := []
  /-- The input not yet read; a closed input is `none`. -/
  input : Option (List Char) := some []
  /-- The records printed so far, each without the line end after it. -/
  output : Array String := #[]
  /-- The lines traced to the console so far. -/
  trace : Array String := #[]
  traceFile : TraceFile := {}

/-- Lines of text, each ended by a line feed. -/
def Text.ofLines (lines : Array String) : String :=
  lines.foldl (fun text line => text ++ line ++ "\n") ""

namespace Machine

/-- A fresh interpreter. -/
def new (config : Config) : Machine where
  config := config
  calls := { limit := config.recursionLimit }
  scopes := Scopes.new (!config.allowRedefinition)

/-- Replaces the input. -/
def feed (m : Machine) (input : Option String) : Machine :=
  { m with input := input.map String.toList }

/-- Offers a function of the host to scripts. -/
def bind (m : Machine) (f : HostFunction) : Machine :=
  { m with hosts := m.hosts.insert f.name f }

/-- Whether runs trace to a file. -/
def tracesToFile (m : Machine) : Bool :=
  0 < m.config.debugLevel && m.config.debugFile.any (!·.isEmpty)

/-- One more line of the trace, in the file if it is open. -/
def traced (m : Machine) (line : String) : Machine :=
  if m.traceFile.isOpen then
    let content := m.traceFile.content.map fun text => some (text.getD "" ++ line ++ "\n")
    { m with traceFile := { m.traceFile with content } }
  else { m with trace := m.trace.push line }

/-- Opens the file for traces, if there is one; opening creates it. -/
def openTrace (m : Machine) : Except FileError Machine :=
  if m.tracesToFile then
    m.traceFile.content.map fun text =>
      { m with traceFile := ⟨.ok (some (text.getD "")), true⟩ }
  else .ok m

/-- Closes the file for traces. -/
def closeTrace (m : Machine) : Machine :=
  { m with traceFile := { m.traceFile with isOpen := false } }

/-- Gives up all active calls. -/
def resetCalls (m : Machine) : Machine :=
  { m with calls := m.calls.reset }

end Machine

/-! ## Actions -/

/-- A computation on the state of an interpreter. The state is kept when the computation fails. -/
abbrev Exec := ExceptT Failure (StateM Machine)

namespace Exec

/-- The outcome of an operation that a script can make fail. -/
def ofExcept {α : Type} : Except ScriptError α → Exec α
  | .ok a => pure a
  | .error e => throw (.script e)

/-- A line of the trace, from some level of detail on. -/
def trace (level : Nat) (line : Machine → String) : Exec Unit :=
  modify fun m => if level ≤ m.config.debugLevel then m.traced (line m) else m

/-- Prints one record: the values with spaces between them. -/
def print (values : List Value) : Exec Unit :=
  modify fun m => { m with output := m.output.push (" ".intercalate (values.map Value.display)) }

/-- Reads a line; at the end of the input it is empty. -/
def readLine : Exec (List Char) := do
  match (← get).input with
  | none => throw (.script .noInput)
  | some cs =>
    let line := cs.takeWhile (· ≠ '\n')
    modify fun m => { m with input := some (cs.drop (line.length + 1)) }
    return line

/-- Reads a value: the text of a line, or the number that it denotes. -/
def readInput (kind : InputKind) : Exec Value := do
  let text := Text.trim (← readLine)
  match kind with
  | .number =>
    match Double.read? (String.ofList text) with
    | some number => return Value.ofDouble number
    | none => throw (.script (.unreadableNumber (String.ofList text) .float))
  | .text | .other _ => return .string (String.ofList text)

/-- A new scope inside another. -/
def openScope (scope : Scope) : Exec Scope :=
  modifyGet fun m =>
    let (inner, scopes) := m.scopes.child scope
    (inner, { m with scopes })

/-- The value of a variable. -/
def lookup (scope : Scope) (name : String) : Exec Value := do
  match (← get).scopes.lookup? scope name with
  | some value => return value
  | none => throw (.script (.undefinedVariable name))

/-- Changes the scopes by an operation that a script can make fail. -/
def updateScopes (update : Scopes → Except ScriptError Unit × Scopes) : Exec Unit := do
  let result ← modifyGet fun m =>
    let (result, scopes) := update m.scopes
    (result, { m with scopes })
  ofExcept result

/-- Counts a call. -/
def enterCall : Exec Unit := do
  let (result, calls) := (← get).calls.enter
  modify fun m => { m with calls }
  ofExcept result

/-- Counts the end of a call. -/
def leaveCall : Exec Unit :=
  modify fun m => { m with calls := m.calls.leave }

/-- Fails unless there may be as many frames as are needed. -/
def demand (needed : Stack → Nat) : Exec Unit := do
  let stack := (← get).stack
  if stack.allows (needed stack) then return else throw .exhausted

/-- Reserves free frames above those in use. To count the frames takes two of them. -/
def reserve (frames : Nat) : Exec Unit := do
  demand fun _ => frames + 2
  modify fun m => { m with stack := m.stack.reserve (frames + 2) }

end Exec

end ScriptLang
