import ScriptLang.CommandLine.Arguments
import ScriptLang.Directory
import ScriptLang.Evaluator

set_option autoImplicit false

/-! # The command line

`CommandLine.execute` is the whole command as a function: from the arguments, the environment, the
files and the input to what is written and how the command ends. What names characters have in
programs is given, too. -/

namespace ScriptLang.CommandLine

/-! ## Texts -/

/-- How the command is used. -/
def usage : String :=
  "usage: ptbr [-h] [-v] [--recursion-limit N] [--strict] [--debug-file PATH]\n" ++
  "            [-c CODE]\n" ++
  "            [program]\n"

/-- The answer to a call for help. -/
def help : String :=
  usage ++
  "\n" ++
  "ptbr language interpreter\n" ++
  "\n" ++
  "positional arguments:\n" ++
  "  program              ptbr program file (.ptbr) to execute\n" ++
  "\n" ++
  "options:\n" ++
  "  -h, --help           show this help message and exit\n" ++
  "  -v                   increase debug verbosity (can be repeated)\n" ++
  "  --recursion-limit N  maximum nesting depth of function calls\n" ++
  "  --strict             reject same-scope variable redefinition\n" ++
  "  --debug-file PATH    write debug traces to PATH\n" ++
  "  -c CODE              program text to execute\n"

/-! ## Reports -/

/-- What the command has done. -/
structure Report where
  /-- The exit status, or the fault that ended the command. -/
  outcome : Except Failure Nat
  output : String := ""
  errors : String := ""
  files : Directory
  /-- Whether the program asked for input and found it closed. -/
  lacksInput : Bool := false

/-- The report on a wrong use of the command. -/
def misuse (files : Directory) (message : String) : Report where
  outcome := .ok 2
  errors := usage ++ "ptbr: error: " ++ message ++ "\n"
  files := files

/-- The line for an error. -/
def errorLine (message : String) : String :=
  "Error: " ++ message ++ "\n"

/-! ## Running -/

/-- The text of a file with every line end made a line feed. -/
def unifyLines : List Char → List Char
  | '\r' :: '\n' :: rest => '\n' :: unifyLines rest
  | '\r' :: rest => '\n' :: unifyLines rest
  | c :: rest => c :: unifyLines rest
  | [] => []

/-- The settings that the options choose. -/
def Options.overrides (options : Options) : Overrides where
  recursionLimit := options.recursionLimit.join
  allowRedefinition := if options.strict then some false else none
  debugLevel := options.verbosity.map fun n => (n : Int)
  debugFile := options.debugFile

/-- Runs a program text with some settings. -/
def runText (names : Text.Names) (config : Config) (files : Directory) (input : Option String)
    (source : String) : Report :=
  let traceFile : TraceFile :=
    { content := (config.debugFile.map files.open?).getD (.ok none) }
  let start := { (Machine.new config).feed input with traceFile }
  let (result, m) := Machine.runSource Machine.ampleFuel names source start
  let output := Text.ofLines m.output
  let trace := Text.ofLines m.trace
  let files :=
    match config.debugFile, m.traceFile.content with
    | some path, .ok (some content) => files.write path content
    | _, _ => files
  match result with
  | .ok _ => { outcome := .ok 0, output, errors := trace, files }
  | .error (.script e) =>
    { outcome := .ok 1, output, errors := trace ++ errorLine e.message, files
      lacksInput := e = .noInput }
  | .error failure => { outcome := .error failure, output, errors := trace, files }

/-- Runs the program file with some settings. -/
def runFile (names : Text.Names) (config : Config) (files : Directory) (input : Option String)
    (path : String) : Report :=
  let path := (Path.ofText path).text
  if !files.contains path then
    { outcome := .ok 1, files, errors := errorLine ("file " ++ path ++ " not found") }
  else
    match files.read path with
    | .error e => { outcome := .error (.fault (.file e)), files }
    | .ok text => runText names config files input (String.ofList (unifyLines text.toList))

/-- Runs what the options ask for with some settings. -/
def runOptions (names : Text.Names) (config : Config) (files : Directory) (input : Option String)
    (options : Options) : Report :=
  match options.code, options.program with
  | some code, _ => runText names config files input code
  | none, some path => runFile names config files input path
  | none, none => misuse files UsageError.nothingToRun.message

/-- Executes the command. The environment must be readable before a limit of calls can be missed. -/
def execute (names : Text.Names) (environment : String → Option String) (files : Directory)
    (input : Option String) (arguments : List String) : Report :=
  match parseArguments arguments with
  | .error e => misuse files e.message
  | .ok options =>
    if options.help then { outcome := .ok 0, output := help, files }
    else
      match Config.environmentChoices environment with
      | .error e => misuse files e.message
      | .ok choices =>
        if options.recursionLimit = some none then
          { outcome := .error (.fault .missingLimit), files }
        else
          match Config.ofOverrides (options.overrides.orElse choices) with
          | .error e => misuse files e.message
          | .ok config => runOptions names config files input options

end ScriptLang.CommandLine
