import ScriptLang.Number.Decimal
import ScriptLang.Text.Quoted

set_option autoImplicit false

/-! # Command line arguments

The arguments of the command line are options and at most one program file. Long options can be
abbreviated and take a value after `=`; short options can be written together, the last of them with
its value; after `--` nothing is an option. An argument that starts with a dash is an option, unless
it looks like a negative number or holds a space and is no known option. -/

namespace ScriptLang.CommandLine

/-! ## Options -/

/-- The options. -/
inductive Flag where
  | help
  | verbose
  | recursionLimit
  | strict
  | debugFile
  | code
  deriving DecidableEq

namespace Flag

/-- The spellings of the options. -/
def spellings : List (String × Flag) :=
  [("-h", help), ("--help", help), ("-v", verbose), ("--recursion-limit", recursionLimit),
    ("--strict", strict), ("--debug-file", debugFile), ("-c", code)]

/-- The option with a given spelling. -/
def ofSpelling? (spelling : String) : Option Flag :=
  spellings.lookup spelling

/-- The name of an option in messages. -/
def name (flag : Flag) : String :=
  "/".intercalate ((spellings.filter fun (_, other) => other = flag).map Prod.fst)

/-- Whether the option takes a value. -/
def takesValue : Flag → Bool
  | recursionLimit | debugFile | code => true
  | help | verbose | strict => false

end Flag

/-- What is wrong with the arguments. -/
inductive UsageError where
  | ambiguous (argument : String) (matching : List String)
  | missingValue (flag : Flag)
  | ignoredValue (flag : Flag) (value : String)
  | notAnInteger (flag : Flag) (value : String)
  /-- Two arguments exclude each other. -/
  | conflict (name other : String)
  | nothingToRun
  | unrecognized (arguments : List String)
  deriving DecidableEq

/-- The text of an error in the arguments. -/
def UsageError.message : UsageError → String
  | ambiguous argument matching =>
    "ambiguous option: " ++ argument ++ " could match " ++ ", ".intercalate matching
  | missingValue flag => "argument " ++ flag.name ++ ": expected one argument"
  | ignoredValue flag value =>
    "argument " ++ flag.name ++ ": ignored explicit argument " ++ Text.quote value
  | notAnInteger flag value =>
    "argument " ++ flag.name ++ ": invalid int value: " ++ Text.quote value
  | conflict name other => "argument " ++ name ++ ": not allowed with argument " ++ other
  | nothingToRun => "one of the arguments -c program is required"
  | unrecognized arguments => "unrecognized arguments: " ++ " ".intercalate arguments

/-! ## The roles of the arguments -/

/-- An argument that is an option, as far as it shows by itself. -/
structure Use where
  flag : Flag
  /-- Whether it is a long option. -/
  isLong : Bool
  /-- The value in the same argument, or more short options. -/
  value : Option String

/-- The roles of arguments. -/
inductive Role where
  | option (use : Use)
  | unknownOption
  /-- The two dashes that end the options. -/
  | dashes
  | plain

/-- The text before the first `=`, and the text after it if there is one. -/
def splitAssignment (argument : String) : String × Option String :=
  let cs := argument.toList
  match cs.dropWhile (· ≠ '=') with
  | [] => (argument, none)
  | _ :: value => (String.ofList (cs.takeWhile (· ≠ '=')), some (String.ofList value))

/-- The text without the line feed at its end, if it has one. -/
def chompLine (cs : List Char) : List Char :=
  if cs.getLast? = some '\n' then cs.dropLast else cs

/-- Whether an argument looks like a negative number, with or without a line feed at its end. -/
def looksNegative (argument : String) : Bool :=
  match chompLine argument.toList with
  | '-' :: cs =>
    let whole := cs.takeWhile Text.isDigit
    match cs.dropWhile Text.isDigit with
    | [] => !whole.isEmpty
    | '.' :: fraction => !fraction.isEmpty && fraction.all Text.isDigit
    | _ => false
  | _ => false

/-- The ways to read an argument as a long option that may be abbreviated. -/
def longUses (argument : String) : List (String × Use) :=
  let (start, value) := splitAssignment argument
  Flag.spellings.filterMap fun (spelling, flag) =>
    if start.toList.isPrefixOf spelling.toList then some (spelling, ⟨flag, true, value⟩) else none

/-- The ways to read an argument as a short option with a value or more short options after it. -/
def shortUses (argument : String) : List (String × Use) :=
  let cs := argument.toList
  Flag.spellings.filterMap fun (spelling, flag) =>
    if spelling.toList = cs.take 2 then
      some (spelling, ⟨flag, false, some (String.ofList (cs.drop 2))⟩)
    else none

/-- The role of an argument before the two dashes. -/
def roleOf (argument : String) : Except UsageError Role :=
  match argument.toList with
  | '-' :: second :: _ =>
    let isLong := second = '-'
    match Flag.ofSpelling? argument, splitAssignment argument with
    | some flag, _ => .ok (.option ⟨flag, isLong, none⟩)
    | none, (spelling, value) =>
      match value, Flag.ofSpelling? spelling with
      | some value, some flag => .ok (.option ⟨flag, isLong, some value⟩)
      | _, _ =>
        match if isLong then longUses argument else shortUses argument with
        | [(_, use)] => .ok (.option use)
        | [] =>
          if looksNegative argument || argument.toList.contains ' ' then .ok .plain
          else .ok .unknownOption
        | uses => .error (.ambiguous argument (uses.map Prod.fst))
  | _ => .ok .plain

/-- The roles of all arguments. -/
def rolesOf : List String → Except UsageError (List (String × Role))
  | [] => .ok []
  | "--" :: rest => .ok (("--", .dashes) :: rest.map fun argument => (argument, .plain))
  | argument :: rest => do
    let role ← roleOf argument
    return (argument, role) :: (← rolesOf rest)

/-! ## Taking the options -/

/-- What the arguments ask for. -/
structure Options where
  help : Bool := false
  verbosity : Option Nat := none
  /-- The limit of calls; `some none` if the option stands without a value. -/
  recursionLimit : Option (Option Int) := none
  strict : Bool := false
  debugFile : Option String := none
  code : Option String := none
  program : Option String := none
  /-- The arguments that have no place. -/
  extra : List String := []

namespace Options

/-- Takes an option and its value. A file or a program text without a value is empty. Once help is
asked for, no other option counts. -/
def take (options : Options) (flag : Flag) (value : Option String) : Except UsageError Options :=
  if options.help then .ok options
  else
    match flag with
    | .help => .ok { options with help := true }
    | .verbose => .ok { options with verbosity := some (options.verbosity.getD 0 + 1) }
    | .recursionLimit =>
      match value, value.bind Integer.read? with
      | some text, none => .error (.notAnInteger flag text)
      | _, limit => .ok { options with recursionLimit := some limit }
    | .strict => .ok { options with strict := true }
    | .debugFile => .ok { options with debugFile := some (value.getD "") }
    | .code =>
      if options.program.isSome then .error (.conflict "-c" "program")
      else .ok { options with code := some (value.getD "") }

/-- Takes the program file. -/
def takeProgram (options : Options) (program : String) : Except UsageError Options :=
  if options.code.isSome then .error (.conflict "program" "-c")
  else .ok { options with program := some program }

/-- Leaves arguments that have no place. -/
def leave (options : Options) (arguments : List String) : Options :=
  { options with extra := options.extra ++ arguments }

end Options

/-- The options in one argument. -/
structure Cluster where
  /-- The options with their values, in order. -/
  taken : List (Flag × Option String) := []
  /-- The last option if it still needs a value. -/
  waiting : Option Flag := none

/-- The value that stands in the same argument as its option. Two dashes end the options even there,
so they are no value. -/
def ownValue (text : String) : Option String :=
  if text = "--" then none else some text

/-- The short options written together after a first one that takes no value. -/
def cluster (flag : Flag) (taken : List (Flag × Option String)) :
    List Char → Except UsageError Cluster
  | [] => .ok { taken := taken ++ [(flag, none)] }
  | c :: rest =>
    let taken := taken ++ [(flag, none)]
    match Flag.ofSpelling? (String.ofList ['-', c]) with
    | none => .error (.ignoredValue flag (String.ofList (c :: rest)))
    | some next =>
      if !next.takesValue then cluster next taken rest
      else if rest.isEmpty then .ok { taken, waiting := some next }
      else .ok { taken := taken ++ [(next, ownValue (String.ofList rest))] }

/-- The options in an argument. -/
def Use.cluster (use : Use) : Except UsageError Cluster :=
  match use.value with
  | none =>
    if use.flag.takesValue then .ok { waiting := some use.flag }
    else .ok { taken := [(use.flag, none)] }
  | some value =>
    if use.flag.takesValue then .ok { taken := [(use.flag, ownValue value)] }
    else if use.isLong || value.isEmpty then .error (.ignoredValue use.flag value)
    else CommandLine.cluster use.flag [] value.toList

/-- Whether an option is among the arguments. -/
def hasOption (arguments : List (String × Role)) : Bool :=
  arguments.any fun
    | (_, .option _) | (_, .unknownOption) => true
    | _ => false

/-- Takes several options in order. -/
def takeAll (options : Options) : List (Flag × Option String) → Except UsageError Options
  | [] => .ok options
  | (flag, value) :: rest => do takeAll (← options.take flag value) rest

/-- Takes the arguments after the last option: two dashes and the program file, in either order. -/
def takeLast (options : Options) (isOpen : Bool) (arguments : List (String × Role)) :
    Except UsageError Options :=
  if !isOpen then .ok (options.leave (arguments.map Prod.fst))
  else
    match arguments with
    | (_, .dashes) :: (program, _) :: rest =>
      return (← options.takeProgram program).leave (rest.map Prod.fst)
    | [(_, .dashes)] => .ok options
    | (program, _) :: (_, .dashes) :: rest =>
      return (← options.takeProgram program).leave (rest.map Prod.fst)
    | (program, _) :: rest => return (← options.takeProgram program).leave (rest.map Prod.fst)
    | [] => .ok options

/-- Takes all arguments in order, up to one that asks for help. `isOpen` says that no program file
is given yet. -/
def takeArguments (options : Options) (isOpen : Bool) :
    List (String × Role) → Except UsageError Options
  | [] => takeLast options isOpen []
  | (_, .option use) :: rest => do
    let cluster ← use.cluster
    match cluster.waiting with
    | none =>
      let options ← takeAll options cluster.taken
      if options.help then return options else takeArguments options isOpen rest
    | some flag =>
      match rest with
      | (value, .plain) :: rest =>
        let options ← takeAll options (cluster.taken ++ [(flag, some value)])
        if options.help then return options else takeArguments options isOpen rest
      | _ => .error (.missingValue flag)
  | (argument, .unknownOption) :: rest => takeArguments (options.leave [argument]) isOpen rest
  | (argument, role) :: rest =>
    if !hasOption rest then takeLast options isOpen ((argument, role) :: rest)
    else if isOpen then do takeArguments (← options.takeProgram argument) false rest
    else takeArguments (options.leave [argument]) isOpen rest

/-- The options that the arguments give. Something must be given to run, and every argument must
have a place. -/
def parseArguments (arguments : List String) : Except UsageError Options := do
  let options ← takeArguments {} true (← rolesOf arguments)
  if options.help then return options
  else if options.code.isNone && options.program.isNone then .error .nothingToRun
  else if !options.extra.isEmpty then .error (.unrecognized options.extra)
  else return options

end ScriptLang.CommandLine
