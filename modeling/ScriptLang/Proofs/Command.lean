import ScriptLang.CommandLine

set_option autoImplicit false

/-! # What the command runs

The command gets to a program text and settings if its arguments and the environment are in order
(`CommandLine.Selects`), and then it does nothing but run them (`CommandLine.execute_of_selects`). A
text that cannot be parsed is reported and leaves the files as they are. -/

namespace ScriptLang

/-! ## Files that are written as they are -/

theorem Bindings.insert_of_find? {α : Type} {table : Bindings α} {name : String} {value : α}
    (h : table.find? name = some value) : table.insert name value = table := by
  induction table with
  | nil => cases h
  | cons entry rest ih =>
    obtain ⟨other, old⟩ := entry
    simp only [find?] at h
    simp only [insert]
    by_cases hother : other = name
    · simp only [hother, if_true, Option.some.injEq] at h ⊢
      rw [h]
    · simp only [hother, if_false] at h ⊢
      rw [ih h]

/-- To write what a file holds changes nothing. -/
theorem Directory.write_of_open? {files : Directory} {path content : String}
    (h : files.open? path = .ok (some content)) : files.write path content = files := by
  have hfound : files.files.find? (files.resolve path).text = some content := by
    unfold open? at h
    simp only at h
    split at h
    · cases h
    · split at h
      · split at h
        · next hfind _ => exact Except.ok.inj h
        · cases h
        · cases h
      · split at h <;> cases h
  unfold write
  rw [Bindings.insert_of_find? hfound]

namespace CommandLine

/-! ## Program texts -/

/-- Whether the options name a program text: they hold it, or they name a file with it that can be
read. -/
def Options.Names (options : Options) (files : Directory) (source : String) : Prop :=
  options.code = some source ∨
    options.code = none ∧ ∃ path text, options.program = some path ∧
      files.contains (Path.ofText path).text = true ∧
      files.read (Path.ofText path).text = .ok text ∧
      source = String.ofList (unifyLines text.toList)

/-- Whether the command gets to run a program text with some settings: the arguments can be read and
ask for no help, they and the environment give settings, and the options name the text. -/
def Selects (environment : String → Option String) (files : Directory) (arguments : List String)
    (config : Config) (source : String) : Prop :=
  ∃ options choices, parseArguments arguments = .ok options ∧ options.help = false ∧
    Config.environmentChoices environment = .ok choices ∧ options.recursionLimit ≠ some none ∧
    Config.ofOverrides (options.overrides.orElse choices) = .ok config ∧
    options.Names files source

variable {environment : String → Option String} {files : Directory} {arguments : List String}
  {config : Config} {source : String} {names : Text.Names}

theorem runOptions_of_names {options : Options} (h : options.Names files source)
    (input : Option String) :
    runOptions names config files input options = runText names config files input source := by
  unfold runOptions
  rcases h with hcode | ⟨hcode, path, text, hprogram, hcontains, hread, rfl⟩
  · simp only [hcode]
  · simp only [hcode, hprogram]
    unfold runFile
    simp only [hcontains, hread, Bool.not_true, Bool.false_eq_true, if_false]

theorem execute_of_selects (h : Selects environment files arguments config source)
    (input : Option String) :
    execute names environment files input arguments = runText names config files input source := by
  obtain ⟨options, choices, hoptions, hhelp, hchoices, hlimit, hconfig, hnames⟩ := h
  unfold execute
  simp only [hoptions, hhelp, hchoices, hlimit, hconfig, if_false, Bool.false_eq_true]
  exact runOptions_of_names hnames input

theorem roleOf_plain {argument : String} (h : argument.toList.head? ≠ some '-') :
    roleOf argument = .ok .plain := by
  unfold roleOf
  split
  · next hargument =>
    rw [hargument] at h
    exact absurd rfl h
  · rfl

/-- A program text in the arguments, unless it starts like an option. -/
theorem parseArguments_code (h : source.toList.head? ≠ some '-') :
    parseArguments ["-c", source] = .ok { code := some source } := by
  have hdashes : source ≠ "--" := by
    rintro rfl
    exact h rfl
  have hroles : rolesOf ["-c", source]
      = .ok [("-c", .option ⟨.code, false, none⟩), (source, .plain)] := by
    have hsource : rolesOf [source] = .ok [(source, .plain)] := by
      rw [rolesOf.eq_def]
      split
      · next hnil => cases hnil
      · next hcons => exact absurd (List.cons.inj hcons).1 hdashes
      · next hcons =>
        obtain ⟨rfl, rfl⟩ := List.cons.inj hcons
        rw [roleOf_plain h]
        rfl
    have hcode : roleOf "-c" = .ok (.option ⟨.code, false, none⟩) := rfl
    rw [rolesOf, hcode, hsource]
    · rfl
    · decide
  have htake : takeArguments {} true [("-c", .option ⟨.code, false, none⟩), (source, .plain)]
      = .ok { code := some source } := by
    rw [takeArguments.eq_def]
    rfl
  rw [parseArguments, hroles]
  change (takeArguments _ _ _ >>= _) = _
  rw [htake]
  rfl

/-- Without settings in the environment the text is run with the default ones. -/
theorem selects_code (h : source.toList.head? ≠ some '-') (files : Directory) :
    Selects (fun _ => none) files ["-c", source] {} source :=
  ⟨_, _, parseArguments_code h, rfl, rfl, nofun, rfl, .inl rfl⟩

/-! ## Texts that cannot be parsed -/

/-- The report on a text that cannot be parsed. -/
def refused (files : Directory) : Failure → Report
  | .script e =>
    { outcome := .ok 1, errors := errorLine e.message, files, lacksInput := e = .noInput }
  | failure => { outcome := .error failure, files }

theorem runText_of_refused {failure : Failure} (h : Program.parse names source = .error failure)
    (config : Config) (files : Directory) (input : Option String) :
    runText names config files input source = refused files failure := by
  have hrun (m : Machine) : Machine.runSource Machine.ampleFuel names source m
      = (.error failure, m) := by
    unfold Machine.runSource Evaluator.runText
    rw [h]
    rfl
  have hprinted : Text.ofLines ((Machine.new config).feed input).output = "" := rfl
  have htraced : Text.ofLines ((Machine.new config).feed input).trace = "" := rfl
  unfold runText
  simp only [hrun, hprinted, htraced]
  -- what is left is that the file for traces is written as it was found, if there is one
  cases failure
  all_goals
    simp only [refused, String.empty_append, Report.mk.injEq, true_and, and_true]
    split
    · next path content hpath hopen =>
      rw [hpath] at hopen
      exact Directory.write_of_open? hopen
    · rfl

end CommandLine

end ScriptLang
