import ScriptLang.Number.Decimal
import ScriptLang.Text.Quoted

set_option autoImplicit false

/-! # Settings

The settings of an interpreter come from three places: explicit choices win over environment
variables, and these over defaults. -/

namespace ScriptLang

/-- What is wrong with settings. -/
inductive ConfigError where
  | negative (setting : String) (value : Int)
  | notAnInteger (key : String) (text : String)
  deriving DecidableEq

/-- The text of an error in the settings. -/
def ConfigError.message : ConfigError → String
  | negative setting value => setting ++ " must be >= 0, got " ++ toString value
  | notAnInteger key text => key ++ " must be an integer, got " ++ Text.quote text

/-- The settings of an interpreter. -/
structure Config where
  /-- How many calls of declared functions may be active at once. -/
  recursionLimit : Nat := 64
  /-- Whether a name can be defined again in the same scope. -/
  allowRedefinition : Bool := true
  /-- How much is traced, from nothing (0) to everything (3 and above). -/
  debugLevel : Nat := 0
  /-- Where traces go, if not to the console. -/
  debugFile : Option String := none
  deriving DecidableEq

/-- Settings that are chosen explicitly; the others are left open. -/
structure Overrides where
  recursionLimit : Option Int := none
  allowRedefinition : Option Bool := none
  debugLevel : Option Int := none
  debugFile : Option String := none

/-- The choices, and where they leave a setting open, those of `others`. -/
def Overrides.orElse (overrides others : Overrides) : Overrides where
  recursionLimit := overrides.recursionLimit.or others.recursionLimit
  allowRedefinition := overrides.allowRedefinition.or others.allowRedefinition
  debugLevel := overrides.debugLevel.or others.debugLevel
  debugFile := overrides.debugFile.or others.debugFile

namespace Config

/-- Settings from numbers that may be out of range. -/
def make (recursionLimit : Int) (allowRedefinition : Bool) (debugLevel : Int)
    (debugFile : Option String) : Except ConfigError Config :=
  if recursionLimit < 0 then .error (.negative "recursion_limit" recursionLimit)
  else if debugLevel < 0 then .error (.negative "debug_level" debugLevel)
  else .ok ⟨recursionLimit.toNat, allowRedefinition, debugLevel.toNat, debugFile⟩

/-- The default settings with explicit choices. -/
def ofOverrides (overrides : Overrides) : Except ConfigError Config :=
  let default : Config := {}
  make (overrides.recursionLimit.getD default.recursionLimit)
    (overrides.allowRedefinition.getD default.allowRedefinition)
    (overrides.debugLevel.getD default.debugLevel) overrides.debugFile

/-! ## Environment variables -/

/-- The text of an environment variable, unless it is blank. -/
def given? (environment : String → Option String) (key : String) : Option String :=
  (environment key).filter fun text => !(Text.trim text.toList).isEmpty

/-- The integer in an environment variable. -/
def integerFrom (environment : String → Option String) (key : String) (default : Int) :
    Except ConfigError Int :=
  match given? environment key with
  | none => .ok default
  | some text =>
    match Integer.read? text with
    | none => .error (.notAnInteger key text)
    | some n => .ok n

/-- The words for an environment variable that is switched on, in any case. -/
def onWords : List String := ["1", "true", "yes", "on"]

/-- Whether an environment variable is switched on. -/
def flagFrom (environment : String → Option String) (key : String) : Bool :=
  match given? environment key with
  | none => false
  | some text => onWords.contains (String.ofList ((Text.trim text.toList).map Char.toLower))

/-- What environment variables choose. -/
def environmentChoices (environment : String → Option String) : Except ConfigError Overrides := do
  let default : Config := {}
  return {
    recursionLimit :=
      some (← integerFrom environment "PTBR_RECURSION_LIMIT" default.recursionLimit)
    allowRedefinition := some (!flagFrom environment "PTBR_STRICT_DEFINITIONS")
    debugLevel := some (← integerFrom environment "PTBR_DEBUG" default.debugLevel) }

/-- The settings from environment variables and explicit choices. A number in a variable must be
readable even where a choice replaces it. -/
def ofEnvironment (environment : String → Option String) (overrides : Overrides) :
    Except ConfigError Config := do
  ofOverrides (overrides.orElse (← environmentChoices environment))

end Config

end ScriptLang
