import ShaderGraph.Command.Arguments
import ShaderGraph.Path.Basic

/-!
# Commands

A command makes a configuration, generates or watches the libraries of a project, shows the functions
of a source, or remaps compiler messages. Options have short names and defaults; what is missing or
left over is an error.
-/

namespace ShaderGraph

/-- A command. -/
inductive Command where
  /-- makes a configuration with one library -/
  | init (config library file outputDir : String) (force : Bool)
  /-- generates the libraries with some names, or all of them -/
  | generate (config : String) (libraries : Option (List String))
  | watch (config : String) (interval : Binary64)
  | inspect (source : String) (accurateErrors : Bool)
  /-- remaps the messages of a file, or those that are typed in -/
  | remapErrors (config : String) (logFile : Option String) (openFirst : Bool)
deriving Repr

/-- What a command line asks for. -/
inductive Request where
  | help
  | run (c : Command)
deriving Repr

namespace Command

/-- The configuration of a project, unless another one is named. -/
def defaultConfig : String := "hlsl2mat.yaml"

def configRule : OptionRule := ⟨"--config", some 'c', true⟩

def helpRule : OptionRule := ⟨"--help", none, false⟩

/-- The options before the command. -/
def groupRules : List OptionRule := [⟨"--verbose", some 'v', false⟩, helpRule]

/-- The options of each command. -/
def rules : List (String × List OptionRule) := [
  ("init", [configRule, ⟨"--library", some 'l', true⟩, ⟨"--file", some 'f', true⟩,
    ⟨"--output-dir", some 'o', true⟩, ⟨"--force", none, false⟩, helpRule]),
  ("generate", [configRule, ⟨"--library", some 'l', true⟩, helpRule]),
  ("watch", [configRule, ⟨"--interval", none, true⟩, helpRule]),
  ("inspect", [⟨"--accurate-errors", none, false⟩, ⟨"--no-accurate-errors", none, false⟩, helpRule]),
  ("remap-errors", [configRule, ⟨"--open", none, false⟩, helpRule])]

/-- The path that the value of a parameter is. -/
def pathOf (parameter value : String) : Except UsageError String :=
  if (DiskPath.ofString value).isUsable then .ok value else .error (.unusablePath parameter)

/-- The configuration that some arguments name. -/
def configOf (a : Arguments) : Except UsageError String :=
  pathOf "--config" ((a.value? "--config").getD defaultConfig)

/-- The value of an option that has to be given. -/
def required (a : Arguments) (name : String) : Except UsageError String :=
  match a.value? name with
  | some v => .ok v
  | none => .error (.missingOption name)

/-- A command without operands. -/
def noOperands (a : Arguments) (c : Command) : Except UsageError Command :=
  match a.operands with
  | [] => .ok c
  | o :: _ => .error (.extraOperand o)

/-- Whether the option for line numbers is the last one given, or none is. -/
def accurateErrorsOf (a : Arguments) : Bool :=
  match (a.options.filter fun o => o.1 ∈ ["--accurate-errors", "--no-accurate-errors"]).getLast? with
  | some o => o.1 = "--accurate-errors"
  | none => true

/-- The seconds between two ticks. -/
def intervalOf (a : Arguments) : Except UsageError Binary64 :=
  match a.value? "--interval" with
  | none => .ok (.ofDecimal false 1 (-1))
  | some v =>
    match Binary64.ofText? v with
    | some x => .ok x
    | none => .error (.noNumber "--interval" v)

/-- The command of a name with its arguments. -/
def ofArguments (name : String) (a : Arguments) : Except UsageError Command :=
  match name with
  | "init" => do
    let library ← required a "--library"
    let file ← required a "--file"
    noOperands a (.init (← configOf a) library file ((a.value? "--output-dir").getD "generated")
      (a.has "--force"))
  | "generate" => do
    let names := a.values "--library"
    noOperands a (.generate (← configOf a) (if names.isEmpty then none else some names))
  | "watch" => do noOperands a (.watch (← configOf a) (← intervalOf a))
  | "inspect" =>
    match a.operands with
    | [] => .error (.missingOperand "SOURCE")
    | [source] => (pathOf "SOURCE" source).map (.inspect · (accurateErrorsOf a))
    | _ :: o :: _ => .error (.extraOperand o)
  | _ => do
    let config ← configOf a
    match a.operands with
    | [] => return .remapErrors config none (a.has "--open")
    | [file] => return .remapErrors config (some (← pathOf "LOG_FILE" file)) (a.has "--open")
    | _ :: o :: _ => .error (.extraOperand o)

/-- What the words of a command line ask for. -/
def parse (words : List String) : Except UsageError Request := do
  let (a, rest) ← Arguments.read groupRules false {} words
  if a.has "--help" then return .help
  match rest with
  | [] => .error .missingCommand
  | name :: rest =>
    match rules.find? fun r => r.1 = name with
    | none => .error (.unknownCommand name)
    | some (_, options) =>
      let (a, _) ← Arguments.read options true {} rest
      if a.has "--help" then return .help
      return .run (← ofArguments name a)

/-- How commands are written. -/
def usage : List String := [
  "Usage: hlsl2mat [--verbose] COMMAND [OPTIONS]",
  "",
  "Commands:",
  "  init --library NAME --file PATH [--config PATH] [--output-dir DIR] [--force]",
  "  generate [--config PATH] [--library NAME]...",
  "  watch [--config PATH] [--interval SECONDS]",
  "  inspect SOURCE [--accurate-errors | --no-accurate-errors]",
  "  remap-errors [LOG_FILE] [--config PATH] [--open]"]

end Command

end ShaderGraph
