import ShaderGraph.Binary64.Read
import ShaderGraph.Text.Search

/-!
# Arguments of commands

The first word that is no option names the command, and what follows it are its options and operands
in any order, up to a word `--`, after which all are operands. A short option is a letter after one
hyphen, and letters of options may be written together; a long one is a word after two hyphens, with
its value after an equals sign or in the next word. Of an option that is given again the last value
counts.
-/

namespace ShaderGraph

/-- Why a command line is no command. -/
inductive UsageError where
  | unknownOption (name : String)
  | missingValue (name : String)
  | unexpectedValue (name : String)
  | missingCommand
  | unknownCommand (name : String)
  | missingOption (name : String)
  | missingOperand (name : String)
  | extraOperand (operand : String)
  | noNumber (option value : String)
  | unusablePath (parameter : String)
deriving DecidableEq, Repr

namespace UsageError

def message : UsageError → String
  | unknownOption name => "No such option: " ++ name
  | missingValue name => "Option " ++ name ++ " requires an argument."
  | unexpectedValue name => "Option " ++ name ++ " does not take a value."
  | missingCommand => "Missing command."
  | unknownCommand name => "No such command '" ++ name ++ "'."
  | missingOption name => "Missing option '" ++ name ++ "'."
  | missingOperand name => "Missing argument '" ++ name ++ "'."
  | extraOperand operand => "Got unexpected extra argument (" ++ operand ++ ")"
  | unusablePath parameter => "Invalid value for '" ++ parameter ++ "': no file has this name."
  | noNumber option value => "Invalid value for '" ++ option ++ "': '" ++ value ++ "' is not a valid float."

end UsageError

/-- An option of a command. -/
structure OptionRule where
  long : String
  short : Option Char := none
  takesValue : Bool := false
deriving Repr

/-- Options that are given, with their values, and operands, both in order. -/
structure Arguments where
  options : List (String × String) := []
  operands : List String := []
deriving Repr

namespace Arguments

/-- An option is given. -/
def withOption (a : Arguments) (name value : String) : Arguments :=
  { a with options := a.options ++ [(name, value)] }

/-- The values of an option, in order. -/
def values (a : Arguments) (name : String) : List String :=
  (a.options.filter fun o => o.1 = name).map (·.2)

/-- The value of an option that counts. -/
def value? (a : Arguments) (name : String) : Option String := (a.values name).getLast?

def has (a : Arguments) (name : String) : Bool := a.options.any fun o => o.1 = name

/-- The name of an option before an equals sign, and the value after it, if there is one. -/
def splitValue (word : String) : String × Option String :=
  match Text.cut? "=" word with
  | some (name, value) => (name, some value)
  | none => (word, none)

/-- What a word of letters after one hyphen says: options without a value, and perhaps one with a
value, which is the rest of the word if there is one. -/
inductive Letters where
  | complete (names : List String)
  | withValue (names : List String) (name : String) (value : Option String)

/-- An option without a value before others. -/
def Letters.cons (name : String) : Letters → Letters
  | complete names => complete (name :: names)
  | withValue names last value => withValue (name :: names) last value

/-- The options of letters. -/
def letters (rules : List OptionRule) : List Char → Except UsageError Letters
  | [] => .ok (.complete [])
  | c :: cs =>
    match rules.find? fun r => r.short = some c with
    | none => .error (.unknownOption ("-" ++ c.toString))
    | some r =>
      if r.takesValue then
        .ok (.withValue [] r.long (if cs.isEmpty then none else some (String.ofList cs)))
      else (letters rules cs).map (.cons r.long)

/-- What one word says: options without a value, one that has its value in the word or expects it in
the next one, or an operand. -/
def word (rules : List OptionRule) (w : String) : Except UsageError (Option Letters) :=
  match w.toList with
  | '-' :: c :: cs =>
    let (name, value) := splitValue w
    match rules.find? fun r => r.long = name with
    | some r =>
      if r.takesValue then .ok (some (.withValue [] r.long value))
      else if value.isSome then .error (.unexpectedValue name)
      else .ok (some (.complete [r.long]))
    | none =>
      if c = '-' then .error (.unknownOption name) else (letters rules (c :: cs)).map some
  | _ => .ok none

/-- Options without a value are given. -/
def withFlags (a : Arguments) (names : List String) : Arguments :=
  names.foldl (fun a name => a.withOption name "") a

/-- The arguments that words spell, after those that have been read. Unless operands may stand
before options, the first operand and all words after it are left over. -/
def read (rules : List OptionRule) (mixed : Bool) (a : Arguments) :
    List String → Except UsageError (Arguments × List String)
  | [] => .ok (a, [])
  | w :: ws =>
    if w = "--" then
      if mixed then .ok ({ a with operands := a.operands ++ ws }, []) else .ok (a, ws)
    else
      match word rules w with
      | .error e => .error e
      | .ok none =>
        if mixed then read rules mixed { a with operands := a.operands ++ [w] } ws
        else .ok (a, w :: ws)
      | .ok (some (.complete names)) => read rules mixed (a.withFlags names) ws
      | .ok (some (.withValue names name (some value))) =>
        read rules mixed ((a.withFlags names).withOption name value) ws
      | .ok (some (.withValue names name none)) =>
        match ws with
        | [] => .error (.missingValue name)
        | value :: ws => read rules mixed ((a.withFlags names).withOption name value) ws

end Arguments

end ShaderGraph
