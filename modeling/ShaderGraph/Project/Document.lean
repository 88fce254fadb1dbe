import ShaderGraph.Project.Basic
import ShaderGraph.Yaml.Display

/-!
# Project configurations

A project is read from a mapping and written as one. Every option is checked, and all that is wrong
is reported, each issue with the path of its option. Options that are missing, and at the top those
that are null, have their defaults; unknown options are refused. Reading back what is written gives
the same project.
-/

namespace ShaderGraph

/-- Something wrong with an option. -/
structure Issue where
  /-- The keys and positions that lead to the option. -/
  path : List String
  message : String
deriving DecidableEq, Repr

/-- The text of an issue. -/
def Issue.text (i : Issue) : String := ".".intercalate i.path ++ ": " ++ i.message

/-- Why a configuration is no project, or not one with a library. -/
inductive ConfigError where
  | unreadable (path reason : String)
  | malformed (path problem : String)
  | noMapping (path : String)
  /-- a version that is not supported, as it shows -/
  | version (shown : Option String)
  | invalid (issues : List Issue)
  | unknownLibrary (name : String)
deriving DecidableEq, Repr

namespace ConfigError

def message : ConfigError → String
  | unreadable path reason => "Cannot read configuration " ++ path ++ ": " ++ reason
  | malformed path problem => "Invalid YAML in " ++ path ++ ": " ++ problem
  | noMapping path => "Invalid configuration " ++ path ++ ": expected a mapping"
  | version shown => "Unsupported configuration version " ++ shown.getD "" ++ ", expected 1"
  | invalid issues => "Invalid configuration: " ++ "; ".intercalate (issues.map (·.text))
  | unknownLibrary name => "Unknown library: " ++ name

def toFailure (e : ConfigError) : Failure := ⟨.configuration, e.message, none, none⟩

end ConfigError

/-- The result of a check: a value, or all that is wrong. -/
abbrev Checked (α : Type) := Except (List Issue) α

namespace Checked

/-- A result with an issue. -/
def fail {α : Type} (message : String) : Checked α := .error [⟨[], message⟩]

/-- Two checks, of which both are reported. -/
def both {α β : Type} (f : Checked (α → β)) (x : Checked α) : Checked β :=
  match f, x with
  | .ok f, .ok a => .ok (f a)
  | .ok _, .error e => .error e
  | .error e, .ok _ => .error e
  | .error e, .error e' => .error (e ++ e')

/-- A check inside of an option. -/
def within {α : Type} (key : String) (x : Checked α) : Checked α :=
  match x with
  | .ok a => .ok a
  | .error is => .error (is.map fun i => { i with path := key :: i.path })

/-- All checks of a list. -/
def all {α : Type} : List (Checked α) → Checked (List α)
  | [] => .ok []
  | x :: xs => both (both (.ok List.cons) x) (all xs)

end Checked

namespace Yaml

open Checked

/-- What stands for a number that does not show. -/
def unshown : String := "<unprintable int object>"

/-- The key of an option as it shows in the path of an issue. -/
def pathName : Yaml → String
  | text s => s
  | bool b => if b then "1" else "0"
  | v => v.showInside.getD unshown

/-- The text of bytes. -/
def textOf? (bs : List UInt8) : Option String := String.fromUTF8? ⟨bs.toArray⟩

def checkText : Yaml → Checked String
  | text s => .ok s
  | bytes bs =>
    match textOf? bs with
    | some s => .ok s
    | none => fail "Input should be a valid string, unable to parse raw data as a unicode string"
  | _ => fail "Input should be a valid string"

/-- The words that switch an option off and on, in lower case. -/
def switchWords : List (String × Bool) := [
  ("0", false), ("off", false), ("f", false), ("false", false), ("n", false), ("no", false),
  ("1", true), ("on", true), ("t", true), ("true", true), ("y", true), ("yes", true)]

def notABool {α : Type} : Checked α := fail "Input should be a valid boolean"

def notABoolText {α : Type} : Checked α :=
  fail "Input should be a valid boolean, unable to interpret input"

/-- A word as a truth value. -/
def checkSwitchWord (s : String) : Checked Bool :=
  match switchWords.find? fun w => w.1 = String.ofList (s.toList.map Char.toLower) with
  | some w => .ok w.2
  | none => notABoolText

/-- A whole number as a truth value. Numbers from `least` on that have 64 bits are words that mean
nothing, others are of a wrong type. -/
def checkSwitch (least i : Int) : Checked Bool :=
  if i = 0 then .ok false
  else if i = 1 then .ok true
  else if least ≤ i ∧ i < 9223372036854775808 then notABoolText
  else notABool

def checkBool : Yaml → Checked Bool
  | bool b => .ok b
  | text s => checkSwitchWord s
  | bytes bs =>
    match textOf? bs with
    | some s => checkSwitchWord s
    | none => notABoolText
  | int i => checkSwitch (-9223372036854775808) i
  | real x =>
    match x.toInt? with
    | some i => checkSwitch (-9223372036854775807) i
    | none => notABool
  | _ => notABool

/-- The items of a list, each checked. -/
def checkList {α : Type} (f : Yaml → Checked α) (v : Yaml) : Checked (List α) :=
  let checkItems (items : List Yaml) :=
    Checked.all (items.mapIdx fun i v => within (toString i) (f v))
  match v.unfold with
  | sequence items => checkItems items
  | setOf items => checkItems items
  | pair a b => checkItems [a, b]
  | _ => fail "Input should be a valid list"

/-- A mapping from texts to texts. -/
def checkTextMap (v : Yaml) : Checked (OrderedMap String String) :=
  match v.unfold with
  | mapping entries =>
    (Checked.all (entries.map fun (k, v) =>
      within k.pathName (both (both (.ok Prod.mk) (within "[key]" k.checkText)) v.checkText))).map
      OrderedMap.ofPairs
  | _ => fail "Input should be a valid dictionary"

/-- A define of a key and a value as they show. -/
def checkDefine (k v : Yaml) : Checked Define :=
  match k.showAlone, v.showAlone with
  | some name, some value => .ok ⟨name, value⟩
  | _, _ => fail ("Value error, Exceeds the limit (4300 digits) for integer string conversion; "
      ++ "use sys.set_int_max_str_digits() to increase the limit")

/-- The defines of a mapping, its keys and values as they show. -/
def checkDefines (v : Yaml) : Checked (List Define) :=
  match v.unfold with
  | null => .ok []
  | sequence [] => .ok []
  | mapping entries => entries.mapM fun (k, v) => checkDefine k v
  | _ => fail "Value error, additional_defines must be a mapping of name to value"

/-- The value of an option. -/
def option? (entries : List (Yaml × Yaml)) (key : String) : Option Yaml :=
  (entries.find? fun e => match e.1 with | text s => s = key | _ => false).map (·.2)

/-- An option that may be missing. -/
def field {α : Type} (entries : List (Yaml × Yaml)) (key : String) (default : α)
    (f : Yaml → Checked α) : Checked α :=
  match option? entries key with
  | some v => within key (f v)
  | none => .ok default

/-- An option that has to be there. -/
def requiredField {α : Type} (entries : List (Yaml × Yaml)) (key : String) (f : Yaml → Checked α) :
    Checked α :=
  match option? entries key with
  | some v => within key (f v)
  | none => within key (fail "Field required")

/-- The issues of options that are unknown. -/
def unknownIssues (known : List String) (entries : List (Yaml × Yaml)) : List Issue :=
  entries.filterMap fun (k, _) =>
    match k with
    | text s => if s ∈ known then none else some ⟨[s], "Extra inputs are not permitted"⟩
    | k => some ⟨[k.pathName], "Keys should be strings"⟩

/-- A result in which unknown options are issues, the last ones. -/
def refusingUnknown {α : Type} (known : List String) (entries : List (Yaml × Yaml))
    (x : Checked α) : Checked α :=
  match unknownIssues known entries with
  | [] => x
  | i :: is => both (x.map fun a _ => a) (.error (i :: is) : Checked Unit)

end Yaml

open Checked Yaml

/-- The editor of a mapping. -/
def EditorSettings.check (v : Yaml) : Checked EditorSettings :=
  match v.unfold with
  | .mapping entries =>
    let defaults : EditorSettings := {}
    refusingUnknown ["path", "arguments"] entries
      (both (both (.ok EditorSettings.mk) (field entries "path" defaults.path checkText))
        (field entries "arguments" defaults.arguments checkText))
  | _ => fail "Input should be a valid dictionary or instance of EditorSettings"

/-- The options of a library, in order. -/
def Library.optionNames : List String := ["name", "file", "update_on_file_change",
  "update_on_include_change", "put_functions_in_subdirectory", "accurate_errors", "categories",
  "include_file_paths", "additional_defines"]

/-- The library of a mapping. -/
def Library.check (v : Yaml) : Checked Library :=
  match v.unfold with
  | .mapping entries =>
    let names := both (both (.ok Library.mk) (requiredField entries "name" checkText))
      (requiredField entries "file" checkText)
    let updates := both (both names (field entries "update_on_file_change" true checkBool))
      (field entries "update_on_include_change" true checkBool)
    let code := both (both updates (field entries "put_functions_in_subdirectory" false checkBool))
      (field entries "accurate_errors" true checkBool)
    let lists := both (both code (field entries "categories" [] (checkList checkText)))
      (field entries "include_file_paths" [] (checkList checkText))
    refusingUnknown optionNames entries
      (both lists (field entries "additional_defines" [] checkDefines))
  | _ => fail "Input should be a valid dictionary or instance of LibraryConfig"

namespace Project

/-- The version of configurations. -/
def configVersion : Nat := 1

/-- Whether a value is the version of configurations. -/
def isVersion : Yaml → Bool
  | .bool b => b
  | .int i => i = configVersion
  | .real x => x.equalsNat configVersion
  | _ => false

/-- The options of a project, in order. -/
def optionNames : List String := ["output_dir", "virtual_roots", "libraries", "editor"]

/-- The project of options that are not null, seen from a root. -/
def check (root : DiskPath) (entries : List (Yaml × Yaml)) : Checked Project :=
  let places := both (both (.ok (Project.mk root)) (field entries "output_dir" "generated" checkText))
    (field entries "virtual_roots" [] checkTextMap)
  refusingUnknown ("root" :: optionNames) entries
    (both (both places (field entries "libraries" [] (checkList Library.check)))
      (field entries "editor" {} EditorSettings.check))

/-- The options of a mapping that are checked. -/
def options (entries : List (Yaml × Yaml)) : List (Yaml × Yaml) :=
  entries.filter fun (k, v) =>
    !(match k with | .text s => s = "version" | _ => false) && !(match v with | .null => true | _ => false)

/-- The project of a mapping, seen from a root. -/
def ofEntries (root : DiskPath) (entries : List (Yaml × Yaml)) : Except ConfigError Project :=
  let version := (option? entries "version").getD .null
  if isVersion version then
    match check root (options entries) with
    | .ok p => .ok p
    | .error issues => .error (.invalid issues)
  else .error (.version version.showInside)

/-- The mapping of a library. -/
def libraryToYaml (l : Library) : Yaml :=
  .ofFields [("name", .text l.name), ("file", .text l.file),
    ("update_on_file_change", .bool l.updateOnFileChange),
    ("update_on_include_change", .bool l.updateOnIncludeChange),
    ("put_functions_in_subdirectory", .bool l.putFunctionsInSubdirectory),
    ("accurate_errors", .bool l.accurateErrors), ("categories", .texts l.categories),
    ("include_file_paths", .texts l.includeFilePaths),
    ("additional_defines", .ofFields
      ((OrderedMap.ofPairs (l.additionalDefines.map fun d => (d.name, d.value))).map
        fun p => (p.1, .text p.2)))]

/-- The mapping of a project. -/
def toYaml (p : Project) : Yaml :=
  .ofFields [("version", .int configVersion), ("output_dir", .text p.outputDir),
    ("virtual_roots", .ofFields (p.virtualRoots.map fun r => (r.1, .text r.2))),
    ("libraries", .sequence (p.libraries.map libraryToYaml)),
    ("editor", .ofFields [("path", .text p.editor.path), ("arguments", .text p.editor.arguments)])]

/-- The text of a configuration file. -/
def render (p : Project) : String := Yaml.renderBlock p.toYaml

/-- The library with a name. -/
def library (p : Project) (name : String) : Except ConfigError Library :=
  match p.library? name with
  | some l => .ok l
  | none => .error (.unknownLibrary name)

end Project

end ShaderGraph
