import ShaderGraph.Failure
import ShaderGraph.Include.Roots
import ShaderGraph.Include.Directive
import ShaderGraph.Yaml.Writer

/-!
# Projects

A project lists function libraries, says where their artifacts go and how virtual paths map to
directories, and names an editor for compiler errors. Paths are seen from the root of the project,
the directory of its configuration file.
-/

namespace ShaderGraph

/-- The external editor. -/
structure EditorSettings where
  /-- The executable, with environment variables between percent signs. -/
  path : String := "%LOCALAPPDATA%/Programs/Microsoft VS Code/Code.exe"
  /-- The arguments, with placeholders for the file, the line and the column. -/
  arguments : String := "-g \"%FILE%:%LINE%:%CHAR%\""
deriving DecidableEq, Repr, Inhabited

/-- A library source and the options that its functions are generated with. -/
structure Library where
  name : String
  /-- The source, seen from the root of the project. -/
  file : String
  updateOnFileChange : Bool := true
  updateOnIncludeChange : Bool := true
  putFunctionsInSubdirectory : Bool := false
  accurateErrors : Bool := true
  categories : List String := []
  includeFilePaths : List String := []
  additionalDefines : List Define := []
deriving DecidableEq, Repr, Inhabited

/-- A project. -/
structure Project where
  root : DiskPath
  outputDir : String := "generated"
  virtualRoots : OrderedMap String String := []
  libraries : List Library := []
  editor : EditorSettings := {}
deriving DecidableEq, Repr, Inhabited

namespace Library

/-- The options that the generated code depends on, as a text that enters every fingerprint. -/
def metadata (l : Library) : String :=
  Yaml.renderFlow (.ofFields [
    ("additional_defines", .sequence (l.additionalDefines.map fun d => .texts [d.name, d.value])),
    ("categories", .texts l.categories),
    ("include_file_paths", .texts l.includeFilePaths)])

end Library

namespace Project

/-- A path seen from the root of the project. -/
def resolve (p : Project) (path : String) : DiskPath := p.root.child path

/-- The source of a library. -/
def sourcePath (p : Project) (l : Library) : DiskPath := p.resolve l.file

/-- The directory of the manifests. -/
def manifestDirectory (p : Project) : DiskPath := p.resolve p.outputDir

/-- The directory of the artifacts of a library. -/
def outputDirectory (p : Project) (l : Library) : DiskPath :=
  if l.putFunctionsInSubdirectory then
    p.manifestDirectory.child (l.name ++ "_GeneratedFunctions")
  else p.manifestDirectory

/-- The virtual roots, their directories seen from the root of the project and that from `current`. -/
def roots (p : Project) (current : DiskPath) : Except PathError VirtualRoots :=
  p.virtualRoots.foldlM (fun rs r => VirtualRoots.add rs current r.1 (p.resolve r.2)) []

/-- The libraries with some names, in the order of the names. -/
def library? (p : Project) (name : String) : Option Library :=
  p.libraries.find? fun l => l.name = name

end Project

end ShaderGraph
