import ShaderGraph.OrderedMap
import ShaderGraph.Path.Text

/-!
# Virtual roots

Shaders are included by virtual paths. A virtual root stands for one directory of the disk, and the
longest root that a virtual path lies under decides where its file is. In the other direction the
deepest directory that a file lies under decides, and of equal directories the first root.
-/

namespace ShaderGraph

open Text

/-- The directories of the virtual roots, in the order in which the roots were first given. -/
abbrev VirtualRoots := OrderedMap String DiskPath

namespace VirtualRoots

/-- The spelling of a virtual root: one leading slash at least, and none at its end. -/
def normalRoot (root : String) : String :=
  let rooted := if beginsWith root "/" then root else "/" ++ root
  let bare := PathText.dropTrailingSlashes rooted
  if bare.isEmpty then "/" else bare

/-- The roots with one more, whose directory is seen from `current`. -/
def add (roots : VirtualRoots) (current : DiskPath) (root : String) (directory : DiskPath) :
    Except PathError VirtualRoots :=
  (current.resolve directory).map (OrderedMap.insert roots (normalRoot root))

/-- What a virtual path adds to a root that it lies under. -/
def below? (root path : String) : Option String :=
  if path = root then some ""
  else if beginsWith path (PathText.dropTrailingSlashes root ++ "/") then
    some (PathText.dropLeadingSlashes (String.ofList (path.toList.drop root.length)))
  else none

/-- The longer root of two, the first of equals. -/
def longer (best : Option (String × DiskPath × String)) (next : String × DiskPath × String) :
    Option (String × DiskPath × String) :=
  match best with
  | none => some next
  | some b => if b.1.length < next.1.length then some next else best

/-- The file of a virtual path, if it lies under a root. -/
def toDisk? (roots : VirtualRoots) (path : String) : Option DiskPath :=
  let found := roots.filterMap fun r => (below? r.1 path).map fun rest => (r.1, r.2, rest)
  (found.foldl longer none).map fun b => b.2.1.child b.2.2

/-- The deeper directory of two, the first of equals. -/
def deeper (best : Option (String × DiskPath)) (next : String × DiskPath) :
    Option (String × DiskPath) :=
  match best with
  | none => some next
  | some b => if b.2.depth < next.2.depth then some next else best

/-- The virtual path of a resolved file, if its directory lies under a root. -/
def virtualOf? (roots : VirtualRoots) (file : DiskPath) : Option String :=
  ((roots.filter fun r => file.isWithin r.2).foldl deeper none).map fun b =>
    let rest := file.names.drop b.2.names.length
    if rest = [] then b.1 else PathText.join b.1 ("/".intercalate rest)

/-- The virtual path of a file seen from `current`, if its directory lies under a root. -/
def toVirtual? (roots : VirtualRoots) (current file : DiskPath) : Except PathError (Option String) :=
  (current.resolve file).map roots.virtualOf?

end VirtualRoots

end ShaderGraph
