import ShaderGraph.Include.Directive
import ShaderGraph.Json.Basic

/-!
# Reports of updates

A report lists what an update of a library did to each function, and the includes of the source. An
update that could not start on the functions has an error instead.
-/

namespace ShaderGraph

/-- What an update of a library did. -/
structure UpdateReport where
  library : String
  /-- the functions that were generated -/
  updated : List String := []
  /-- the functions that were up to date -/
  skipped : List String := []
  /-- the functions with an invalid signature, and what is wrong with it -/
  failed : OrderedMap String String := []
  /-- the functions that are no longer in the source, as the manifest lists them -/
  removed : List Json := []
  includes : List Include := []
  /-- what is wrong with the whole source -/
  error : Option String := none
deriving Inhabited

/-- Whether nothing went wrong. -/
def UpdateReport.isOk (r : UpdateReport) : Bool := r.error.isNone && r.failed.isEmpty

end ShaderGraph
