import ShaderGraph.Graph.Record
import ShaderGraph.Store.Manifest

/-!
# Stores of artifacts

A store keeps the artifact of each function and the manifest of each library.
-/

namespace ShaderGraph

/-- The operations of a store. -/
structure ArtifactStore (m : Type → Type) where
  /-- the artifact of a function, if there is one -/
  load : String → m (Option ArtifactRecord)
  /-- puts an artifact in the place of that of the same function -/
  save : ArtifactRecord → m Unit
  /-- the manifest of a library, an empty one if there is none -/
  loadManifest : String → m Manifest
  /-- puts a manifest in the place of that of the same library -/
  saveManifest : Manifest → m Unit

end ShaderGraph
