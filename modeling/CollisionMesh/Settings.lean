import CollisionMesh.Mesh.Pass
import CollisionMesh.Run

namespace CollisionMesh

/-!
# Settings

What the processing of a document can be told: the tolerances, what becomes of a
key in a run without keys, where the output goes, and what becomes of a group that
cannot be simplified.
-/

/-- What becomes of a group that cannot be simplified. -/
inductive FailurePolicy where
  /-- Its lines are kept as they are. -/
  | passThrough
  /-- Its lines are left out. -/
  | drop
deriving DecidableEq, Repr

/-- All settings of the processing of a document. -/
structure Settings where
  tolerances : Tolerances Float
  keyPolicy : KeyPolicy
  /-- What is appended to the path of the input to get the path of the output. -/
  outputSuffix : String
  failurePolicy : FailurePolicy

/-- The settings where nothing else is said. -/
def Settings.standard : Settings where
  tolerances := Tolerances.standard
  keyPolicy := .lenient
  outputSuffix := ".new"
  failurePolicy := .passThrough

end CollisionMesh
