import Dataflow.KeyMap
import Dataflow.Value

/-! # Artifact types

A type of artifact has a name and a schema: the properties its artifacts may have, each with the
kind of its values.
-/

namespace Dataflow

/-- Property names with the kinds of their values. -/
abbrev Schema := KeyMap Kind

/-- A named schema. -/
structure ArtifactType where
  name : String
  schema : Schema
deriving DecidableEq

end Dataflow
