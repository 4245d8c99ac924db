/-! # Execution modes

How a pipeline runs: as one ordered pass, or with nodes that trigger each other again.
-/

namespace Dataflow

/-- How a pipeline runs. -/
inductive Mode
  | sync
  /-- Nodes run again when their inputs change, so feedback is allowed. -/
  | async
deriving DecidableEq

instance : Inhabited Mode := ⟨.sync⟩

/-- The spelling in the documents. -/
def Mode.name : Mode → String
  | .sync => "SYNC"
  | .async => "ASYNC"

/-- Every mode, in the order the messages list them. -/
def Mode.all : List Mode := [.sync, .async]

end Dataflow
