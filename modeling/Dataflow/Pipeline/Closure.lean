import Dataflow.Pipeline

/-! # Closures in a pipeline

* `Pipeline.dependencyClosure`: some nodes and everything they depend on.
* `Pipeline.dependentClosure`: some nodes and everything that depends on them.
-/

namespace Dataflow.Pipeline

/-- The first id that is no node of the pipeline is an error. -/
def checkKnown (p : Pipeline) (ids : List String) : Except Diagnostic Unit :=
  match ids.find? fun id => !p.contains id with
  | some id => .error (.unknownNode id)
  | none => .ok ()

/-- The nodes with one of the ids, in the order of the pipeline. -/
def nodesAmong (p : Pipeline) (ids : List String) : List Node :=
  p.nodes.filter fun n => ids.contains n.id

/-- The nodes that steps from some ids lead to, in order of declaration. -/
def closed (p : Pipeline) (step : String → List Node) (ids : List String) : List Node :=
  p.nodesAmong ((idClosure? (fun id => (step id).map (·.id)) p.nodes.length ids).getD [])

/-- Some nodes and everything they depend on, in order of declaration. -/
def dependencyClosure (p : Pipeline) (ids : List String) : Except Diagnostic (List Node) :=
  (p.checkKnown ids).map fun _ => p.closed p.producers ids

/-- Some nodes and everything that depends on them, in order of declaration. -/
def dependentClosure (p : Pipeline) (ids : List String) : Except Diagnostic (List Node) :=
  (p.checkKnown ids).map fun _ => p.closed p.consumers ids

end Dataflow.Pipeline
