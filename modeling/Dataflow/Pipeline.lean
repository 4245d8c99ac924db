import Dataflow.Digraph
import Dataflow.Edge

/-! # Pipelines

A pipeline is a definition whose queries are resolved: nodes in order of declaration and the edges
between them.

* `Pipeline.node?`, `Pipeline.position?`: look-up by id.
* `Pipeline.producers`, `Pipeline.consumers`: the neighbours of a node.
* `dependencyGraph`: edges as arcs between positions.
* `Pipeline.same`: equality as the deployment settings allow it.
-/

namespace Dataflow

/-- The graph of the edges between known nodes, on positions. The last node with an id owns it. -/
def dependencyGraph (nodes : List Node) (edges : List Edge) : Digraph :=
  Digraph.ofArcs nodes.length <| edges.filterMap fun e =>
    match Node.position? e.producer nodes, Node.position? e.consumer nodes with
    | some p, some c => some (p, c)
    | _, _ => none

/-- A resolved pipeline. -/
structure Pipeline where
  id : String
  mode : Mode
  instances : List Context.Instance
  parameters : List Parameter
  nodes : List Node
  edges : List Edge
  deployment : KeyMap FreeJson

namespace Pipeline

/-- The contexts of a pipeline. -/
def contexts (p : Pipeline) : List Context :=
  p.instances.map (·.value)

/-- The position of the node that an id belongs to. -/
def position? (p : Pipeline) (id : String) : Option Nat :=
  Node.position? id p.nodes

/-- Whether some node has an id. -/
def contains (p : Pipeline) (id : String) : Bool :=
  (p.position? id).isSome

/-- The node that an id belongs to. -/
def node? (p : Pipeline) (id : String) : Option Node :=
  (p.position? id).bind fun i => p.nodes[i]?

/-- The parameter with a name; the first one if a name is repeated. -/
def parameter? (p : Pipeline) (name : String) : Option Parameter :=
  p.parameters.find? fun q => q.name = name

/-- The deployment settings of a node. -/
def settings? (p : Pipeline) (id : String) : Option FreeJson :=
  p.deployment.get? id

/-- The edges that lead to a node. -/
def edgesInto (p : Pipeline) (id : String) : List Edge :=
  p.edges.filter fun e => e.consumer = id

/-- The edges that come from a node. -/
def edgesFrom (p : Pipeline) (id : String) : List Edge :=
  p.edges.filter fun e => e.producer = id

/-- The nodes at some positions, each once and in order of declaration. -/
def nodesAt (p : Pipeline) (positions : List Nat) : List Node :=
  (collapse (sorted (· ≤ ·) positions)).filterMap fun i => p.nodes[i]?

/-- The producers of a node, each once and in order of declaration. -/
def producers (p : Pipeline) (id : String) : List Node :=
  p.nodesAt ((p.edgesInto id).filterMap fun e => p.position? e.producer)

/-- The consumers of a node, each once and in order of declaration. -/
def consumers (p : Pipeline) (id : String) : List Node :=
  p.nodesAt ((p.edgesFrom id).filterMap fun e => p.position? e.consumer)

/-- The graph of the edges of a pipeline. -/
def graph (p : Pipeline) : Digraph :=
  dependencyGraph p.nodes p.edges

/-- Whether two pipelines are equal. Contexts are compared by what they are and not by instance, and
so are numbers in deployment settings. -/
def same (p q : Pipeline) : Bool :=
  p.id = q.id && p.mode = q.mode && p.contexts = q.contexts && p.parameters = q.parameters &&
    p.nodes.map Node.content = q.nodes.map Node.content && p.edges = q.edges &&
    Json.sameMembers (p.deployment.entries.map fun (id, s) => (id, s.tree))
      (q.deployment.entries.map fun (id, s) => (id, s.tree))

end Pipeline

end Dataflow
