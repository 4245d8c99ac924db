import Dataflow.Pipeline

/-! # Orders of a pipeline

* `Pipeline.topologicalOrder`: the nodes with producers first, ties in order of declaration.
* `Pipeline.layers`: the nodes by the length of the longest path to them.
* `Pipeline.checkSorted`: whether the order of declaration puts producers first.
-/

namespace Dataflow.Pipeline

/-- The nodes at some positions, in the order of these. -/
def nodesInOrder (p : Pipeline) (positions : List Nat) : List Node :=
  positions.filterMap fun i => p.nodes[i]?

/-- Whether some path of edges leads back to its start. -/
def hasCycles (p : Pipeline) : Bool :=
  p.graph.hasCycles

/-- The diagnostic of the nodes that no order reaches. -/
def stuck (nodes : List Node) : Diagnostic :=
  let ids := ", ".intercalate (nodes.map (·.id))
  .unorderable s!"nodes {ids} are part of or behind a cycle"

/-- The positions of the nodes with producers first, or the diagnostic of a cycle. -/
def positionOrder (p : Pipeline) : Except Diagnostic (List Nat) :=
  let (order, last) := p.graph.drain p.nodes.length p.graph.counts
  if order.length = p.nodes.length then .ok order
  else .error (stuck (p.nodesInOrder last.stuck))

/-- The nodes with producers first, ties in order of declaration. -/
def topologicalOrder (p : Pipeline) : Except Diagnostic (List Node) :=
  p.positionOrder.map p.nodesInOrder

/-! ## Layers -/

/-- Layers as far as nodes have been put into them, and the layer of every position. -/
structure Leveling where
  levels : List Nat
  layers : List (List Node)

namespace Leveling

/-- Puts a node into a layer; there are empty layers up to it if need be. -/
def push (layers : List (List Node)) (level : Nat) (n : Node) : List (List Node) :=
  (layers ++ List.replicate (level + 1 - layers.length) []).modify level (· ++ [n])

/-- The layer after the last one that a producer of a node is in, or the first one. -/
def level (p : Pipeline) (s : Leveling) (n : Node) : Nat :=
  let producers := (p.producers n.id).filterMap fun m => p.position? m.id
  producers.foldl (fun level i => max level (s.levels[i]?.getD 0 + 1)) 0

/-- Puts a node into its layer. -/
def put (p : Pipeline) (s : Leveling) (n : Node) : Leveling where
  levels := (p.position? n.id).elim s.levels fun i => s.levels.set i (s.level p n)
  layers := push s.layers (s.level p n) n

end Leveling

/-- The nodes by the length of the longest path of edges to them, each layer in topological
order. -/
def layers (p : Pipeline) : Except Diagnostic (List (List Node)) :=
  p.topologicalOrder.map fun order =>
    (order.foldl (Leveling.put p) ⟨p.nodes.map fun _ => 0, []⟩).layers

/-! ## Order of declaration -/

/-- Whether the producer of an edge is declared before the consumer. -/
def declaredInOrder (p : Pipeline) (e : Edge) : Bool :=
  match p.position? e.producer, p.position? e.consumer with
  | some i, some j => i < j
  | none, some _ => true
  | _, none => false

/-- The diagnostic of the first edge whose consumer is not declared after its producer. -/
def checkSorted (p : Pipeline) : Except Diagnostic Unit :=
  match p.edges.find? fun e => !p.declaredInOrder e with
  | some e => .error (.notSorted e.consumer e.producer)
  | none => .ok ()

/-- Whether the order of declaration puts producers first. -/
def isSorted (p : Pipeline) : Bool :=
  match p.checkSorted with
  | .ok _ => true
  | .error _ => false

end Dataflow.Pipeline
