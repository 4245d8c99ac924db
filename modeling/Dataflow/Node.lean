import Dataflow.Definition

/-! # Nodes

A node of a pipeline: like a declared node, but with the instances of the contexts it really
carries, each once, and with the artifact types its outputs are bound to.

* `Node.content`: what two nodes have to share to be equal.
* `Node.offers`: whether a node has the contexts and the output that a query asks for.
* `Node.satisfies`: whether it also has the id that the query names.
* `Node.position?`: where an id stands in a list of nodes.
-/

namespace Dataflow

/-- A node of a pipeline. -/
structure Node where
  id : String
  instances : List Context.Instance
  outputs : KeyMap ArtifactType
  inputs : KeyMap (List Query)
deriving DecidableEq

namespace Node

/-- A node with nothing but an id. -/
def ofId (id : String) : Node := ⟨id, [], .empty, .empty⟩

/-- The contexts that a node carries. -/
def contexts (n : Node) : List Context :=
  n.instances.map (·.value)

/-- What a node is, whichever instances of its contexts it refers to. -/
def content (n : Node) : NodeDeclaration :=
  ⟨n.id, n.contexts, n.outputs, n.inputs⟩

/-- Attaches a context, unless the node carries an equal one. -/
def addContext (n : Node) (c : Context.Instance) : Node :=
  if n.contexts.contains c.value then n else { n with instances := n.instances ++ [c] }

/-- Declares an output: whether its key was free, and the node afterwards. -/
def addOutput (n : Node) (key : String) (t : ArtifactType) : Except Diagnostic Unit × Node :=
  let (outcome, outputs) := declareOutput n.id n.outputs key t
  (outcome, { n with outputs := outputs })

/-- Adds one channel to the input under `key`. -/
def addInput (n : Node) (key : String) (q : Query) : Node :=
  { n with inputs := addQuery n.inputs key q }

/-- The input channels, each with its key, in the order edges are drawn in. -/
def channels (n : Node) : List (String × Query) :=
  channelsOf n.inputs

/-- Whether the node has every context that a query asks for. -/
def carries (n : Node) (asked : List Context) : Bool :=
  Context.covers n.contexts asked

/-- Whether a node has an output with a key and the name of its type. -/
def hasOutput (n : Node) (key typeName : String) : Bool :=
  match n.outputs.get? key with
  | some t => t.name = typeName
  | none => false

/-- Whether a node has the contexts and the output that a query asks for. -/
def offers (n : Node) (q : Query) : Bool :=
  n.carries q.contexts && n.hasOutput q.output q.type

/-- Whether a node has everything a query asks for, the id included. -/
def satisfies (n : Node) (q : Query) : Bool :=
  q.producer.all (fun id => n.id = id) && n.offers q

/-- The position of the last node with this id: a later duplicate shadows an earlier one. -/
def position? (id : String) : List Node → Option Nat
  | [] => none
  | n :: rest =>
    match position? id rest with
    | some i => some (i + 1)
    | none => if n.id = id then some 0 else none

end Node

end Dataflow
