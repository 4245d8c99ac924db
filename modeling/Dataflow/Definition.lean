import Dataflow.ArtifactType
import Dataflow.Json
import Dataflow.Parameter
import Dataflow.Query

/-! # Pipeline definitions

A definition declares a pipeline: its nodes in order, with their outputs and with the queries that
feed their inputs. Nothing is resolved yet.

* `NodeDeclaration`: a declared node; `NodeDeclaration.channels` lists its queries.
* `Definition`: a declared pipeline.
-/

namespace Dataflow

/-- A declared node. -/
structure NodeDeclaration where
  id : String
  contexts : List Context
  outputs : KeyMap ArtifactType
  inputs : KeyMap (List Query)
deriving DecidableEq

/-- The pairs of input key and query, in ascending order of keys and in order under each key. -/
def channelsOf (inputs : KeyMap (List Query)) : List (String × Query) :=
  inputs.entries.flatMap fun (key, queries) => queries.map fun q => (key, q)

/-- Declares an output of a node: whether its key was free, and the outputs afterwards. -/
def declareOutput (node : String) (outputs : KeyMap ArtifactType) (key : String)
    (t : ArtifactType) : Except Diagnostic Unit × KeyMap ArtifactType :=
  if outputs.contains key then (.error (.repeatedOutput node key), outputs)
  else (.ok (), outputs.insert key t)

/-- Appends a query to the channels of the input under `key`. -/
def addQuery (inputs : KeyMap (List Query)) (key : String) (q : Query) : KeyMap (List Query) :=
  inputs.insert key ((inputs.get? key).getD [] ++ [q])

namespace NodeDeclaration

/-- A node with no contexts, outputs or inputs yet. -/
def ofId (id : String) : NodeDeclaration := ⟨id, [], .empty, .empty⟩

/-- Appends a context to the node's own. -/
def addContext (n : NodeDeclaration) (c : Context) : NodeDeclaration :=
  { n with contexts := n.contexts ++ [c] }

/-- Declares an output: whether its key was free, and the node afterwards. -/
def addOutput (n : NodeDeclaration) (key : String) (t : ArtifactType) :
    Except Diagnostic Unit × NodeDeclaration :=
  let (outcome, outputs) := declareOutput n.id n.outputs key t
  (outcome, { n with outputs := outputs })

/-- Adds one channel to the input under `key`; an input may have several. -/
def addInput (n : NodeDeclaration) (key : String) (q : Query) : NodeDeclaration :=
  { n with inputs := addQuery n.inputs key q }

/-- The input channels, each with its key: keys in byte order, the channels of a key as declared. -/
def channels (n : NodeDeclaration) : List (String × Query) :=
  channelsOf n.inputs

end NodeDeclaration

/-- A declared pipeline. -/
structure Definition where
  id : String
  mode : Mode
  contexts : List Context
  parameters : List Parameter
  nodes : List NodeDeclaration
  /-- Settings for deployment by node id, which are carried along. -/
  deployment : KeyMap FreeJson

namespace Definition

/-- A definition with no nodes, contexts or parameters yet. -/
def ofId (id : String) (mode : Mode) : Definition := ⟨id, mode, [], [], [], .empty⟩

/-- Appends a context that every node is to carry. -/
def addContext (d : Definition) (c : Context) : Definition :=
  { d with contexts := d.contexts ++ [c] }

/-- Appends a runtime parameter. -/
def addParameter (d : Definition) (p : Parameter) : Definition :=
  { d with parameters := d.parameters ++ [p] }

/-- Appends a node; diagnostics and edges follow the order of declaration. -/
def addNode (d : Definition) (n : NodeDeclaration) : Definition :=
  { d with nodes := d.nodes ++ [n] }

/-- Sets the deployment entry of `node`, which need not be a node of the definition. -/
def configure (d : Definition) (node : String) (settings : FreeJson) : Definition :=
  { d with deployment := d.deployment.insert node settings }

end Definition

end Dataflow
