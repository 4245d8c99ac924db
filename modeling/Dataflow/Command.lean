import Dataflow.Build
import Dataflow.Failure
import Dataflow.Pipeline.Cut
import Dataflow.Schema
import Dataflow.Wire.Decode
import Dataflow.Wire.Encode

/-! # Commands

What the program can be asked to do. Every command but one reads a definition, builds it over a
registry without types and shows something of the pipeline.

* `Command.result`: what a command finds.
* `Command.Result.render`: a result as lines of text or as an envelope.
* `Command.execute`: both.
-/

namespace Dataflow

/-- What is at a path. -/
inductive FileState
  | missing
  | unreadable
  | text (content : String)

/-- The files that a run can see, by path. -/
abbrev Files := String → FileState

/-- The text of a file; the purpose is for the wording of the failure if there is none. -/
def Files.read (files : Files) (purpose : Purpose) (path : String) : Except Failure String :=
  match files path with
  | .text content => .ok content
  | _ => .error (.file purpose path)

/-- What the program can be asked to do. -/
inductive Command
  | validate (file : String)
  | edges (file : String)
  /-- Lists the nodes with producers first, and the layers. -/
  | order (file : String)
  /-- Cuts the pipeline down to what is between two selections. -/
  | filter (file : String) (start stop : List String)
  | schema
deriving DecidableEq

namespace Command

/-- The word that selects the command, which the JSON answer repeats. -/
def name : Command → String
  | .validate _ => "validate"
  | .edges _ => "edges"
  | .order _ => "order"
  | .filter .. => "filter"
  | .schema => "schema"

/-- The definition file the command reads; only the schema needs none. -/
def file? : Command → Option String
  | .validate file => some file
  | .edges file => some file
  | .order file => some file
  | .filter file _ _ => some file
  | .schema => none

/-! ## Results -/

/-- What a command finds. -/
inductive Result
  | summary (p : Pipeline)
  | edges (es : List Edge)
  | order (nodes : List Node) (layers : List (List Node))
  | cut (c : Cut)
  | schema

namespace Result

/-- The ids of the nodes, in their order. -/
def ids (nodes : List Node) : List String :=
  nodes.map (·.id)

/-- The ids on one line, separated by commas. -/
def idLine (nodes : List Node) : String :=
  ", ".intercalate (ids nodes)

/-- One line a layer, numbered from zero. -/
def layerLines (layers : List (List Node)) : List String :=
  layers.zipIdx.map fun (layer, level) => s!"layer {level}: {idLine layer}"

/-- One line for each channel whose producer was cut off, in byte order of the producers. -/
def removedLines (removed : KeyMap (List Query)) : List String :=
  removed.entries.flatMap fun (producer, queries) =>
    queries.map fun q => s!"removed producer {producer}: {q.text}"

/-- The lines the text rendering prints. -/
def lines : Result → List String
  | .summary p =>
    [s!"Pipeline '{p.id}' ({p.mode.name}) is valid: " ++
      s!"{p.nodes.length} node(s), {p.edges.length} edge(s)"]
  | .edges es => es.map Edge.text
  | .order nodes layers => s!"order: {idLine nodes}" :: layerLines layers
  | .cut c =>
    s!"nodes: {idLine c.pipeline.nodes}" ::
      (c.pipeline.edges.map fun e => s!"edge: {e.text}") ++ removedLines c.removed
  | .schema => []

/-- The ids as a JSON array. -/
def idArray (nodes : List Node) : Json :=
  .array ((ids nodes).map .string)

/-- An edge as its four names. -/
def edgeObject (e : Edge) : Json :=
  .object [
    ("producer", .string e.producer),
    ("output_key", .string e.output),
    ("consumer", .string e.consumer),
    ("input_key", .string e.input)]

/-- The value the JSON rendering puts under `data`. -/
def data : Result → Json
  | .summary p =>
    .object [
      ("pipeline_id", .string p.id),
      ("execution_mode", .string p.mode.name),
      ("nodes", idArray p.nodes),
      ("edges", .number (.natural p.edges.length.toUInt64))]
  | .edges es => .array (es.map edgeObject)
  | .order nodes layers =>
    .object [("order", idArray nodes), ("layers", .array (layers.map idArray))]
  | .cut c =>
    .object [
      ("pipeline_id", .string c.pipeline.id),
      ("nodes", idArray c.pipeline.nodes),
      ("edges", .array (c.pipeline.edges.map edgeObject)),
      ("removed_producer_channels",
        c.removed.toJson fun queries => .array (queries.map Query.toJson))]
  | .schema => Schema.document

/-- A result in the envelope of a success. -/
def envelope (result : Result) : Json :=
  .object [("status", .string "ok"), ("data", result.data)]

/-- A result as it is shown, or the failure to show it. The schema is shown as it is in either
rendering. -/
def render (r : Rendering) (result : Result) : Except Failure String :=
  match result, r with
  | .schema, _ => (Schema.document.print .pretty).mapError .output
  | result, .json => (result.envelope.print .pretty).mapError .output
  | result, .text => .ok ("\n".intercalate result.lines)

end Result

/-! ## Execution -/

/-- Reads and decodes the definition file. -/
def definition (files : Files) (path : String) : Except Failure Definition := do
  let content ← files.read .definition path
  (Definition.ofText content).mapError (.definition path)

/-- The pipeline that the definition in a file builds over a registry without types. -/
def pipeline (files : Files) (path : String) : Except Failure Pipeline := do
  let d ← definition files path
  (build .empty d).1.mapError .invalid

/-- Computes the command's result; the first step that fails is the failure reported. -/
def result (files : Files) : Command → Except Failure Result
  | .validate file => (pipeline files file).map .summary
  | .edges file => (pipeline files file).map fun p => .edges p.edges
  | .order file => do
    let p ← pipeline files file
    let nodes ← p.topologicalOrder.mapError .graph
    let layers ← p.layers.mapError .graph
    return .order nodes layers
  | .filter file start stop => do
    let p ← pipeline files file
    let c ← (p.cutById start stop).mapError .graph
    return .cut c
  | .schema => .ok .schema

/-- What a command finds, as it is shown. -/
def execute (files : Files) (r : Rendering) (c : Command) : Except Failure String :=
  (c.result files).bind (Result.render r)

end Command

end Dataflow
