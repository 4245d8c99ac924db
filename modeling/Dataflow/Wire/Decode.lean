import Dataflow.Definition
import Dataflow.Json.Record

/-! # Definitions from JSON

Readers for every record of a definition. Each record may be an object or a list of its fields.
Optional fields take their defaults; a producer or a parameter's default may also be `null`. The
keys of a node's outputs must differ, while in every other map the last of equal keys stays.

* `Definition.read` and its parts.
* `Definition.ofText`: the definition that a document holds.
-/

namespace Dataflow

open Json Json.Reader Json.Record

/-! ## Values and contexts -/

/-- Reads a kind by its name. -/
def Kind.read : Nat → List Char → Step Kind :=
  unitTag (Kind.all.map fun k => (k.name, k))

/-- Reads a mode by its name. -/
def Mode.read : Nat → List Char → Step Mode :=
  unitTag (Mode.all.map fun m => (m.name, m))

/-- Reads a value under the tag of its kind. -/
def Value.read : Nat → List Char → Step Value :=
  valueTag [
    ("int_value", fun _ cs => (int64 cs).andThen fun n rest => .ok (.int n, rest)),
    ("string_value", fun _ cs => (Reader.text cs).andThen fun s rest => .ok (.string s, rest)),
    ("double_value", fun _ cs => (binary64 cs).andThen fun x rest => .ok (.double x, rest))]

/-- Reads a string as a field's value; nesting does not concern it. -/
def readText (_ : Nat) (cs : List Char) : Step String :=
  Reader.text cs

/-- A context being read. -/
structure Context.Draft where
  type : Option String := none
  name : Option Value := none

/-- The format of a context. -/
def Context.record : Record Context.Draft Context where
  name := "Context"
  fields := [
    .of "type" true (·.type) (fun d s => { d with type := some s }) readText,
    .of "name" true (·.name) (fun d v => { d with name := some v }) Value.read]
  blank := {}
  finish d := do
    let type ← need "type" d.type
    let name ← need "name" d.name
    return ⟨type, name⟩

/-- Reads a context. -/
def Context.read : Nat → List Char → Step Context :=
  Context.record.read

/-! ## Artifact types -/

/-- An artifact type being read. -/
structure ArtifactType.Draft where
  name : Option String := none
  schema : Option Schema := none

/-- The format of an artifact type. -/
def ArtifactType.record : Record ArtifactType.Draft ArtifactType where
  name := "ArtifactType"
  fields := [
    .of "name" true (·.name) (fun d s => { d with name := some s }) readText,
    .of "properties" false (·.schema) (fun d m => { d with schema := some m }) (mapOf Kind.read)]
  blank := {}
  finish d := do
    let name ← need "name" d.name
    return ⟨name, d.schema.getD .empty⟩

/-- Reads an artifact type. -/
def ArtifactType.read : Nat → List Char → Step ArtifactType :=
  ArtifactType.record.read

/-! ## Queries and parameters -/

/-- A query being read. -/
structure Query.Draft where
  producer : Option (Option String) := none
  contexts : Option (List Context) := none
  type : Option String := none
  output : Option String := none

/-- The format of a channel query. -/
def Query.record : Record Query.Draft Query where
  name := "ChannelQuery"
  fields := [
    .of "producer_node_id" false (·.producer) (fun d p => { d with producer := some p })
      (fun depth => optional (readText depth)),
    .of "context_queries" false (·.contexts) (fun d cs => { d with contexts := some cs })
      (listOf Context.read),
    .of "artifact_type" true (·.type) (fun d s => { d with type := some s }) readText,
    .of "output_key" true (·.output) (fun d s => { d with output := some s }) readText]
  blank := {}
  finish d := do
    let type ← need "artifact_type" d.type
    let output ← need "output_key" d.output
    return ⟨d.producer.getD none, d.contexts.getD [], type, output⟩

/-- Reads a channel query. -/
def Query.read : Nat → List Char → Step Query :=
  Query.record.read

/-- A parameter being read. -/
structure Parameter.Draft where
  name : Option String := none
  kind : Option Kind := none
  default : Option (Option Value) := none

/-- The format of a runtime parameter. -/
def Parameter.record : Record Parameter.Draft Parameter where
  name := "RuntimeParameter"
  fields := [
    .of "name" true (·.name) (fun d s => { d with name := some s }) readText,
    .of "kind" true (·.kind) (fun d k => { d with kind := some k }) Kind.read,
    .of "default" false (·.default) (fun d v => { d with default := some v })
      (fun depth => optional (Value.read depth))]
  blank := {}
  finish d := do
    let name ← need "name" d.name
    let kind ← need "kind" d.kind
    return ⟨name, kind, d.default.getD none⟩

/-- Reads a runtime parameter. -/
def Parameter.read : Nat → List Char → Step Parameter :=
  Parameter.record.read

/-! ## Nodes -/

/-- Reads a node's outputs. A key that is given again is a fault, found when its second artifact
type has been read. -/
def readOutputs : Nat → List Char → Step (KeyMap ArtifactType) :=
  Reader.fold "a map of output keys to artifact types" KeyMap.empty fun depth outputs key cs =>
    (ArtifactType.read depth cs).andThen fun t rest =>
      if outputs.contains key then .error (.repeatedOutput key)
      else .ok (outputs.insert key t, rest)

/-- A node declaration being read. -/
structure NodeDeclaration.Draft where
  id : Option String := none
  contexts : Option (List Context) := none
  outputs : Option (KeyMap ArtifactType) := none
  inputs : Option (KeyMap (List Query)) := none

/-- The format of a node. -/
def NodeDeclaration.record : Record NodeDeclaration.Draft NodeDeclaration where
  name := "NodeDefinition"
  fields := [
    .of "id" true (·.id) (fun d s => { d with id := some s }) readText,
    .of "contexts" false (·.contexts) (fun d cs => { d with contexts := some cs })
      (listOf Context.read),
    .of "outputs" false (·.outputs) (fun d m => { d with outputs := some m }) readOutputs,
    .of "inputs" false (·.inputs) (fun d m => { d with inputs := some m })
      (mapOf (listOf Query.read))]
  blank := {}
  finish d := do
    let id ← need "id" d.id
    return ⟨id, d.contexts.getD [], d.outputs.getD .empty, d.inputs.getD .empty⟩

/-- Reads a node. -/
def NodeDeclaration.read : Nat → List Char → Step NodeDeclaration :=
  NodeDeclaration.record.read

/-! ## Definitions -/

/-- Reads any tree and keeps its canonical form. -/
def FreeJson.read (depth : Nat) (cs : List Char) : Step FreeJson :=
  (Reader.value depth cs).andThen fun j rest => .ok (.ofJson j, rest)

/-- A definition being read. -/
structure Definition.Draft where
  id : Option String := none
  mode : Option Mode := none
  contexts : Option (List Context) := none
  parameters : Option (List Parameter) := none
  nodes : Option (List NodeDeclaration) := none
  deployment : Option (KeyMap FreeJson) := none

/-- The format of a whole definition. -/
def Definition.record : Record Definition.Draft Definition where
  name := "PipelineDefinition"
  fields := [
    .of "id" true (·.id) (fun d s => { d with id := some s }) readText,
    .of "execution_mode" false (·.mode) (fun d m => { d with mode := some m }) Mode.read,
    .of "contexts" false (·.contexts) (fun d cs => { d with contexts := some cs })
      (listOf Context.read),
    .of "runtime_parameters" false (·.parameters) (fun d ps => { d with parameters := some ps })
      (listOf Parameter.read),
    .of "nodes" false (·.nodes) (fun d ns => { d with nodes := some ns })
      (listOf NodeDeclaration.read),
    .of "deployment_config" false (·.deployment) (fun d m => { d with deployment := some m })
      (mapOf FreeJson.read)]
  blank := {}
  finish d := do
    let id ← need "id" d.id
    return ⟨id, d.mode.getD .sync, d.contexts.getD [], d.parameters.getD [], d.nodes.getD [],
      d.deployment.getD .empty⟩

/-- Reads a definition. -/
def Definition.read : Nat → List Char → Step Definition :=
  Definition.record.read

/-- The definition that a document holds, or the diagnostic of its first fault. -/
def Definition.ofText (text : String) : Except Diagnostic Definition :=
  match document Definition.read text with
  | .ok d => .ok d
  | .error fault => .error (.malformed fault.message)

end Dataflow
