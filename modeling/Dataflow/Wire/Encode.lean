import Dataflow.Definition
import Dataflow.Json.Printer

/-! # Definitions as JSON

The JSON tree of every record of a definition: fields in order of declaration, maps sorted by key.
A producer or default that is absent, an empty list of queried contexts and an empty schema are
left out; all other fields are always there.

* `Definition.toJson` and its parts.
* `Definition.toText`: a definition as a document spread over lines.
-/

namespace Dataflow

/-- A kind by its name. -/
def Kind.toJson (k : Kind) : Json :=
  .string k.name

/-- A mode by its name. -/
def Mode.toJson (m : Mode) : Json :=
  .string m.name

/-- A value as a tree: an object whose key tells the kind. -/
def Value.toJson : Value → Json
  | .int n => .object [("int_value", .number (.ofInt64 n))]
  | .string s => .object [("string_value", .string s)]
  | .double x => .object [("double_value", .ofBinary64 x)]

/-- A context as an object. -/
def Context.toJson (c : Context) : Json :=
  .object [("type", .string c.type), ("name", c.name.toJson)]

/-- A map as an object, keys in byte order. -/
def KeyMap.toJson {α : Type} (m : KeyMap α) (toJson : α → Json) : Json :=
  .object (m.entries.map fun (key, a) => (key, toJson a))

/-- A type as an object; an empty schema is left out. -/
def ArtifactType.toJson (t : ArtifactType) : Json :=
  .object (("name", .string t.name) ::
    if t.schema.isEmpty then [] else [("properties", t.schema.toJson Kind.toJson)])

/-- A member that is left out when there is nothing to say. -/
def optionalField {α : Type} (name : String) (toJson : α → Json) :
    Option α → List (String × Json)
  | some a => [(name, toJson a)]
  | none => []

/-- A query as an object; what it leaves open is left out. -/
def Query.toJson (q : Query) : Json :=
  .object <|
    optionalField "producer_node_id" .string q.producer ++
    (if q.contexts.isEmpty then []
      else [("context_queries", .array (q.contexts.map Context.toJson))]) ++
    [("artifact_type", .string q.type), ("output_key", .string q.output)]

/-- A parameter as an object, without its default when it has none. -/
def Parameter.toJson (p : Parameter) : Json :=
  .object <|
    [("name", .string p.name), ("kind", p.kind.toJson)] ++
    optionalField "default" Value.toJson p.default

/-- A node as an object, every member present. -/
def NodeDeclaration.toJson (n : NodeDeclaration) : Json :=
  .object [
    ("id", .string n.id),
    ("contexts", .array (n.contexts.map Context.toJson)),
    ("outputs", n.outputs.toJson ArtifactType.toJson),
    ("inputs", n.inputs.toJson fun queries => .array (queries.map Query.toJson))]

/-- A definition as an object, every member present. -/
def Definition.toJson (d : Definition) : Json :=
  .object [
    ("id", .string d.id),
    ("execution_mode", d.mode.toJson),
    ("contexts", .array (d.contexts.map Context.toJson)),
    ("runtime_parameters", .array (d.parameters.map Parameter.toJson)),
    ("nodes", .array (d.nodes.map NodeDeclaration.toJson)),
    ("deployment_config", d.deployment.toJson FreeJson.tree)]

/-- The text a definition is stored as. -/
def Definition.toText (d : Definition) : String :=
  d.toJson.pretty

end Dataflow
