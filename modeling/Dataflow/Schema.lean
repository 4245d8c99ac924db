import Dataflow.Wire.Decode

/-! # The schema of definitions

A JSON document that describes which documents are definitions. Names and required fields are those
that the readers of the records use.

* `Schema.definitions`: the schema of every part, by name.
* `Schema.document`: the schema of definitions, with those of the parts.
-/

namespace Dataflow.Schema

open Json (Record)

/-- A schema of the named JSON type. -/
def typed (name : String) (more : List (String × Json)) : Json :=
  .object (("type", .string name) :: more)

/-- Any string. -/
def string : Json := typed "string" []

/-- A reference to one of the definitions. -/
def named (name : String) : Json :=
  .object [("$ref", .string s!"#/$defs/{name}")]

/-- An array that may be left out. -/
def list (item : Json) : Json :=
  typed "array" [("items", item), ("default", .array [])]

/-- An object with free keys that may be left out. -/
def map (value : Json) : Json :=
  typed "object" [("additionalProperties", value), ("default", .object [])]

/-- The schema or `null`. -/
def nullable (schema : Json) : Json :=
  .object [("anyOf", .array [schema, typed "null" []])]

/-- The schema of a record whose fields have certain schemas, in order of declaration. -/
def record {δ α : Type} (r : Record δ α) (fields : List Json) : List (String × Json) :=
  [("type", .string "object"),
    ("properties", .object ((r.fields.map (·.name)).zip fields)),
    ("required", .array ((r.fields.filter (·.required)).map fun f => .string f.name))]

/-- One of a fixed set of strings. -/
def names (all : List String) : Json :=
  typed "string" [("enum", .array (all.map .string))]

/-- An object whose single key tells the variant. -/
def tagged (tag : String) (value : Json) : Json :=
  typed "object" [
    ("properties", .object [(tag, value)]),
    ("required", .array [.string tag]),
    ("additionalProperties", .bool false)]

/-- A typed value, one variant for each kind. -/
def value : Json :=
  .object [("oneOf", .array [
    tagged "int_value" (typed "integer" [("format", .string "int64")]),
    tagged "string_value" string,
    tagged "double_value" (typed "number" [("format", .string "double")])])]

/-- The schemas the document refers to by name. -/
def definitions : List (String × Json) :=
  [(ArtifactType.record.name,
      .object (record ArtifactType.record [string, map (named "PropertyKind")])),
    (Query.record.name,
      .object (record Query.record
        [nullable string, list (named Context.record.name), string, string])),
    (Context.record.name, .object (record Context.record [string, named "Value"])),
    ("ExecutionMode", names (Mode.all.map Mode.name)),
    (NodeDeclaration.record.name,
      .object (record NodeDeclaration.record
        [string, list (named Context.record.name), map (named ArtifactType.record.name),
          map (list (named Query.record.name))])),
    ("PropertyKind", names (Kind.all.map Kind.name)),
    (Parameter.record.name,
      .object (record Parameter.record
        [string, named "PropertyKind", nullable (named "Value")])),
    ("Value", value)]

/-- The schema of definitions, with those of the parts. -/
def document : Json :=
  (Json.object <|
    [("title", .string Definition.record.name)] ++
    record Definition.record
      [string, named "ExecutionMode", list (named Context.record.name),
        list (named Parameter.record.name), list (named NodeDeclaration.record.name),
        map (.bool true)] ++
    [("$defs", .object definitions)]).canonical

end Dataflow.Schema
