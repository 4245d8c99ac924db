import Dataflow.Registry

/-! # Artifacts

An artifact has a type, perhaps a location, properties that fit the type's schema, and custom
properties that are free.

* `Artifact.Draft`: what has been set so far; setting again replaces.
* `Artifact.Draft.build`: the artifact, if every property fits.
-/

namespace Dataflow

/-- A typed artifact. -/
structure Artifact where
  type : ArtifactType
  uri : Option String
  properties : KeyMap Value
  custom : KeyMap Value
deriving DecidableEq

namespace Artifact

/-- An artifact being put together; its properties are not checked yet. -/
structure Draft where
  type : ArtifactType
  uri : Option String
  properties : KeyMap Value
  custom : KeyMap Value
deriving DecidableEq

namespace Draft

/-- A draft of type `t` with neither location nor properties. -/
def ofType (t : ArtifactType) : Draft := ⟨t, none, .empty, .empty⟩

/-- A draft of the type with this name, which has to be registered. -/
def ofRegistry (r : Registry) (name : String) : Except Diagnostic Draft :=
  (r.lookup name).map ofType

/-- Sets the location; the last call wins. -/
def setUri (d : Draft) (uri : String) : Draft :=
  { d with uri := some uri }

/-- Sets a property the schema is to declare. Nothing is checked before the artifact is built. -/
def setProperty (d : Draft) (key : String) (value : Value) : Draft :=
  { d with properties := d.properties.insert key value }

/-- Sets a property outside the schema, which no check looks at. -/
def setCustom (d : Draft) (key : String) (value : Value) : Draft :=
  { d with custom := d.custom.insert key value }

/-- What the schema has against the entry: its key is undeclared or its value of another kind. -/
def mismatch? (schema : Schema) (key : String) (value : Value) : Option SchemaMismatch :=
  match schema.get? key with
  | none => some .undeclared
  | some expected =>
    if expected = value.kind then none else some (.wrongKind expected value.kind)

/-- The artifact, or the diagnostic of the least key that does not fit. -/
def build (d : Draft) : Except Diagnostic Artifact :=
  let misfit := d.properties.entries.findSome? fun (key, value) =>
    (mismatch? d.type.schema key value).map (Diagnostic.schemaMismatch d.type.name key)
  match misfit with
  | some diagnostic => .error diagnostic
  | none => .ok ⟨d.type, d.uri, d.properties, d.custom⟩

end Draft

end Artifact

end Dataflow
