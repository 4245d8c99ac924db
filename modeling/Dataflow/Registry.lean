import Dataflow.ArtifactType
import Dataflow.Diagnostic

/-! # The registry of artifact types

A registry binds type names to artifact types. A name never changes its schema: registering the
same schema again does nothing, and registering another is refused.

* `Registry.register`: registers one type.
* `Registry.registerAll`: registers a batch, all of it or nothing.
-/

namespace Dataflow

/-- Artifact types by name. -/
structure Registry where
  types : KeyMap ArtifactType
  named : ∀ entry ∈ types.entries, entry.1 = entry.2.name
deriving DecidableEq

namespace Registry

/-- The registry a program starts with. -/
def empty : Registry := ⟨.empty, fun _ h => absurd h List.not_mem_nil⟩

instance : EmptyCollection Registry := ⟨empty⟩

/-- The type registered under `name`. -/
def get? (r : Registry) (name : String) : Option ArtifactType :=
  r.types.get? name

/-- Whether `name` is registered. -/
def contains (r : Registry) (name : String) : Bool :=
  r.types.contains name

/-- The type registered under a name, or the diagnostic that there is none. -/
def lookup (r : Registry) (name : String) : Except Diagnostic ArtifactType :=
  match r.get? name with
  | some t => .ok t
  | none => .error (.unknownType name)

/-- The registered names in byte order. -/
def names (r : Registry) : List String :=
  r.types.keys

theorem named_insert {types : KeyMap ArtifactType}
    (h : ∀ entry ∈ types.entries, entry.1 = entry.2.name) (t : ArtifactType) :
    ∀ entry ∈ (types.insert t.name t).entries, entry.1 = entry.2.name := by
  intro entry he
  rcases KeyMap.mem_place he with rfl | he
  · rfl
  · exact h entry he

/-- Enters a type under its own name; the callers make sure that the name is free. -/
def add (r : Registry) (t : ArtifactType) : Registry :=
  ⟨r.types.insert t.name t, named_insert r.named t⟩

/-- Registers a type: the bound type, and the registry afterwards. A name that has another schema is
refused, and nothing is written then. -/
def register (r : Registry) (t : ArtifactType) : Except Diagnostic ArtifactType × Registry :=
  match r.get? t.name with
  | some known =>
    if known.schema = t.schema then (.ok known, r) else (.error (.typeConflict t.name), r)
  | none => (.ok t, r.add t)

/-- Checks a batch against the registry and against the types of the batch seen so far, which
`pending` holds; the result is every new type of the batch. -/
def pendingTypes (r : Registry) (pending : KeyMap ArtifactType) :
    List ArtifactType → Except Diagnostic (KeyMap ArtifactType)
  | [] => .ok pending
  | t :: rest =>
    match (r.get? t.name).or (pending.get? t.name) with
    | some known =>
      if known.schema = t.schema then r.pendingTypes pending rest
      else .error (.typeConflict t.name)
    | none => r.pendingTypes (pending.insert t.name t) rest

/-- The registry with pending types written to it. -/
def commit (r : Registry) (pending : KeyMap ArtifactType) : Registry :=
  pending.entries.foldl (fun r entry => r.add entry.2) r

/-- Registers a batch: whether it is accepted, and the registry afterwards. All of the batch is
checked before any of it is written, so a type that conflicts with a registered one or with an
earlier one of the batch leaves the registry as it was. -/
def registerAll (r : Registry) (ts : List ArtifactType) : Except Diagnostic Unit × Registry :=
  match r.pendingTypes .empty ts with
  | .ok pending => (.ok (), r.commit pending)
  | .error problem => (.error problem, r)

end Registry

end Dataflow
