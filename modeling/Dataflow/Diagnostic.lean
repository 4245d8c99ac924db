import Dataflow.Mode
import Dataflow.Value

/-! # Diagnostics

Everything that can be wrong with a type, an artifact, a definition or a pipeline, by cause. The
wording is `Diagnostic.message`; `Diagnostic.code` and `Diagnostic.help` go with it.

* `Diagnostic.forInput`: names the input that a failed resolution was for.
* `Report`: every diagnostic of one failed build, in the order found.
-/

namespace Dataflow

/-- Why a property does not fit its artifact type. -/
inductive SchemaMismatch
  | undeclared
  | wrongKind (expected found : Kind)
deriving DecidableEq

/-- The reason at the end of the diagnostic's wording. -/
def SchemaMismatch.message : SchemaMismatch → String
  | .undeclared => "not declared in the type schema"
  | .wrongKind expected found => s!"expected {expected.name} value, found {found.name}"

/-- The input of a node that a query belongs to. -/
structure Site where
  consumer : String
  input : String
deriving DecidableEq

/-- Names the input a query stands at; a query resolved on its own stands nowhere. -/
def Site.note : Option Site → String
  | none => ""
  | some site => s!" (for input '{site.input}' of node '{site.consumer}')"

/-- What can be wrong, by cause. -/
inductive Diagnostic
  | typeConflict (name : String)
  | unknownType (name : String)
  | schemaMismatch (typeName property : String) (reason : SchemaMismatch)
  | repeatedOutput (node key : String)
  | badParameter (name reason : String)
  | malformed (reason : String)
  | repeatedNode (node : String)
  | noProducer (query : String) (site : Option Site)
  | ambiguousProducer (query : String) (candidates : List String) (site : Option Site)
  | cyclic (nodes : List String)
  | selfReference (node input : String)
  | unorderable (reason : String)
  | unknownNode (node : String)
  | unsupportedMode (mode : Mode)
  | notSorted (node producer : String)
deriving DecidableEq

namespace Diagnostic

/-- The wording of a diagnostic. -/
def message : Diagnostic → String
  | .typeConflict name =>
    s!"Artifact type '{name}' is already registered with a different schema"
  | .unknownType name => s!"Unknown artifact type '{name}'"
  | .schemaMismatch typeName property reason =>
    s!"Property '{property}' of artifact type '{typeName}' is invalid: {reason.message}"
  | .repeatedOutput node key => s!"Node '{node}' declares output '{key}' more than once"
  | .badParameter name reason => s!"Invalid runtime parameter '{name}': {reason}"
  | .malformed reason => s!"Serialization error: {reason}"
  | .repeatedNode node => s!"Node id '{node}' is declared more than once"
  | .noProducer query site => s!"No producer matches {query}{Site.note site}"
  | .ambiguousProducer query candidates site =>
    let ids := ", ".intercalate candidates
    s!"Producer for {query} is ambiguous: candidates {ids}{Site.note site}"
  | .cyclic nodes =>
    let ids := " -> ".intercalate nodes
    s!"Cycle detected between nodes: {ids}"
  | .selfReference node input =>
    s!"Node '{node}' declares itself as the producer of input '{input}'"
  | .unorderable reason => s!"Cycle detected in pipeline graph: {reason}"
  | .unknownNode node => s!"Unknown node '{node}'"
  | .unsupportedMode mode =>
    s!"Pipeline filtering is only supported for SYNC pipelines, found {mode.name}"
  | .notSorted node producer =>
    s!"Pipeline is not topologically sorted: node '{node}' depends on '{producer}', " ++
      "which is declared after it"

/-- The code of a diagnostic, which names the part of the library it comes from. -/
def code : Diagnostic → String
  | .typeConflict .. => "pipeline_ir::registry::duplicate_type"
  | .unknownType .. => "pipeline_ir::registry::unknown_type"
  | .schemaMismatch .. => "pipeline_ir::artifact::schema_mismatch"
  | .repeatedOutput .. => "pipeline_ir::node::duplicate_output"
  | .badParameter .. => "pipeline_ir::parameter::invalid"
  | .malformed .. => "pipeline_ir::serialization"
  | .repeatedNode .. => "pipeline_ir::graph::duplicate_node_id"
  | .noProducer .. => "pipeline_ir::graph::no_matching_producer"
  | .ambiguousProducer .. => "pipeline_ir::graph::ambiguous_producer"
  | .cyclic .. => "pipeline_ir::graph::cyclic"
  | .selfReference .. => "pipeline_ir::graph::self_reference"
  | .unorderable .. => "pipeline_ir::graph::cycle_detected"
  | .unknownNode .. => "pipeline_ir::graph::unknown_node"
  | .unsupportedMode .. => "pipeline_ir::graph::unsupported_mode"
  | .notSorted .. => "pipeline_ir::graph::not_sorted"

/-- The advice that some diagnostics come with. -/
def help : Diagnostic → Option String
  | .typeConflict .. =>
    some "artifact types are immutable once registered; use a new type name"
  | .repeatedNode .. =>
    some "node ids must be unique within a pipeline; duplicates are never merged"
  | .ambiguousProducer .. => some "add a producer id or more context filters to the query"
  | .cyclic .. =>
    some "SYNC pipelines must be acyclic; use ASYNC execution for feedback loops"
  | _ => none

/-- Names the input that a failed resolution was for; other diagnostics stay as they are. -/
def forInput (d : Diagnostic) (consumer input : String) : Diagnostic :=
  match d with
  | .noProducer query _ => .noProducer query (some ⟨consumer, input⟩)
  | .ambiguousProducer query candidates _ =>
    .ambiguousProducer query candidates (some ⟨consumer, input⟩)
  | other => other

end Diagnostic

/-- Every diagnostic of one failed build, in the order found. -/
structure Report where
  pipeline : String
  diagnostics : List Diagnostic
deriving DecidableEq

namespace Report

/-- The code of a failed build, whatever diagnostics it gathers. -/
def code : String := "pipeline_ir::graph::invalid_pipeline"

/-- The headline, which only counts the diagnostics. -/
def message (r : Report) : String :=
  s!"Pipeline '{r.pipeline}' failed validation with {r.diagnostics.length} error(s)"

end Report

end Dataflow
