import Dataflow.Pipeline.Closure
import Dataflow.Pipeline.Order

/-! # Cutting a pipeline

A partial run starts at some nodes and stops at others. Everything not between them is removed,
and the channels that kept nodes had from removed producers are listed, so that artifacts of an
earlier run can feed them.

* `Pipeline.cut`: restricts a pipeline to what is between two selections.
* `Pipeline.cutById`: the same for lists of ids.
-/

namespace Dataflow

/-- A pipeline restricted to some of its nodes. -/
structure Cut where
  pipeline : Pipeline
  /-- By removed producer, the queries of kept nodes that it fed. -/
  removed : KeyMap (List Query)

namespace Pipeline

/-- Appends a query to those of a removed producer, unless it is there. -/
def recordCut (removed : KeyMap (List Query)) (e : Edge) : KeyMap (List Query) :=
  let queries := (removed.get? e.producer).getD []
  removed.insert e.producer (if queries.contains e.channel then queries else queries ++ [e.channel])

/-- The queries of kept nodes that removed producers fed, by producer. -/
def cutChannels (p : Pipeline) (kept : String → Bool) : KeyMap (List Query) :=
  (p.edges.filter fun e => kept e.consumer && !kept e.producer).foldl recordCut .empty

/-- The pipeline with the kept nodes alone, the edges between them, the instances of contexts that
they refer to and their deployment settings. -/
def restrict (p : Pipeline) (kept : String → Bool) : Pipeline :=
  let nodes := p.nodes.filter fun n => kept n.id
  { p with
    instances := p.instances.filter fun c => nodes.any fun n => n.instances.any c.same
    nodes := nodes
    edges := p.edges.filter fun e => kept e.producer && kept e.consumer
    deployment := p.deployment.filterKeys kept }

/-- The ids of the nodes a predicate selects. -/
def selected (p : Pipeline) (test : String → Bool) : List String :=
  (p.nodes.map (·.id)).filter test

/-- Keeps the nodes that depend on a node selected by `start` and that a node selected by `stop`
depends on, the selected ones included. The pipeline must be an ordered one whose order of
declaration puts producers first. -/
def cut (p : Pipeline) (start stop : String → Bool) : Except Diagnostic Cut := do
  if p.mode ≠ .sync then throw (.unsupportedMode p.mode)
  p.checkSorted
  let below ← p.dependentClosure (p.selected start)
  let above ← p.dependencyClosure (p.selected stop)
  let kept (id : String) : Bool := (below.any (·.id = id)) && (above.any (·.id = id))
  return ⟨p.restrict kept, p.cutChannels kept⟩

/-- Whether a list of ids selects an id; the empty list selects every one. -/
def selects (ids : List String) (id : String) : Bool :=
  ids.isEmpty || ids.contains id

/-- Cuts a pipeline by lists of ids, of which every one must be a node's. -/
def cutById (p : Pipeline) (start stop : List String) : Except Diagnostic Cut := do
  p.checkKnown (start ++ stop)
  p.cut (selects start) (selects stop)

end Pipeline

end Dataflow
