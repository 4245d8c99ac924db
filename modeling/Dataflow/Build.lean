import Dataflow.Context.Interner
import Dataflow.Pipeline
import Dataflow.Registry
import Dataflow.Resolver

/-! # Building pipelines

Building turns a definition into a pipeline, or reports everything that is wrong with it: runtime
parameters, repeated node ids, output types that conflict, queries that do not resolve, and cycles.
New types reach the registry only if the whole definition is valid.

* `acceptNodes`: the first declaration of every id.
* `Staging`: the output types of a definition that the registry does not have yet.
* `connect`: every query as an edge or as diagnostics.
* `CyclePolicy.check`: the cycles that a mode does not allow.
* `build`: all of it.
-/

namespace Dataflow

/-! ## Nodes -/

/-- Splits node declarations into the first one of every id, in order, and the diagnostics of the
others; `seen` holds the ids that came before. -/
def acceptNodesAfter (seen : List String) :
    List NodeDeclaration → List NodeDeclaration × List Diagnostic
  | [] => ([], [])
  | n :: rest =>
    if seen.contains n.id then
      let (accepted, problems) := acceptNodesAfter seen rest
      (accepted, .repeatedNode n.id :: problems)
    else
      let (accepted, problems) := acceptNodesAfter (n.id :: seen) rest
      (n :: accepted, problems)

/-- The first declaration of every id, and the diagnostics of the others. -/
def acceptNodes (nodes : List NodeDeclaration) : List NodeDeclaration × List Diagnostic :=
  acceptNodesAfter [] nodes

/-! ## Output types -/

/-- The types that a build has found declared and that the registry does not have. -/
structure Staging where
  types : KeyMap ArtifactType

namespace Staging

/-- Nothing staged, as a build starts. -/
def empty : Staging := ⟨.empty⟩

/-- Binds a declared type to the one that has its name, or stages it if none has. A conflict leaves
the declared type in place, so that consumers still resolve. -/
def bind (s : Staging) (r : Registry) (t : ArtifactType) :
    ArtifactType × Staging × List Diagnostic :=
  match (s.types.get? t.name).or (r.get? t.name) with
  | some known =>
    if known.schema = t.schema then (known, s, []) else (t, s, [.typeConflict t.name])
  | none => (t, ⟨s.types.insert t.name t⟩, [])

/-- Binds the outputs of one declaration in key order, each against the types staged before it. -/
def bindAll (s : Staging) (r : Registry) :
    List (String × ArtifactType) → List (String × ArtifactType) × Staging × List Diagnostic
  | [] => ([], s, [])
  | (key, t) :: rest =>
    let (bound, s, problems) := s.bind r t
    let (others, s, more) := s.bindAll r rest
    ((key, bound) :: others, s, problems ++ more)

/-- Whether a query may ask for the type: it is staged, or was registered before the build. -/
def knows (s : Staging) (r : Registry) (name : String) : Bool :=
  s.types.contains name || r.contains name

/-- The staged types in name order, the batch a successful build registers. -/
def toList (s : Staging) : List ArtifactType :=
  s.types.entries.map (·.2)

end Staging

/-- What binding a list of nodes leaves behind. -/
structure Binding where
  nodes : List Node
  interner : Interner
  staging : Staging
  problems : List Diagnostic

/-- Binds the outputs of node declarations and gives every node the shared contexts, followed by
its own. -/
def bindNodes (r : Registry) (shared : List Context) (i : Interner) (s : Staging) :
    List NodeDeclaration → Binding
  | [] => ⟨[], i, s, []⟩
  | n :: rest =>
    let (instances, i) := i.internAll (shared ++ n.contexts)
    let (outputs, s, problems) := s.bindAll r n.outputs.entries
    let later := bindNodes r shared i s rest
    { later with
      nodes := ⟨n.id, instances, .ofList outputs, n.inputs⟩ :: later.nodes
      problems := problems ++ later.problems }

/-! ## Channels -/

/-- The edge of a query, or what is wrong with it. A query that names its own node is refused
whatever it asks for; a type that is not known is refused before producers are looked for. -/
def connectQuery (r : Resolver) (known : String → Bool) (n : Node) (input : String) (q : Query) :
    Except (List Diagnostic) Edge :=
  let unknown := if known q.type then [] else [Diagnostic.unknownType q.type]
  if q.producer = some n.id then .error (.selfReference n.id input :: unknown)
  else if unknown ≠ [] then .error unknown
  else
    match r.resolve q with
    | .ok found =>
      if found.node.id = n.id then .error [.selfReference n.id input]
      else .ok ⟨found.node.id, found.output, n.id, input, q⟩
    | .error problem => .error [problem.forInput n.id input]

/-- Adds the edge of a query, unless one with the same ends is there, or its diagnostics. -/
def connectChannel (r : Resolver) (known : String → Bool) (found : List Edge × List Diagnostic)
    (channel : Node × String × Query) : List Edge × List Diagnostic :=
  match connectQuery r known channel.1 channel.2.1 channel.2.2 with
  | .ok e => (Edge.add found.1 e, found.2)
  | .error problems => (found.1, found.2 ++ problems)

/-- The edges of all queries of some nodes, and what is wrong with the others. -/
def connect (nodes : List Node) (known : String → Bool) : List Edge × List Diagnostic :=
  let channels := nodes.flatMap fun n => n.channels.map fun (input, q) => (n, input, q)
  channels.foldl (connectChannel (.ofNodes nodes) known) ([], [])

/-! ## Cycles -/

/-- Which cycles are allowed among edges. A node that feeds itself is refused elsewhere. -/
inductive CyclePolicy
  | reject
  | allowFeedback
deriving DecidableEq

namespace CyclePolicy

/-- A pipeline that runs in one pass has no cycles. -/
def ofMode : Mode → CyclePolicy
  | .sync => .reject
  | .async => .allowFeedback

/-- The components of two or more vertices, each ascending and in lexicographic order, wherever a
search has found them. -/
def cyclic (components : List (List Nat)) : List (List Nat) :=
  sorted lexLE ((components.filter fun members => 1 < members.length).map (sorted (· ≤ ·)))

/-- One diagnostic for every set of two or more nodes that feed each other, with its members in
order of declaration. -/
def check (policy : CyclePolicy) (nodes : List Node) (edges : List Edge) : List Diagnostic :=
  match policy with
  | .allowFeedback => []
  | .reject =>
    (cyclic (dependencyGraph nodes edges).components).map fun members =>
      .cyclic (members.filterMap fun i => nodes[i]?.map (·.id))

end CyclePolicy

/-! ## The build -/

/-- Builds a definition over a registry: the pipeline or the report, and the registry afterwards,
which a failed build leaves as it was. -/
def build (r : Registry) (d : Definition) : Except Report Pipeline × Registry :=
  let (accepted, repeated) := acceptNodes d.nodes
  let (_, shared) := Interner.empty.internAll d.contexts
  let bound := bindNodes r d.contexts shared .empty accepted
  let (edges, unresolved) := connect bound.nodes (bound.staging.knows r)
  let cycles := (CyclePolicy.ofMode d.mode).check bound.nodes edges
  let problems :=
    Parameter.problems d.parameters ++ repeated ++ bound.problems ++ unresolved ++ cycles
  if problems.isEmpty then
    match r.registerAll bound.staging.toList with
    | (.ok (), r) => (.ok ⟨d.id, d.mode, bound.interner.instances, d.parameters, bound.nodes, edges,
        d.deployment⟩, r)
    | (.error problem, r) => (.error ⟨d.id, [problem]⟩, r)
  else (.error ⟨d.id, problems⟩, r)

end Dataflow
