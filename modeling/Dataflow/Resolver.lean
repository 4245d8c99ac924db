import Dataflow.Node

/-! # Resolving queries

A resolver finds the one node that satisfies a query. It keeps an index from ids to positions, so
that a query that names its producer looks at the nodes with that id only.

* `Resolver.candidates`: the positions that satisfy a query, ascending.
* `Resolver.resolve`: the only candidate, or the diagnostic that there is none or more than one.
-/

namespace Dataflow

/-- Nodes with an index from ids to positions. -/
structure Resolver where
  nodes : List Node
  index : KeyMap (List Nat)

/-- What a query resolves to. -/
structure Resolution where
  position : Nat
  node : Node
  output : String
deriving DecidableEq

namespace Resolver

/-- Files a position under its id, after those filed before it. -/
def record (index : KeyMap (List Nat)) (id : String) (position : Nat) : KeyMap (List Nat) :=
  index.insert id ((index.get? id).getD [] ++ [position])

/-- Indexes the nodes by id; nodes that share an id share an entry. -/
def ofNodes (nodes : List Node) : Resolver :=
  ⟨nodes, nodes.zipIdx.foldl (fun index (n, i) => record index n.id i) .empty⟩

/-- The positions at which a query looks, with their nodes. -/
def scope (r : Resolver) (q : Query) : List (Nat × Node) :=
  let positions := match q.producer with
    | some id => (r.index.get? id).getD []
    | none => List.range r.nodes.length
  positions.filterMap fun i => r.nodes[i]?.map fun n => (i, n)

/-- The positions and nodes that satisfy a query, ascending. -/
def candidates (r : Resolver) (q : Query) : List (Nat × Node) :=
  (r.scope q).filter fun (_, n) => n.offers q

/-- The single output the query asks for; none and several are errors. -/
def resolve (r : Resolver) (q : Query) : Except Diagnostic Resolution :=
  match r.candidates q with
  | [] => .error (.noProducer q.text none)
  | [(i, n)] => .ok ⟨i, n, q.output⟩
  | several => .error (.ambiguousProducer q.text (several.map fun (_, n) => n.id) none)

end Resolver

end Dataflow
