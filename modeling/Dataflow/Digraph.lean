import Dataflow.Closure
import Dataflow.Sorting

/-! # Directed graphs on positions

A graph has the vertices `0, …, size - 1` and arcs between them, each arc once.

* `Digraph.reachable`: the vertices that paths lead to.
* `Digraph.drain`: takes vertices one by one, always the least one that waits for no predecessor.
* `Digraph.components`: the sets of vertices that reach each other.
-/

namespace Dataflow

/-- A directed graph. -/
structure Digraph where
  size : Nat
  arcs : List (Nat × Nat)
deriving DecidableEq

namespace Digraph

/-- The graph with some arcs, which may be given more than once. -/
def ofArcs (size : Nat) (arcs : List (Nat × Nat)) : Digraph :=
  ⟨size, fresh [] arcs⟩

/-- The vertices, ascending. -/
def vertices (g : Digraph) : List Nat :=
  List.range g.size

/-- The vertices that arcs from a vertex lead to. -/
def successors (g : Digraph) (v : Nat) : List Nat :=
  g.arcs.filterMap fun (a, b) => if a = v then some b else none

/-- The vertices that arcs to a vertex come from. -/
def predecessors (g : Digraph) (v : Nat) : List Nat :=
  g.arcs.filterMap fun (a, b) => if b = v then some a else none

/-! ## Reachability -/

/-- The vertices that paths from some of `starts` lead to, `starts` included. -/
def reachable (g : Digraph) (starts : List Nat) : List Nat :=
  (closure? g.successors g.size starts).getD []

/-- Whether a path of at least one arc leads from a vertex back to it. -/
def onCycle (g : Digraph) (v : Nat) : Bool :=
  (g.reachable (g.successors v)).contains v

/-- Whether there is a cycle; an arc from a vertex to itself is one. -/
def hasCycles (g : Digraph) : Bool :=
  g.vertices.any g.onCycle

end Digraph

/-! ## Orders -/

/-- How many predecessors every vertex waits for, and the vertices that wait for none, ascending. -/
structure Counts where
  waits : List Nat
  ready : List Nat
deriving DecidableEq

namespace Counts

/-- A vertex waits for one predecessor less, and is ready once it waits for none. -/
def release (c : Counts) (v : Nat) : Counts :=
  let left := c.waits[v]?.getD 0 - 1
  { waits := c.waits.set v left
    ready := if left = 0 then insertSorted (· ≤ ·) v c.ready else c.ready }

/-- The vertices that wait for some predecessor, ascending. -/
def stuck (c : Counts) : List Nat :=
  (List.range c.waits.length).filter fun v => 0 < c.waits[v]?.getD 0

end Counts

namespace Digraph

/-- Every vertex waits for all its predecessors. -/
def counts (g : Digraph) : Counts where
  waits := g.vertices.map fun v => (g.predecessors v).length
  ready := g.vertices.filter fun v => (g.predecessors v).length = 0

/-- Takes the least of the vertices that are ready, for which its successors wait no longer, and so
on until none is ready. Every vertex is taken once, so `bound` is a bound on the vertices. -/
def drain (g : Digraph) : Nat → Counts → List Nat × Counts
  | 0, c => ([], c)
  | bound + 1, c =>
    match c.ready with
    | [] => ([], c)
    | v :: ready =>
      let (later, last) := g.drain bound ((g.successors v).foldl Counts.release { c with ready })
      (v :: later, last)

/-! ## Components -/

/-- The vertices that each vertex reaches. -/
def reach (g : Digraph) : List (List Nat) :=
  g.vertices.map fun v => g.reachable [v]

/-- Whether two vertices reach each other, given the vertices that each one reaches. -/
def joined (reach : List (List Nat)) (v w : Nat) : Bool :=
  (reach[v]?.getD []).contains w && (reach[w]?.getD []).contains v

/-- The sets of vertices that reach each other; every vertex is in one of them. -/
def components (g : Digraph) : List (List Nat) :=
  let reach := g.reach
  g.vertices.filterMap fun v =>
    let members := g.vertices.filter (joined reach v)
    if members.head? = some v then some members else none

end Digraph

end Dataflow
