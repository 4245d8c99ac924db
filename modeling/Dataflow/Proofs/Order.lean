import Dataflow.Pipeline.Order
import Dataflow.Proofs.Counting
import Dataflow.Proofs.Edges

/-!
# Orders of a pipeline

A pipeline counts its way through the graph of its edges and so follows the rule
(`Digraph.drain_counts`): it has an order exactly if no vertex is left behind
(`Pipeline.positionOrder_eq_ok_iff`), which is the case exactly if it has no cycle
(`Pipeline.exists_order_iff`).
-/

namespace Dataflow

open Relation

namespace Pipeline

/-- However many edges join two nodes, the graph has one arc for them. -/
theorem nodup_arcs (p : Pipeline) : p.graph.arcs.Nodup :=
  nodup_fresh [] _

/-- The nodes that no order reaches. -/
def left (p : Pipeline) : List Node :=
  p.nodesInOrder p.graph.order.2

/-- **Positions are ordered** as the rule places them, if it leaves none of them behind. -/
theorem positionOrder_eq (p : Pipeline) :
    p.positionOrder =
      if p.graph.order.2 = [] then .ok p.graph.order.1 else .error (stuck p.left) := by
  have hg : p.graph.Within := within_dependencyGraph
  obtain ⟨htaken, -, hstuck⟩ := Digraph.drain_counts hg p.nodup_arcs
  have hlen : p.graph.order.1.length + p.graph.order.2.length = p.nodes.length := by
    have hperm := (Digraph.order_spec hg).2.length_eq
    rw [List.length_append] at hperm
    exact hperm.trans List.length_range
  have hall : p.graph.order.1.length = p.nodes.length ↔ p.graph.order.2 = [] := by
    rw [← List.length_eq_zero_iff]
    omega
  obtain ⟨last, hrun, hlast⟩ : ∃ last, p.graph.drain p.nodes.length p.graph.counts =
      (p.graph.order.1, last) ∧ last.stuck = p.graph.order.2 :=
    ⟨_, Prod.ext htaken rfl, hstuck⟩
  unfold positionOrder left
  rw [hrun, ← hlast]
  exact if_congr (hlast.symm ▸ hall) rfl rfl

theorem positionOrder_eq_ok_iff {p : Pipeline} {positions : List Nat} :
    p.positionOrder = .ok positions ↔ p.graph.order = (positions, []) := by
  rw [positionOrder_eq, Prod.ext_iff]
  split
  · next h => simp [h]
  · next h => simp [h]

theorem positionOrder_eq_error_iff {p : Pipeline} {d : Diagnostic} :
    p.positionOrder = .error d ↔ p.graph.order.2 ≠ [] ∧ d = stuck p.left := by
  rw [positionOrder_eq]
  split
  · next h => simp [h]
  · next h => simp [h, eq_comm]

section
variable {p : Pipeline} (hj : Edge.Joining p.nodes p.edges)
include hj

/-- A pipeline is found to have a cycle exactly if a path of edges leads from an id back to it. -/
theorem hasCycles_eq_false_iff :
    p.hasCycles = false ↔ ∀ id, ¬ TransGen (Edge.Leads p.edges) id id := by
  unfold hasCycles graph
  rw [← acyclic_dependencyGraph_iff hj, ← Bool.not_eq_true,
    Digraph.hasCycles_iff within_dependencyGraph, not_exists]

/-- A pipeline without cycles has an order and layers. -/
theorem order_of_acyclic (h : ∀ id, ¬ TransGen (Edge.Leads p.edges) id id) :
    (∃ order, p.topologicalOrder = .ok order) ∧ ∃ layers, p.layers = .ok layers := by
  obtain ⟨order, ho⟩ := Digraph.order_of_acyclic ((acyclic_dependencyGraph_iff hj).2 h)
  have hpos : p.positionOrder = .ok order := positionOrder_eq_ok_iff.2 ho
  have htop : p.topologicalOrder = .ok (p.nodesInOrder order) := congrArg _ hpos
  unfold layers
  rw [htop]
  exact ⟨⟨_, rfl⟩, _, rfl⟩

/-- **A pipeline has an order** exactly if no path of edges leads from an id back to it. -/
theorem exists_order_iff :
    (∃ order, p.topologicalOrder = .ok order) ↔
      ∀ id, ¬ TransGen (Edge.Leads p.edges) id id := by
  refine ⟨?_, fun h => (order_of_acyclic hj h).1⟩
  rintro ⟨order, ho⟩
  rw [← acyclic_dependencyGraph_iff hj, ← Digraph.order_snd_eq_nil_iff within_dependencyGraph]
  unfold topologicalOrder at ho
  cases hpos : p.positionOrder with
  | error e => simp [hpos, Except.map] at ho
  | ok positions => exact congrArg Prod.snd (positionOrder_eq_ok_iff.1 hpos)

end

end Pipeline

end Dataflow
