import Dataflow.Proofs.Cut
import Dataflow.Proofs.Levels

/-!
# What cycles hold up

A pipeline is asked for its order, for its layers and whether it has cycles, and these answers
agree: there is neither order nor layers exactly if a path of edges leads from a node back to it
(`order_fails_at_cycles`). The positions that are left behind then are those of the nodes on cycles
and behind them, in order of declaration (`Pipeline.sublist_left`, `Pipeline.mem_left_iff`). -/

namespace Dataflow

open Relation

namespace Pipeline

variable {p : Pipeline}

/-! ## Failures -/

theorem topologicalOrder_eq_error_iff {d : Diagnostic} :
    p.topologicalOrder = .error d ↔ p.positionOrder = .error d := by
  unfold topologicalOrder
  cases p.positionOrder <;> simp [Except.map]

theorem layers_eq_error_iff {d : Diagnostic} :
    p.layers = .error d ↔ p.positionOrder = .error d := by
  rw [← topologicalOrder_eq_error_iff]
  unfold layers
  cases p.topologicalOrder <;> simp [Except.map]

/-! ## The nodes that are left -/

theorem sublist_left : p.left.Sublist p.nodes := by
  have hsub : p.graph.order.2.Sublist (List.range p.nodes.length) := Digraph.place_snd_sublist
  have hnodes : p.left.Sublist (p.nodesInOrder (List.range p.nodes.length)) := hsub.filterMap _
  rwa [nodesInOrder_range] at hnodes

section
variable (hp : p.Sound)
include hp

/-- Positions and ids name each other: arcs are edges between the ids, and edges are arcs between
the positions. -/
theorem exists_names {i : Nat} {n : Node} (hn : p.nodes[i]? = some n) :
    ∃ (idOf : Nat → String) (positionOf : String → Nat), idOf i = n.id ∧ positionOf n.id = i ∧
      (∀ i j, p.graph.Arc i j → Edge.Leads p.edges (idOf i) (idOf j)) ∧
        ∀ a b, Edge.Leads p.edges a b → p.graph.Arc (positionOf a) (positionOf b) := by
  refine ⟨fun i => p.nodes[i]?.elim "" fun n => n.id, fun id => (Node.position? id p.nodes).getD 0,
    ?_, ?_, fun _ _ => leads_of_arc, fun _ _ => arc_of_leads hp.joining⟩
  · simp only [hn, Option.elim_some]
  · simp only [(Node.position?_eq_some_iff hp.ids).2 ⟨n, hn, rfl⟩, Option.getD_some]

theorem blocked_graph_iff {i : Nat} {n : Node} (hn : p.nodes[i]? = some n) :
    Blocked p.graph.Arc i ↔ Blocked (Edge.Leads p.edges) n.id := by
  obtain ⟨idOf, positionOf, hid, hpos, hleads, harcs⟩ := exists_names hp hn
  constructor
  · intro h
    exact hid ▸ h.map idOf hleads
  · intro h
    exact hpos ▸ h.map positionOf harcs

/-- **What is left** are the nodes on cycles and behind them. -/
theorem mem_left_iff {n : Node} :
    n ∈ p.left ↔ n ∈ p.nodes ∧ Blocked (Edge.Leads p.edges) n.id := by
  unfold left
  simp only [mem_nodesInOrder_iff, graph, Digraph.mem_order_snd_iff within_dependencyGraph]
  constructor
  · rintro ⟨i, hi, hn⟩
    exact ⟨List.mem_of_getElem? hn, (blocked_graph_iff hp hn).1 hi⟩
  · rintro ⟨hn, hb⟩
    obtain ⟨i, hi⟩ := List.mem_iff_getElem?.1 hn
    exact ⟨i, (blocked_graph_iff hp hi).2 hb, hi⟩

theorem hasCycles_iff : p.hasCycles = true ↔ ∃ id, TransGen (Edge.Leads p.edges) id id := by
  rw [← Bool.not_eq_false, hasCycles_eq_false_iff hp.joining]
  push Not
  rfl

theorem order_snd_ne_nil_iff :
    p.graph.order.2 ≠ [] ↔ ∃ id, TransGen (Edge.Leads p.edges) id id := by
  unfold graph
  rw [ne_eq, Digraph.order_snd_eq_nil_iff within_dependencyGraph,
    acyclic_dependencyGraph_iff hp.joining]
  push Not
  rfl

end

end Pipeline

/-- **Order, layers and cycles agree**, with feedback and without: a pipeline has no order exactly
if it is found to have cycles, which it has exactly if a path of one or more edges leads back to its
start; it has no layers exactly in these cases, for the same reason; and the reason then lists, in
order of declaration and each once, the nodes on cycles and those that paths from cycles lead to. -/
theorem order_fails_at_cycles {p : Pipeline} (hp : p.Obtained) :
    ((∃ d, p.topologicalOrder = .error d) ↔ p.hasCycles = true) ∧
      (p.hasCycles = true ↔ ∃ id, TransGen (Edge.Leads p.edges) id id) ∧
      (∀ d, p.layers = .error d ↔ p.topologicalOrder = .error d) ∧
      ∀ d, p.topologicalOrder = .error d → ∃ blocked : List Node,
        d = Pipeline.stuck blocked ∧ blocked.Sublist p.nodes ∧ (blocked.map (·.id)).Nodup ∧
          ∀ n, n ∈ blocked ↔ n ∈ p.nodes ∧ ∃ id,
            TransGen (Edge.Leads p.edges) id id ∧ ReflTransGen (Edge.Leads p.edges) id n.id := by
  have hs := hp.sound
  refine ⟨?_, Pipeline.hasCycles_iff hs, fun d => ?_, fun d hd => ?_⟩
  · simp only [Pipeline.topologicalOrder_eq_error_iff, Pipeline.positionOrder_eq_error_iff]
    rw [Pipeline.hasCycles_iff hs, ← Pipeline.order_snd_ne_nil_iff hs]
    exact ⟨fun ⟨_, h, _⟩ => h, fun h => ⟨_, h, rfl⟩⟩
  · rw [Pipeline.layers_eq_error_iff, Pipeline.topologicalOrder_eq_error_iff]
  · rw [Pipeline.topologicalOrder_eq_error_iff, Pipeline.positionOrder_eq_error_iff] at hd
    exact ⟨p.left, hd.2, Pipeline.sublist_left, hs.ids.sublist (Pipeline.sublist_left.map _),
      fun n => Pipeline.mem_left_iff hs⟩

/-- Two nodes that feed each other, one behind them and one apart. -/
def feedback : Definition where
  id := "p"
  mode := .async
  contexts := []
  parameters := []
  nodes := [
    ⟨"c", [], .empty, .ofList [("in", [⟨some "b", [], "T", "out"⟩])]⟩,
    ⟨"d", [], .empty, .empty⟩,
    ⟨"a", [], .ofList [("out", ⟨"T", .empty⟩)], .ofList [("in", [⟨some "b", [], "T", "out"⟩])]⟩,
    ⟨"b", [], .ofList [("out", ⟨"T", .empty⟩)], .ofList [("in", [⟨some "a", [], "T", "out"⟩])]⟩]
  deployment := .empty

theorem order_fails_at_cycles_feedback : ∃ p, (build .empty feedback).1 = .ok p ∧
    p.layers = .error (.unorderable "nodes c, a, b are part of or behind a cycle") ∧
      ∃ id, TransGen (Edge.Leads p.edges) id id := by
  have hbuild : (build .empty feedback).1 = .ok _ := rfl
  obtain ⟨hfails, hcycles, hlayers, -⟩ := order_fails_at_cycles (.built hbuild)
  exact ⟨_, hbuild, (hlayers _).2 rfl, hcycles.1 (by rfl)⟩

end Dataflow
