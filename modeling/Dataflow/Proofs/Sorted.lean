import Dataflow.Proofs.Blocked
import Dataflow.Proofs.Least

/-!
# The order of declaration as an order

Placing takes the least vertex that is ready. If every arc goes to a greater vertex, the first one
that is left is always ready, so the vertices are placed as they are numbered; and an order that
places them so has every arc go to a greater one (`Digraph.order_eq_vertices_iff`). For a pipeline
this says that its order is the order of declaration exactly if every edge comes from a node that is
declared before (`Pipeline.topologicalOrder_eq_nodes_iff`). The check that compares positions edge
by edge therefore passes in the same cases, and otherwise it stops at the first edge that does not
(`Pipeline.checkSorted_eq_error_iff`).
-/

namespace Dataflow

/-! ## Graphs whose arcs ascend -/

namespace Digraph

variable {g : Digraph}

/-- If arcs ascend, vertices are placed in ascending order. -/
theorem place_of_ascending (harc : ∀ u v, g.Arc u v → u < v) {rounds : Nat} {unplaced : List Nat}
    (hlen : unplaced.length ≤ rounds) (hsorted : unplaced.Pairwise (· < ·)) :
    g.place rounds unplaced = (unplaced, []) := by
  induction rounds generalizing unplaced with
  | zero =>
    obtain rfl := List.length_eq_zero_iff.1 (Nat.le_zero.1 hlen)
    rfl
  | succ rounds ih =>
    cases unplaced with
    | nil => rfl
    | cons w ws =>
      obtain ⟨hless, hws⟩ := List.pairwise_cons.1 hsorted
      -- The first vertex is ready, as whatever leads to it is less than all that is left.
      have hbefore : ∀ u ∈ g.predecessors w, u ∉ w :: ws := by
        intro u hu hm
        have huw := harc u w (mem_predecessors.1 hu)
        rcases List.mem_cons.1 hm with rfl | hm
        · exact Nat.lt_irrefl u huw
        · exact Nat.lt_asymm huw (hless u hm)
      have hready : g.ready? (w :: ws) = some w := by
        refine List.find?_cons_of_pos ?_
        simpa only [List.all_eq_true, Bool.not_eq_true', List.contains_eq_mem,
          decide_eq_false_iff_not]
      have hrest : (w :: ws).filter (· ≠ w) = ws := by
        rw [filter_ne_eq_erase (hsorted.imp Nat.ne_of_lt), List.erase_cons_head]
      unfold place
      rw [hready]
      simp only [hrest, ih (Nat.le_of_succ_le_succ hlen) hws]

/-- The vertices are ordered as they are numbered exactly if every arc ascends. -/
theorem order_eq_vertices_iff (hg : g.Within) :
    g.order = (g.vertices, []) ↔ ∀ u v, g.Arc u v → u < v := by
  constructor
  · intro ho u v huv
    have hordered : g.Ordered g.vertices := by
      have h := (order_spec hg).1
      rwa [ho] at h
    have hsub := hordered.sublist huv (mem_vertices.2 (hg u v huv).2)
    exact List.pairwise_iff_forall_sublist.1 List.pairwise_lt_range hsub
  · intro harc
    exact place_of_ascending harc (by simp [vertices]) List.pairwise_lt_range

end Digraph

/-! ## Pipelines -/

namespace Pipeline

section
variable {p : Pipeline} (hp : p.Sound)
include hp

/-- The edges are in order exactly if the arcs between positions ascend. -/
theorem ordered_iff_arcs : p.Ordered ↔ ∀ i j, p.graph.Arc i j → i < j := by
  constructor
  · intro ho i j hij
    obtain ⟨e, he, hi, hj⟩ := arc_dependencyGraph.1 hij
    obtain ⟨i', j', hi', hj', hlt⟩ := (declaredBefore_iff hp.ids).1 (ho e he)
    obtain rfl : i' = i := Option.some.inj (hi'.symm.trans hi)
    obtain rfl : j' = j := Option.some.inj (hj'.symm.trans hj)
    exact hlt
  · intro harc e he
    obtain ⟨i, j, hi, hj⟩ := hp.joining.exists_positions he
    exact (declaredBefore_iff hp.ids).2
      ⟨i, j, hi, hj, harc i j (arc_dependencyGraph.2 ⟨e, he, hi, hj⟩)⟩

theorem nodesInOrder_eq_nodes_iff {positions : List Nat} (h : p.positionOrder = .ok positions) :
    p.nodesInOrder positions = p.nodes ↔ positions = p.graph.vertices := by
  have hall : ∀ i ∈ p.graph.vertices, ∃ n, p.nodes[i]? = some n := fun i hi =>
    ⟨_, List.getElem?_eq_getElem (List.mem_range.1 hi)⟩
  have hrange : p.nodesInOrder p.graph.vertices = p.nodes := p.nodesInOrder_range
  obtain ⟨-, -, hmem⟩ := positionOrder_spec h
  constructor
  · intro hnodes
    rw [← declared_nodesInOrder hp fun i hi => (hmem i).1 hi, hnodes, ← hrange,
      declared_nodesInOrder hp hall]
  · rintro rfl
    exact hrange

/-- **The order is that of declaration** exactly if every edge comes from a node that is declared
before. -/
theorem topologicalOrder_eq_nodes_iff : p.topologicalOrder = .ok p.nodes ↔ p.Ordered := by
  have hgraph : p.graph.Within := within_dependencyGraph
  rw [ordered_iff_arcs hp, ← Digraph.order_eq_vertices_iff hgraph, ← positionOrder_eq_ok_iff]
  unfold topologicalOrder
  constructor
  · intro h
    cases hpos : p.positionOrder with
    | error d => simp [hpos, Except.map] at h
    | ok positions =>
      rw [hpos] at h
      exact congrArg _ ((nodesInOrder_eq_nodes_iff hp hpos).1 (Except.ok.inj h))
  · intro hpos
    rw [hpos]
    exact congrArg _ ((nodesInOrder_eq_nodes_iff hp hpos).2 rfl)

theorem checkSorted_eq_error_iff {d : Diagnostic} :
    p.checkSorted = .error d ↔ ∃ before e after, p.edges = before ++ e :: after ∧
      (∀ o ∈ before, p.DeclaredBefore o.producer o.consumer) ∧
        ¬ p.DeclaredBefore e.producer e.consumer ∧ d = .notSorted e.consumer e.producer := by
  have hfound : p.checkSorted = .error d ↔ ∃ e, (p.edges.find? fun e => !p.declaredInOrder e) =
      some e ∧ d = .notSorted e.consumer e.producer := by
    unfold checkSorted
    cases p.edges.find? fun e => !p.declaredInOrder e <;> simp [eq_comm]
  have hlate : ∀ e ∈ p.edges,
      (!p.declaredInOrder e) = true ↔ ¬ p.DeclaredBefore e.producer e.consumer := by
    intro e he
    rw [Bool.not_eq_true', ← Bool.not_eq_true, declaredInOrder_iff hp he]
  rw [hfound]
  simp only [find?_eq_some_iff_first hlate]
  constructor
  · rintro ⟨e, ⟨before, after, hsplit, hbefore, he⟩, rfl⟩
    exact ⟨before, e, after, hsplit, hbefore, he, rfl⟩
  · rintro ⟨before, e, after, hsplit, hbefore, he, rfl⟩
    exact ⟨e, ⟨before, after, hsplit, hbefore, he⟩, rfl⟩

end

end Pipeline

/-- **The check and the order agree**, with feedback and without: the check that producers are
declared first passes exactly if there is an order and it is that of declaration. Otherwise it names
the ends of the first edge whose producer is not declared before the consumer. -/
theorem checkSorted_iff_order_as_declared {p : Pipeline} (hp : p.Obtained) :
    (p.checkSorted = .ok () ↔ p.topologicalOrder = .ok p.nodes) ∧
      (p.topologicalOrder ≠ .ok p.nodes → ∃ before e after, p.edges = before ++ e :: after ∧
        (∀ o ∈ before, p.DeclaredBefore o.producer o.consumer) ∧
          ¬ p.DeclaredBefore e.producer e.consumer ∧
            p.checkSorted = .error (.notSorted e.consumer e.producer)) := by
  have hs := hp.sound
  have hiff : p.checkSorted = .ok () ↔ p.topologicalOrder = .ok p.nodes := by
    rw [Pipeline.checkSorted_eq_ok_iff hs, Pipeline.topologicalOrder_eq_nodes_iff hs]
  refine ⟨hiff, fun hne => ?_⟩
  cases hcheck : p.checkSorted with
  | ok _ => exact absurd (hiff.1 hcheck) hne
  | error d =>
    obtain ⟨before, e, after, hsplit, hbefore, hlate, rfl⟩ :=
      (Pipeline.checkSorted_eq_error_iff hs).1 hcheck
    exact ⟨before, e, after, hsplit, hbefore, hlate, rfl⟩

/-- Two nodes feed each other, and a third is declared before both: its edge is the first one that
is out of order. -/
theorem checkSorted_iff_order_as_declared_feedback : ∃ p, (build .empty feedback).1 = .ok p ∧
    p.topologicalOrder ≠ .ok p.nodes ∧ p.checkSorted = .error (.notSorted "c" "b") ∧
      ∃ e ∈ p.edges, ¬ p.DeclaredBefore e.producer e.consumer := by
  obtain ⟨p, hbuild, hcheck⟩ : ∃ p, (build .empty feedback).1 = .ok p ∧
      p.checkSorted = .error (.notSorted "c" "b") := ⟨_, rfl, rfl⟩
  obtain ⟨hiff, hfirst⟩ := checkSorted_iff_order_as_declared (.built hbuild)
  have hne : p.topologicalOrder ≠ .ok p.nodes := mt hiff.2 (by simp [hcheck])
  obtain ⟨before, e, after, hsplit, -, hlate, -⟩ := hfirst hne
  exact ⟨p, hbuild, hne, hcheck, e, hsplit ▸ by simp, hlate⟩

end Dataflow
