import Dataflow.Proofs.Order
import Dataflow.Proofs.Recut
import Mathlib.Tactic.TFAE

/-!
# Three views of who feeds whom

The neighbours of a node are read off the list of edges, and orders, layers and cycles off the graph
of the edges. An edge leads from one id to another exactly if the nodes with these ids are each
other's neighbours, and exactly if the graph has an arc between their positions
(`Pipeline.Sound.arc_iff_leads`), which it has once however many edges there are
(`Pipeline.nodup_arcs`). The neighbours stand in order of declaration
(`Pipeline.pairwise_declaredBefore`).
-/

namespace Dataflow

namespace Pipeline

variable {p : Pipeline}

/-! ## Order of declaration -/

theorem pairwise_declaredBefore {l : List Node} (hl : l.Sublist p.nodes) :
    l.Pairwise fun m n => p.DeclaredBefore m.id n.id :=
  List.pairwise_iff_forall_sublist.2 fun hpair =>
    declaredBefore_iff_sublist.2 ⟨_, _, rfl, rfl, hpair.trans hl⟩

/-! ## Neighbours and arcs -/

section
variable (hp : p.Sound) {a b : String}
include hp

/-- The graph has an arc between the positions of two ids exactly if an edge joins these. -/
theorem Sound.arc_iff_leads :
    (∃ v w, p.position? a = some v ∧ p.position? b = some w ∧ p.graph.Arc v w) ↔
      Edge.Leads p.edges a b := by
  constructor
  · rintro ⟨v, w, hv, hw, harc⟩
    obtain ⟨e, he, hpv, hpw⟩ := arc_dependencyGraph.1 harc
    -- a position belongs to one id
    obtain ⟨m, hm, rfl⟩ := Node.getElem?_of_position? hv
    obtain ⟨n, hn, rfl⟩ := Node.getElem?_of_position? hw
    obtain ⟨m', hm', hmid⟩ := Node.getElem?_of_position? hpv
    obtain ⟨n', hn', hnid⟩ := Node.getElem?_of_position? hpw
    cases hm.symm.trans hm'
    cases hn.symm.trans hn'
    exact ⟨e, he, hmid.symm, hnid.symm⟩
  · rintro ⟨e, he, rfl, rfl⟩
    obtain ⟨v, w, hv, hw⟩ := hp.joining.exists_positions he
    exact ⟨v, w, hv, hw, arc_dependencyGraph.2 ⟨e, he, hv, hw⟩⟩

theorem Sound.neighbours_eq_nil (ha : ∀ n ∈ p.nodes, n.id ≠ a) :
    p.producers a = [] ∧ p.consumers a = [] := by
  constructor <;> refine List.eq_nil_iff_forall_not_mem.2 fun n hn => ?_
  · obtain ⟨m, hm, hid⟩ := hp.exists_consumer ((mem_producers_iff hp).1 hn).2
    exact ha m hm hid
  · obtain ⟨m, hm, hid⟩ := hp.exists_producer ((mem_consumers_iff hp).1 hn).2
    exact ha m hm hid

end

end Pipeline

/-- **Neighbours, edges and arcs agree.** For any two ids it is the same that the first is a
producer of the second, that the second is a consumer of the first, that an edge joins them, and
that the graph which orders and cycles are read off has an arc between their positions. It has no
arc more than once, whatever the number of edges. Producers and consumers stand in order of
declaration, and an id that no node has has neither. -/
theorem neighbours_agree {p : Pipeline} (hp : p.Obtained) :
    (∀ a b, List.TFAE [
      a ∈ (p.producers b).map (·.id),
      b ∈ (p.consumers a).map (·.id),
      ∃ e ∈ p.edges, e.producer = a ∧ e.consumer = b,
      ∃ v w, p.position? a = some v ∧ p.position? b = some w ∧ (v, w) ∈ p.graph.arcs]) ∧
      (∀ arc ∈ p.graph.arcs, p.graph.arcs.count arc = 1) ∧
      (∀ id, ((p.producers id).Pairwise fun m n => p.DeclaredBefore m.id n.id) ∧
        (p.consumers id).Pairwise fun m n => p.DeclaredBefore m.id n.id) ∧
      ∀ id, (∀ n ∈ p.nodes, n.id ≠ id) → p.producers id = [] ∧ p.consumers id = [] := by
  have hs := hp.sound
  refine ⟨fun a b => ?_, fun arc harc => ?_, fun id => ⟨?_, ?_⟩, fun id hid => ?_⟩
  · tfae_have 1 ↔ 3 := hs.mem_producers_id_iff
    tfae_have 2 ↔ 3 := hs.mem_consumers_id_iff
    tfae_have 4 ↔ 3 := hs.arc_iff_leads
    tfae_finish
  · exact List.count_eq_one_of_mem (Pipeline.nodup_arcs p) harc
  · exact Pipeline.pairwise_declaredBefore (p.nodesAt_sublist _)
  · exact Pipeline.pairwise_declaredBefore (p.nodesAt_sublist _)
  · exact hs.neighbours_eq_nil hid

/-- A consumer that is declared first and draws on one of its producers twice. -/
def drawnTwice : Definition where
  id := "p"
  mode := .async
  contexts := []
  parameters := []
  nodes := [
    ⟨"c", [], .empty, .ofList [
      ("x", [⟨some "a", [], "T", "out"⟩, ⟨some "b", [], "T", "out"⟩]),
      ("y", [⟨some "a", [], "T", "out"⟩])]⟩,
    ⟨"b", [], .ofList [("out", ⟨"T", .empty⟩)], .empty⟩,
    ⟨"a", [], .ofList [("out", ⟨"T", .empty⟩)], .empty⟩]
  deployment := .empty

/-- Two edges from one producer are one arc, and the producers stand as they are declared. -/
theorem neighbours_agree_drawnTwice : ∃ p, (build .empty drawnTwice).1 = .ok p ∧
    p.edges.map Edge.text = ["a.out -> c.x", "b.out -> c.x", "a.out -> c.y"] ∧
    (p.producers "c").map (·.id) = ["b", "a"] ∧ "c" ∈ (p.consumers "a").map (·.id) ∧
    p.graph.arcs.count (2, 0) = 1 := by
  obtain ⟨p, hbuild, hedges, hproducers, harc⟩ : ∃ p, (build .empty drawnTwice).1 = .ok p ∧
      p.edges.map Edge.text = ["a.out -> c.x", "b.out -> c.x", "a.out -> c.y"] ∧
      (p.producers "c").map (·.id) = ["b", "a"] ∧ (2, 0) ∈ p.graph.arcs :=
    ⟨_, rfl, rfl, rfl, by decide⟩
  obtain ⟨hsame, honce, -, -⟩ := neighbours_agree (.built hbuild)
  have hproduces : "a" ∈ (p.producers "c").map (·.id) := by simp [hproducers]
  have hconsumes := ((hsame "a" "c").out 0 1).1 hproduces
  exact ⟨p, hbuild, hedges, hproducers, hconsumes, honce _ harc⟩

end Dataflow
