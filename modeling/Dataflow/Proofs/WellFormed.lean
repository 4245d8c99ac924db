import Dataflow.Proofs.Cut
import Dataflow.Proofs.Order

/-!
# What every pipeline is

`Pipeline.WellFormed p` collects what the analyses of a pipeline rely on: ids and positions belong
together, edges join different nodes and do not repeat their ends, every edge stands for a query of
its consumer that its producer satisfies, and without feedback there is no cycle. A build
establishes it (`Pipeline.wellFormed_of_build`) and a restriction keeps it
(`Pipeline.WellFormed.restrict`), so it holds after any number of cuts.
-/

namespace Dataflow

open Relation

namespace Pipeline

/-- What holds of a pipeline that is built, or cut from one. -/
structure WellFormed (p : Pipeline) : Prop where
  ids : (p.nodes.map (·.id)).Nodup
  /-- The id of a node is found at the node's own position. -/
  positions : ∀ (i : Nat) (n : Node), p.nodes[i]? = some n → p.position? n.id = some i
  joining : Edge.Joining p.nodes p.edges
  ends : (p.edges.map Edge.ends).Nodup
  /-- An edge stands for a query that its consumer declares under its input. -/
  declared : ∀ e ∈ p.edges, ∃ n ∈ p.nodes, n.id = e.consumer ∧
    ∃ queries, n.inputs.get? e.input = some queries ∧ e.channel ∈ queries
  /-- The producer of an edge has the id, the contexts and the output that the query asks for. -/
  supplied : ∀ e ∈ p.edges, ∃ n ∈ p.nodes, n.id = e.producer ∧
    (∀ id, e.channel.producer = some id → n.id = id) ∧
    (∀ c ∈ e.channel.contexts, c ∈ n.contexts) ∧
    ∃ t, n.outputs.get? e.output = some t ∧ t.name = e.channel.type
  /-- Without feedback no path of edges leads back to its start. -/
  acyclic : p.mode = .sync → ∀ id, ¬ TransGen (Edge.Leads p.edges) id id

section
variable {p : Pipeline}

theorem positions_of_nodup (hids : (p.nodes.map (·.id)).Nodup) (i : Nat) (n : Node)
    (hn : p.nodes[i]? = some n) : p.position? n.id = some i :=
  (Node.position?_eq_some_iff hids).2 ⟨n, hn, rfl⟩

/-! ## A build -/

theorem acyclic_of_build {r : Registry} {d : Definition} (h : (build r d).1 = .ok p)
    (hm : p.mode = .sync) (id : String) : ¬ TransGen (Edge.Leads p.edges) id id := by
  have hv := valid_of_build h
  obtain ⟨source, hs, rfl⟩ := eq_pipeline_of_build h
  have hleads : Edge.Leads (d.pipeline source).edges = Edge.Leads (d.walk source) :=
    Edge.leads_firsts _
  rw [hleads]
  exact (Definition.acyclic_walk_iff hs hv.ids).2 (hv.acyclic hm) id

/-- **A build makes well-formed pipelines.** -/
theorem wellFormed_of_build {r : Registry} {d : Definition} (h : (build r d).1 = .ok p) :
    p.WellFormed := by
  obtain ⟨source, hl⟩ := linked_of_build h
  refine
    { ids := hl.ids
      positions := positions_of_nodup hl.ids
      joining := hl.joining
      ends := hl.edges ▸ Edge.nodup_ends_firsts _
      declared := fun e he => ?_
      supplied := fun e he => ?_
      acyclic := acyclic_of_build h }
  · obtain ⟨n, hn, c, hc, rfl⟩ := hl.exists_channel he
    exact ⟨n, hn, rfl, Node.mem_channels_iff.1 hc⟩
  · obtain ⟨n, hn, c, hc, rfl⟩ := hl.exists_channel he
    have hs := hl.sources n hn c hc
    exact ⟨source c.2, hs.mem, rfl, Node.satisfies_iff.1 hs.satisfies⟩

/-! ## A cut -/

/-- **A restriction of a well-formed pipeline is well formed**: ids, ends and paths are among those
of the pipeline, and the nodes at the ends of a kept edge are kept. -/
theorem WellFormed.restrict (h : p.WellFormed) (kept : String → Bool) :
    (p.restrict kept).WellFormed := by
  have hsound : (p.restrict kept).Sound := Sound.restrict ⟨h.ids, h.joining⟩ kept
  refine
    { ids := hsound.ids
      positions := positions_of_nodup hsound.ids
      joining := hsound.joining
      ends := h.ends.sublist (List.filter_sublist.map _)
      declared := fun e he => ?_
      supplied := fun e he => ?_
      acyclic := fun hm id hid => ?_ }
  · obtain ⟨he, -, hck⟩ := mem_restrict_edges.1 he
    obtain ⟨n, hn, hid, hq⟩ := h.declared e he
    exact ⟨n, mem_restrict_nodes.2 ⟨hn, hid ▸ hck⟩, hid, hq⟩
  · obtain ⟨he, hpk, -⟩ := mem_restrict_edges.1 he
    obtain ⟨n, hn, hid, hs⟩ := h.supplied e he
    exact ⟨n, mem_restrict_nodes.2 ⟨hn, hid ▸ hpk⟩, hid, hs⟩
  · have hmono : Edge.Leads (p.restrict kept).edges ≤ Edge.Leads p.edges :=
      fun a b ⟨e, he, hab⟩ => ⟨e, (mem_restrict_edges.1 he).1, hab⟩
    exact h.acyclic hm id (TransGen.mono hmono id id hid)

/-! ## Any number of cuts -/

theorem Obtained.invariant (hp : p.Obtained) : p.WellFormed := by
  induction hp with
  | built h => exact wellFormed_of_build h
  | cut _ h ih =>
    obtain ⟨-, -, below, above, -, -, rfl⟩ := cut_eq_ok_iff.1 h
    exact ih.restrict _

end

end Pipeline

/-- **Every pipeline that is built, or cut from one that is, is well formed.** Without feedback it
has no cycle, so it has an order and layers. -/
theorem obtained_wellFormed {p : Pipeline} (hp : p.Obtained) :
    p.WellFormed ∧ (p.mode = .sync → p.hasCycles = false ∧
      (∃ order, p.topologicalOrder = .ok order) ∧ ∃ layers, p.layers = .ok layers) := by
  have hw := hp.invariant
  refine ⟨hw, fun hm => ?_⟩
  have hacyclic := hw.acyclic hm
  exact ⟨(Pipeline.hasCycles_eq_false_iff hw.joining).2 hacyclic,
    Pipeline.order_of_acyclic hw.joining hacyclic⟩

/-- A cut that keeps both nodes and their edge. -/
theorem obtained_wellFormed_twoQueries : ∃ c : Cut,
    twoQueriesBuilt.cut (· = "a") (· = "b") = .ok c ∧ c.pipeline.edges.length = 1 ∧
      c.pipeline.WellFormed ∧ c.pipeline.hasCycles = false := by
  have hcut : twoQueriesBuilt.cut (· = "a") (· = "b") = .ok _ := rfl
  obtain ⟨hw, hsync⟩ := obtained_wellFormed (.cut (.built build_twoQueries) hcut)
  exact ⟨_, hcut, rfl, hw, (hsync rfl).1⟩

end Dataflow
