import Dataflow.Proofs.Cut
import Dataflow.Proofs.Levels
import Dataflow.Proofs.Registered

/-!
# The order in which nodes are declared

Every pass of a build goes through the nodes of a definition in order, but what is valid
(`Definition.Valid`) speaks of which nodes there are alone. So a definition whose nodes are declared
in another order (`Definition.withNodes`) is valid too (`Definition.Valid.withNodes`), and its
queries have the same sources (`Definition.source_withNodes_iff`). The two pipelines then have the
same nodes and edges up to order, where contexts may be stored in other slots and so only the
content of nodes (`Node.content`) is compared. What depends on the paths of edges alone is the same:
whether there is a cycle, and which nodes each layer has (`Pipeline.layers_perm`).
-/

namespace Dataflow

open Relation

/-! ## Pipelines with the same members -/

theorem Edge.leads_of_perm {edges edges' : List Edge} (h : edges'.Perm edges) :
    Edge.Leads edges' = Edge.Leads edges := by
  funext a b
  unfold Edge.Leads
  simp only [h.mem_iff]

namespace Pipeline

section
variable {p p' : Pipeline} (hn : (p'.nodes.map Node.content).Perm (p.nodes.map Node.content))

include hn in
theorem exists_content_iff (P : NodeDeclaration → Prop) :
    (∃ n ∈ p'.nodes, P n.content) ↔ ∃ n ∈ p.nodes, P n.content := by
  have hmap : ∀ nodes : List Node,
      (∃ n ∈ nodes, P n.content) ↔ ∃ m ∈ nodes.map Node.content, P m := by simp
  rw [hmap, hmap]
  simp only [hn.mem_iff]

include hn in
/-- Nodes that are linked alike have the same edges. -/
theorem Linked.edges_perm {source source' : Query → Node} (h : p.Linked source)
    (h' : p'.Linked source') (hsource : ∀ q, (source' q).id = (source q).id) :
    p'.edges.Perm p.edges := by
  have hnodup : ∀ {p : Pipeline} {source}, p.Linked source → p.edges.Nodup := by
    intro p source h
    rw [h.edges]
    exact (Edge.nodup_ends_firsts _).of_map
  refine (List.perm_ext_iff_of_nodup (hnodup h') (hnodup h)).2 fun e => ?_
  rw [h'.mem_edges_iff, h.mem_edges_iff]
  simp only [Node.edge, hsource]
  exact exists_content_iff hn fun m => ∃ input before q after,
    m.inputs.get? input = some (before ++ q :: after) ∧
      e = ⟨(source q).id, q.output, m.id, input, q⟩ ∧
      ∀ o ∈ before, o.output = q.output → (source o).id ≠ (source q).id

theorem Sound.nodup_map_content (hp : p.Sound) {l : List Node} (hl : l.Nodup)
    (hsub : ∀ n ∈ l, n ∈ p.nodes) : (l.map Node.content).Nodup := by
  refine hl.map_on fun m hm n hn heq => ?_
  exact List.inj_on_of_nodup_map hp.ids (hsub m hm) (hsub n hn) (congrArg NodeDeclaration.id heq)

variable (hp : p.Sound) (hp' : p'.Sound) (he : p'.edges.Perm p.edges)
include hp hp' he

theorem hasCycles_perm : p'.hasCycles = p.hasCycles := by
  have hfalse : p'.hasCycles = false ↔ p.hasCycles = false := by
    rw [hasCycles_eq_false_iff hp'.joining, hasCycles_eq_false_iff hp.joining,
      Edge.leads_of_perm he]
  cases h : p.hasCycles with
  | false => exact hfalse.2 h
  | true => simpa [h] using hfalse

include hn in
/-- **The layers** of pipelines with the same nodes and edges have the same nodes. -/
theorem layers_perm (h : p.hasCycles = false) :
    ∃ layers layers', p.layers = .ok layers ∧ p'.layers = .ok layers' ∧
      List.Forall₂ (fun l' l => (l'.map Node.content).Perm (l.map Node.content))
        layers' layers := by
  have h' : p'.hasCycles = false := (hasCycles_perm hp hp' he).trans h
  obtain ⟨layers, hl, hlayer, hlength⟩ :=
    layers_spec hp ((hasCycles_eq_false_iff hp.joining).1 h)
  obtain ⟨layers', hl', hlayer', hlength'⟩ :=
    layers_spec hp' ((hasCycles_eq_false_iff hp'.joining).1 h')
  rw [Edge.leads_of_perm he] at hlayer' hlength'
  have hcount : layers'.length = layers.length := by
    refine eq_of_forall_lt_iff fun k => ((hlength' k).trans ?_).trans (hlength k).symm
    exact exists_content_iff hn fun m => ∃ j, Depth (Edge.Leads p.edges) j m.id ∧ k ≤ j
  refine ⟨layers, layers', hl, hl', List.forall₂_iff_get.2 ⟨hcount, fun k hk' hk => ?_⟩⟩
  obtain ⟨hnodup', hm'⟩ := hlayer' k _ (List.getElem?_eq_getElem hk')
  obtain ⟨hnodup, hm⟩ := hlayer k _ (List.getElem?_eq_getElem hk)
  refine (List.perm_ext_iff_of_nodup
    (hp'.nodup_map_content hnodup' fun n hmn => ((hm' n).1 hmn).1)
    (hp.nodup_map_content hnodup fun n hmn => ((hm n).1 hmn).1)).2 fun m => ?_
  simp only [List.mem_map, hm', hm, and_assoc]
  exact exists_content_iff hn fun m' => Depth (Edge.Leads p.edges) k m'.id ∧ m' = m

end

end Pipeline

/-! ## Definitions with the same members -/

namespace Definition

/-- A definition with other nodes. -/
def withNodes (d : Definition) (nodes : List NodeDeclaration) : Definition :=
  { d with nodes := nodes }

section
variable {d : Definition} {nodes : List NodeDeclaration} (hn : nodes.Perm d.nodes)

theorem answers_withNodes_iff {q : Query} {p : NodeDeclaration} :
    (d.withNodes nodes).Answers q p ↔ d.Answers q p :=
  ⟨fun h => ⟨h.named, h.contexts, h.output⟩, fun h => ⟨h.named, h.contexts, h.output⟩⟩

include hn

theorem mem_nodes_withNodes {n : NodeDeclaration} :
    n ∈ (d.withNodes nodes).nodes ↔ n ∈ d.nodes :=
  hn.mem_iff

theorem mem_declaredTypes_withNodes {t : ArtifactType} :
    t ∈ declaredTypes (d.withNodes nodes).nodes ↔ t ∈ declaredTypes d.nodes :=
  (hn.flatMap_right _).mem_iff

/-- Sources do not depend on the order of nodes. -/
theorem source_withNodes_iff {q : Query} {p : NodeDeclaration} :
    (d.withNodes nodes).Source q p ↔ d.Source q p := by
  constructor
  · intro h
    refine ⟨(mem_nodes_withNodes hn).1 h.mem, answers_withNodes_iff.1 h.answers, fun m hm ha => ?_⟩
    exact h.only m ((mem_nodes_withNodes hn).2 hm) (answers_withNodes_iff.2 ha)
  · intro h
    refine ⟨(mem_nodes_withNodes hn).2 h.mem, answers_withNodes_iff.2 h.answers, fun m hm ha => ?_⟩
    exact h.only m ((mem_nodes_withNodes hn).1 hm) (answers_withNodes_iff.1 ha)

theorem feeds_withNodes : (d.withNodes nodes).Feeds = d.Feeds := by
  funext p n
  unfold Feeds
  simp only [mem_nodes_withNodes hn, source_withNodes_iff hn]

/-- **A valid definition** stays valid if its nodes are declared in another order. -/
theorem Valid.withNodes {r : Registry} (h : d.Valid r) : (d.withNodes nodes).Valid r where
  parameters := h.parameters
  parameterNames := h.parameterNames
  ids := (hn.map _).nodup_iff.2 h.ids
  schemas := by
    simp only [mem_declaredTypes_withNodes hn]
    exact h.schemas
  registered := by
    simp only [mem_declaredTypes_withNodes hn]
    exact h.registered
  channels := by
    simp only [mem_nodes_withNodes hn, source_withNodes_iff hn]
    exact h.channels
  acyclic := by
    rw [feeds_withNodes hn]
    exact h.acyclic

end

end Definition

section
variable {r : Registry} {d : Definition} {p p' : Pipeline} {nodes : List NodeDeclaration}
  (hn : nodes.Perm d.nodes)
include hn

/-- The pipelines of both orders have the same sources. -/
theorem build_withNodes (h : (build r d).1 = .ok p) :
    ∃ source, d.Sources source ∧ p = d.pipeline source ∧
      (d.withNodes nodes).Sources source ∧
        (build r (d.withNodes nodes)).1 = .ok ((d.withNodes nodes).pipeline source) := by
  obtain ⟨source, hs, rfl⟩ := eq_pipeline_of_build h
  have hs' : (d.withNodes nodes).Sources source := fun n hm c hc =>
    (Definition.source_withNodes_iff hn).2 (hs n ((Definition.mem_nodes_withNodes hn).1 hm) c hc)
  exact ⟨source, hs, rfl, hs', build_of_valid ((valid_of_build h).withNodes hn) hs'⟩

theorem exists_build_withNodes_iff :
    (∃ p, (build r (d.withNodes nodes)).1 = .ok p) ↔ ∃ p, (build r d).1 = .ok p := by
  constructor
  · rintro ⟨p, hp⟩
    obtain ⟨source, -, -, -, h⟩ := build_withNodes (d := d.withNodes nodes) hn.symm hp
    exact ⟨_, h⟩
  · rintro ⟨p, hp⟩
    obtain ⟨source, -, -, -, h⟩ := build_withNodes hn hp
    exact ⟨_, h⟩

theorem build_withNodes_snd (h : (build r d).1 = .ok p)
    (h' : (build r (d.withNodes nodes)).1 = .ok p') :
    (build r (d.withNodes nodes)).2 = (build r d).2 := by
  refine Registry.ext_get? fun name => ?_
  rw [get?_build h', get?_build h]
  exact Registry.binding_congr (agree_of_build h)
    (fun _ => Definition.mem_declaredTypes_withNodes hn) name

theorem perm_of_build_withNodes (h : (build r d).1 = .ok p)
    (h' : (build r (d.withNodes nodes)).1 = .ok p') :
    (p'.nodes.map Node.content).Perm (p.nodes.map Node.content) ∧ p'.edges.Perm p.edges := by
  obtain ⟨source, hs, rfl, hs', hb⟩ := build_withNodes hn h
  rw [hb] at h'
  cases h'
  have hcontent : ∀ d : Definition, (d.pipeline source).nodes.map Node.content =
      d.nodes.map fun n => { n with contexts := fresh [] (d.contexts ++ n.contexts) } := by
    intro d
    show (d.nodes.map d.bind).map Node.content = _
    rw [List.map_map]
    exact List.map_congr_left fun n _ => Definition.content_bind n
  have hnodes : (((d.withNodes nodes).pipeline source).nodes.map Node.content).Perm
      ((d.pipeline source).nodes.map Node.content) := by
    rw [hcontent, hcontent]
    exact hn.map _
  have hl := Pipeline.linked_of_valid (valid_of_build h) hs
  have hl' := Pipeline.linked_of_valid (valid_of_build hb) hs'
  exact ⟨hnodes, Pipeline.Linked.edges_perm hnodes hl hl' fun _ => rfl⟩

end

/-- **A build does not depend on the order in which nodes are declared**: it succeeds for all orders
or for none. If it does, the registry it leaves is the same, and so are nodes and edges up to their
order, whether there is a cycle, and without one the nodes of each layer. Nodes are compared by
content, as contexts are stored in the slots in which the order shows them first. -/
theorem build_reordered (r : Registry) (d : Definition) (nodes : List NodeDeclaration)
    (hn : nodes.Perm d.nodes) :
    ((∃ p', (build r (d.withNodes nodes)).1 = .ok p') ↔ ∃ p, (build r d).1 = .ok p) ∧
      ∀ p p', (build r d).1 = .ok p → (build r (d.withNodes nodes)).1 = .ok p' →
        (build r (d.withNodes nodes)).2 = (build r d).2 ∧
          (p'.nodes.map Node.content).Perm (p.nodes.map Node.content) ∧
            p'.edges.Perm p.edges ∧ p'.hasCycles = p.hasCycles ∧
            (p.hasCycles = false → ∃ layers layers', p.layers = .ok layers ∧
              p'.layers = .ok layers' ∧
              List.Forall₂ (fun l' l => (l'.map Node.content).Perm (l.map Node.content))
                layers' layers) := by
  refine ⟨exists_build_withNodes_iff hn, fun p p' hp hp' => ?_⟩
  obtain ⟨hnodes, hedges⟩ := perm_of_build_withNodes hn hp hp'
  have hs : p.Sound := Pipeline.Obtained.sound (.built hp)
  have hs' : p'.Sound := Pipeline.Obtained.sound (.built hp')
  exact ⟨build_withNodes_snd hn hp hp', hnodes, hedges, Pipeline.hasCycles_perm hs hs' hedges,
    Pipeline.layers_perm hnodes hs hs' hedges⟩

/-- The consumer is declared before its producer. -/
theorem build_reordered_twoQueries : ∃ p' layers',
    (build .empty (twoQueries.withNodes twoQueries.nodes.reverse)).1 = .ok p' ∧
      p'.edges.Perm twoQueriesBuilt.edges ∧ p'.layers = .ok layers' ∧ layers'.length = 2 := by
  obtain ⟨hiff, hsame⟩ :=
    build_reordered .empty twoQueries twoQueries.nodes.reverse (List.reverse_perm _)
  obtain ⟨p', hp'⟩ := hiff.2 ⟨_, build_twoQueries⟩
  obtain ⟨-, -, hedges, -, hlayers⟩ := hsame _ p' build_twoQueries hp'
  obtain ⟨layers, layers', hl, hl', hperm⟩ := hlayers rfl
  cases hl
  exact ⟨p', layers', hp', hedges, hl', hperm.length_eq⟩

end Dataflow
