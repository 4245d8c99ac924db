import Dataflow.Proofs.Valid

/-!
# What a build makes

The edges of a pipeline are the first ones of every ends in the order of the walk through its
definition. `Pipeline.Linked p source` says so without the definition. As nodes differ in their ids
and the inputs of a node in their keys, an edge can only be dropped for one of the same input, so it
stands for the first of its queries that has this output and this source
(`Pipeline.Linked.mem_edges_iff`).
-/

namespace Dataflow

section
variable {r : Registry} {d : Definition} {p : Pipeline}

/-- **The edges of a pipeline** are the first ones of every ends among the edges of all queries, the
nodes in order, the inputs of each in ascending order and the queries of each input in order. So
every query is represented by an edge with its ends, every edge stands for a query, and no two edges
have the same ends. Nodes, parameters and deployment settings are as declared. -/
theorem edges_of_build (h : (build r d).1 = .ok p) :
    ∃ source, d.Sources source ∧ p.edges = Edge.firsts (d.walk source) ∧
      (∀ n ∈ d.nodes, ∀ c ∈ n.channels, ∃ e ∈ p.edges,
        e.ends = ((source c.2).id, c.2.output, n.id, c.1)) ∧
      (∀ e ∈ p.edges, ∃ n ∈ d.nodes, ∃ c ∈ n.channels,
        e = ⟨(source c.2).id, c.2.output, n.id, c.1, c.2⟩) ∧
      (p.edges.map Edge.ends).Nodup ∧
      p.nodes.map (fun n => (n.id, n.inputs, n.outputs)) =
        d.nodes.map (fun n => (n.id, n.inputs, n.outputs)) ∧
      p.parameters = d.parameters ∧ p.deployment = d.deployment := by
  obtain ⟨source, hs, rfl⟩ := eq_pipeline_of_build h
  refine ⟨source, hs, rfl, fun n hn c hc => ?_, fun e he => ?_, ?_, ?_, rfl, rfl⟩
  · exact Edge.exists_mem_firsts (Definition.mem_walk.2 ⟨n, hn, c, hc, rfl⟩)
  · exact Definition.mem_walk.1 ((Edge.firsts_sublist _).subset he)
  · exact Edge.nodup_ends_firsts _
  · show (d.nodes.map _).map _ = _
    rw [List.map_map]
    rfl

end

/-- A node with two queries for one output, of which the second one also asks for a context. -/
def twoQueries : Definition where
  id := "p"
  mode := .sync
  contexts := []
  parameters := []
  nodes := [
    ⟨"a", [⟨"run", .int 1⟩], .ofList [("out", ⟨"T", .empty⟩)], .empty⟩,
    ⟨"b", [], .empty, .ofList [("in",
      [⟨some "a", [], "T", "out"⟩, ⟨some "a", [⟨"run", .int 1⟩], "T", "out"⟩])]⟩]
  deployment := .empty

/-- Its pipeline has one edge, which stands for the first query. -/
def twoQueriesBuilt : Pipeline where
  id := "p"
  mode := .sync
  instances := [⟨0, ⟨"run", .int 1⟩⟩]
  parameters := []
  nodes := twoQueries.bound
  edges := [⟨"a", "out", "b", "in", ⟨some "a", [], "T", "out"⟩⟩]
  deployment := .empty

theorem build_twoQueries : (build .empty twoQueries).1 = .ok twoQueriesBuilt := by
  rfl

theorem edges_of_build_twoQueries : ∃ source, twoQueries.Sources source ∧
    twoQueriesBuilt.edges = Edge.firsts (twoQueries.walk source) ∧
      (twoQueries.walk source).length = 2 := by
  obtain ⟨source, hs, hwalk, -⟩ := edges_of_build build_twoQueries
  exact ⟨source, hs, hwalk, rfl⟩

/-! ## Edges of different inputs -/

namespace Edge

variable {α : Type}

/-- Lists of edges that join different ends can be gone through apart. -/
theorem firsts_append : ∀ {l m : List Edge}, (∀ e ∈ l, ∀ o ∈ m, o.ends ≠ e.ends) →
    firsts (l ++ m) = firsts l ++ firsts m
  | [], _, _ => rfl
  | e :: l, m, h => by
    obtain ⟨he, hl⟩ := List.forall_mem_cons.1 h
    rw [List.cons_append, firsts, firsts, firsts_append hl, List.filter_append, List.cons_append]
    have hm : (firsts m).filter (fun o => o.ends ≠ e.ends) = firsts m :=
      List.filter_eq_self.2 fun o ho => decide_eq_true (he o ((firsts_sublist m).subset ho))
    rw [hm]

theorem firsts_flatMap {f : α → List Edge} : ∀ {l : List α},
    l.Pairwise (fun a b => ∀ e ∈ f a, ∀ o ∈ f b, o.ends ≠ e.ends) →
      firsts (l.flatMap f) = l.flatMap fun a => firsts (f a)
  | [], _ => rfl
  | a :: l, h => by
    obtain ⟨ha, hl⟩ := List.pairwise_cons.1 h
    rw [List.flatMap_cons, List.flatMap_cons, firsts_append, firsts_flatMap hl]
    intro e he o ho
    obtain ⟨b, hb, ho⟩ := List.mem_flatMap.1 ho
    exact ha b hb e he o ho

theorem mem_firsts_map_iff {f : α → Edge} {l : List α} {e : Edge} :
    e ∈ firsts (l.map f) ↔ ∃ before a after, l = before ++ a :: after ∧ e = f a ∧
      ∀ b ∈ before, (f b).ends ≠ (f a).ends := by
  rw [mem_firsts_iff]
  constructor
  · rintro ⟨before, after, hl, hb⟩
    obtain ⟨l₁, l₂, rfl, rfl, h₂⟩ := List.map_eq_append_iff.1 hl
    obtain ⟨a, l₃, rfl, rfl, rfl⟩ := List.map_eq_cons_iff.1 h₂
    exact ⟨l₁, a, l₃, rfl, rfl, fun b hm => hb (f b) (List.mem_map_of_mem hm)⟩
  · rintro ⟨before, a, after, rfl, rfl, hb⟩
    refine ⟨before.map f, after.map f, by rw [List.map_append, List.map_cons], fun o ho => ?_⟩
    obtain ⟨b, hm, rfl⟩ := List.mem_map.1 ho
    exact hb b hm

end Edge

/-! ## Pipelines by themselves -/

namespace Node

/-- The edge of a query, given the source of every query. -/
def edge (source : Query → Node) (n : Node) (input : String) (q : Query) : Edge :=
  ⟨(source q).id, q.output, n.id, input, q⟩

/-- The edges of all queries of a node. -/
def edges (source : Query → Node) (n : Node) : List Edge :=
  n.inputs.entries.flatMap fun i => i.2.map (n.edge source i.1)

variable {source : Query → Node} {n : Node} {e : Edge}

theorem mem_channels_iff {input : String} {q : Query} :
    (input, q) ∈ n.channels ↔ ∃ queries, n.inputs.get? input = some queries ∧ q ∈ queries := by
  unfold channels channelsOf
  rw [List.mem_flatMap]
  constructor
  · rintro ⟨⟨key, queries⟩, hm, hq⟩
    obtain ⟨q, hq, he⟩ := List.mem_map.1 hq
    cases he
    exact ⟨queries, KeyMap.get?_eq_some_iff.2 hm, hq⟩
  · rintro ⟨queries, hg, hq⟩
    exact ⟨(input, queries), KeyMap.get?_eq_some_iff.1 hg, List.mem_map_of_mem hq⟩

theorem mem_edges_iff :
    e ∈ n.edges source ↔ ∃ c ∈ n.channels, e = n.edge source c.1 c.2 := by
  unfold edges channels channelsOf
  rw [List.mem_flatMap]
  constructor
  · rintro ⟨i, hi, he⟩
    obtain ⟨q, hq, rfl⟩ := List.mem_map.1 he
    exact ⟨(i.1, q), List.mem_flatMap.2 ⟨i, hi, List.mem_map_of_mem hq⟩, rfl⟩
  · rintro ⟨c, hc, rfl⟩
    obtain ⟨i, hi, hc⟩ := List.mem_flatMap.1 hc
    obtain ⟨q, hq, rfl⟩ := List.mem_map.1 hc
    exact ⟨i, hi, List.mem_map_of_mem hq⟩

theorem edge_ends_ne_iff {input : String} {o q : Query} :
    (n.edge source input o).ends ≠ (n.edge source input q).ends ↔
      (o.output = q.output → (source o).id ≠ (source q).id) := by
  unfold edge Edge.ends
  simp only [ne_eq, Prod.mk.injEq, and_true]
  exact ⟨fun h ho hs => h ⟨hs, ho⟩, fun h ⟨hs, ho⟩ => h ho hs⟩

/-- Of the edges of a node one is kept for every input, output and source: that of the first
query. -/
theorem mem_firsts_edges_iff :
    e ∈ Edge.firsts (n.edges source) ↔ ∃ input before q after,
      n.inputs.get? input = some (before ++ q :: after) ∧ e = n.edge source input q ∧
        ∀ o ∈ before, o.output = q.output → (source o).id ≠ (source q).id := by
  have hinputs : n.inputs.entries.Pairwise fun i j => ∀ e ∈ i.2.map (n.edge source i.1),
      ∀ o ∈ j.2.map (n.edge source j.1), o.ends ≠ e.ends := by
    refine n.inputs.ascending.imp fun {i j} hlt e he o ho hends => ?_
    obtain ⟨q, -, rfl⟩ := List.mem_map.1 he
    obtain ⟨q', -, rfl⟩ := List.mem_map.1 ho
    have hkey : j.1 = i.1 := congrArg (·.2.2.2) hends
    exact String.lt_irrefl i.1 (hkey ▸ hlt)
  unfold edges
  rw [Edge.firsts_flatMap hinputs, List.mem_flatMap]
  constructor
  · rintro ⟨⟨input, queries⟩, hm, he⟩
    obtain ⟨before, q, after, rfl, rfl, hb⟩ := Edge.mem_firsts_map_iff.1 he
    exact ⟨input, before, q, after, KeyMap.get?_eq_some_iff.2 hm, rfl,
      fun o ho => edge_ends_ne_iff.1 (hb o ho)⟩
  · rintro ⟨input, before, q, after, hg, rfl, hb⟩
    exact ⟨(input, before ++ q :: after), KeyMap.get?_eq_some_iff.1 hg,
      Edge.mem_firsts_map_iff.2 ⟨before, q, after, rfl, rfl,
        fun o ho => edge_ends_ne_iff.2 (hb o ho)⟩⟩

end Node

namespace Pipeline

/-- Every query of a pipeline has another node as its source, and the edges are the first ones of
every ends among those of all queries. -/
structure Linked (p : Pipeline) (source : Query → Node) : Prop where
  ids : (p.nodes.map (·.id)).Nodup
  sources : ∀ n ∈ p.nodes, ∀ c ∈ n.channels, Node.Source p.nodes c.2 (source c.2)
  others : ∀ n ∈ p.nodes, ∀ c ∈ n.channels, (source c.2).id ≠ n.id
  edges : p.edges = Edge.firsts (p.nodes.flatMap (·.edges source))

/-- The pipeline of a valid definition is linked by the nodes that the sources become. -/
theorem linked_of_valid {r : Registry} {d : Definition} {source : Query → NodeDeclaration}
    (hv : d.Valid r) (hs : d.Sources source) :
    (d.pipeline source).Linked fun q => d.bind (source q) := by
  refine ⟨?_, ?_, ?_, ?_⟩
  · show (d.bound.map (·.id)).Nodup
    rw [Definition.ids_bound]
    exact hv.ids
  · refine List.forall_mem_map.2 fun n hn c hc => ?_
    exact (hs n hn c hc).bound
  · refine List.forall_mem_map.2 fun n hn c hc hid => ?_
    obtain ⟨-, p, hp, hne⟩ := hv.channels n hn c hc
    have hsrc := hs n hn c hc
    exact hne (hsrc.unique hp ▸ Definition.eq_of_id_eq hv.ids hsrc.mem hn hid)
  · show Edge.firsts (d.walk source) = Edge.firsts (d.bound.flatMap _)
    unfold Definition.walk Definition.bound
    rw [List.flatMap_map]
    refine congrArg _ (List.flatMap_congr fun n _ => ?_)
    unfold NodeDeclaration.channels channelsOf
    rw [List.map_flatMap]
    refine List.flatMap_congr fun i _ => ?_
    rw [List.map_map]
    rfl

theorem linked_of_build {r : Registry} {d : Definition} {p : Pipeline}
    (h : (build r d).1 = .ok p) : ∃ source, p.Linked source := by
  obtain ⟨source, hs, rfl⟩ := eq_pipeline_of_build h
  exact ⟨_, linked_of_valid (valid_of_build h) hs⟩

section
variable {p : Pipeline} {source : Query → Node} (h : p.Linked source)
include h

/-- An edge stands for the first query of an input that has its output and its source. -/
theorem Linked.mem_edges_iff {e : Edge} :
    e ∈ p.edges ↔ ∃ n ∈ p.nodes, ∃ input before q after,
      n.inputs.get? input = some (before ++ q :: after) ∧ e = n.edge source input q ∧
        ∀ o ∈ before, o.output = q.output → (source o).id ≠ (source q).id := by
  have hnodes : p.nodes.Pairwise fun m n => ∀ e ∈ m.edges source, ∀ o ∈ n.edges source,
      o.ends ≠ e.ends := by
    refine (List.pairwise_map.1 h.ids).imp fun {m n} hne e he o ho hends => ?_
    obtain ⟨c, -, rfl⟩ := Node.mem_edges_iff.1 he
    obtain ⟨c', -, rfl⟩ := Node.mem_edges_iff.1 ho
    exact hne (congrArg (·.2.2.1) hends).symm
  rw [h.edges, Edge.firsts_flatMap hnodes, List.mem_flatMap]
  exact exists_congr fun n => and_congr_right fun _ => Node.mem_firsts_edges_iff

theorem Linked.exists_channel {e : Edge} (he : e ∈ p.edges) :
    ∃ n ∈ p.nodes, ∃ c ∈ n.channels, e = n.edge source c.1 c.2 := by
  rw [h.edges] at he
  obtain ⟨n, hn, he⟩ := List.mem_flatMap.1 ((Edge.firsts_sublist _).subset he)
  exact ⟨n, hn, Node.mem_edges_iff.1 he⟩

theorem Linked.joining : Edge.Joining p.nodes p.edges := by
  refine ⟨fun e he => ?_, fun e he => ?_, fun e he => ?_⟩ <;>
    obtain ⟨n, hn, c, hc, rfl⟩ := h.exists_channel he
  · exact ⟨source c.2, (h.sources n hn c hc).mem, rfl⟩
  · exact ⟨n, hn, rfl⟩
  · exact h.others n hn c hc

end

end Pipeline

end Dataflow
