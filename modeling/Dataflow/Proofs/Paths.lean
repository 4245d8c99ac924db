import Dataflow.Pipeline.Closure
import Dataflow.Pipeline.Order
import Dataflow.Proofs.Edges
import Dataflow.Proofs.KeyMap

/-!
# Paths of a pipeline

`Pipeline.Sound p`: ids are not repeated, and edges join different nodes. The consumers of a node
are then the nodes that an edge leads to, and its producers those that an edge comes from
(`Pipeline.mem_consumers_iff`, `Pipeline.mem_producers_iff`). The two closures have the nodes that a
path of edges leads to and those that one comes from (`Pipeline.dependentClosure_spec`,
`Pipeline.dependencyClosure_spec`).
-/

namespace Dataflow

open Relation

/-! ## Sorted ids -/

theorem mem_sortedIds {ids : List String} {id : String} : id ∈ sortedIds ids ↔ id ∈ ids := by
  unfold sortedIds KeyMap.ofList
  rw [KeyMap.mem_keys_foldl_insert, List.map_map]
  simp [Function.comp_def, KeyMap.empty, KeyMap.keys]

/-- The closure of ids inside a list of them, with the length of that list as the bound. -/
theorem mem_idClosure? {next : String → List String} {initial univ : List String}
    (hi : ∀ a ∈ initial, a ∈ univ) (hc : ∀ a ∈ univ, ∀ b ∈ next a, b ∈ univ) {b : String} :
    b ∈ (idClosure? next univ.length initial).getD [] ↔ Reached next initial b := by
  obtain ⟨l, hl, hm⟩ := closure?_within hi hc
  unfold idClosure?
  rw [hl, Option.map_some, Option.getD_some, mem_sortedIds, hm]

/-! ## First failures -/

theorem find?_eq_some_iff_first {α : Type} {l : List α} {test : α → Bool} {P : α → Prop}
    (h : ∀ a ∈ l, test a = true ↔ ¬ P a) {a : α} :
    l.find? test = some a ↔
      ∃ before after, l = before ++ a :: after ∧ (∀ b ∈ before, P b) ∧ ¬ P a := by
  rw [List.find?_eq_some_iff_append]
  constructor
  · rintro ⟨ha, before, after, rfl, hbefore⟩
    refine ⟨before, after, rfl, fun b hb => ?_, (h a (by simp)).1 ha⟩
    have hpass : ¬ test b = true := by simpa using hbefore b hb
    exact not_not.1 (mt (h b (by simp [hb])).2 hpass)
  · rintro ⟨before, after, rfl, hbefore, ha⟩
    refine ⟨(h a (by simp)).2 ha, before, after, rfl, fun b hb => ?_⟩
    simpa using mt (h b (by simp [hb])).1 (not_not.2 (hbefore b hb))

namespace Pipeline

/-- Ids are not repeated, and edges join different nodes. -/
structure Sound (p : Pipeline) : Prop where
  ids : (p.nodes.map (·.id)).Nodup
  joining : Edge.Joining p.nodes p.edges

/-! ## Neighbours -/

theorem contains_iff {p : Pipeline} {id : String} :
    p.contains id = true ↔ ∃ n ∈ p.nodes, n.id = id :=
  Node.isSome_position?_iff

theorem mem_nodesAt {p : Pipeline} {positions : List Nat} {n : Node} :
    n ∈ p.nodesAt positions ↔ ∃ i ∈ positions, p.nodes[i]? = some n := by
  unfold nodesAt
  simp only [List.mem_filterMap, mem_collapse_sorted]

theorem nodesInOrder_range (p : Pipeline) :
    p.nodesInOrder (List.range p.nodes.length) = p.nodes := by
  have hat : ∀ c ∈ p.nodes.zipIdx, p.nodes[c.2]? = some c.1 := fun c hc =>
    List.mk_mem_zipIdx_iff_getElem?.1 hc
  unfold nodesInOrder
  rw [List.range_eq_range', ← List.zipIdx_map_snd 0 p.nodes, List.filterMap_map]
  refine (List.filterMap_congr hat).trans ?_
  rw [List.filterMap_eq_map', List.zipIdx_map_fst]

/-- Sorting and collapsing positions leaves those of all nodes that are among them. -/
theorem nodesAt_eq (p : Pipeline) (positions : List Nat) :
    p.nodesAt positions =
      p.nodesInOrder ((List.range p.nodes.length).filter fun i => i ∈ positions) := by
  have hinside : (collapse (sorted (· ≤ ·) positions)).filter (fun i => i < p.nodes.length) =
      (List.range p.nodes.length).filter fun i => i ∈ positions := by
    refine ((collapse_sorted_pairwise positions).filter _).eq_of_mem_iff
      (List.pairwise_lt_range.filter _) fun i => ?_
    simp only [List.mem_filter, mem_collapse_sorted, List.mem_range, decide_eq_true_eq, and_comm]
  unfold nodesAt nodesInOrder
  rw [← hinside, List.filterMap_filter]
  refine List.filterMap_congr fun i _ => ?_
  by_cases h : i < p.nodes.length
  · simp [h]
  · simp [h]

theorem nodesAt_sublist (p : Pipeline) (positions : List Nat) :
    (p.nodesAt positions).Sublist p.nodes := by
  have hsub : (p.nodesInOrder ((List.range p.nodes.length).filter fun i => i ∈ positions)).Sublist
      (p.nodesInOrder (List.range p.nodes.length)) := List.filter_sublist.filterMap _
  rwa [← nodesAt_eq, nodesInOrder_range] at hsub

section
variable {p : Pipeline} (hp : p.Sound)
include hp

theorem mem_nodesAt_position {edges : List Edge} {side : Edge → String} {n : Node} :
    n ∈ p.nodesAt (edges.filterMap fun e => p.position? (side e)) ↔
      n ∈ p.nodes ∧ ∃ e ∈ edges, side e = n.id := by
  rw [mem_nodesAt]
  constructor
  · rintro ⟨i, hi, hn⟩
    obtain ⟨e, he, hpos⟩ := List.mem_filterMap.1 hi
    obtain ⟨m, hm, hid⟩ := Node.getElem?_of_position? hpos
    rw [hn] at hm
    cases hm
    exact ⟨List.mem_of_getElem? hn, e, he, hid.symm⟩
  · rintro ⟨hn, e, he, hid⟩
    obtain ⟨i, hi⟩ := List.mem_iff_getElem?.1 hn
    have hpos := (Node.position?_eq_some_iff hp.ids).2 ⟨n, hi, hid.symm⟩
    exact ⟨i, List.mem_filterMap.2 ⟨e, he, hpos⟩, hi⟩

/-- The consumers of a node are the nodes that an edge leads to. -/
theorem mem_consumers_iff {id : String} {n : Node} :
    n ∈ p.consumers id ↔ n ∈ p.nodes ∧ Edge.Leads p.edges id n.id := by
  unfold consumers edgesFrom
  rw [mem_nodesAt_position hp]
  simp only [List.mem_filter, decide_eq_true_eq, and_assoc, Edge.Leads]

/-- The producers of a node are the nodes that an edge comes from. -/
theorem mem_producers_iff {id : String} {n : Node} :
    n ∈ p.producers id ↔ n ∈ p.nodes ∧ Edge.Leads p.edges n.id id := by
  unfold producers edgesInto
  rw [mem_nodesAt_position hp]
  simp only [List.mem_filter, decide_eq_true_eq, and_assoc, Edge.Leads, and_comm]

variable {a b : String}

theorem Sound.exists_producer (h : Edge.Leads p.edges a b) : ∃ n ∈ p.nodes, n.id = a := by
  obtain ⟨e, he, rfl, -⟩ := h
  exact hp.joining.producer e he

theorem Sound.exists_consumer (h : Edge.Leads p.edges a b) : ∃ n ∈ p.nodes, n.id = b := by
  obtain ⟨e, he, -, rfl⟩ := h
  exact hp.joining.consumer e he

/-- Nodes that an edge joins stand at positions that an arc joins. -/
theorem Sound.arc_of_getElem? {i j : Nat} {m n : Node} (hi : p.nodes[i]? = some m)
    (hj : p.nodes[j]? = some n) (h : Edge.Leads p.edges m.id n.id) : p.graph.Arc i j := by
  obtain ⟨e, he, hm, hn⟩ := h
  have hposition := fun (k : Nat) (n : Node) (hk : p.nodes[k]? = some n) =>
    (Node.position?_eq_some_iff hp.ids).2 ⟨n, hk, rfl⟩
  exact arc_dependencyGraph.2 ⟨e, he, hm ▸ hposition i m hi, hn ▸ hposition j n hj⟩

omit hp in
/-- What is said of ids of nodes alone is said of the ids in a list of the nodes it holds of. -/
theorem mem_map_id_iff {l : List Node} {P : String → Prop}
    (hl : ∀ n, n ∈ l ↔ n ∈ p.nodes ∧ P n.id) (hP : ∀ b, P b → ∃ n ∈ p.nodes, n.id = b) :
    a ∈ l.map (·.id) ↔ P a := by
  rw [List.mem_map]
  refine ⟨fun h => ?_, fun h => ?_⟩
  · obtain ⟨n, hn, rfl⟩ := h
    exact ((hl n).1 hn).2
  · obtain ⟨n, hn, rfl⟩ := hP a h
    exact ⟨n, (hl n).2 ⟨hn, h⟩, rfl⟩

theorem Sound.mem_producers_id_iff :
    a ∈ (p.producers b).map (·.id) ↔ Edge.Leads p.edges a b :=
  mem_map_id_iff (fun _ => mem_producers_iff hp) fun _ => hp.exists_producer

theorem Sound.mem_consumers_id_iff :
    b ∈ (p.consumers a).map (·.id) ↔ Edge.Leads p.edges a b :=
  mem_map_id_iff (fun _ => mem_consumers_iff hp) fun _ => hp.exists_consumer

end

/-! ## Closures -/

section
variable {p : Pipeline}

theorem checkKnown_eq_ok_iff {ids : List String} :
    p.checkKnown ids = .ok () ↔ ∀ id ∈ ids, ∃ n ∈ p.nodes, n.id = id := by
  have hnone : (ids.find? fun id => !p.contains id) = none ↔
      ∀ id ∈ ids, ∃ n ∈ p.nodes, n.id = id := by
    rw [List.find?_eq_none]
    refine forall₂_congr fun id _ => ?_
    rw [Bool.not_eq_true', Bool.not_eq_false, contains_iff]
  rw [← hnone]
  unfold checkKnown
  cases ids.find? fun id => !p.contains id <;> simp

/-- The nodes of a closure are those that steps from the given ids lead to. -/
theorem mem_closed {step : String → List Node} {r : String → String → Prop} {ids : List String}
    (hi : ∀ id ∈ ids, ∃ m ∈ p.nodes, m.id = id)
    (hstep : ∀ a n, n ∈ step a ↔ n ∈ p.nodes ∧ r a n.id)
    (hr : ∀ a b, r a b → ∃ m ∈ p.nodes, m.id = b) {n : Node} :
    n ∈ p.closed step ids ↔ n ∈ p.nodes ∧ ∃ a ∈ ids, ReflTransGen r a n.id := by
  have hids : (fun a b => b ∈ (step a).map (·.id)) = r := by
    funext a b
    exact propext (mem_map_id_iff (hstep a) (hr a))
  have hlen : p.nodes.length = (p.nodes.map (·.id)).length := by rw [List.length_map]
  unfold closed nodesAmong
  rw [List.mem_filter, List.contains_iff_mem, hlen, mem_idClosure?, Reached, hids]
  · exact fun a ha => List.mem_map.2 (hi a ha)
  · intro a _ b hb
    exact List.mem_map.2 (hr a b (hids ▸ hb))

variable (hp : p.Sound) {ids : List String} (hi : ∀ id ∈ ids, ∃ m ∈ p.nodes, m.id = id)
include hp hi

theorem mem_closed_consumers {n : Node} :
    n ∈ p.closed p.consumers ids ↔
      n ∈ p.nodes ∧ ∃ a ∈ ids, ReflTransGen (Edge.Leads p.edges) a n.id :=
  mem_closed hi (fun _ _ => mem_consumers_iff hp) fun _ _ => hp.exists_consumer

theorem mem_closed_producers {n : Node} :
    n ∈ p.closed p.producers ids ↔
      n ∈ p.nodes ∧ ∃ b ∈ ids, ReflTransGen (Edge.Leads p.edges) n.id b := by
  have hswap : ∀ a b, Function.swap (Edge.Leads p.edges) a b → ∃ m ∈ p.nodes, m.id = b :=
    fun _ _ => hp.exists_producer
  rw [mem_closed hi (fun a n => mem_producers_iff hp) hswap]
  simp only [reflTransGen_swap]

/-- **The dependents** of some nodes are the nodes that paths from them lead to. -/
theorem dependentClosure_spec : ∃ l, p.dependentClosure ids = .ok l ∧
    ∀ n, n ∈ l ↔ n ∈ p.nodes ∧ ∃ a ∈ ids, ReflTransGen (Edge.Leads p.edges) a n.id := by
  refine ⟨p.closed p.consumers ids, ?_, fun n => mem_closed_consumers hp hi⟩
  unfold dependentClosure
  rw [checkKnown_eq_ok_iff.2 hi]
  rfl

/-- **The dependencies** of some nodes are the nodes that paths to them come from. -/
theorem dependencyClosure_spec : ∃ l, p.dependencyClosure ids = .ok l ∧
    ∀ n, n ∈ l ↔ n ∈ p.nodes ∧ ∃ b ∈ ids, ReflTransGen (Edge.Leads p.edges) n.id b := by
  refine ⟨p.closed p.producers ids, ?_, fun n => mem_closed_producers hp hi⟩
  unfold dependencyClosure
  rw [checkKnown_eq_ok_iff.2 hi]
  rfl

end

end Pipeline

end Dataflow
