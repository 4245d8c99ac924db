import Dataflow.Proofs.Edges

/-!
# The cycles that are reported

Ids may be repeated here, and edges may lead from and to ids that no node has, or from a node to
itself. `Edge.Walk nodes edges i es j`: the edges `es` lead from the node at `i` to that at `j`,
where the last node with an id owns it (`Node.Owns`). Walks are the paths of the dependency graph
(`Edge.exists_walk_iff`), so what is reported are the maximal sets of two or more nodes with walks
from each to each. An `Edge.Cycle` is a walk that returns to its start and leaves no node twice;
nothing is reported exactly if every cycle is an edge from a node to itself
(`check_reports_components`).
-/

namespace Dataflow

open Relation

/-! ## The nodes that own ids -/

namespace Node

/-- The last node with an id owns it. -/
def Owns (nodes : List Node) (i : Nat) (id : String) : Prop :=
  (∃ n, nodes[i]? = some n ∧ n.id = id) ∧ ∀ j n, nodes[j]? = some n → n.id = id → j ≤ i

section
variable {nodes : List Node} {i j : Nat} {id : String}

theorem Owns.unique (h : Owns nodes i id) (h' : Owns nodes j id) : i = j := by
  obtain ⟨⟨m, hm, hmid⟩, hlast⟩ := h
  obtain ⟨⟨n, hn, hnid⟩, hlast'⟩ := h'
  exact Nat.le_antisymm (hlast' i m hm hmid) (hlast j n hn hnid)

theorem Owns.id_eq {id' : String} (h : Owns nodes i id) (h' : Owns nodes i id') : id = id' := by
  obtain ⟨⟨m, hm, rfl⟩, -⟩ := h
  obtain ⟨⟨n, hn, rfl⟩, -⟩ := h'
  rw [Option.some.inj (hm.symm.trans hn)]

theorem le_of_position? {n : Node} : ∀ {nodes : List Node} {i j : Nat},
    position? id nodes = some i → nodes[j]? = some n → n.id = id → j ≤ i
  | [], _, _, h, _, _ => by cases h
  | m :: nodes, i, j, h, hn, hid => by
    cases j with
    | zero => exact Nat.zero_le i
    | succ j =>
      rw [List.getElem?_cons_succ] at hn
      have hsome := isSome_position?_iff.2 ⟨n, List.mem_of_getElem? hn, hid⟩
      obtain ⟨k, hk⟩ := Option.isSome_iff_exists.1 hsome
      have hjk := le_of_position? hk hn hid
      unfold position? at h
      rw [hk] at h
      cases h
      omega

/-- An id is found at the position of its owner. -/
theorem position?_eq_some_iff_owns : position? id nodes = some i ↔ Owns nodes i id := by
  have howns : ∀ {k}, position? id nodes = some k → Owns nodes k id := fun hk =>
    ⟨getElem?_of_position? hk, fun _ _ => le_of_position? hk⟩
  refine ⟨howns, fun h => ?_⟩
  obtain ⟨n, hn, hid⟩ := h.1
  obtain ⟨k, hk⟩ := Option.isSome_iff_exists.1
    (isSome_position?_iff.2 ⟨n, List.mem_of_getElem? hn, hid⟩)
  rw [hk, (howns hk).unique h]

end

end Node

/-! ## Walks -/

namespace Edge

/-- Edges lead from one node to another, each from the owner of its producer to that of its
consumer. -/
inductive Walk (nodes : List Node) (edges : List Edge) : Nat → List Edge → Nat → Prop
  | nil (i : Nat) : Walk nodes edges i [] i
  | cons {i j k : Nat} {e : Edge} {es : List Edge} (he : e ∈ edges)
    (hi : Node.Owns nodes i e.producer) (hj : Node.Owns nodes j e.consumer)
    (h : Walk nodes edges j es k) : Walk nodes edges i (e :: es) k

section
variable {nodes : List Node} {edges : List Edge} {i j k : Nat} {es es' : List Edge} {e : Edge}

theorem arc_iff_owns : (dependencyGraph nodes edges).Arc i j ↔
    ∃ e ∈ edges, Node.Owns nodes i e.producer ∧ Node.Owns nodes j e.consumer := by
  simp only [arc_dependencyGraph, Node.position?_eq_some_iff_owns]

theorem Walk.append (h : Walk nodes edges i es j) (h' : Walk nodes edges j es' k) :
    Walk nodes edges i (es ++ es') k := by
  induction h with
  | nil => exact h'
  | cons he hi hj _ ih => exact .cons he hi hj (ih h')

theorem Walk.split : ∀ {es : List Edge} {i : Nat}, Walk nodes edges i (es ++ es') k →
    ∃ j, Walk nodes edges i es j ∧ Walk nodes edges j es' k
  | [], i, h => ⟨i, .nil i, h⟩
  | _ :: _, _, .cons he hi hj h => by
    obtain ⟨j, hes, hes'⟩ := h.split
    exact ⟨j, .cons he hi hj hes, hes'⟩

theorem Walk.owns (h : Walk nodes edges i (e :: es) k) : Node.Owns nodes i e.producer := by
  cases h with
  | cons _ hi _ _ => exact hi

/-- **Walks** are the paths of the dependency graph. -/
theorem exists_walk_iff : (∃ es, Walk nodes edges i es j) ↔
    ReflTransGen (dependencyGraph nodes edges).Arc i j := by
  constructor
  · rintro ⟨es, h⟩
    induction h with
    | nil => exact .refl
    | cons he hi hj _ ih => exact .head (arc_iff_owns.2 ⟨_, he, hi, hj⟩) ih
  · intro h
    induction h using ReflTransGen.head_induction_on with
    | refl => exact ⟨[], .nil j⟩
    | head harc _ ih =>
      obtain ⟨e, he, hi, hk⟩ := arc_iff_owns.1 harc
      obtain ⟨es, h⟩ := ih
      exact ⟨e :: es, .cons he hi hk h⟩

theorem Walk.between (h : Walk nodes edges i es k) (he : e ∈ es) :
    ∃ v w, Node.Owns nodes v e.producer ∧ Node.Owns nodes w e.consumer ∧ e ∈ edges ∧
      (∃ es, Walk nodes edges i es v) ∧ ∃ es, Walk nodes edges w es k := by
  obtain ⟨before, after, rfl⟩ := List.append_of_mem he
  obtain ⟨v, hbefore, h⟩ := h.split
  cases h with
  | cons he hv hw hafter => exact ⟨v, _, hv, hw, he, ⟨before, hbefore⟩, after, hafter⟩

theorem Walk.eq_of_loops (h : Walk nodes edges i es j) (hl : ∀ e ∈ es, e.producer = e.consumer) :
    i = j := by
  induction h with
  | nil => rfl
  | cons _ hi hj _ ih =>
    obtain ⟨he, hl⟩ := List.forall_mem_cons.1 hl
    obtain rfl := hi.unique (he ▸ hj)
    exact ih hl

/-- Nodes that reach each other are the same exactly if only edges from a node to itself are on a
walk that returns to its start. -/
theorem eq_of_walks_iff :
    (∀ i j, (∃ es, Walk nodes edges i es j) → (∃ es, Walk nodes edges j es i) → i = j) ↔
      ∀ i es, Walk nodes edges i es i → ∀ e ∈ es, e.producer = e.consumer := by
  constructor
  · intro h i es hes e he
    obtain ⟨v, w, hv, hw, hee, ⟨before, hb⟩, after, ha⟩ := hes.between he
    have hvw : v = w := h v w ⟨[e], .cons hee hv hw (.nil w)⟩ ⟨after ++ before, ha.append hb⟩
    exact hv.id_eq (hvw ▸ hw)
  · rintro h i j ⟨es, hes⟩ ⟨es', hes'⟩
    exact hes.eq_of_loops fun e he => h i _ (hes.append hes') e (List.mem_append_left es' he)

/-! ## Cycles -/

/-- Edges along a cycle: they return to their start and leave no node twice. -/
structure Cycle (nodes : List Node) (edges es : List Edge) : Prop where
  nonempty : es ≠ []
  closed : ∃ i, Walk nodes edges i es i
  nodup : (es.map (·.producer)).Nodup

/-- A cycle of edges from a node to itself is one edge, as the next would leave the same node. -/
theorem Cycle.eq_singleton (h : Cycle nodes edges es) (hl : ∀ e ∈ es, e.producer = e.consumer) :
    ∃ e, es = [e] := by
  obtain ⟨i, hw⟩ := h.closed
  cases hw with
  | nil => exact absurd rfl h.nonempty
  | @cons _ _ _ e rest _ hi hj hrest =>
    cases rest with
    | nil => exact ⟨e, rfl⟩
    | cons f rest =>
      obtain rfl := hi.unique (hl e List.mem_cons_self ▸ hj)
      have hsame : e.producer = f.producer := hi.id_eq hrest.owns
      exact absurd (List.mem_cons.2 (.inl hsame)) (List.nodup_cons.1 h.nodup).1

/-- Edges that leave a node twice have a first and a second one that do. -/
theorem exists_append_of_not_nodup : ∀ {es : List Edge}, ¬ (es.map (·.producer)).Nodup →
    ∃ before e between f after, es = before ++ (e :: between ++ f :: after) ∧
      e.producer = f.producer
  | [], h => absurd List.nodup_nil h
  | e :: es, h => by
    by_cases hmem : e.producer ∈ es.map (·.producer)
    · obtain ⟨f, hf, hfe⟩ := List.mem_map.1 hmem
      obtain ⟨between, after, rfl⟩ := List.append_of_mem hf
      exact ⟨[], e, between, f, after, rfl, hfe.symm⟩
    · have hes : ¬ (es.map (·.producer)).Nodup := fun hes => h (List.nodup_cons.2 ⟨hmem, hes⟩)
      obtain ⟨before, d, between, f, after, rfl, hdf⟩ := exists_append_of_not_nodup hes
      exact ⟨e :: before, d, between, f, after, rfl, hdf⟩

/-- **If every cycle is a loop**, only loops are on a walk that returns to its start: it is a cycle,
or two shorter walks that return to their starts. -/
theorem Walk.loops (hc : ∀ es, Cycle nodes edges es → ∃ e, es = [e] ∧ e.producer = e.consumer)
    (h : Walk nodes edges i es i) : ∀ e ∈ es, e.producer = e.consumer := by
  induction hlen : es.length using Nat.strong_induction_on generalizing i es with
  | h len ih =>
    intro e he
    by_cases hnodup : (es.map (·.producer)).Nodup
    · obtain ⟨f, rfl, hf⟩ := hc es ⟨List.ne_nil_of_mem he, ⟨i, h⟩, hnodup⟩
      rwa [List.mem_singleton.1 he]
    · obtain ⟨before, x, between, y, after, rfl, hxy⟩ := exists_append_of_not_nodup hnodup
      obtain ⟨v, hbefore, h⟩ := h.split
      obtain ⟨w, hbetween, hafter⟩ := h.split
      obtain rfl : v = w := hbetween.owns.unique (hxy ▸ hafter.owns)
      simp only [List.length_append, List.length_cons] at hlen
      have hmem : e ∈ x :: between ∨ e ∈ before ++ y :: after := by
        simp only [List.mem_append] at he ⊢
        tauto
      rcases hmem with he | he
      · exact ih _ (by simp only [List.length_cons]; omega) hbetween rfl e he
      · exact ih _ (by simp only [List.length_append, List.length_cons]; omega)
          (hbefore.append hafter) rfl e he

theorem cycles_iff :
    (∀ es, Cycle nodes edges es → ∃ e, es = [e] ∧ e.producer = e.consumer) ↔
      ∀ i es, Walk nodes edges i es i → ∀ e ∈ es, e.producer = e.consumer := by
  refine ⟨fun hc i es h => h.loops hc, fun hl es h => ?_⟩
  obtain ⟨i, hw⟩ := h.closed
  obtain ⟨e, rfl⟩ := h.eq_singleton (hl i es hw)
  exact ⟨e, rfl, hl i _ hw e (List.mem_singleton_self e)⟩

/-! ## Components -/

/-- Nodes of which a walk leads from each to each. -/
def Mutual (nodes : List Node) (edges : List Edge) (s : Set Nat) : Prop :=
  (∀ i ∈ s, i < nodes.length) ∧ ∀ i ∈ s, ∀ j ∈ s, ∃ es, Walk nodes edges i es j

/-- **The components of the dependency graph** are the maximal sets of two or more nodes that reach
each other. -/
theorem mem_cyclic_iff {members : List Nat} :
    members ∈ CyclePolicy.cyclic (dependencyGraph nodes edges).components ↔
      members.Pairwise (· < ·) ∧ 1 < members.length ∧
        Maximal (Mutual nodes edges) {i | i ∈ members} := by
  classical
  have hmutual : Dataflow.Mutual (dependencyGraph nodes edges).vertices
      (ReflTransGen (dependencyGraph nodes edges).Arc) = Mutual nodes edges := by
    funext s
    simp only [Dataflow.Mutual, Mutual, exists_walk_iff, Digraph.mem_vertices]
    rfl
  rw [CyclePolicy.cyclic_components within_dependencyGraph, ← hmutual]
  exact mem_classes_iff_maximal (fun _ => .refl) ReflTransGen.trans List.pairwise_lt_range

/-- A node of a component owns its id, as it feeds another one. -/
theorem owns_of_mem_cyclic {members : List Nat}
    (h : members ∈ CyclePolicy.cyclic (dependencyGraph nodes edges).components) (hi : i ∈ members) :
    ∃ id, Node.Owns nodes i id := by
  obtain ⟨hpair, hlen, hmax⟩ := mem_cyclic_iff.1 h
  have hother : ∃ j ∈ members, j ≠ i := by
    by_contra hnone
    push Not at hnone
    have hsub : members ⊆ [i] := fun j hj => List.mem_singleton.2 (hnone j hj)
    have hle := (List.subperm_of_subset (hpair.imp Nat.ne_of_lt) hsub).length_le
    rw [List.length_singleton] at hle
    omega
  obtain ⟨j, hj, hne⟩ := hother
  obtain ⟨es, hes⟩ := hmax.prop.2 i hi j hj
  cases hes with
  | nil => exact absurd rfl hne
  | @cons _ _ _ e _ _ hi _ _ => exact ⟨e.producer, hi⟩

theorem nodup_idsAt_of_mem_cyclic {members : List Nat}
    (h : members ∈ CyclePolicy.cyclic (dependencyGraph nodes edges).components) :
    (Node.idsAt nodes members).Nodup := by
  have hnodup : members.Nodup := (mem_cyclic_iff.1 h).1.imp Nat.ne_of_lt
  have howns : ∀ {i : Nat} {id : String}, i ∈ members → nodes[i]?.map (·.id) = some id →
      Node.Owns nodes i id := by
    intro i id hi hid
    obtain ⟨id', ho⟩ := owns_of_mem_cyclic h hi
    obtain ⟨n, hn, rfl⟩ := Option.map_eq_some_iff.1 hid
    obtain ⟨m, hm, rfl⟩ := ho.1
    rw [Option.some.inj (hn.symm.trans hm)]
    exact ho
  refine List.pairwise_filterMap.2 (hnodup.imp_of_mem ?_)
  rintro i j hi hj hne a ha _ hb rfl
  exact hne ((howns hi ha).unique (howns hj hb))

end

end Edge

/-- **The cycles that are reported** are the maximal sets of two or more nodes that reach each other
by edges between known nodes, each set once and each of its nodes once. Nodes are listed in order of
declaration, and so are the sets, by their first nodes; no node is in two of them. None is reported
exactly if every cycle is an edge from a node to itself. -/
theorem check_reports_components (nodes : List Node) (edges : List Edge) :
    (∃ components : List (List Nat),
      CyclePolicy.reject.check nodes edges =
        components.map (fun members => .cyclic (Node.idsAt nodes members)) ∧
      (∀ members, members ∈ components ↔ members.Pairwise (· < ·) ∧ 1 < members.length ∧
        Maximal (Edge.Mutual nodes edges) {i | i ∈ members}) ∧
      (∀ members ∈ components, (Node.idsAt nodes members).Nodup) ∧
      components.Pairwise fun s t =>
        s.Disjoint t ∧ ∃ i j, s.head? = some i ∧ t.head? = some j ∧ i < j) ∧
    (CyclePolicy.reject.check nodes edges = [] ↔
      ∀ es, Edge.Cycle nodes edges es → ∃ e, es = [e] ∧ e.producer = e.consumer) := by
  classical
  refine ⟨⟨CyclePolicy.cyclic (dependencyGraph nodes edges).components, rfl,
    fun _ => Edge.mem_cyclic_iff, fun _ => Edge.nodup_idsAt_of_mem_cyclic, ?_⟩, ?_⟩
  · rw [CyclePolicy.cyclic_components within_dependencyGraph]
    exact pairwise_classes (equivalence_of_reaches (fun _ => .refl) ReflTransGen.trans)
      List.pairwise_lt_range List.nodup_range
  · rw [Edge.cycles_iff, ← Edge.eq_of_walks_iff]
    unfold CyclePolicy.check
    rw [List.map_eq_nil_iff, CyclePolicy.cyclic_components_eq_nil_iff within_dependencyGraph]
    simp only [Edge.exists_walk_iff]

/-- The last of two nodes with an id is on the cycle that is reported. An edge from a node to itself
is not reported, and neither are edges to and from an unknown node. -/
example : CyclePolicy.reject.check [.ofId "a", .ofId "b", .ofId "a", .ofId "c"]
    [⟨"a", "out", "b", "in", ⟨none, [], "T", "out"⟩⟩,
      ⟨"b", "out", "a", "in", ⟨none, [], "T", "out"⟩⟩,
      ⟨"c", "out", "c", "in", ⟨none, [], "T", "out"⟩⟩,
      ⟨"c", "out", "d", "in", ⟨none, [], "T", "out"⟩⟩,
      ⟨"d", "out", "c", "in", ⟨none, [], "T", "out"⟩⟩] = [.cyclic ["b", "a"]] := by
  rfl

end Dataflow
