import Dataflow.Proofs.Order
import Dataflow.Proofs.Paths

/-!
# Levels are the lengths of longest paths

`PathTo r k b`: a path of `k` steps of a relation ends at `b`; `Depth r k b`: the longest one does.
`Pipeline.Leveling.Of p done s`: the nodes `done` have been put into the layers of `s`, each into
the one that has its depth as number. Putting another node keeps this if its producers have been put
(`Leveling.Of.put`), as they have in an order (`Pipeline.leveling_of_order`). This gives the layers
of a pipeline (`Pipeline.layers_spec`).
-/

namespace Dataflow

open Relation

/-! ## Paths by length -/

/-- A path of `k` steps ends at a member. -/
inductive PathTo {α : Type} (r : α → α → Prop) : Nat → α → Prop
  | start (a : α) : PathTo r 0 a
  | step {k : Nat} {a b : α} (h : PathTo r k a) (hab : r a b) : PathTo r (k + 1) b

/-- The longest path that ends at a member has `k` steps. -/
structure Depth {α : Type} (r : α → α → Prop) (k : Nat) (b : α) : Prop where
  path : PathTo r k b
  longest : ∀ m, PathTo r m b → m ≤ k

section
variable {α : Type} {r : α → α → Prop} {k m : Nat} {b : α}

theorem Depth.unique (h : Depth r k b) (h' : Depth r m b) : k = m :=
  Nat.le_antisymm (h'.longest k h.path) (h.longest m h'.path)

theorem Depth.iff_eq (h : Depth r k b) : Depth r m b ↔ m = k :=
  ⟨fun h' => h'.unique h, fun hm => hm ▸ h⟩

theorem lt_foldl_max_iff {f : α → Nat} : ∀ {l : List α} {m : Nat},
    k < l.foldl (fun m a => max m (f a)) m ↔ k < m ∨ ∃ a ∈ l, k < f a
  | [], m => by simp
  | a :: l, m => by
    rw [List.foldl_cons, lt_foldl_max_iff, List.exists_mem_cons_iff, lt_max_iff, or_assoc]

end

/-! ## Layers of a pipeline -/

namespace Pipeline

variable {p : Pipeline}

theorem positionOrder_spec {positions : List Nat} (h : p.positionOrder = .ok positions) :
    p.graph.Ordered positions ∧ positions.Nodup ∧
      ∀ i, i ∈ positions ↔ ∃ n, p.nodes[i]? = some n := by
  have hgraph : p.graph.Within := within_dependencyGraph
  obtain ⟨ho, hperm⟩ := Digraph.order_spec hgraph
  rw [positionOrder_eq_ok_iff.1 h] at ho hperm
  rw [List.append_nil] at hperm
  refine ⟨ho, hperm.nodup_iff.2 List.nodup_range, fun i => ?_⟩
  rw [hperm.mem_iff, Digraph.mem_vertices, ← Option.isSome_iff_exists]
  simp [dependencyGraph, graph, Digraph.ofArcs]

theorem mem_nodesInOrder_iff {positions : List Nat} {n : Node} :
    n ∈ p.nodesInOrder positions ↔ ∃ i ∈ positions, p.nodes[i]? = some n :=
  List.mem_filterMap

variable (hp : p.Sound)
include hp

theorem nodup_nodesInOrder {positions : List Nat} (h : positions.Nodup) :
    (p.nodesInOrder positions).Nodup := by
  have hnodes : p.nodes.Nodup := hp.ids.of_map
  refine h.filterMap fun i j n hi hj => ?_
  exact (List.getElem?_inj (List.getElem?_eq_some_iff.1 hi).1 hnodes).1 (hi.trans hj.symm)

end Pipeline

/-! ### One node -/

namespace Pipeline.Leveling

@[simp] theorem layers_put (p : Pipeline) (s : Leveling) (n : Node) :
    (s.put p n).layers = push s.layers (s.level p n) n := rfl

theorem length_push {layers : List (List Node)} {level : Nat} {n : Node} :
    (push layers level n).length = max layers.length (level + 1) := by
  unfold push
  rw [List.length_modify, List.length_append, List.length_replicate]
  omega

theorem getElem?_push {layers : List (List Node)} {level : Nat} {n : Node} (k : Nat) :
    (push layers level n)[k]?.getD [] = layers[k]?.getD [] ++ if k = level then [n] else [] := by
  have hgrown : ∀ k : Nat, (layers ++ List.replicate (level + 1 - layers.length) [])[k]?.getD [] =
      layers[k]?.getD [] := by
    intro k
    rcases Nat.lt_or_ge k layers.length with hlt | hge
    · rw [List.getElem?_append_left hlt]
    · rw [List.getElem?_append_right hge, List.getElem?_eq_none hge, List.getElem?_replicate]
      split <;> rfl
  unfold push
  rw [List.getElem?_modify, ← hgrown k]
  by_cases hk : k = level
  · have hlt : level < (layers ++ List.replicate (level + 1 - layers.length) []).length := by
      rw [List.length_append, List.length_replicate]
      omega
    subst hk
    simp [List.getElem?_eq_getElem hlt]
  · simp [hk, Ne.symm hk]

theorem mem_push_iff {layers : List (List Node)} {level k : Nat} {m n : Node} :
    m ∈ (push layers level n)[k]?.getD [] ↔ m ∈ layers[k]?.getD [] ∨ m = n ∧ k = level := by
  rw [getElem?_push, List.mem_append]
  by_cases hk : k = level <;> simp [hk]

theorem lt_length_push_iff {layers : List (List Node)} {level k : Nat} {n : Node} :
    k < (push layers level n).length ↔ k < layers.length ∨ k ≤ level := by
  rw [length_push]
  omega

/-- Some nodes have been put into layers: each is in the layer of its depth, where nodes are in the
order in which they have been put, and there are layers down to the deepest of them. -/
structure Of (p : Pipeline) (done : List Node) (s : Leveling) : Prop where
  length : s.levels.length = p.nodes.length
  level : ∀ n ∈ done, ∃ i k : Nat, p.nodes[i]? = some n ∧ s.levels[i]? = some k ∧
    Depth (Edge.Leads p.edges) k n.id
  layer : ∀ k : Nat, (s.layers[k]?.getD []).Sublist done
  mem : ∀ (k : Nat) (n : Node), n ∈ s.layers[k]?.getD [] ↔
    n ∈ done ∧ Depth (Edge.Leads p.edges) k n.id
  count : ∀ k, k < s.layers.length ↔
    ∃ n ∈ done, ∃ m, Depth (Edge.Leads p.edges) m n.id ∧ k ≤ m

section
variable {p : Pipeline} {done : List Node} {s : Leveling} {n : Node} (h : Of p done s)
  (hp : p.Sound) (hdone : ∀ m ∈ p.producers n.id, m ∈ done)
include h hp hdone

theorem Of.lt_level_iff {k : Nat} : k < s.level p n ↔
    ∃ m ∈ p.producers n.id, ∃ j, Depth (Edge.Leads p.edges) j m.id ∧ k ≤ j := by
  unfold Leveling.level
  rw [lt_foldl_max_iff]
  constructor
  · rintro (hk | ⟨i, hi, hk⟩)
    · omega
    · obtain ⟨m, hm, hpos⟩ := List.mem_filterMap.1 hi
      obtain ⟨i', j, hi', hj, hd⟩ := h.level m (hdone m hm)
      obtain rfl : i = i' := Option.some.inj
        (hpos.symm.trans ((Node.position?_eq_some_iff hp.ids).2 ⟨m, hi', rfl⟩))
      rw [hj, Option.getD_some] at hk
      exact ⟨m, hm, j, hd, by omega⟩
  · rintro ⟨m, hm, j, hd, hk⟩
    obtain ⟨i, j', hi, hj, hd'⟩ := h.level m (hdone m hm)
    obtain rfl := hd.unique hd'
    have hpos := (Node.position?_eq_some_iff hp.ids).2 ⟨m, hi, rfl⟩
    refine .inr ⟨i, List.mem_filterMap.2 ⟨m, hm, hpos⟩, ?_⟩
    rw [hj, Option.getD_some]
    omega

/-- The level of a node is its depth, if its producers have been put. -/
theorem Of.depth_level : Depth (Edge.Leads p.edges) (s.level p n) n.id := by
  constructor
  · cases hk : s.level p n with
    | zero => exact .start n.id
    | succ k =>
      -- Some producer is this deep, and none is deeper.
      obtain ⟨m, hm, j, hd, hkj⟩ := (h.lt_level_iff hp hdone (k := k)).1 (by omega)
      have hj := (h.lt_level_iff hp hdone).2 ⟨m, hm, j, hd, Nat.le_refl j⟩
      obtain rfl : j = k := by omega
      exact hd.path.step ((mem_producers_iff hp).1 hm).2
  · intro k hk
    cases hk with
    | start => exact Nat.zero_le _
    | step hpath hlead =>
      obtain ⟨m, hm, rfl⟩ := List.mem_map.1 (hp.mem_producers_id_iff.2 hlead)
      obtain ⟨_, j, -, -, hd⟩ := h.level m (hdone m hm)
      exact (h.lt_level_iff hp hdone).2 ⟨m, hm, j, hd, hd.longest _ hpath⟩

/-- **Putting a node** whose producers have been put keeps every node in the layer of its depth. -/
theorem Of.put (hn : n ∈ p.nodes) (hout : n ∉ done) : Of p (done ++ [n]) (s.put p n) := by
  obtain ⟨i, hi⟩ := List.mem_iff_getElem?.1 hn
  have hpos : p.position? n.id = some i := (Node.position?_eq_some_iff hp.ids).2 ⟨n, hi, rfl⟩
  have hlt : i < s.levels.length := h.length.symm ▸ (List.getElem?_eq_some_iff.1 hi).1
  have hlevels : (s.put p n).levels = s.levels.set i (s.level p n) := by
    unfold Leveling.put
    rw [hpos]
    rfl
  have hdepth := h.depth_level hp hdone
  exact {
    length := by rw [hlevels, List.length_set, h.length]
    level := by
      intro m hm
      rw [hlevels]
      rcases List.mem_append.1 hm with hm | hm
      · obtain ⟨j, k, hj, hk, hd⟩ := h.level m hm
        have hne : i ≠ j := by
          rintro rfl
          exact hout (Option.some.inj (hi.symm.trans hj) ▸ hm)
        exact ⟨j, k, hj, (List.getElem?_set_ne hne).trans hk, hd⟩
      · obtain rfl := List.mem_singleton.1 hm
        exact ⟨i, _, hi, by rw [List.getElem?_set_self hlt], hdepth⟩
    layer := by
      intro k
      rw [layers_put, getElem?_push]
      refine (h.layer k).append ?_
      split
      · exact List.Sublist.refl _
      · exact List.nil_sublist _
    mem := by
      intro k m
      rw [layers_put, mem_push_iff, h.mem, List.mem_append, List.mem_singleton, or_and_right]
      refine or_congr_right (and_congr_right fun hm => ?_)
      rw [hm]
      exact hdepth.iff_eq.symm
    count := by
      intro k
      rw [layers_put, lt_length_push_iff, h.count]
      simp [or_and_right, exists_or, hdepth.iff_eq] }

end

end Pipeline.Leveling

/-! ### All nodes -/

namespace Pipeline

variable {p : Pipeline} (hp : p.Sound)
include hp

/-- Nodes in order are put into the layers of their depths. -/
theorem leveling_of_order {positions : List Nat} (ho : p.graph.Ordered positions)
    (hnodup : positions.Nodup) (hmem : ∀ i ∈ positions, ∃ n, p.nodes[i]? = some n) :
    Leveling.Of p (p.nodesInOrder positions)
      ((p.nodesInOrder positions).foldl (Leveling.put p) ⟨p.nodes.map fun _ => 0, []⟩) := by
  induction ho with
  | nil =>
    exact {
      length := List.length_map _
      level := fun n hn => absurd hn List.not_mem_nil
      layer := fun k => List.Sublist.refl []
      mem := fun k n => by simp [nodesInOrder]
      count := fun k => by simp [nodesInOrder] }
  | @snoc vs v _ hv ih =>
    obtain ⟨hvs, -, hdisjoint⟩ := List.nodup_append.1 hnodup
    obtain ⟨n, hn⟩ := hmem v (by simp)
    have hof := ih hvs fun i hi => hmem i (List.mem_append_left _ hi)
    have hsplit : p.nodesInOrder (vs ++ [v]) = p.nodesInOrder vs ++ [n] := by
      simp [nodesInOrder, hn]
    rw [hsplit, List.foldl_append]
    refine hof.put hp (fun m hm => ?_) (List.mem_of_getElem? hn) fun hin => ?_
    · -- A producer stands at a position that an arc comes from.
      obtain ⟨hm, hlead⟩ := (mem_producers_iff hp).1 hm
      obtain ⟨u, hu⟩ := List.mem_iff_getElem?.1 hm
      exact mem_nodesInOrder_iff.2 ⟨u, hv u (hp.arc_of_getElem? hu hn hlead), hu⟩
    · obtain ⟨u, hu, hun⟩ := mem_nodesInOrder_iff.1 hin
      have huv : u = v := (List.getElem?_inj (List.getElem?_eq_some_iff.1 hun).1 hp.ids.of_map).1
        (hun.trans hn.symm)
      exact hdisjoint u hu v List.mem_cons_self huv

theorem layers_of_order {positions : List Nat} (h : p.positionOrder = .ok positions) :
    ∃ s, p.layers = .ok s.layers ∧ Leveling.Of p (p.nodesInOrder positions) s := by
  obtain ⟨hordered, hnodup, hmem⟩ := positionOrder_spec h
  refine ⟨_, ?_, leveling_of_order hp hordered hnodup fun i hi => (hmem i).1 hi⟩
  unfold layers topologicalOrder
  rw [h]
  rfl

omit hp in
theorem mem_nodesInOrder_all {positions : List Nat}
    (h : ∀ i, i ∈ positions ↔ ∃ n, p.nodes[i]? = some n) {n : Node} :
    n ∈ p.nodesInOrder positions ↔ n ∈ p.nodes := by
  rw [mem_nodesInOrder_iff, List.mem_iff_getElem?]
  exact exists_congr fun i => and_iff_right_of_imp fun hn => (h i).2 ⟨n, hn⟩

/-- **The layers of a pipeline without cycles**: each has the nodes of one depth, each once, and
there are layers down to the deepest node. -/
theorem layers_spec (h : ∀ id, ¬ TransGen (Edge.Leads p.edges) id id) :
    ∃ layers, p.layers = .ok layers ∧
      (∀ k layer, layers[k]? = some layer →
        layer.Nodup ∧ ∀ n, n ∈ layer ↔ n ∈ p.nodes ∧ Depth (Edge.Leads p.edges) k n.id) ∧
      ∀ k, k < layers.length ↔
        ∃ n ∈ p.nodes, ∃ m, Depth (Edge.Leads p.edges) m n.id ∧ k ≤ m := by
  obtain ⟨positions, ho⟩ := Digraph.order_of_acyclic ((acyclic_dependencyGraph_iff hp.joining).2 h)
  have hpos : p.positionOrder = .ok positions := positionOrder_eq_ok_iff.2 ho
  obtain ⟨-, hnodup, hmem⟩ := positionOrder_spec hpos
  obtain ⟨s, hs, hof⟩ := layers_of_order hp hpos
  have hall : ∀ n, n ∈ p.nodesInOrder positions ↔ n ∈ p.nodes := fun n => mem_nodesInOrder_all hmem
  refine ⟨s.layers, hs, fun k layer hk => ?_, fun k => ?_⟩
  · have hlayer := hof.layer k
    have hin := hof.mem k
    rw [hk, Option.getD_some] at hlayer
    simp only [hk, Option.getD_some, hall] at hin
    exact ⟨hlayer.nodup (nodup_nodesInOrder hp hnodup), hin⟩
  · simp only [hof.count, hall]

end Pipeline

end Dataflow
