import Dataflow.Proofs.Least

/-!
# Layers come as early as they can

A layering of a pipeline (`Pipeline.Layering`) has every node in one layer and every producer in an
earlier layer than its consumer. A node cannot come earlier in one than the longest path to it is
long (`Pipeline.Layering.le_of_pathTo`). In the layers of a pipeline without cycles every node comes
exactly there, no layer is empty, as on a longest path there are nodes of every smaller depth
(`Pipeline.exists_depth_of_le`), and each layer is part of the order (`Pipeline.layer_sublist`). So
they are a layering (`Pipeline.layering_layers`), and no layering has a node earlier or has fewer
layers (`Pipeline.Layering.le_of_atLayer`, `Pipeline.Layering.length_le`).
-/

namespace Dataflow

open Relation

/-! ## Depths -/

section
variable {α : Type} {r : α → α → Prop} {k m : Nat} {a b : α}

theorem PathTo.exists_longer (h : PathTo r k a) (hab : TransGen r a b) :
    ∃ m, k < m ∧ PathTo r m b := by
  induction hab with
  | single hab => exact ⟨k + 1, Nat.lt_succ_self k, h.step hab⟩
  | tail _ hbc ih =>
    obtain ⟨m, hm, hp⟩ := ih
    exact ⟨m + 1, by omega, hp.step hbc⟩

theorem Depth.lt_of_transGen (ha : Depth r k a) (hb : Depth r m b) (hab : TransGen r a b) :
    k < m := by
  obtain ⟨l, hl, hp⟩ := ha.path.exists_longer hab
  exact Nat.lt_of_lt_of_le hl (hb.longest l hp)

theorem Depth.exists_before (h : Depth r (k + 1) b) : ∃ a, r a b ∧ Depth r k a := by
  obtain ⟨hpath, hlongest⟩ := h
  cases hpath with
  | @step _ a _ hp hab =>
    refine ⟨a, hab, hp, fun m hm => ?_⟩
    have := hlongest (m + 1) (hm.step hab)
    omega

end

/-! ## Layerings -/

/-- The layer with a number has a node. -/
def AtLayer (layers : List (List Node)) (k : Nat) (n : Node) : Prop :=
  ∃ layer, layers[k]? = some layer ∧ n ∈ layer

section
variable {layers : List (List Node)} {i j k : Nat} {n : Node}

theorem AtLayer.lt_length (h : AtLayer layers k n) : k < layers.length := by
  obtain ⟨layer, hk, -⟩ := h
  exact (List.getElem?_eq_some_iff.1 hk).1

theorem mem_flatten_iff_atLayer : n ∈ layers.flatten ↔ ∃ k, AtLayer layers k n := by
  rw [List.mem_flatten]
  constructor
  · rintro ⟨layer, hl, hn⟩
    obtain ⟨k, hk⟩ := List.mem_iff_getElem?.1 hl
    exact ⟨k, layer, hk, hn⟩
  · rintro ⟨k, layer, hk, hn⟩
    exact ⟨layer, List.mem_of_getElem? hk, hn⟩

theorem pairwise_disjoint_iff : layers.Pairwise List.Disjoint ↔
    ∀ i j n, AtLayer layers i n → AtLayer layers j n → i = j := by
  rw [List.pairwise_iff_getElem]
  constructor
  · rintro h i j n ⟨l, hl, hn⟩ ⟨l', hl', hn'⟩
    obtain ⟨hi, rfl⟩ := List.getElem?_eq_some_iff.1 hl
    obtain ⟨hj, rfl⟩ := List.getElem?_eq_some_iff.1 hl'
    rcases Nat.lt_trichotomy i j with hlt | heq | hgt
    · exact absurd hn' (h i j hi hj hlt hn)
    · exact heq
    · exact absurd hn (h j i hj hi hgt hn')
  · intro h i j hi hj hlt n hn hn'
    have := h i j n ⟨_, List.getElem?_eq_getElem hi, hn⟩ ⟨_, List.getElem?_eq_getElem hj, hn'⟩
    omega

end

namespace Pipeline

/-- Every node of a pipeline is in one layer, and every producer in an earlier layer than its
consumer. -/
structure Layering (p : Pipeline) (layers : List (List Node)) : Prop where
  perm : layers.flatten.Perm p.nodes
  producersEarlier : ∀ e ∈ p.edges, ∃ (m n : Node) (i j : Nat), m.id = e.producer ∧
    n.id = e.consumer ∧ AtLayer layers i m ∧ AtLayer layers j n ∧ i < j

section
variable {p : Pipeline} {layers : List (List Node)} {i j k m : Nat} {n n' : Node}

theorem Layering.mem_nodes_iff (h : p.Layering layers) :
    n ∈ p.nodes ↔ ∃ k, AtLayer layers k n := by
  rw [← h.perm.mem_iff, mem_flatten_iff_atLayer]

theorem Layering.unique (h : p.Layering layers) (hp : p.Sound) (hi : AtLayer layers i n)
    (hj : AtLayer layers j n) : i = j := by
  have hnodup : layers.flatten.Nodup := h.perm.nodup_iff.2 hp.ids.of_map
  exact pairwise_disjoint_iff.1 (List.nodup_flatten.1 hnodup).2 i j n hi hj

/-- No layering has a node earlier than a path to it is long. -/
theorem Layering.le_of_pathTo (h : p.Layering layers) (hp : p.Sound) {id : String}
    (hpath : PathTo (Edge.Leads p.edges) k id) (hid : n.id = id) (hj : AtLayer layers j n) :
    k ≤ j := by
  induction hpath generalizing n j with
  | start => exact Nat.zero_le j
  | step _ hab ih =>
    obtain ⟨e, he, rfl, rfl⟩ := hab
    obtain ⟨m, n', i, j', hm, hn', hmi, hnj, hlt⟩ := h.producersEarlier e he
    obtain rfl : n' = n := Node.eq_of_id_eq hp.ids (h.mem_nodes_iff.2 ⟨j', hnj⟩)
      (h.mem_nodes_iff.2 ⟨j, hj⟩) (hn'.trans hid.symm)
    obtain rfl := h.unique hp hj hnj
    have := ih hm hmi
    omega

/-! ## The layers of a pipeline -/

variable (hp : p.Sound)
include hp

theorem layer_sublist {order layer : List Node} (ho : p.topologicalOrder = .ok order)
    (hl : p.layers = .ok layers) (h : layer ∈ layers) : layer.Sublist order := by
  unfold topologicalOrder at ho
  cases hpos : p.positionOrder with
  | error d => simp [hpos, Except.map] at ho
  | ok positions =>
    simp only [hpos, Except.map, Except.ok.injEq] at ho
    subst ho
    obtain ⟨s, hs, hof⟩ := layers_of_order hp hpos
    obtain rfl := Except.ok.inj (hs.symm.trans hl)
    obtain ⟨k, hk⟩ := List.mem_iff_getElem?.1 h
    simpa [hk] using hof.layer k

/-- Without cycles every node has a depth. -/
theorem exists_depth (h : ∀ id, ¬ TransGen (Edge.Leads p.edges) id id) (hn : n ∈ p.nodes) :
    ∃ k, Depth (Edge.Leads p.edges) k n.id := by
  obtain ⟨positions, ho⟩ := Digraph.order_of_acyclic ((acyclic_dependencyGraph_iff hp.joining).2 h)
  have hpos : p.positionOrder = .ok positions := positionOrder_eq_ok_iff.2 ho
  obtain ⟨-, -, hmem⟩ := positionOrder_spec hpos
  obtain ⟨s, -, hof⟩ := layers_of_order hp hpos
  obtain ⟨_, k, -, -, hd⟩ := hof.level n ((mem_nodesInOrder_all hmem).2 hn)
  exact ⟨k, hd⟩

/-- Up to the depth of a node, some node has every depth. -/
theorem exists_depth_of_le (hn : n ∈ p.nodes) (hd : Depth (Edge.Leads p.edges) m n.id)
    (hk : k ≤ m) : ∃ n' ∈ p.nodes, Depth (Edge.Leads p.edges) k n'.id := by
  induction m generalizing n with
  | zero =>
    obtain rfl := Nat.le_zero.1 hk
    exact ⟨n, hn, hd⟩
  | succ m ih =>
    rcases Nat.lt_or_eq_of_le hk with hlt | rfl
    · obtain ⟨a, hlead, ha⟩ := hd.exists_before
      obtain ⟨n', hn', rfl⟩ := hp.exists_producer hlead
      exact ih hn' ha (by omega)
    · exact ⟨n, hn, hd⟩

section
variable (h : ∀ id, ¬ TransGen (Edge.Leads p.edges) id id) (hl : p.layers = .ok layers)
include h hl

/-- A node is in the layer that has its depth as number. -/
theorem atLayer_iff :
    AtLayer layers k n ↔ n ∈ p.nodes ∧ Depth (Edge.Leads p.edges) k n.id := by
  obtain ⟨_, hl', hlayer, hlength⟩ := layers_spec hp h
  obtain rfl := Except.ok.inj (hl'.symm.trans hl)
  constructor
  · rintro ⟨layer, hk, hn⟩
    exact ((hlayer k layer hk).2 n).1 hn
  · rintro ⟨hn, hd⟩
    have hk := List.getElem?_eq_getElem ((hlength k).2 ⟨n, hn, k, hd, Nat.le_refl k⟩)
    exact ⟨_, hk, ((hlayer k _ hk).2 n).2 ⟨hn, hd⟩⟩

theorem exists_atLayer (hk : k < layers.length) : ∃ n, AtLayer layers k n := by
  obtain ⟨_, hl', -, hlength⟩ := layers_spec hp h
  obtain rfl := Except.ok.inj (hl'.symm.trans hl)
  obtain ⟨n, hn, m, hd, hkm⟩ := (hlength k).1 hk
  obtain ⟨n', hn', hd'⟩ := exists_depth_of_le hp hn hd hkm
  exact ⟨n', (atLayer_iff hp h hl).2 ⟨hn', hd'⟩⟩

theorem lt_of_atLayer (hi : AtLayer layers i n) (hj : AtLayer layers j n')
    (hpath : TransGen (Edge.Leads p.edges) n.id n'.id) : i < j :=
  ((atLayer_iff hp h hl).1 hi).2.lt_of_transGen ((atLayer_iff hp h hl).1 hj).2 hpath

theorem nodup_flatten_layers : layers.flatten.Nodup := by
  obtain ⟨_, hl', hlayer, -⟩ := layers_spec hp h
  obtain rfl := Except.ok.inj (hl'.symm.trans hl)
  refine List.nodup_flatten.2 ⟨fun layer hm => ?_, pairwise_disjoint_iff.2 fun i j n hi hj => ?_⟩
  · obtain ⟨k, hk⟩ := List.mem_iff_getElem?.1 hm
    exact (hlayer k layer hk).1
  · exact ((atLayer_iff hp h hl).1 hi).2.unique ((atLayer_iff hp h hl).1 hj).2

/-- **The layers of a pipeline are a layering.** -/
theorem layering_layers : p.Layering layers := by
  constructor
  · refine (List.perm_ext_iff_of_nodup (nodup_flatten_layers hp h hl) hp.ids.of_map).2 fun n => ?_
    simp only [mem_flatten_iff_atLayer, atLayer_iff hp h hl, exists_and_left]
    exact ⟨And.left, fun hn => ⟨hn, exists_depth hp h hn⟩⟩
  · intro e he
    obtain ⟨m, hm, hmid⟩ := hp.joining.producer e he
    obtain ⟨n, hn, hnid⟩ := hp.joining.consumer e he
    obtain ⟨i, hi⟩ := exists_depth hp h hm
    obtain ⟨j, hj⟩ := exists_depth hp h hn
    have hleads : Edge.Leads p.edges m.id n.id := ⟨e, he, hmid.symm, hnid.symm⟩
    exact ⟨m, n, i, j, hmid, hnid, (atLayer_iff hp h hl).2 ⟨hm, hi⟩,
      (atLayer_iff hp h hl).2 ⟨hn, hj⟩, hi.lt_of_transGen hj (.single hleads)⟩

variable {other : List (List Node)} (ho : p.Layering other)
include ho

/-- No layering has a node earlier. -/
theorem Layering.le_of_atLayer (hi : AtLayer layers i n) (hj : AtLayer other j n) : i ≤ j :=
  ho.le_of_pathTo hp ((atLayer_iff hp h hl).1 hi).2.path rfl hj

/-- **No layering has fewer layers.** -/
theorem Layering.length_le : layers.length ≤ other.length := by
  refine Nat.le_of_not_lt fun hfewer => ?_
  -- A node in the first layer that the other one lacks would have to be earlier in it.
  obtain ⟨n, hn⟩ := exists_atLayer hp h hl hfewer
  obtain ⟨j, hj⟩ := ho.mem_nodes_iff.1 ((atLayer_iff hp h hl).1 hn).1
  exact absurd hj.lt_length (Nat.not_lt.2 (ho.le_of_atLayer hp h hl hn hj))

end

end

end Pipeline

/-- **The layers of a pipeline without cycles** divide its nodes by the length of the longest path
of edges to each, so that no layer is empty and each is in the order of the pipeline. What paths
lead to is in later layers, so nodes of one layer do not depend on each other. No other division in
which producers come before consumers has a node earlier, or has fewer layers. -/
theorem layers_by_longest_path {p : Pipeline} (hp : p.Obtained)
    (h : ∀ id, ¬ TransGen (Edge.Leads p.edges) id id) :
    ∃ order layers, p.topologicalOrder = .ok order ∧ p.layers = .ok layers ∧ p.Layering layers ∧
      (∀ layer ∈ layers, layer ≠ [] ∧ layer.Sublist order) ∧
      (∀ k n, AtLayer layers k n ↔ n ∈ p.nodes ∧ Depth (Edge.Leads p.edges) k n.id) ∧
      (∀ i j m n, AtLayer layers i m → AtLayer layers j n →
        TransGen (Edge.Leads p.edges) m.id n.id → i < j) ∧
      (∀ layer ∈ layers, ∀ m ∈ layer, ∀ n ∈ layer, ¬ TransGen (Edge.Leads p.edges) m.id n.id) ∧
      ∀ other, p.Layering other → layers.length ≤ other.length ∧
        ∀ i j n, AtLayer layers i n → AtLayer other j n → i ≤ j := by
  have hs := hp.sound
  obtain ⟨⟨order, ho⟩, layers, hl⟩ := Pipeline.order_of_acyclic hs.joining h
  have hlt : ∀ i j m n, AtLayer layers i m → AtLayer layers j n →
      TransGen (Edge.Leads p.edges) m.id n.id → i < j := fun i j m n =>
    Pipeline.lt_of_atLayer hs h hl
  refine ⟨order, layers, ho, hl, Pipeline.layering_layers hs h hl, fun layer hm => ?_,
    fun k n => Pipeline.atLayer_iff hs h hl, hlt, fun layer hm m hmem n hn hmn => ?_,
    fun other hother => ⟨hother.length_le hs h hl, fun i j n => hother.le_of_atLayer hs h hl⟩⟩
  · obtain ⟨k, hk⟩ := List.mem_iff_getElem?.1 hm
    obtain ⟨n, l, hkl, hn⟩ :=
      Pipeline.exists_atLayer hs h hl (List.getElem?_eq_some_iff.1 hk).1
    obtain rfl := Option.some.inj (hk.symm.trans hkl)
    exact ⟨List.ne_nil_of_mem hn, Pipeline.layer_sublist hs ho hl hm⟩
  · obtain ⟨k, hk⟩ := List.mem_iff_getElem?.1 hm
    exact absurd (hlt k k m n ⟨layer, hk, hmem⟩ ⟨layer, hk, hn⟩ hmn) (Nat.lt_irrefl k)

theorem layers_by_longest_path_consumerFirst :
    ∃ p, (build .empty consumerFirst).1 = .ok p ∧
      ∃ layers, p.layers = .ok layers ∧ layers.map (·.map (·.id)) = [["a", "c"], ["b"]] ∧
        ∀ other, p.Layering other → 2 ≤ other.length := by
  have hbuild : (build .empty consumerFirst).1 = .ok _ := rfl
  have hobtained := Pipeline.Obtained.built hbuild
  have hacyclic := (Pipeline.hasCycles_eq_false_iff hobtained.sound.joining).1 (by rfl)
  obtain ⟨order, layers, -, hl, -, -, -, -, -, hleast⟩ := layers_by_longest_path hobtained hacyclic
  cases hl
  exact ⟨_, hbuild, _, rfl, rfl, fun other hother => (hleast other hother).1⟩

end Dataflow
