import Dataflow.Proofs.Levels
import Dataflow.Proofs.WellFormed

/-!
# The least order

A list of the nodes of a pipeline is an arrangement of it (`Pipeline.Arranges`) if it has every node
once and every producer before its consumer. Placing always takes the least vertex that is ready,
so no list in which the ends of arcs come in order is before what is placed
(`Digraph.place_least`), and the order of a pipeline without cycles is the least of its arrangements
when nodes are compared by where they are declared.
-/

namespace Dataflow

open Relation

/-! ## Placing vertices -/

namespace Digraph

variable {g : Digraph}

theorem Ordered.sublist {vs : List Nat} (h : g.Ordered vs) {u v : Nat} (huv : g.Arc u v)
    (hv : v ∈ vs) : [u, v].Sublist vs := by
  induction h with
  | nil => cases hv
  | @snoc vs w _ hw ih =>
    rcases List.mem_append.1 hv with hv | hv
    · exact (ih hv).trans (List.sublist_append_left vs [w])
    · obtain rfl := List.mem_singleton.1 hv
      exact (List.singleton_sublist.2 (hw u huv)).append (List.Sublist.refl [v])

/-- The least vertex that is ready becomes so first. -/
theorem ready?_le {unplaced : List Nat} (hsorted : unplaced.Pairwise (· < ·)) {w : Nat}
    (hw : w ∈ unplaced) (hready : ∀ u, g.Arc u w → u ∉ unplaced) :
    ∃ v, g.ready? unplaced = some v ∧ v ≤ w := by
  have htest : ((g.predecessors w).all fun u => !unplaced.contains u) = true := by
    simp only [List.all_eq_true, mem_predecessors]
    intro u hu
    simpa using hready u hu
  obtain ⟨v, hv⟩ := Option.isSome_iff_exists.1
    (List.find?_isSome.2 ⟨w, hw, htest⟩ : (g.ready? unplaced).isSome = true)
  refine ⟨v, hv, ?_⟩
  obtain ⟨-, before, after, rfl, hbefore⟩ := List.find?_eq_some_iff_append.1 hv
  rcases List.mem_append.1 hw with hw | hw
  · have hfalse := hbefore w hw
    rw [htest] at hfalse
    cases hfalse
  · rcases List.mem_cons.1 hw with rfl | hw
    · exact Nat.le_refl w
    · exact Nat.le_of_lt ((List.pairwise_cons.1 (List.pairwise_append.1 hsorted).2.1).1 w hw)

/-- **What is placed comes first** among the lists of the same vertices in which the ends of every
arc come in order. -/
theorem place_least {rounds : Nat} {unplaced vs : List Nat} (hsorted : unplaced.Pairwise (· < ·))
    (hperm : vs.Perm unplaced)
    (hvs : ∀ u v, g.Arc u v → u ∈ unplaced → v ∈ unplaced → [u, v].Sublist vs) :
    (g.place rounds unplaced).1 = vs ∨ List.Lex (· < ·) (g.place rounds unplaced).1 vs := by
  induction rounds generalizing unplaced vs with
  | zero =>
    cases vs with
    | nil => exact .inl rfl
    | cons w ws => exact .inr .nil
  | succ rounds ih =>
    cases vs with
    | nil =>
      obtain rfl : unplaced = [] := hperm.nil_eq.symm
      exact .inl rfl
    | cons w ws =>
      have hnodup : unplaced.Nodup := hsorted.imp Nat.ne_of_lt
      obtain ⟨hws, -⟩ := List.nodup_cons.1 (hperm.nodup_iff.2 hnodup)
      have hw : w ∈ unplaced := hperm.mem_iff.1 List.mem_cons_self
      -- The first vertex of the list is ready, as nothing comes before it.
      have hready : ∀ u, g.Arc u w → u ∉ unplaced := by
        intro u huw hu
        have hsub := hvs u w huw hu hw
        rcases List.sublist_cons_iff.1 hsub with hsub | ⟨r, hr, hsub⟩
        · exact hws (hsub.subset (by simp))
        · obtain ⟨-, rfl⟩ := List.cons.inj hr
          exact hws (hsub.subset (by simp))
      obtain ⟨v, hv, hle⟩ := ready?_le hsorted hw hready
      unfold place
      rw [hv]
      show v :: (g.place rounds _).1 = _ ∨ List.Lex _ (v :: (g.place rounds _).1) _
      rcases Nat.lt_or_eq_of_le hle with hlt | rfl
      · exact .inr (.rel hlt)
      · have hrest : ws.Perm (unplaced.filter (· ≠ v)) := by
          rw [filter_ne_eq_erase hnodup]
          simpa using hperm.erase v
        have hinner : ∀ u x, g.Arc u x → u ∈ unplaced.filter (· ≠ v) →
            x ∈ unplaced.filter (· ≠ v) → [u, x].Sublist ws := by
          intro u x hux hu hx
          obtain ⟨hu, hne⟩ := List.mem_filter.1 hu
          have hsub := hvs u x hux hu (List.mem_filter.1 hx).1
          rcases List.sublist_cons_iff.1 hsub with hsub | ⟨r, hr, -⟩
          · exact hsub
          · simp [(List.cons.inj hr).1] at hne
        rcases ih (hsorted.filter _) hrest hinner with heq | hlex
        · exact .inl (by rw [heq])
        · exact .inr (.cons hlex)

end Digraph

/-! ## Arrangements of a pipeline -/

namespace Pipeline

/-- A list has every node of a pipeline once, and every producer before its consumer. -/
structure Arranges (p : Pipeline) (order : List Node) : Prop where
  perm : order.Perm p.nodes
  producersFirst : ∀ e ∈ p.edges, ∃ m n : Node,
    m.id = e.producer ∧ n.id = e.consumer ∧ [m, n].Sublist order

/-- Where the nodes of a list are declared. -/
def declared (p : Pipeline) (order : List Node) : List Nat :=
  order.filterMap fun n => p.position? n.id

section
variable {p : Pipeline}

theorem Arranges.sublist_declared {order : List Node} (h : p.Arranges order) {i j : Nat}
    (hij : p.graph.Arc i j) : [i, j].Sublist (p.declared order) := by
  obtain ⟨e, he, hi, hj⟩ := arc_dependencyGraph.1 hij
  obtain ⟨m, n, hm, hn, hsub⟩ := h.producersFirst e he
  have hpair : p.declared [m, n] = [i, j] := by
    have hi : p.position? m.id = some i := hm ▸ hi
    have hj : p.position? n.id = some j := hn ▸ hj
    simp [declared, hi, hj]
  exact hpair ▸ hsub.filterMap _

variable (hp : p.Sound)
include hp

theorem declared_nodesInOrder {positions : List Nat}
    (h : ∀ i ∈ positions, ∃ n, p.nodes[i]? = some n) :
    p.declared (p.nodesInOrder positions) = positions := by
  unfold declared nodesInOrder
  rw [List.filterMap_filterMap]
  have hsome : ∀ i ∈ positions, (p.nodes[i]?.bind fun n => p.position? n.id) = some i := by
    intro i hi
    obtain ⟨n, hn⟩ := h i hi
    rw [hn]
    exact (Node.position?_eq_some_iff hp.ids).2 ⟨n, hn, rfl⟩
  rw [List.filterMap_congr hsome, List.filterMap_some]

theorem nodesInOrder_declared {order : List Node} (h : ∀ n ∈ order, n ∈ p.nodes) :
    p.nodesInOrder (p.declared order) = order := by
  unfold declared nodesInOrder
  rw [List.filterMap_filterMap]
  have hsome : ∀ n ∈ order, ((p.position? n.id).bind fun i => p.nodes[i]?) = some n := by
    intro n hn
    obtain ⟨i, hi⟩ := List.mem_iff_getElem?.1 (h n hn)
    have hpos : p.position? n.id = some i := (Node.position?_eq_some_iff hp.ids).2 ⟨n, hi, rfl⟩
    rw [hpos]
    exact hi
  rw [List.filterMap_congr hsome, List.filterMap_some]

theorem Arranges.declared_perm {order : List Node} (h : p.Arranges order) :
    (p.declared order).Perm p.graph.vertices := by
  have hnodup : (p.declared order).Nodup := by
    have hids : (order.map (·.id)).Nodup := (h.perm.map _).nodup_iff.2 hp.ids
    have heq : p.declared order = (order.map (·.id)).filterMap p.position? := by
      rw [List.filterMap_map]
      rfl
    rw [heq]
    refine hids.filterMap fun a b i ha hb => ?_
    rw [← id_of_position? ha, ← id_of_position? hb]
  refine (List.perm_ext_iff_of_nodup hnodup List.nodup_range).2 fun i => ?_
  unfold declared
  rw [List.mem_filterMap, List.mem_range]
  constructor
  · rintro ⟨n, -, hi⟩
    exact lt_length_of_position? hi
  · intro hi
    have hn : p.nodes[i]? = some p.nodes[i] := List.getElem?_eq_getElem hi
    exact ⟨p.nodes[i], h.perm.mem_iff.2 (List.getElem_mem hi),
      (Node.position?_eq_some_iff hp.ids).2 ⟨_, hn, rfl⟩⟩

theorem arranges_nodesInOrder {positions : List Nat} (h : p.positionOrder = .ok positions) :
    p.Arranges (p.nodesInOrder positions) := by
  obtain ⟨hordered, hnodup, hmem⟩ := positionOrder_spec h
  constructor
  · refine (List.perm_ext_iff_of_nodup (nodup_nodesInOrder hp hnodup) hp.ids.of_map).2 fun n => ?_
    exact mem_nodesInOrder_all hmem
  · intro e he
    obtain ⟨m, hm, hmid⟩ := hp.joining.producer e he
    obtain ⟨n, hn, hnid⟩ := hp.joining.consumer e he
    obtain ⟨i, hi⟩ := List.mem_iff_getElem?.1 hm
    obtain ⟨j, hj⟩ := List.mem_iff_getElem?.1 hn
    have harc : p.graph.Arc i j := hp.arc_of_getElem? hi hj ⟨e, he, hmid.symm, hnid.symm⟩
    have hsub := (hordered.sublist harc ((hmem j).2 ⟨n, hj⟩)).filterMap fun i => p.nodes[i]?
    rw [show [i, j].filterMap (fun i => p.nodes[i]?) = [m, n] by simp [hi, hj]] at hsub
    exact ⟨m, n, hmid, hnid, hsub⟩

end

end Pipeline

/-- **The order of a pipeline without cycles is the least of its arrangements**: it has every node
once and every producer before its consumer, and of all lists that do, it is the one whose nodes
are declared first, compared from the front. -/
theorem topologicalOrder_least {p : Pipeline} (hp : p.Obtained)
    (h : ∀ id, ¬ TransGen (Edge.Leads p.edges) id id) :
    ∃ order, p.topologicalOrder = .ok order ∧ p.Arranges order ∧
      ∀ other, p.Arranges other →
        order = other ∨ List.Lex (· < ·) (p.declared order) (p.declared other) := by
  have hs := hp.sound
  obtain ⟨positions, ho⟩ := Digraph.order_of_acyclic ((acyclic_dependencyGraph_iff hs.joining).2 h)
  have hpos : p.positionOrder = .ok positions := Pipeline.positionOrder_eq_ok_iff.2 ho
  obtain ⟨-, -, hmem⟩ := Pipeline.positionOrder_spec hpos
  refine ⟨p.nodesInOrder positions, by rw [Pipeline.topologicalOrder, hpos]; rfl,
    Pipeline.arranges_nodesInOrder hs hpos, fun other hother => ?_⟩
  have hplaced : positions = (p.graph.place p.graph.size (List.range p.graph.size)).1 :=
    (congrArg Prod.fst ho).symm
  have hleast : positions = p.declared other ∨ List.Lex (· < ·) positions (p.declared other) := by
    rw [hplaced]
    exact Digraph.place_least List.pairwise_lt_range (hother.declared_perm hs)
      fun i j hij _ _ => hother.sublist_declared hij
  rw [Pipeline.declared_nodesInOrder hs fun i hi => (hmem i).1 hi]
  rcases hleast with heq | hlex
  · refine .inl ?_
    rw [heq, Pipeline.nodesInOrder_declared hs fun n hn => hother.perm.mem_iff.1 hn]
  · exact .inr hlex

/-- A node that is declared before its producer, and one that could stand anywhere. -/
def consumerFirst : Definition where
  id := "p"
  mode := .async
  contexts := []
  parameters := []
  nodes := [
    ⟨"b", [], .empty, .ofList [("in", [⟨some "a", [], "T", "out"⟩])]⟩,
    ⟨"a", [], .ofList [("out", ⟨"T", .empty⟩)], .empty⟩,
    ⟨"c", [], .empty, .empty⟩]
  deployment := .empty

/-- The producer comes first, although it is declared second, and the other node as late as it is
declared. -/
theorem topologicalOrder_least_consumerFirst :
    ∃ p, (build .empty consumerFirst).1 = .ok p ∧
      ∃ order, p.topologicalOrder = .ok order ∧ order.map (·.id) = ["a", "b", "c"] ∧
        ∀ other, p.Arranges other →
          order = other ∨ List.Lex (· < ·) (p.declared order) (p.declared other) := by
  have hbuild : (build .empty consumerFirst).1 = .ok _ := rfl
  have hobtained := Pipeline.Obtained.built hbuild
  have hacyclic := (Pipeline.hasCycles_eq_false_iff hobtained.sound.joining).1 (by rfl)
  obtain ⟨order, ho, -, hleast⟩ := topologicalOrder_least hobtained hacyclic
  cases ho
  exact ⟨_, hbuild, _, rfl, rfl, hleast⟩

end Dataflow
