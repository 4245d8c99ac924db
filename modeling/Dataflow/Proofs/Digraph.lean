import Dataflow.Digraph
import Dataflow.Proofs.Closure

/-!
# Reachability in a graph

`Digraph.Arc g v w` is an arc of `g`, and `Digraph.Within g` says that arcs join vertices, which is
what makes the bound of `Digraph.reachable` enough. Two vertices are joined if each reaches the
other (`joined_iff`). Without arcs from a vertex to itself, no two different vertices do exactly if
there is no cycle (`acyclic_iff`). -/

namespace Dataflow.Digraph

open Relation

/-- An arc of a graph. -/
def Arc (g : Digraph) (v w : Nat) : Prop := (v, w) ∈ g.arcs

/-- Arcs join vertices. -/
def Within (g : Digraph) : Prop := ∀ v w, g.Arc v w → v < g.size ∧ w < g.size

theorem mem_vertices {g : Digraph} {v : Nat} : v ∈ g.vertices ↔ v < g.size := List.mem_range

theorem mem_successors {g : Digraph} {v w : Nat} : w ∈ g.successors v ↔ g.Arc v w := by
  simp [successors, Arc]

theorem mem_predecessors {g : Digraph} {v w : Nat} : v ∈ g.predecessors w ↔ g.Arc v w := by
  simp [predecessors, Arc]

theorem arc_ofArcs {size : Nat} {arcs : List (Nat × Nat)} {v w : Nat} :
    (ofArcs size arcs).Arc v w ↔ (v, w) ∈ arcs := by
  unfold ofArcs Arc
  rw [mem_fresh]
  exact ⟨And.left, fun h => ⟨h, List.not_mem_nil⟩⟩

/-! ## Reachability -/

section
variable {g : Digraph} (hg : g.Within)
include hg

theorem lt_size_of_path {v w : Nat} (hv : v < g.size) (h : ReflTransGen g.Arc v w) :
    w < g.size := by
  cases h with
  | refl => exact hv
  | tail _ h => exact (hg _ _ h).2

theorem mem_reachable {starts : List Nat} (hs : ∀ v ∈ starts, v < g.size) {w : Nat} :
    w ∈ g.reachable starts ↔ ∃ v ∈ starts, ReflTransGen g.Arc v w := by
  have hnext : ∀ v ∈ g.vertices, ∀ w ∈ g.successors v, w ∈ g.vertices := fun v _ w hw =>
    mem_vertices.2 (hg v w (mem_successors.1 hw)).2
  obtain ⟨l, hl, hm⟩ := closure?_within (fun v hv => mem_vertices.2 (hs v hv)) hnext
  have hsize : g.vertices.length = g.size := List.length_range
  have harc : (fun v w => w ∈ g.successors v) = g.Arc := by
    funext v w
    exact propext mem_successors
  unfold reachable
  rw [← hsize, hl, Option.getD_some, hm, Reached, harc]

theorem joined_iff {v w : Nat} (hv : v < g.size) (hw : w < g.size) :
    joined g.reach v w = true ↔ ReflTransGen g.Arc v w ∧ ReflTransGen g.Arc w v := by
  have hreach : ∀ u, u < g.size → g.reach[u]?.getD [] = g.reachable [u] := by
    intro u hu
    unfold reach vertices
    rw [List.getElem?_map, List.getElem?_range hu]
    rfl
  have hsingle : ∀ u x, u < g.size → (x ∈ g.reachable [u] ↔ ReflTransGen g.Arc u x) := by
    intro u x hu
    rw [mem_reachable hg fun y hy => List.mem_singleton.1 hy ▸ hu]
    simp
  unfold joined
  rw [Bool.and_eq_true, List.contains_iff_mem, List.contains_iff_mem, hreach v hv, hreach w hw,
    hsingle v w hv, hsingle w v hw]

end

theorem acyclic_iff {α : Type} {r : α → α → Prop} (hr : ∀ a, ¬ r a a) :
    (∀ a, ¬ TransGen r a a) ↔ ∀ a b, ReflTransGen r a b → ReflTransGen r b a → a = b := by
  constructor
  · intro h a b hab hba
    rcases reflTransGen_iff_eq_or_transGen.1 hab with rfl | hab
    · rfl
    · exact absurd (hab.trans_left hba) (h a)
  · intro h a ha
    obtain ⟨b, hab, hba⟩ := TransGen.head'_iff.1 ha
    obtain rfl := h a b (.single hab) hba
    exact hr a hab

end Dataflow.Digraph
