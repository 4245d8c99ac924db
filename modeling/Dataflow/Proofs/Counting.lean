import Dataflow.Proofs.Placing
import Dataflow.Proofs.Sorting

/-!
# Counting follows the rule

`Digraph.Counts.Of g unplaced c`: the counts `c` go with the vertices `unplaced`. Each vertex waits
for those of its predecessors that are unplaced, and the unplaced vertices that wait for none are
ready. Taking a vertex and releasing its successors keeps this (`Counts.Of.take`), and no count is
lowered below zero on the way (`Counts.Of.pos_waits`). So counting takes the vertices that the rule
places, and those that still wait in the end are those that the rule leaves behind
(`Digraph.drain_counts`).
-/

namespace Dataflow

namespace Counts

variable {c : Counts} {vs : List Nat}

/-! ## Releasing vertices -/

@[simp] theorem waits_release (c : Counts) (v : Nat) :
    (c.release v).waits = c.waits.set v (c.waits[v]?.getD 0 - 1) := rfl

theorem length_waits_foldl_release :
    (vs.foldl release c).waits.length = c.waits.length := by
  induction vs generalizing c with
  | nil => rfl
  | cons v vs ih =>
    rw [List.foldl_cons, ih, waits_release, List.length_set]

/-- Only the vertices that are released wait for one predecessor less. -/
theorem waits_foldl_release (hvs : vs.Nodup) (u : Nat) :
    (vs.foldl release c).waits[u]?.getD 0 = c.waits[u]?.getD 0 - if u ∈ vs then 1 else 0 := by
  induction vs generalizing c with
  | nil => simp
  | cons v vs ih =>
    obtain ⟨hv, hvs⟩ := List.nodup_cons.1 hvs
    rw [List.foldl_cons, ih hvs, waits_release]
    rcases eq_or_ne u v with rfl | hne
    · rcases Nat.lt_or_ge u c.waits.length with hlt | hge
      · simp [hv, hlt]
      · simp [hge]
    · simp [hne, List.getElem?_set_ne hne.symm]

theorem ready_foldl_release (hvs : vs.Nodup) :
    (vs.foldl release c).ready.Perm (c.ready ++ vs.filter fun u => c.waits[u]?.getD 0 ≤ 1) := by
  induction vs generalizing c with
  | nil => simp
  | cons v vs ih =>
    obtain ⟨hv, hvs⟩ := List.nodup_cons.1 hvs
    have hsame : (vs.filter fun u => (c.release v).waits[u]?.getD 0 ≤ 1) =
        vs.filter fun u => c.waits[u]?.getD 0 ≤ 1 := by
      refine List.filter_congr fun u hu => ?_
      have hne : v ≠ u := fun h => hv (h ▸ hu)
      rw [waits_release, List.getElem?_set_ne hne]
    have hready : (c.release v).ready.Perm
        (c.ready ++ [v].filter fun u => c.waits[u]?.getD 0 ≤ 1) := by
      by_cases h : c.waits[v]?.getD 0 ≤ 1
      · have hleft : c.waits[v]?.getD 0 - 1 = 0 := by omega
        have hinsert : (insertSorted (· ≤ ·) v c.ready).Perm (c.ready ++ [v]) :=
          insertSorted_perm.trans (List.perm_append_singleton v _).symm
        simpa [release, hleft, h] using hinsert
      · have hleft : c.waits[v]?.getD 0 - 1 ≠ 0 := by omega
        simp [release, hleft, h]
    rw [List.foldl_cons, ← List.singleton_append, List.filter_append, ← List.append_assoc]
    exact (ih hvs).trans (hsame ▸ hready.append_right _)

theorem ready_foldl_release_pairwise (h : c.ready.Pairwise fun a b => decide (a ≤ b) = true) :
    (vs.foldl release c).ready.Pairwise fun a b => decide (a ≤ b) = true := by
  induction vs generalizing c with
  | nil => exact h
  | cons v vs ih =>
    refine ih ?_
    show (ite _ _ _ : List Nat).Pairwise _
    split
    · exact insertSorted_pairwise h
    · exact h

end Counts

namespace Digraph

variable {g : Digraph}

/-! ## What a vertex waits for -/

/-- The number of unplaced predecessors of a vertex. -/
def waiting (g : Digraph) (unplaced : List Nat) (v : Nat) : Nat :=
  ((g.predecessors v).filter fun u => u ∈ unplaced).length

theorem waiting_eq_zero_iff {unplaced : List Nat} {v : Nat} :
    g.waiting unplaced v = 0 ↔ ∀ u, g.Arc u v → u ∉ unplaced := by
  simp [waiting, mem_predecessors]

theorem waiting_pos_iff {unplaced : List Nat} {v : Nat} :
    0 < g.waiting unplaced v ↔ ∃ u ∈ unplaced, g.Arc u v := by
  rw [Nat.pos_iff_ne_zero, ne_eq, waiting_eq_zero_iff]
  push Not
  simp only [and_comm]

theorem ready?_eq_head? (unplaced : List Nat) :
    g.ready? unplaced = (unplaced.filter fun v => g.waiting unplaced v = 0).head? := by
  rw [List.head?_filter]
  unfold ready?
  congr 1
  funext v
  rw [Bool.eq_iff_iff, decide_eq_true_iff, waiting_eq_zero_iff]
  simp [mem_predecessors]

section
variable (hn : g.arcs.Nodup)
include hn

/-- Different arcs with one end in common have different other ends. -/
theorem nodup_ends (near far : Nat × Nat → Nat)
    (hends : ∀ a b, near a = near b → far a = far b → a = b) (v : Nat) :
    (g.arcs.filterMap fun a => if near a = v then some (far a) else none).Nodup := by
  refine hn.filterMap fun a b w ha hb => ?_
  obtain ⟨hav, haw⟩ := Option.ite_none_right_eq_some.1 ha
  obtain ⟨hbv, hbw⟩ := Option.ite_none_right_eq_some.1 hb
  exact hends a b (hav.trans hbv.symm) (Option.some.inj (haw.trans hbw.symm))

theorem nodup_predecessors (v : Nat) : (g.predecessors v).Nodup :=
  nodup_ends hn Prod.snd Prod.fst (fun _ _ hb ha => Prod.ext ha hb) v

theorem nodup_successors (v : Nat) : (g.successors v).Nodup :=
  nodup_ends hn Prod.fst Prod.snd (fun _ _ ha hb => Prod.ext ha hb) v

theorem waiting_filter_ne {unplaced : List Nat} {v : Nat} (hv : v ∈ unplaced) (w : Nat) :
    g.waiting (unplaced.filter (· ≠ v)) w =
      g.waiting unplaced w - if w ∈ g.successors v then 1 else 0 := by
  have hnodup := (nodup_predecessors hn w).filter fun u => u ∈ unplaced
  have herase : ((g.predecessors w).filter fun u => u ∈ unplaced.filter (· ≠ v)) =
      ((g.predecessors w).filter fun u => u ∈ unplaced).erase v := by
    rw [← filter_ne_eq_erase hnodup, List.filter_filter]
    exact List.filter_congr fun u _ => by simp [and_comm]
  unfold waiting
  rw [herase, List.length_erase]
  have hmem : v ∈ (g.predecessors w).filter (fun u => u ∈ unplaced) ↔ w ∈ g.successors v := by
    simp [mem_predecessors, mem_successors, hv]
  simp only [hmem]
  split <;> rfl

end

end Digraph

/-! ## Counts that go with what is unplaced -/

/-- Each vertex waits for those of its predecessors that are unplaced, those that wait for none are
ready, and whatever comes behind an unplaced vertex is unplaced too. -/
structure Counts.Of (g : Digraph) (unplaced : List Nat) (c : Counts) : Prop where
  sorted : unplaced.Pairwise (· < ·)
  range : ∀ v ∈ unplaced, v < g.size
  behind : ∀ u v, g.Arc u v → u ∈ unplaced → v ∈ unplaced
  length : c.waits.length = g.size
  waits : ∀ v, v < g.size → c.waits[v]?.getD 0 = g.waiting unplaced v
  ready : c.ready = unplaced.filter fun v => g.waiting unplaced v = 0

namespace Counts.Of

variable {g : Digraph} {unplaced ready : List Nat} {c : Counts} {v : Nat}

/-- Before anything is placed, each vertex waits for all its predecessors. -/
theorem counts (hg : g.Within) : Of g g.vertices g.counts := by
  have hall : ∀ v, g.waiting g.vertices v = (g.predecessors v).length := by
    intro v
    unfold Digraph.waiting
    congr 1
    exact List.filter_eq_self.2 fun u hu =>
      decide_eq_true (Digraph.mem_vertices.2 (hg u v (Digraph.mem_predecessors.1 hu)).1)
  exact {
    sorted := List.pairwise_lt_range
    range := fun v hv => Digraph.mem_vertices.1 hv
    behind := fun u v huv _ => Digraph.mem_vertices.2 (hg u v huv).2
    length := by simp [Digraph.counts, Digraph.vertices]
    waits := fun v hv => by simp [Digraph.counts, Digraph.vertices, hv, ← hall]
    ready := by simp only [Digraph.counts, hall] }

section
variable (h : Of g unplaced c) (hr : c.ready = v :: ready)
include h hr

theorem mem_of_ready : v ∈ unplaced ∧ g.waiting unplaced v = 0 := by
  have hv : v ∈ c.ready := hr ▸ List.mem_cons_self
  rw [h.ready] at hv
  simpa using hv

theorem ready?_eq : g.ready? unplaced = some v := by
  rw [Digraph.ready?_eq_head?, ← h.ready, hr]
  rfl

theorem ready_pairwise : (v :: ready).Pairwise (· < ·) :=
  hr ▸ h.ready ▸ h.sorted.filter _

/-- The others that are ready are the other unplaced vertices that wait for none. -/
theorem mem_rest_iff {w : Nat} :
    w ∈ ready ↔ w ∈ unplaced ∧ w ≠ v ∧ g.waiting unplaced w = 0 := by
  have hv : v ∉ ready := (List.nodup_cons.1 ((h.ready_pairwise hr).imp Nat.ne_of_lt)).1
  have hw : w ∈ v :: ready ↔ w ∈ unplaced ∧ g.waiting unplaced w = 0 := by
    rw [← hr, h.ready]
    simp
  rw [and_left_comm, ← hw, List.mem_cons]
  have hne : w ∈ ready → w ≠ v := fun hwr hwv => hv (hwv ▸ hwr)
  tauto

/-- The successors of what is ready are other vertices that are unplaced and wait for it. -/
theorem of_successor {w : Nat} (hw : w ∈ g.successors v) :
    w ∈ unplaced ∧ w ≠ v ∧ 0 < g.waiting unplaced w := by
  obtain ⟨hv, hzero⟩ := h.mem_of_ready hr
  have hvw := Digraph.mem_successors.1 hw
  refine ⟨h.behind v w hvw hv, ?_, Digraph.waiting_pos_iff.2 ⟨v, hv, hvw⟩⟩
  rintro rfl
  exact Digraph.waiting_eq_zero_iff.1 hzero w hvw hv

variable (hn : g.arcs.Nodup)
include hn

/-- **No count is lowered below zero**: a vertex that is released still waits for the vertex that
was taken. -/
theorem pos_waits {before after : List Nat} {w : Nat}
    (hs : g.successors v = before ++ w :: after) :
    0 < (before.foldl release { c with ready }).waits[w]?.getD 0 := by
  have hw : w ∈ g.successors v := hs ▸ by simp
  obtain ⟨hmem, -, hpos⟩ := h.of_successor hr hw
  have hnodup : (before ++ w :: after).Nodup := hs ▸ Digraph.nodup_successors hn v
  obtain ⟨hbefore, -, hdisjoint⟩ := List.nodup_append.1 hnodup
  have hout : w ∉ before := fun hb => hdisjoint w hb w List.mem_cons_self rfl
  rw [waits_foldl_release hbefore, if_neg hout]
  exact (h.waits w (h.range w hmem)).symm ▸ hpos

/-- The vertices that are ready once one of them has been taken. -/
theorem ready_take :
    ((g.successors v).foldl release { c with ready }).ready =
      (unplaced.filter (· ≠ v)).filter fun w => g.waiting (unplaced.filter (· ≠ v)) w = 0 := by
  have hv : v ∈ unplaced := (h.mem_of_ready hr).1
  have hlater : ready.Pairwise (· < ·) := (h.ready_pairwise hr).of_cons
  have hwaits : ∀ w ∈ g.successors v, c.waits[w]?.getD 0 = g.waiting unplaced w := fun w hw =>
    h.waits w (h.range w (h.of_successor hr hw).1)
  have hperm := ready_foldl_release (c := { c with ready }) (Digraph.nodup_successors hn v)
  have hpairwise :
      ((g.successors v).foldl release { c with ready }).ready.Pairwise
        fun a b => decide (a ≤ b) = true :=
    ready_foldl_release_pairwise (hlater.imp fun hab => decide_eq_true (Nat.le_of_lt hab))
  refine List.Perm.eq_of_pairwise (fun a b _ _ => ?_) hpairwise
    (((h.sorted.filter _).filter _).imp fun hab => decide_eq_true (Nat.le_of_lt hab))
    (hperm.trans ?_)
  · simpa using Nat.le_antisymm
  -- Both sides have the same members, each once.
  have hdisjoint : ∀ w ∈ ready, w ∉ g.successors v := fun w hw hs =>
    Nat.ne_of_gt (h.of_successor hr hs).2.2 ((h.mem_rest_iff hr).1 hw).2.2
  refine (List.perm_ext_iff_of_nodup ?_ ?_).2 fun w => ?_
  · refine List.nodup_append.2 ⟨hlater.imp Nat.ne_of_lt,
      (Digraph.nodup_successors hn v).filter _, fun a ha b hb hab => ?_⟩
    exact hdisjoint a ha (hab ▸ (List.mem_filter.1 hb).1)
  · exact ((h.sorted.filter _).filter _).imp Nat.ne_of_lt
  · simp only [List.mem_append, List.mem_filter, decide_eq_true_eq,
      h.mem_rest_iff hr, Digraph.waiting_filter_ne hn hv]
    by_cases hs : w ∈ g.successors v
    · obtain ⟨hwu, hne, hpos⟩ := h.of_successor hr hs
      simp only [hs, hwu, hne, hwaits w hs, if_true, true_and, ne_eq, not_false_eq_true]
      omega
    · simp [hs, and_assoc]

/-- **Taking a vertex** and releasing its successors goes with placing it. -/
theorem take : Of g (unplaced.filter (· ≠ v))
    ((g.successors v).foldl release { c with ready }) := by
  obtain ⟨hv, hzero⟩ := h.mem_of_ready hr
  exact {
    sorted := h.sorted.filter _
    range := fun w hw => h.range w (List.mem_filter.1 hw).1
    behind := by
      intro u w huw hu
      obtain ⟨hleft, -⟩ := List.mem_filter.1 hu
      refine List.mem_filter.2 ⟨h.behind u w huw hleft, decide_eq_true ?_⟩
      rintro rfl
      exact Digraph.waiting_eq_zero_iff.1 hzero u huw hleft
    length := length_waits_foldl_release.trans h.length
    waits := by
      intro w hw
      rw [waits_foldl_release (Digraph.nodup_successors hn v), Digraph.waiting_filter_ne hn hv]
      exact congrArg (· - _) (h.waits w hw)
    ready := h.ready_take hr hn }

end

end Counts.Of

namespace Digraph

variable {g : Digraph}

/-! ## Runs -/

/-- A run takes the vertices that the rule places, and its counts go with those that are left. -/
theorem drain_spec (hn : g.arcs.Nodup) {bound : Nat} {unplaced : List Nat} {c : Counts}
    (h : Counts.Of g unplaced c) :
    (g.drain bound c).1 = (g.place bound unplaced).1 ∧
      Counts.Of g (g.place bound unplaced).2 (g.drain bound c).2 := by
  induction bound generalizing unplaced c with
  | zero => exact ⟨rfl, h⟩
  | succ bound ih =>
    unfold drain place
    cases hr : c.ready with
    | nil =>
      have hnone : g.ready? unplaced = none := by
        rw [ready?_eq_head?, ← h.ready, hr]
        rfl
      rw [hnone]
      exact ⟨rfl, h⟩
    | cons v ready =>
      rw [h.ready?_eq hr]
      obtain ⟨htaken, hlast⟩ := ih (h.take hr hn)
      exact ⟨congrArg (v :: ·) htaken, hlast⟩

/-- The vertices that still wait are those that are left, once none of these is ready. -/
theorem stuck_eq {unplaced : List Nat} {c : Counts} (h : Counts.Of g unplaced c)
    (hnone : g.ready? unplaced = none) : c.stuck = unplaced := by
  have hsorted : c.stuck.Pairwise (· < ·) := List.pairwise_lt_range.filter _
  refine hsorted.eq_of_mem_iff h.sorted fun v => ?_
  unfold Counts.stuck
  rw [h.length, List.mem_filter, List.mem_range, decide_eq_true_iff]
  constructor
  · rintro ⟨hlt, hpos⟩
    rw [h.waits v hlt] at hpos
    obtain ⟨u, hu, huv⟩ := waiting_pos_iff.1 hpos
    exact h.behind u v huv hu
  · intro hv
    have hlt := h.range v hv
    refine ⟨hlt, ?_⟩
    rw [h.waits v hlt]
    exact waiting_pos_iff.2 (exists_arc_of_ready?_eq_none hnone hv)

/-- **Counting follows the rule**: it takes the vertices that are placed, in this order, and ends
when none is ready. Those that wait in the end are those that are left behind. -/
theorem drain_counts (hg : g.Within) (hn : g.arcs.Nodup) :
    (g.drain g.size g.counts).1 = g.order.1 ∧ (g.drain g.size g.counts).2.ready = [] ∧
      (g.drain g.size g.counts).2.stuck = g.order.2 := by
  have hlen : g.vertices.length ≤ g.size := by simp [vertices]
  have hnone : g.ready? g.order.2 = none := ready?_place_snd hlen
  obtain ⟨htaken, hlast⟩ : (g.drain g.size g.counts).1 = g.order.1 ∧
      Counts.Of g g.order.2 (g.drain g.size g.counts).2 := drain_spec hn (Counts.Of.counts hg)
  refine ⟨htaken, ?_, stuck_eq hlast hnone⟩
  rw [hlast.ready, ← List.head?_eq_none_iff, ← ready?_eq_head?, hnone]

/-- A vertex in front of a cycle is taken, and one behind it is not. -/
example : (⟨4, [(0, 1), (1, 2), (2, 1), (2, 3)]⟩ : Digraph).drain 4
    (⟨4, [(0, 1), (1, 2), (2, 1), (2, 3)]⟩ : Digraph).counts = ([0], ⟨[0, 1, 1, 1], []⟩) := by
  decide

end Digraph

end Dataflow
