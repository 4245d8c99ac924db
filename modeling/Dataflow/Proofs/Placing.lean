import Dataflow.Proofs.Digraph
import Mathlib.Data.Fintype.EquivFin
import Mathlib.Data.Fintype.Sets
import Mathlib.Order.WellFounded

/-!
# Orders of a graph

`Digraph.order` is the rule that orders follow: it places vertices one by one, always the least one
none of whose predecessors is left. Placing ends when no vertex that is left is ready, so each of
them has a predecessor among them. Then all of them are on cycles or behind cycles (`Blocked`):
otherwise some vertex in front of them would have no predecessor (`Digraph.exists_source`,
`Digraph.blocked_of_closed`). As blocked vertices are never placed, they are what is left behind
(`Digraph.mem_order_snd_iff`). So a graph without cycles is placed completely
(`Digraph.order_of_acyclic`). What is placed has predecessors first (`Digraph.Ordered`), each vertex
once (`Digraph.order_spec`). A graph is found to have a cycle exactly if a path of arcs leads from a
vertex back to it (`Digraph.hasCycles_iff`).
-/

namespace Dataflow

open Relation

/-! ## Behind cycles -/

/-- A member of a relation is on a cycle or behind one: a path leads to it from one that a path of
at least one step leads back to. -/
def Blocked {α : Type} (r : α → α → Prop) (b : α) : Prop :=
  ∃ a, TransGen r a a ∧ ReflTransGen r a b

section
variable {α β : Type} {r : α → α → Prop} {s : β → β → Prop} {b : α}

theorem Blocked.exists_before (h : Blocked r b) : ∃ a, Blocked r a ∧ r a b := by
  obtain ⟨c, hc, hcb⟩ := h
  rcases ReflTransGen.cases_tail hcb with rfl | ⟨a, hca, hab⟩
  · obtain ⟨a, hba, hab⟩ := TransGen.tail'_iff.1 hc
    exact ⟨a, ⟨b, hc, hba⟩, hab⟩
  · exact ⟨a, ⟨c, hc, hca⟩, hab⟩

theorem Blocked.map (h : Blocked r b) (f : α → β) (hf : ∀ a b, r a b → s (f a) (f b)) :
    Blocked s (f b) := by
  obtain ⟨a, ha, hab⟩ := h
  exact ⟨f a, ha.lift f hf, hab.lift f hf⟩

end

namespace Digraph

variable {g : Digraph}

/-! ## Cycles -/

theorem onCycle_iff (hg : g.Within) {v : Nat} : g.onCycle v = true ↔ TransGen g.Arc v v := by
  have hs : ∀ w ∈ g.successors v, w < g.size := fun w hw => (hg v w (mem_successors.1 hw)).2
  unfold onCycle
  rw [List.contains_iff_mem, mem_reachable hg hs, TransGen.head'_iff]
  simp only [mem_successors]

/-- A cycle is found exactly if a path of arcs leads from a vertex back to it. -/
theorem hasCycles_iff (hg : g.Within) : g.hasCycles = true ↔ ∃ v, TransGen g.Arc v v := by
  unfold hasCycles
  rw [List.any_eq_true]
  constructor
  · rintro ⟨v, -, hv⟩
    exact ⟨v, (onCycle_iff hg).1 hv⟩
  · rintro ⟨v, hv⟩
    obtain ⟨w, hvw, -⟩ := TransGen.head'_iff.1 hv
    exact ⟨v, mem_vertices.2 (hg v w hvw).1, (onCycle_iff hg).2 hv⟩

/-! ## Orders -/

/-- The least of the vertices not yet placed none of whose predecessors is among them. -/
def ready? (g : Digraph) (unplaced : List Nat) : Option Nat :=
  unplaced.find? fun v => (g.predecessors v).all fun p => !unplaced.contains p

/-- Places vertices one by one and returns the placed ones, in order, and those that never become
ready, ascending. -/
def place (g : Digraph) : Nat → List Nat → List Nat × List Nat
  | 0, unplaced => ([], unplaced)
  | rounds + 1, unplaced =>
    match g.ready? unplaced with
    | none => ([], unplaced)
    | some v =>
      let (later, stuck) := g.place rounds (unplaced.filter (· ≠ v))
      (v :: later, stuck)

/-- The vertices in the least order in which predecessors come first, and the vertices that no such
order reaches, because they are on a cycle or behind one. -/
def order (g : Digraph) : List Nat × List Nat :=
  g.place g.size g.vertices

theorem ready?_spec {unplaced : List Nat} {v : Nat} (h : g.ready? unplaced = some v) :
    v ∈ unplaced ∧ ∀ u, g.Arc u v → u ∉ unplaced := by
  unfold ready? at h
  have hready := List.find?_some h
  simp only [List.all_eq_true, mem_predecessors] at hready
  exact ⟨List.mem_of_find?_eq_some h, fun u hu => by simpa using hready u hu⟩

theorem exists_arc_of_ready?_eq_none {unplaced : List Nat} (h : g.ready? unplaced = none) {v : Nat}
    (hv : v ∈ unplaced) : ∃ u ∈ unplaced, g.Arc u v := by
  unfold ready? at h
  have hwaits := List.find?_eq_none.1 h v hv
  simpa [mem_predecessors, and_comm] using hwaits

/-! ### What is left behind -/

theorem place_snd_sublist {rounds : Nat} {unplaced : List Nat} :
    (g.place rounds unplaced).2.Sublist unplaced := by
  induction rounds generalizing unplaced with
  | zero => exact List.Sublist.refl _
  | succ rounds ih =>
    unfold place
    cases g.ready? unplaced with
    | none => exact List.Sublist.refl _
    | some v => exact ih.trans List.filter_sublist

/-- With as many rounds as vertices, placing ends when nothing becomes ready. -/
theorem ready?_place_snd {rounds : Nat} {unplaced : List Nat} (hlen : unplaced.length ≤ rounds) :
    g.ready? (g.place rounds unplaced).2 = none := by
  induction rounds generalizing unplaced with
  | zero =>
    obtain rfl := List.length_eq_zero_iff.1 (Nat.le_zero.1 hlen)
    rfl
  | succ rounds ih =>
    unfold place
    cases hr : g.ready? unplaced with
    | none => exact hr
    | some v =>
      have hless : (unplaced.filter (· ≠ v)).length < unplaced.length :=
        List.length_filter_lt_length_iff_exists.2 ⟨v, (ready?_spec hr).1, by simp⟩
      exact ih (by omega)

/-- Vertices of which each has a predecessor among them are never placed. -/
theorem mem_place_snd {S : Nat → Prop} (hS : ∀ v, S v → ∃ u, S u ∧ g.Arc u v) {rounds : Nat}
    {unplaced : List Nat} (hu : ∀ v, S v → v ∈ unplaced) {v : Nat} (hv : S v) :
    v ∈ (g.place rounds unplaced).2 := by
  induction rounds generalizing unplaced with
  | zero => exact hu v hv
  | succ rounds ih =>
    unfold place
    cases hr : g.ready? unplaced with
    | none => exact hu v hv
    | some w =>
      refine ih fun x hx => List.mem_filter.2 ⟨hu x hx, decide_eq_true ?_⟩
      -- One of them that is ready would have its predecessor among those left.
      rintro rfl
      obtain ⟨u, hsu, hux⟩ := hS x hx
      exact (ready?_spec hr).2 u hux (hu u hsu)

/-- Some vertex of a list has no predecessor in it, if no vertex of the list is on a cycle. -/
theorem exists_source {vs : List Nat} (h : ∀ v ∈ vs, ¬ TransGen g.Arc v v) (hne : vs ≠ []) :
    ∃ v ∈ vs, ∀ u ∈ vs, ¬ g.Arc u v := by
  -- Without cycles, paths order the vertices of the list, which are finitely many.
  have : IsTrans {v // v ∈ vs} fun a b => TransGen g.Arc a.1 b.1 := ⟨fun _ _ _ => TransGen.trans⟩
  have : Std.Irrefl fun a b : {v // v ∈ vs} => TransGen g.Arc a.1 b.1 := ⟨fun a => h a.1 a.2⟩
  have hwf := Finite.wellFounded_of_trans_of_irrefl
    fun a b : {v // v ∈ vs} => TransGen g.Arc a.1 b.1
  obtain ⟨v, hv⟩ := List.exists_mem_of_ne_nil vs hne
  obtain ⟨m, -, hm⟩ := hwf.has_min Set.univ ⟨⟨v, hv⟩, trivial⟩
  exact ⟨m.1, m.2, fun u hu hum => hm ⟨u, hu⟩ trivial (.single hum)⟩

/-- Vertices of which each has a predecessor among them are on cycles or behind them. -/
theorem blocked_of_closed {vs : List Nat} (hvs : ∀ v ∈ vs, ∃ u ∈ vs, g.Arc u v) {v : Nat}
    (hv : v ∈ vs) : Blocked g.Arc v := by
  classical
  by_contra hb
  -- Otherwise none of those with a path to `v` is on a cycle, so one has no predecessor.
  have hfree : ∀ u ∈ vs.filter (ReflTransGen g.Arc · v), ¬ TransGen g.Arc u u := fun u hu hcycle =>
    hb ⟨u, hcycle, of_decide_eq_true (List.mem_filter.1 hu).2⟩
  have hne : vs.filter (ReflTransGen g.Arc · v) ≠ [] :=
    List.ne_nil_of_mem (List.mem_filter.2 ⟨hv, decide_eq_true .refl⟩)
  obtain ⟨w, hw, hsource⟩ := exists_source hfree hne
  obtain ⟨hwvs, hwv⟩ := List.mem_filter.1 hw
  obtain ⟨u, hu, huw⟩ := hvs w hwvs
  exact hsource u (List.mem_filter.2 ⟨hu, decide_eq_true (.head huw (of_decide_eq_true hwv))⟩) huw

theorem blocked_of_mem_order_snd {v : Nat} (h : v ∈ g.order.2) : Blocked g.Arc v := by
  have hlen : g.vertices.length ≤ g.size := by simp [vertices]
  exact blocked_of_closed (fun _ => exists_arc_of_ready?_eq_none (ready?_place_snd hlen)) h

/-- **What is left behind** are the vertices on cycles and those behind them. -/
theorem mem_order_snd_iff (hg : g.Within) {v : Nat} : v ∈ g.order.2 ↔ Blocked g.Arc v := by
  refine ⟨blocked_of_mem_order_snd, fun h => ?_⟩
  refine mem_place_snd (fun _ => Blocked.exists_before) (fun u hu => ?_) h
  obtain ⟨w, -, hwu⟩ := hu.exists_before
  exact mem_vertices.2 (hg w u hwu).2

/-- A graph without cycles is placed completely. -/
theorem order_of_acyclic (h : ∀ v, ¬ TransGen g.Arc v v) : ∃ order, g.order = (order, []) := by
  refine ⟨g.order.1, Prod.ext rfl (List.eq_nil_iff_forall_not_mem.2 fun v hv => ?_)⟩
  obtain ⟨u, hu, -⟩ := blocked_of_mem_order_snd hv
  exact h u hu

/-- All vertices are placed exactly if there is no cycle. -/
theorem order_snd_eq_nil_iff (hg : g.Within) :
    g.order.2 = [] ↔ ∀ v, ¬ TransGen g.Arc v v := by
  simp only [List.eq_nil_iff_forall_not_mem, mem_order_snd_iff hg]
  exact ⟨fun h v hv => h v ⟨v, hv, .refl⟩, fun h v ⟨u, hu, _⟩ => h u hu⟩

/-! ### What has been placed -/

/-- A list of vertices in which the predecessors of every vertex come before it. -/
inductive Ordered (g : Digraph) : List Nat → Prop
  | nil : g.Ordered []
  | snoc {vs : List Nat} {v : Nat} (h : g.Ordered vs) (hv : ∀ u, g.Arc u v → u ∈ vs) :
    g.Ordered (vs ++ [v])

/-- Placing continues an order, if every predecessor has been placed or is left. -/
theorem ordered_place {rounds : Nat} {placed unplaced : List Nat} (hp : g.Ordered placed)
    (hu : ∀ u v, g.Arc u v → u ∈ placed ∨ u ∈ unplaced) :
    g.Ordered (placed ++ (g.place rounds unplaced).1) := by
  induction rounds generalizing placed unplaced with
  | zero => simpa [place] using hp
  | succ rounds ih =>
    unfold place
    cases hr : g.ready? unplaced with
    | none => simpa using hp
    | some w =>
      obtain ⟨-, hout⟩ := ready?_spec hr
      have hw : g.Ordered (placed ++ [w]) := hp.snoc fun u huw =>
        (hu u w huw).resolve_right (hout u huw)
      show g.Ordered (placed ++ w :: (g.place rounds (unplaced.filter (· ≠ w))).1)
      rw [List.append_cons]
      refine ih hw fun u v huv => ?_
      by_cases huw : u = w
      · exact .inl (by simp [huw])
      · rcases hu u v huv with h | h
        · exact .inl (List.mem_append_left _ h)
        · exact .inr (List.mem_filter.2 ⟨h, decide_eq_true huw⟩)

theorem filter_ne_eq_erase {vs : List Nat} (h : vs.Nodup) {v : Nat} :
    vs.filter (· ≠ v) = vs.erase v := by
  rw [h.erase_eq_filter]
  exact List.filter_congr fun x _ => by by_cases hx : x = v <;> simp [hx]

theorem place_perm {rounds : Nat} {unplaced : List Nat} (hn : unplaced.Nodup) :
    ((g.place rounds unplaced).1 ++ (g.place rounds unplaced).2).Perm unplaced := by
  induction rounds generalizing unplaced with
  | zero => simp [place]
  | succ rounds ih =>
    unfold place
    cases hr : g.ready? unplaced with
    | none => simp
    | some w =>
      refine ((ih (hn.filter _)).cons w).trans ?_
      rw [filter_ne_eq_erase hn]
      exact (List.perm_cons_erase (ready?_spec hr).1).symm

/-- **An order** has every vertex once, those that are left behind apart, and after all its
predecessors. -/
theorem order_spec (hg : g.Within) :
    g.Ordered g.order.1 ∧ (g.order.1 ++ g.order.2).Perm g.vertices := by
  refine ⟨?_, place_perm List.nodup_range⟩
  exact ordered_place .nil fun u v huv => .inr (mem_vertices.2 (hg u v huv).1)

end Digraph

end Dataflow
