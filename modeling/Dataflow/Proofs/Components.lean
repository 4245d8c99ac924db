import Dataflow.Build
import Dataflow.Proofs.Digraph
import Dataflow.Proofs.Sorting
import Mathlib.Order.Minimal

/-!
# Components as classes of a relation

`classes r l`: the sets of two or more members of `l` that `r` puts together, each of them listed at
its first member and in the order of `l`. What is left of the components of a graph once they are
filtered and sorted does not depend on how a search lists them (`CyclePolicy.cyclic_congr`); it is
the classes of the vertices under paths in both directions (`CyclePolicy.cyclic_components`).
Classes carry over to names for the vertices (`classes_map`). Where `r` is an equivalence its
classes are disjoint and in the order of their first members (`pairwise_classes`); where `r` is
reachability in both directions they are the maximal sets of members that reach each other
(`mem_classes_iff_maximal`). -/

namespace Dataflow

open Relation

section
variable {α β : Type} [DecidableEq α] [DecidableEq β]

/-- The sets of two or more members of a list that a relation puts together, in the order of their
first members and each in the order of the list. -/
def classes (r : α → α → Prop) [DecidableRel r] (l : List α) : List (List α) :=
  l.filterMap fun a =>
    let members := l.filter (r a)
    if members.head? = some a ∧ 1 < members.length then some members else none

variable {r : α → α → Prop} [DecidableRel r] {s : β → β → Prop} [DecidableRel s] {l : List α}

theorem subset_of_mem_classes {members : List α} (h : members ∈ classes r l) : members ⊆ l := by
  obtain ⟨a, -, ha⟩ := List.mem_filterMap.1 h
  obtain ⟨-, hm⟩ := Option.ite_none_right_eq_some.1 ha
  cases hm
  exact List.filter_subset_self l

/-- Names for the members of a list, related as the members are, have the same classes. -/
theorem classes_map {f : α → β} (hf : ∀ a ∈ l, ∀ b ∈ l, f a = f b → a = b)
    (hr : ∀ a ∈ l, ∀ b ∈ l, s (f a) (f b) ↔ r a b) :
    classes s (l.map f) = (classes r l).map (List.map f) := by
  unfold classes
  rw [List.filterMap_map, List.map_filterMap]
  refine List.filterMap_congr fun a ha => ?_
  have hmembers : (l.map f).filter (s (f a)) = (l.filter (r a)).map f := by
    rw [List.filter_map]
    refine congrArg _ (List.filter_congr fun b hb => ?_)
    simpa using hr a ha b hb
  have hhead : (l.filter (r a)).head?.map f = some (f a) ↔ (l.filter (r a)).head? = some a := by
    cases hm : (l.filter (r a)).head? with
    | none => simp
    | some b =>
      have hb : b ∈ l := List.filter_subset_self l (List.mem_of_head? hm)
      simp only [Option.map_some, Option.some.injEq]
      exact ⟨fun he => hf b hb a ha he, fun he => he ▸ rfl⟩
  simp only [Function.comp_apply, hmembers, List.head?_map, hhead, List.length_map]
  split <;> rfl

/-- A test for the relation finds its classes, and what is related to nothing else. -/
theorem filter_filterMap_eq_classes {test : α → α → Bool}
    (h : ∀ a ∈ l, ∀ b ∈ l, test a b = true ↔ r a b) :
    ((l.filterMap fun a =>
      let members := l.filter (test a)
      if members.head? = some a then some members else none).filter fun members =>
        1 < members.length) = classes r l := by
  unfold classes
  rw [List.filter_filterMap]
  refine List.filterMap_congr fun a ha => ?_
  have hmembers : l.filter (test a) = l.filter (r a) :=
    List.filter_congr fun b hb => by rw [Bool.eq_iff_iff, h a ha b hb, decide_eq_true_iff]
  simp only [hmembers]
  split <;> simp_all [Option.filter]

/-! ## Classes of an equivalence -/

section
variable (hr : Equivalence r)
include hr

omit [DecidableEq α] in
theorem filter_eq_of_related {a b : α} (h : r a b) : l.filter (r a) = l.filter (r b) := by
  refine List.filter_congr fun c _ => ?_
  rw [Bool.eq_iff_iff, decide_eq_true_iff, decide_eq_true_iff]
  exact ⟨hr.trans (hr.symm h), hr.trans h⟩

/-- A class is listed at its first member, so it has what is related to any member. -/
theorem mem_classes_iff {members : List α} :
    members ∈ classes r l ↔ (∃ a ∈ l, members = l.filter (r a)) ∧ 1 < members.length := by
  unfold classes
  rw [List.mem_filterMap]
  constructor
  · rintro ⟨a, ha, h⟩
    obtain ⟨⟨-, hlen⟩, rfl⟩ := Option.ite_none_right_eq_some.1 h |>.imp_right Option.some.inj
    exact ⟨⟨a, ha, rfl⟩, hlen⟩
  · rintro ⟨⟨a, -, rfl⟩, hlen⟩
    obtain ⟨b, rest, hb⟩ := List.exists_cons_of_length_pos (Nat.lt_of_succ_lt hlen)
    obtain ⟨hbl, hab⟩ := List.mem_filter.1 (hb ▸ List.mem_cons_self : b ∈ l.filter (r a))
    have heq := filter_eq_of_related (l := l) hr (of_decide_eq_true hab)
    refine ⟨b, hbl, ?_⟩
    rw [← heq, if_pos ⟨by rw [hb]; rfl, hlen⟩]

theorem classes_eq_nil_iff (hl : l.Nodup) :
    classes r l = [] ↔ ∀ a ∈ l, ∀ b ∈ l, r a b → a = b := by
  rw [List.eq_nil_iff_forall_not_mem]
  constructor
  · intro h a ha b hb hab
    by_contra hne
    have hsub : [a, b] ⊆ l.filter (r a) := by
      simp only [List.cons_subset, List.mem_filter, decide_eq_true_eq]
      exact ⟨⟨ha, hr.refl a⟩, ⟨hb, hab⟩, List.nil_subset _⟩
    have hlen := (List.subperm_of_subset (by simpa using hne) hsub).length_le
    exact h _ ((mem_classes_iff hr).2 ⟨⟨a, ha, rfl⟩, hlen⟩)
  · intro h members hm
    obtain ⟨⟨a, ha, rfl⟩, hlen⟩ := (mem_classes_iff hr).1 hm
    have hsub : l.filter (r a) ⊆ [a] := by
      intro b hb
      obtain ⟨hbl, hab⟩ := List.mem_filter.1 hb
      exact List.mem_singleton.2 (h a ha b hbl (of_decide_eq_true hab)).symm
    have hle := (List.subperm_of_subset (hl.filter _) hsub).length_le
    rw [List.length_singleton] at hle
    omega

/-- The classes of a list in some order have no member in common, and they are in the order of
their first members. -/
theorem pairwise_classes {lt : α → α → Prop} (hlt : l.Pairwise lt) (hl : l.Nodup) :
    (classes r l).Pairwise fun s t =>
      s.Disjoint t ∧ ∃ a b, s.head? = some a ∧ t.head? = some b ∧ lt a b := by
  unfold classes
  refine List.pairwise_filterMap.2 ((hlt.and hl).imp ?_)
  rintro a b ⟨hab, hne⟩ s hs t ht
  obtain ⟨⟨hsa, -⟩, rfl⟩ := Option.ite_none_right_eq_some.1 hs |>.imp_right Option.some.inj
  obtain ⟨⟨htb, -⟩, rfl⟩ := Option.ite_none_right_eq_some.1 ht |>.imp_right Option.some.inj
  refine ⟨fun c hca hcb => hne ?_, a, b, hsa, htb, hab⟩
  -- With a member in common they are the same class, which has one first member.
  have hac := filter_eq_of_related (l := l) hr (of_decide_eq_true (List.mem_filter.1 hca).2)
  have hbc := filter_eq_of_related (l := l) hr (of_decide_eq_true (List.mem_filter.1 hcb).2)
  rw [hac.trans hbc.symm, htb] at hsa
  exact (Option.some.inj hsa).symm

end

/-! ## Maximal sets -/

omit [DecidableEq α] in
theorem equivalence_of_reaches {reaches : α → α → Prop} (hrefl : ∀ a, reaches a a)
    (htrans : ∀ {a b c}, reaches a b → reaches b c → reaches a c) :
    Equivalence fun a b => reaches a b ∧ reaches b a :=
  ⟨fun a => ⟨hrefl a, hrefl a⟩, And.symm,
    fun hab hbc => ⟨htrans hab.1 hbc.1, htrans hbc.2 hab.2⟩⟩

/-- A set of members of a list each of which reaches each. -/
def Mutual (l : List α) (reaches : α → α → Prop) (s : Set α) : Prop :=
  (∀ a ∈ s, a ∈ l) ∧ ∀ a ∈ s, ∀ b ∈ s, reaches a b

open Classical in
/-- The classes of what reaches each other are the maximal sets of members that do. -/
theorem mem_classes_iff_maximal {reaches lt : α → α → Prop} [Std.Irrefl lt] [Std.Antisymm lt]
    (hrefl : ∀ a, reaches a a) (htrans : ∀ {a b c}, reaches a b → reaches b c → reaches a c)
    (hlt : l.Pairwise lt) {members : List α} :
    members ∈ classes (fun a b => reaches a b ∧ reaches b a) l ↔
      members.Pairwise lt ∧ 1 < members.length ∧ Maximal (Mutual l reaches) {a | a ∈ members} := by
  have hmutual : ∀ a, Mutual l reaches {b | b ∈ l ∧ reaches a b ∧ reaches b a} := fun a =>
    ⟨fun b hb => hb.1, fun b hb c hc => htrans hb.2.2 hc.2.1⟩
  rw [mem_classes_iff (equivalence_of_reaches hrefl htrans)]
  constructor
  · rintro ⟨⟨a, ha, rfl⟩, hlen⟩
    have hset : {b | b ∈ l.filter fun b => reaches a b ∧ reaches b a} =
        {b | b ∈ l ∧ reaches a b ∧ reaches b a} := by
      ext b
      simp
    refine ⟨hlt.filter _, hlen, ?_⟩
    rw [hset]
    refine ⟨hmutual a, fun s hs hsub b hb => ?_⟩
    have has : a ∈ s := hsub ⟨ha, hrefl a, hrefl a⟩
    exact ⟨hs.1 b hb, hs.2 a has b hb, hs.2 b hb a has⟩
  · rintro ⟨hpair, hlen, hmax⟩
    obtain ⟨a, rest, rfl⟩ := List.exists_cons_of_length_pos (Nat.lt_of_succ_lt hlen)
    have ha : a ∈ a :: rest := List.mem_cons_self
    have hsub : {b | b ∈ a :: rest} ⊆ {b | b ∈ l ∧ reaches a b ∧ reaches b a} := fun b hb =>
      ⟨hmax.prop.1 b hb, hmax.prop.2 a ha b hb, hmax.prop.2 b hb a ha⟩
    have heq := hmax.eq_of_subset (hmutual a) hsub
    refine ⟨⟨a, hmax.prop.1 a ha, hpair.eq_of_mem_iff (hlt.filter _) fun b => ?_⟩, hlen⟩
    have hb := Set.ext_iff.1 heq b
    simpa using hb

end

/-! ## Components of a graph -/

namespace CyclePolicy

/-- It does not matter how a search lists components and the members of each. -/
theorem cyclic_congr {found others listed : List (List Nat)} (h : found.Perm listed)
    (hsame : List.Forall₂ List.Perm listed others) : cyclic found = cyclic others := by
  have hlisted : (listed.filter fun members => 1 < members.length).map (sorted (· ≤ ·)) =
      (others.filter fun members => 1 < members.length).map (sorted (· ≤ ·)) := by
    induction hsame generalizing found with
    | nil => rfl
    | cons hm _ ih =>
      simp only [List.filter_cons, hm.length_eq]
      split
      · rw [List.map_cons, List.map_cons, sorted_congr hm, ih (List.Perm.refl _)]
      · exact ih (List.Perm.refl _)
  unfold cyclic
  rw [← hlisted]
  exact sorted_congr ((h.filter _).map _)

section
variable {g : Digraph} (hg : g.Within)
include hg

open Classical in
/-- **The components that are reported** are the classes of vertices that reach each other. -/
theorem cyclic_components :
    cyclic g.components =
      classes (fun v w => ReflTransGen g.Arc v w ∧ ReflTransGen g.Arc w v) g.vertices := by
  have hequiv : Equivalence fun v w => ReflTransGen g.Arc v w ∧ ReflTransGen g.Arc w v :=
    equivalence_of_reaches (fun _ => .refl) ReflTransGen.trans
  have hfound : (g.components.filter fun members => 1 < members.length) =
      classes (fun v w => ReflTransGen g.Arc v w ∧ ReflTransGen g.Arc w v) g.vertices :=
    filter_filterMap_eq_classes fun _ hv _ hw =>
      Digraph.joined_iff hg (Digraph.mem_vertices.1 hv) (Digraph.mem_vertices.1 hw)
  have hmembers : ∀ members ∈ classes
      (fun v w => ReflTransGen g.Arc v w ∧ ReflTransGen g.Arc w v) g.vertices,
      sorted (· ≤ ·) members = members := by
    intro members hm
    obtain ⟨⟨a, -, rfl⟩, -⟩ := (mem_classes_iff hequiv).1 hm
    exact sorted_eq_self_of_lt (List.pairwise_lt_range.filter _)
  unfold cyclic
  rw [hfound, List.map_congr_left hmembers, List.map_id']
  refine sorted_eq_self ((pairwise_classes hequiv List.pairwise_lt_range List.nodup_range).imp ?_)
  rintro s t ⟨-, a, b, ha, hb, hab⟩
  exact lexLE_of_head?_lt ha hb hab

/-- No component is reported exactly if no two vertices reach each other. -/
theorem cyclic_components_eq_nil_iff :
    cyclic g.components = [] ↔
      ∀ v w, ReflTransGen g.Arc v w → ReflTransGen g.Arc w v → v = w := by
  classical
  have hequiv : Equivalence fun v w => ReflTransGen g.Arc v w ∧ ReflTransGen g.Arc w v :=
    equivalence_of_reaches (fun _ => .refl) ReflTransGen.trans
  have hnodup : g.vertices.Nodup := List.nodup_range
  rw [cyclic_components hg, classes_eq_nil_iff hequiv hnodup]
  refine ⟨fun h v w hvw hwv => ?_, fun h v _ w _ hjoined => h v w hjoined.1 hjoined.2⟩
  -- Vertices on a path are within the graph, as its arcs join vertices.
  rcases ReflTransGen.cases_head hvw with rfl | ⟨u, hvu, -⟩
  · rfl
  · have hv : v < g.size := (hg v u hvu).1
    exact h v (Digraph.mem_vertices.2 hv) w
      (Digraph.mem_vertices.2 (Digraph.lt_size_of_path hg hv hvw)) ⟨hvw, hwv⟩

theorem lt_size_of_mem_cyclic {members : List Nat} (h : members ∈ cyclic g.components) {v : Nat}
    (hv : v ∈ members) : v < g.size := by
  classical
  rw [cyclic_components hg] at h
  exact Digraph.mem_vertices.1 (subset_of_mem_classes h hv)

end

end CyclePolicy

end Dataflow
