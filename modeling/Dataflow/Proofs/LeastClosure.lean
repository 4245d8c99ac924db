import Dataflow.Proofs.Paths
import Mathlib.Data.Set.Finite.Basic
import Mathlib.Order.Bounds.Defs

/-!
# The closure is the least closed set

`Encloses next initial S`: the set `S` has the initial members and every successor of its own. What
is reached is the least such set (`isLeast_reached`). A work list finds it whichever of the waiting
members it takes next (`WorkList`): all of them make as many turns as members are reached, and have
seen the same in the end (`WorkList.spec`); the one that is run takes the first
(`WorkList.of_expand`). The closure of ids is what is reached in ascending order, where its bound
allows as many (`idClosure?_eq_some_iff`), so it depends on members alone.
-/

namespace Dataflow

variable {α : Type}

/-! ## Closed sets -/

/-- A set has the initial members and every successor of its own. -/
structure Encloses (next : α → List α) (initial : List α) (S : Set α) : Prop where
  starts : ∀ a ∈ initial, a ∈ S
  closed : ∀ a ∈ S, ∀ b ∈ next a, b ∈ S

/-- What is reached is the least set that has the initial members and every successor. -/
theorem isLeast_reached (next : α → List α) (initial : List α) :
    IsLeast {S | Encloses next initial S} {a | Reached next initial a} := by
  refine ⟨⟨fun _ ha => .start ha, fun _ ha _ hb => Reached.tail ha hb⟩, fun S hS a ha => ?_⟩
  exact Reached.mem_of_closed (P := (· ∈ S)) ha hS.starts hS.closed

theorem reached_congr {next next' : α → List α} {initial initial' : List α}
    (hnext : ∀ a b, b ∈ next' a ↔ b ∈ next a) (hinitial : ∀ a, a ∈ initial' ↔ a ∈ initial) (b : α) :
    Reached next' initial' b ↔ Reached next initial b := by
  simp only [Reached, hnext, hinitial]

/-! ## Work lists -/

section
variable [DecidableEq α] {next : α → List α} {initial : List α}

/-- `WorkList next initial turns frontier seen`: after some turns, `frontier` waits of what has been
seen. A turn takes any of the waiting members and lets those wait that it adds. -/
inductive WorkList (next : α → List α) (initial : List α) : Nat → List α → List α → Prop
  | entry : WorkList next initial 0 (fresh [] initial) (fresh [] initial)
  | take {turns : Nat} {before after seen : List α} {a : α} :
      WorkList next initial turns (before ++ a :: after) seen →
      WorkList next initial (turns + 1) (before ++ after ++ fresh seen (next a))
        (seen ++ fresh seen (next a))

/-- A run that ends is a work list that takes the first member each time. -/
theorem WorkList.of_expand : ∀ {bound turns : Nat} {frontier seen l : List α},
    WorkList next initial turns frontier seen → expand next bound frontier seen = some l →
      ∃ turns', turns' ≤ turns + bound ∧ WorkList next initial turns' [] l
  | bound, turns, [], _, _, h, hl => by
    unfold expand at hl
    cases hl
    exact ⟨turns, Nat.le_add_right turns bound, h⟩
  | 0, _, _ :: _, _, _, _, hl => by
    unfold expand at hl
    cases hl
  | bound + 1, turns, a :: frontier, seen, l, h, hl => by
    unfold expand at hl
    have hnext : WorkList next initial (turns + 1) ([] ++ frontier ++ fresh seen (next a))
        (seen ++ fresh seen (next a)) := .take h
    obtain ⟨turns', hle, hrun⟩ := WorkList.of_expand hnext hl
    exact ⟨turns', by omega, hrun⟩

omit [DecidableEq α] in
theorem Expanded.perm {done frontier frontier' : List α} (h : Expanded next initial done frontier)
    (hp : frontier.Perm frontier') : Expanded next initial done frontier' := by
  have hseen : (done ++ frontier).Perm (done ++ frontier') := hp.append_left done
  refine ⟨hseen.nodup h.nodup, fun a ha => ?_, fun a ha b hb => ?_, fun a ha => ?_⟩
  · exact hseen.mem_iff.1 (h.starts a ha)
  · exact hseen.mem_iff.1 (h.closed a ha b hb)
  · exact h.reached a (hseen.mem_iff.2 ha)

/-- **The invariant**: every turn has expanded one member, whose successors have been seen. -/
theorem WorkList.expanded {turns : Nat} {frontier seen : List α}
    (h : WorkList next initial turns frontier seen) :
    ∃ done, done.length = turns ∧ seen.Perm (done ++ frontier) ∧
      Expanded next initial done frontier := by
  induction h with
  | entry => exact ⟨[], rfl, .refl _, .entry next initial⟩
  | @take turns before after seen a _ ih =>
    obtain ⟨done, hlen, hseen, hexpanded⟩ := ih
    have hfront : (before ++ a :: after).Perm (a :: (before ++ after)) := List.perm_middle
    have hseen : seen.Perm (done ++ a :: (before ++ after)) :=
      hseen.trans (hfront.append_left done)
    have hfresh := fresh_congr (l := next a) fun b => hseen.mem_iff (a := b)
    refine ⟨done ++ [a], by rw [List.length_append, hlen, List.length_singleton], ?_, ?_⟩
    · rw [hfresh, seen_step]
      exact hseen.append_right _
    · rw [hfresh]
      exact (hexpanded.perm hfront).step

/-- **Every work list ends** after as many turns as members are reached, and has then seen these. -/
theorem WorkList.spec {turns : Nat} {frontier seen l : List α} (hl : l.Nodup)
    (hmem : ∀ a, a ∈ l ↔ Reached next initial a) (h : WorkList next initial turns frontier seen) :
    turns ≤ l.length ∧ (frontier = [] ↔ turns = l.length) ∧ (frontier = [] → seen.Perm l) := by
  obtain ⟨done, hlen, hseen, hexpanded⟩ := h.expanded
  have hsub : done.length + frontier.length ≤ l.length := by
    rw [← List.length_append]
    refine (List.subperm_of_subset hexpanded.nodup fun a ha => ?_).length_le
    exact (hmem a).2 (hexpanded.reached a ha)
  have hend : frontier = [] → seen.Perm l := by
    rintro rfl
    rw [List.append_nil] at hseen
    have hdone : done.Nodup := by simpa using hexpanded.nodup
    refine hseen.trans ((List.perm_ext_iff_of_nodup hdone hl).2 fun a => ?_)
    rw [hexpanded.mem_iff, hmem]
  refine ⟨by omega, ⟨fun hnil => ?_, fun hturns => ?_⟩, hend⟩
  · have := (hseen.symm.trans (hend hnil)).length_eq
    rw [hnil, List.append_nil] at this
    omega
  · exact List.eq_nil_of_length_eq_zero (by omega)

end

/-! ## Closures of ids -/

theorem eq_of_ascending {ids ids' : List String} (h : ids.Pairwise (· < ·))
    (h' : ids'.Pairwise (· < ·)) (hmem : ∀ id, id ∈ ids ↔ id ∈ ids') : ids = ids' := by
  have hirrefl : Std.Irrefl fun a b : String => a < b := ⟨String.lt_irrefl⟩
  have hantisymm : Std.Antisymm fun a b : String => a < b :=
    ⟨fun _ _ hab hba => absurd (String.lt_trans hab hba) (String.lt_irrefl _)⟩
  exact h.eq_of_mem_iff h' hmem

theorem nodup_of_ascending {ids : List String} (h : ids.Pairwise (· < ·)) : ids.Nodup := by
  refine h.imp fun {a b} hlt => ?_
  rintro rfl
  exact String.lt_irrefl a hlt

theorem ascending_sortedIds (ids : List String) : (sortedIds ids).Pairwise (· < ·) :=
  List.pairwise_map.2 (KeyMap.ascending _)

/-- The closure of ids is what is reached in ascending order, where the bound allows as many. -/
theorem idClosure?_eq_some_iff {next : String → List String} {initial ids : List String}
    {bound : Nat} : idClosure? next bound initial = some ids ↔
      ids.Pairwise (· < ·) ∧ (∀ id, id ∈ ids ↔ Reached next initial id) ∧ ids.length ≤ bound := by
  have hsorted : ∀ l : List String, (∀ id, id ∈ l ↔ Reached next initial id) →
      (sortedIds l).Pairwise (· < ·) ∧ ∀ id, id ∈ sortedIds l ↔ Reached next initial id :=
    fun l hl => ⟨ascending_sortedIds l, fun id => mem_sortedIds.trans (hl id)⟩
  unfold idClosure?
  rw [Option.map_eq_some_iff]
  constructor
  · rintro ⟨l, hl, rfl⟩
    obtain ⟨hnodup, hmem⟩ := mem_closure? hl
    obtain ⟨hasc, hids⟩ := hsorted l hmem
    refine ⟨hasc, hids, ?_⟩
    have hperm : (sortedIds l).Perm l :=
      (List.perm_ext_iff_of_nodup (nodup_of_ascending hasc) hnodup).2 fun _ => mem_sortedIds
    obtain ⟨turns, hturns, hrun⟩ := WorkList.of_expand .entry hl
    have hlen := (hrun.spec hnodup hmem).2.1.1 rfl
    rw [hperm.length_eq]
    omega
  · rintro ⟨hasc, hmem, hlen⟩
    have hbound : ∀ l : List String, l.Nodup → (∀ a ∈ l, Reached next initial a) →
        l.length ≤ bound := fun l hl hr =>
      (List.subperm_of_subset hl fun a ha => (hmem a).2 (hr a ha)).length_le.trans hlen
    obtain ⟨l, hl⟩ := closure?_of_bound hbound
    obtain ⟨hasc', hids⟩ := hsorted l (mem_closure? hl).2
    exact ⟨l, hl, eq_of_ascending hasc' hasc fun id => (hids id).trans (hmem id).symm⟩

theorem exists_ascending {P : String → Prop} (h : {id | P id}.Finite) :
    ∃ ids : List String, ids.Pairwise (· < ·) ∧ ∀ id, id ∈ ids ↔ P id := by
  refine ⟨sortedIds h.toFinset.toList, ascending_sortedIds _, fun id => ?_⟩
  rw [mem_sortedIds, Finset.mem_toList, Set.Finite.mem_toFinset]
  rfl

/-- **A closure of ids ends with the least closed set**, if finitely many are reached. There are
`ids` that are this set in ascending order. The closure is `ids` for every bound that allows as many
members, a work list has made exactly as many turns when nothing waits and has seen `ids` then,
whichever member each turn took, and neither the order nor the repetition of the initial ids and of
successors matters. -/
theorem closure_is_least {next : String → List String} {initial : List String}
    (hfinite : {id | Reached next initial id}.Finite) :
    ∃ ids : List String, ids.Pairwise (· < ·) ∧
      IsLeast {S | Encloses next initial S} {id | id ∈ ids} ∧
      (∀ bound, idClosure? next bound initial = if ids.length ≤ bound then some ids else none) ∧
      (∀ turns frontier seen, WorkList next initial turns frontier seen →
        turns ≤ ids.length ∧ (frontier = [] ↔ turns = ids.length) ∧
          (frontier = [] → seen.Perm ids)) ∧
      ∀ (next' : String → List String) (initial' : List String),
        (∀ a b, b ∈ next' a ↔ b ∈ next a) → (∀ a, a ∈ initial' ↔ a ∈ initial) →
          ∀ bound, idClosure? next' bound initial' = idClosure? next bound initial := by
  obtain ⟨ids, hasc, hmem⟩ := exists_ascending hfinite
  refine ⟨ids, hasc, ?_, fun bound => ?_, fun turns frontier seen hrun => ?_, ?_⟩
  · rw [show {id | id ∈ ids} = {id | Reached next initial id} from Set.ext hmem]
    exact isLeast_reached next initial
  · split
    · rename_i hlen
      exact idClosure?_eq_some_iff.2 ⟨hasc, hmem, hlen⟩
    · rename_i hlen
      refine Option.eq_none_iff_forall_ne_some.2 fun l hl => hlen ?_
      obtain ⟨hasc', hmem', hlen'⟩ := idClosure?_eq_some_iff.1 hl
      rwa [eq_of_ascending hasc hasc' fun id => (hmem id).trans (hmem' id).symm]
  · exact hrun.spec (nodup_of_ascending hasc) hmem
  · intro next' initial' hnext hinitial bound
    refine Option.ext fun l => ?_
    simp only [idClosure?_eq_some_iff, reached_congr hnext hinitial]

/-- A cycle with a self loop and repeated successors. -/
def twoWay (id : String) : List String :=
  if id = "a" then ["b"] else if id = "b" then ["b", "a", "c", "c"] else []

/-- From its two members, one of them given twice, the closure has three. -/
theorem closure_of_twoWay :
    {id | Reached twoWay ["b", "a", "b"] id}.Finite ∧
      IsLeast {S | Encloses twoWay ["b", "a", "b"] S} {id | id ∈ ["a", "b", "c"]} ∧
      ∀ bound, idClosure? twoWay bound ["b", "a", "b"] =
        if 3 ≤ bound then some ["a", "b", "c"] else none := by
  have hclosure : idClosure? twoWay 3 ["b", "a", "b"] = some ["a", "b", "c"] := by decide
  have hfinite : {id | Reached twoWay ["b", "a", "b"] id}.Finite := by
    refine (List.finite_toSet ["a", "b", "c"]).subset fun id hid => ?_
    exact ((idClosure?_eq_some_iff.1 hclosure).2.1 id).2 hid
  obtain ⟨ids, -, hleast, hbound, -⟩ := closure_is_least hfinite
  have hids : ids = ["a", "b", "c"] := by
    rw [hbound 3, Option.ite_none_right_eq_some] at hclosure
    exact Option.some.inj hclosure.2
  subst hids
  exact ⟨hfinite, hleast, hbound⟩

end Dataflow
