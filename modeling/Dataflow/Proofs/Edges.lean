import Dataflow.Build
import Dataflow.Proofs.Components
import Dataflow.Proofs.Resolver

/-!
# Edges as a list and as a relation

Adding edges in turn keeps the first one of every ends (`Edge.foldl_add`, `Edge.firsts`).
`Edge.Leads edges a b` says that an edge joins the ids `a` and `b`. A policy that rejects cycles
finds none exactly if no path of edges leads from an id back to it (`CyclePolicy.check_eq_nil_iff`).
-/

namespace Dataflow

open Relation

namespace Edge

/-! ## The first edge of every ends -/

/-- The edges that join what no earlier edge of a list joins. -/
def firsts : List Edge → List Edge
  | [] => []
  | e :: rest => e :: (firsts rest).filter fun other => other.ends ≠ e.ends

/-- Adding edges in turn keeps the first one of every ends, unless its ends are joined. -/
theorem foldl_add : ∀ {l edges : List Edge},
    l.foldl add edges = edges ++ (firsts l).filter fun e => !edges.any fun o => o.ends = e.ends
  | [], edges => (List.append_nil edges).symm
  | e :: l, edges => by
    rw [List.foldl_cons, foldl_add, firsts, List.filter_cons, List.filter_filter]
    unfold add
    by_cases h : edges.any (fun o => o.ends = e.ends) = true
    · rw [if_pos h, h]
      refine congrArg (edges ++ ·) (List.filter_congr fun x _ => ?_)
      -- What joins the ends of `e` is dropped already, as `edges` has an edge that joins them.
      by_cases hx : x.ends = e.ends
      · simp only [hx, h]
        rfl
      · simp [hx]
    · rw [if_neg h, Bool.not_eq_true] at *
      rw [h, List.append_assoc]
      refine congrArg (edges ++ ·) (congrArg (e :: ·) (List.filter_congr fun x _ => ?_))
      rw [List.any_append, List.any_cons, List.any_nil]
      by_cases hx : x.ends = e.ends
      · simp [hx]
      · simp [hx, Ne.symm hx]

theorem firsts_sublist : ∀ l : List Edge, (firsts l).Sublist l
  | [] => .slnil
  | e :: l => (List.filter_sublist.trans (firsts_sublist l)).cons_cons e

theorem nodup_ends_firsts : ∀ l : List Edge, ((firsts l).map ends).Nodup
  | [] => List.nodup_nil
  | e :: l => by
    rw [firsts, List.map_cons, List.nodup_cons]
    refine ⟨fun h => ?_, (nodup_ends_firsts l).sublist (List.filter_sublist.map ends)⟩
    obtain ⟨x, hx, he⟩ := List.mem_map.1 h
    simp [he] at hx

theorem exists_mem_firsts {e : Edge} : ∀ {l : List Edge}, e ∈ l → ∃ f ∈ firsts l, f.ends = e.ends
  | x :: l, h => by
    rw [firsts]
    by_cases hx : e.ends = x.ends
    · exact ⟨x, List.mem_cons_self, hx.symm⟩
    · have hl : e ∈ l := (List.mem_cons.1 h).resolve_left fun he => hx (congrArg ends he)
      obtain ⟨f, hf, he⟩ := exists_mem_firsts hl
      exact ⟨f, List.mem_cons_of_mem _ (List.mem_filter.2 ⟨hf, by simpa [he] using hx⟩), he⟩

/-- The edges that are kept are those before which no edge joins the same ends. -/
theorem mem_firsts_iff {e : Edge} : ∀ {l : List Edge},
    e ∈ firsts l ↔ ∃ before after, l = before ++ e :: after ∧ ∀ o ∈ before, o.ends ≠ e.ends
  | [] => by simp [firsts]
  | x :: l => by
    rw [firsts, List.mem_cons, List.mem_filter, mem_firsts_iff, decide_eq_true_iff]
    constructor
    · rintro (rfl | ⟨⟨before, after, rfl, hb⟩, hx⟩)
      · exact ⟨[], l, rfl, fun _ h => absurd h List.not_mem_nil⟩
      · exact ⟨x :: before, after, rfl, List.forall_mem_cons.2 ⟨Ne.symm hx, hb⟩⟩
    · rintro ⟨before, after, he, hb⟩
      cases before with
      | nil => exact .inl (List.cons.inj he).1.symm
      | cons y before =>
        obtain ⟨rfl, rfl⟩ := List.cons.inj he
        obtain ⟨hx, hb⟩ := List.forall_mem_cons.1 hb
        exact .inr ⟨⟨before, after, rfl, hb⟩, Ne.symm hx⟩

/-! ## The relation of edges -/

/-- An edge joins two ids. -/
def Leads (edges : List Edge) (a b : String) : Prop :=
  ∃ e ∈ edges, e.producer = a ∧ e.consumer = b

theorem leads_firsts (l : List Edge) : Leads (firsts l) = Leads l := by
  funext a b
  refine propext ⟨?_, ?_⟩
  · rintro ⟨e, he, h⟩
    exact ⟨e, (firsts_sublist l).subset he, h⟩
  · rintro ⟨e, he, rfl, rfl⟩
    obtain ⟨f, hf, hends⟩ := exists_mem_firsts he
    obtain ⟨hp, -, hc, -⟩ : f.producer = e.producer ∧ f.output = e.output ∧
        f.consumer = e.consumer ∧ f.input = e.input := by simpa [ends] using hends
    exact ⟨f, hf, hp, hc⟩

end Edge

/-! ## The graph of edges -/

section
variable {nodes : List Node} {edges : List Edge}

theorem arc_dependencyGraph {v w : Nat} :
    (dependencyGraph nodes edges).Arc v w ↔
      ∃ e ∈ edges, Node.position? e.producer nodes = some v ∧
        Node.position? e.consumer nodes = some w := by
  unfold dependencyGraph
  rw [Digraph.arc_ofArcs, List.mem_filterMap]
  refine exists_congr fun e => and_congr_right fun _ => ?_
  cases Node.position? e.producer nodes <;> cases Node.position? e.consumer nodes <;> simp

theorem lt_length_of_position? {id : String} {i : Nat} (h : Node.position? id nodes = some i) :
    i < nodes.length := by
  obtain ⟨n, hn, -⟩ := Node.getElem?_of_position? h
  exact (List.getElem?_eq_some_iff.1 hn).1

theorem within_dependencyGraph : (dependencyGraph nodes edges).Within := by
  intro v w h
  obtain ⟨e, -, hp, hc⟩ := arc_dependencyGraph.1 h
  exact ⟨lt_length_of_position? hp, lt_length_of_position? hc⟩

/-- The edges join different nodes. -/
structure Edge.Joining (nodes : List Node) (edges : List Edge) : Prop where
  producer : ∀ e ∈ edges, ∃ n ∈ nodes, n.id = e.producer
  consumer : ∀ e ∈ edges, ∃ n ∈ nodes, n.id = e.consumer
  distinct : ∀ e ∈ edges, e.producer ≠ e.consumer

theorem id_of_position? {id : String} {i : Nat} (h : Node.position? id nodes = some i) :
    (nodes[i]?.elim "" fun n => n.id) = id := by
  obtain ⟨n, hn, hid⟩ := Node.getElem?_of_position? h
  rw [hn]
  exact hid

theorem leads_of_arc {i j : Nat} (hij : (dependencyGraph nodes edges).Arc i j) :
    Edge.Leads edges (nodes[i]?.elim "" fun n => n.id) (nodes[j]?.elim "" fun n => n.id) := by
  obtain ⟨e, he, hp, hc⟩ := arc_dependencyGraph.1 hij
  exact ⟨e, he, (id_of_position? hp).symm, (id_of_position? hc).symm⟩

variable (h : Edge.Joining nodes edges)
include h

theorem Edge.Joining.exists_positions {e : Edge} (he : e ∈ edges) :
    ∃ i j, Node.position? e.producer nodes = some i ∧ Node.position? e.consumer nodes = some j := by
  obtain ⟨i, hi⟩ := Option.isSome_iff_exists.1 (Node.isSome_position?_iff.2 (h.producer e he))
  obtain ⟨j, hj⟩ := Option.isSome_iff_exists.1 (Node.isSome_position?_iff.2 (h.consumer e he))
  exact ⟨i, j, hi, hj⟩

theorem arc_of_leads {a b : String} (hab : Edge.Leads edges a b) :
    (dependencyGraph nodes edges).Arc ((Node.position? a nodes).getD 0)
      ((Node.position? b nodes).getD 0) := by
  obtain ⟨e, he, rfl, rfl⟩ := hab
  obtain ⟨i, j, hi, hj⟩ := h.exists_positions he
  rw [hi, hj]
  exact arc_dependencyGraph.2 ⟨e, he, hi, hj⟩

theorem not_arc_self (v : Nat) : ¬ (dependencyGraph nodes edges).Arc v v := by
  intro hv
  obtain ⟨e, he, hp, hc⟩ := arc_dependencyGraph.1 hv
  exact h.distinct e he ((id_of_position? hp).symm.trans (id_of_position? hc))

/-- A cycle of positions is a cycle of ids. -/
theorem acyclic_dependencyGraph_iff :
    (∀ v, ¬ TransGen (dependencyGraph nodes edges).Arc v v) ↔
      ∀ id, ¬ TransGen (Edge.Leads edges) id id := by
  constructor
  · intro hv id hid
    exact hv _ (hid.lift (fun id => (Node.position? id nodes).getD 0) fun _ _ => arc_of_leads h)
  · intro hid v hv
    exact hid _ (hv.lift (fun i => nodes[i]?.elim "" fun n => n.id) fun _ _ => leads_of_arc)

/-- **No cycle is found** exactly if the policy allows them or no path of edges leads back to its
start. -/
theorem CyclePolicy.check_eq_nil_iff {policy : CyclePolicy} :
    policy.check nodes edges = [] ↔
      (policy = .reject → ∀ id, ¬ TransGen (Edge.Leads edges) id id) := by
  cases policy with
  | allowFeedback => exact iff_of_true rfl fun hp => by cases hp
  | reject =>
    unfold CyclePolicy.check
    rw [List.map_eq_nil_iff, cyclic_components_eq_nil_iff within_dependencyGraph,
      ← Digraph.acyclic_iff (not_arc_self h), acyclic_dependencyGraph_iff h]
    exact ⟨fun hid _ => hid, fun hid => hid rfl⟩

end

end Dataflow
