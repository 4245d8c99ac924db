import Dataflow.Pipeline.Cut
import Dataflow.Proofs.Built
import Dataflow.Proofs.Paths

/-!
# What a cut keeps and what it removes

`Pipeline.Obtained p`: `p` is built, or cut from such a pipeline. If it is in order and runs in one
pass, a cut gives a result, and this has the nodes that are on a path from a selected node to a
selected one (`Pipeline.Between`), with the edges between them (`Pipeline.cut_spec`).
-/

namespace Dataflow

open Relation

namespace Pipeline

/-- Pipelines that are built, or cut from one that is. -/
inductive Obtained : Pipeline → Prop
  | built {r : Registry} {d : Definition} {p : Pipeline} (h : (build r d).1 = .ok p) : Obtained p
  | cut {p : Pipeline} {start stop : String → Bool} {c : Cut} (hp : Obtained p)
      (h : p.cut start stop = .ok c) : Obtained c.pipeline

/-! ## The order of declaration -/

/-- The node with an id is declared before the one with another id. -/
def DeclaredBefore (p : Pipeline) (a b : String) : Prop :=
  ∃ (i j : Nat) (m n : Node), i < j ∧
    (p.nodes[i]? = some m ∧ m.id = a) ∧ p.nodes[j]? = some n ∧ n.id = b

/-- Every edge comes from a node that is declared before the one it leads to. -/
def Ordered (p : Pipeline) : Prop :=
  ∀ e ∈ p.edges, p.DeclaredBefore e.producer e.consumer

/-- A node is on a path from a node that `start` selects to one that `stop` selects. -/
def Between (p : Pipeline) (start stop : String → Bool) (id : String) : Prop :=
  (∃ a ∈ p.nodes, start a.id = true ∧ ReflTransGen (Edge.Leads p.edges) a.id id) ∧
    ∃ b ∈ p.nodes, stop b.id = true ∧ ReflTransGen (Edge.Leads p.edges) id b.id

section
variable {p : Pipeline}

theorem declaredBefore_iff (hids : (p.nodes.map (·.id)).Nodup) {a b : String} :
    p.DeclaredBefore a b ↔
      ∃ i j, p.position? a = some i ∧ p.position? b = some j ∧ i < j := by
  constructor
  · rintro ⟨i, j, m, n, hlt, hm, hn⟩
    exact ⟨i, j, (Node.position?_eq_some_iff hids).2 ⟨m, hm⟩,
      (Node.position?_eq_some_iff hids).2 ⟨n, hn⟩, hlt⟩
  · rintro ⟨i, j, hi, hj, hlt⟩
    obtain ⟨m, hm⟩ := Node.getElem?_of_position? hi
    obtain ⟨n, hn⟩ := Node.getElem?_of_position? hj
    exact ⟨i, j, m, n, hlt, hm, hn⟩

section
variable (hp : p.Sound)
include hp

theorem declaredInOrder_iff {e : Edge} (he : e ∈ p.edges) :
    p.declaredInOrder e = true ↔ p.DeclaredBefore e.producer e.consumer := by
  obtain ⟨i, j, hi, hj⟩ := hp.joining.exists_positions he
  rw [declaredBefore_iff hp.ids]
  unfold declaredInOrder position?
  simp [hi, hj]

theorem checkSorted_eq_ok_iff : p.checkSorted = .ok () ↔ p.Ordered := by
  have hnone : (p.edges.find? fun e => !p.declaredInOrder e) = none ↔ p.Ordered := by
    rw [List.find?_eq_none]
    refine forall₂_congr fun e he => ?_
    rw [Bool.not_eq_true', Bool.not_eq_false]
    exact declaredInOrder_iff hp he
  rw [← hnone]
  unfold checkSorted
  cases p.edges.find? fun e => !p.declaredInOrder e <;> simp

end

/-! ## Restriction -/

theorem mem_restrict_nodes {kept : String → Bool} {n : Node} :
    n ∈ (p.restrict kept).nodes ↔ n ∈ p.nodes ∧ kept n.id = true :=
  List.mem_filter

theorem mem_restrict_edges {kept : String → Bool} {e : Edge} :
    e ∈ (p.restrict kept).edges ↔
      e ∈ p.edges ∧ kept e.producer = true ∧ kept e.consumer = true :=
  List.mem_filter.trans (and_congr_right fun _ => Bool.and_eq_true_iff)

theorem not_mem_restrict_iff {kept : String → Bool} {n : Node} (hn : n ∈ p.nodes) :
    n ∉ (p.restrict kept).nodes ↔ kept n.id = false := by
  rw [mem_restrict_nodes, ← Bool.not_eq_true]
  exact not_congr (and_iff_right hn)

theorem Sound.restrict (hp : p.Sound) (kept : String → Bool) : (p.restrict kept).Sound := by
  have hids : ((p.restrict kept).nodes.map (·.id)).Nodup :=
    hp.ids.sublist (List.filter_sublist.map _)
  refine ⟨hids, fun e he => ?_, fun e he => ?_, fun e he => ?_⟩ <;>
    obtain ⟨he, hpk, hck⟩ := mem_restrict_edges.1 he
  · obtain ⟨n, hn, hid⟩ := hp.joining.producer e he
    exact ⟨n, mem_restrict_nodes.2 ⟨hn, hid ▸ hpk⟩, hid⟩
  · obtain ⟨n, hn, hid⟩ := hp.joining.consumer e he
    exact ⟨n, mem_restrict_nodes.2 ⟨hn, hid ▸ hck⟩, hid⟩
  · exact hp.joining.distinct e he

/-! ## The cut -/

variable {start stop : String → Bool}

/-- The ids that two lists of nodes have in common. -/
def common (below above : List Node) (id : String) : Bool :=
  below.any (·.id = id) && above.any (·.id = id)

/-- A cut restricts the pipeline to what its two closures have in common. -/
theorem cut_eq_ok_iff {c : Cut} :
    p.cut start stop = .ok c ↔
      p.mode = .sync ∧ p.checkSorted = .ok () ∧ ∃ below above,
        p.dependentClosure (p.selected start) = .ok below ∧
        p.dependencyClosure (p.selected stop) = .ok above ∧
        c = ⟨p.restrict (common below above), p.cutChannels (common below above)⟩ := by
  unfold cut
  by_cases hm : p.mode = .sync
  · cases p.checkSorted with
    | error e => simp [hm, bind, Except.bind]
    | ok _ =>
      cases p.dependentClosure (p.selected start) with
      | error e => simp [hm, bind, Except.bind]
      | ok below =>
        cases p.dependencyClosure (p.selected stop) with
        | error e => simp [hm, bind, Except.bind]
        | ok above =>
          simp only [hm, bind, Except.bind, pure, Except.pure, ne_eq, not_true_eq_false, if_false,
            true_and, Except.ok.injEq]
          constructor
          · rintro rfl
            exact ⟨below, above, rfl, rfl, rfl⟩
          · rintro ⟨_, _, rfl, rfl, rfl⟩
            rfl
  · refine iff_of_false ?_ fun h => hm h.1
    simp [hm, bind, Except.bind]

theorem Obtained.sound (hp : p.Obtained) : p.Sound := by
  induction hp with
  | built h =>
    obtain ⟨source, hl⟩ := linked_of_build h
    exact ⟨hl.ids, hl.joining⟩
  | cut _ h ih =>
    obtain ⟨-, -, below, above, -, -, rfl⟩ := cut_eq_ok_iff.1 h
    exact ih.restrict _

theorem Sound.exists_of_path (hp : p.Sound) {a b : String}
    (h : ReflTransGen (Edge.Leads p.edges) a b) (ha : ∃ n ∈ p.nodes, n.id = a) :
    ∃ n ∈ p.nodes, n.id = b := by
  rcases ReflTransGen.cases_tail h with rfl | ⟨_, -, hlast⟩
  · exact ha
  · exact hp.exists_consumer hlast

theorem Sound.exists_of_path_to (hp : p.Sound) {a b : String}
    (h : ReflTransGen (Edge.Leads p.edges) a b) (hb : ∃ n ∈ p.nodes, n.id = b) :
    ∃ n ∈ p.nodes, n.id = a := by
  rcases ReflTransGen.cases_head h with rfl | ⟨_, hfirst, -⟩
  · exact hb
  · exact hp.exists_producer hfirst

theorem exists_mem_selected {test : String → Bool} {P : String → Prop} :
    (∃ id ∈ p.selected test, P id) ↔ ∃ n ∈ p.nodes, test n.id = true ∧ P n.id := by
  unfold selected
  constructor
  · rintro ⟨id, hid, h⟩
    obtain ⟨hm, ht⟩ := List.mem_filter.1 hid
    obtain ⟨n, hn, rfl⟩ := List.mem_map.1 hm
    exact ⟨n, hn, ht, h⟩
  · rintro ⟨n, hn, ht, h⟩
    exact ⟨n.id, List.mem_filter.2 ⟨List.mem_map_of_mem hn, ht⟩, h⟩

theorem any_id_iff {l : List Node} (P : String → Prop) (hl : ∀ m, m ∈ l ↔ m ∈ p.nodes ∧ P m.id)
    {id : String} (hid : P id → ∃ n ∈ p.nodes, n.id = id) :
    l.any (·.id = id) = true ↔ P id := by
  rw [List.any_eq_true]
  constructor
  · rintro ⟨m, hm, hid⟩
    rw [← of_decide_eq_true hid]
    exact ((hl m).1 hm).2
  · intro h
    obtain ⟨n, hn, rfl⟩ := hid h
    exact ⟨n, (hl n).2 ⟨hn, h⟩, decide_eq_true rfl⟩

/-- **A cut succeeds** on a pipeline in order, and keeps the ids that lie between the selections. -/
theorem cut_spec (hp : p.Sound) (hm : p.mode = .sync) (ho : p.Ordered)
    (start stop : String → Bool) :
    ∃ kept, p.cut start stop = .ok ⟨p.restrict kept, p.cutChannels kept⟩ ∧
      ∀ id, kept id = true ↔ p.Between start stop id := by
  have hknown : ∀ test : String → Bool, ∀ id ∈ p.selected test, ∃ n ∈ p.nodes, n.id = id :=
    fun test id hid => List.mem_map.1 (List.mem_filter.1 hid).1
  obtain ⟨below, hb, hbelow⟩ := dependentClosure_spec hp (hknown start)
  obtain ⟨above, ha, habove⟩ := dependencyClosure_spec hp (hknown stop)
  refine ⟨common below above, cut_eq_ok_iff.2 ⟨hm, (checkSorted_eq_ok_iff hp).2 ho, below, above,
    hb, ha, rfl⟩, fun id => ?_⟩
  have hfrom : (∃ a ∈ p.selected start, ReflTransGen (Edge.Leads p.edges) a id) →
      ∃ n ∈ p.nodes, n.id = id := by
    rintro ⟨a, ha, hpath⟩
    exact hp.exists_of_path hpath (hknown start a ha)
  have hto : (∃ b ∈ p.selected stop, ReflTransGen (Edge.Leads p.edges) id b) →
      ∃ n ∈ p.nodes, n.id = id := by
    rintro ⟨b, hb, hpath⟩
    exact hp.exists_of_path_to hpath (hknown stop b hb)
  unfold common Between
  rw [Bool.and_eq_true,
    any_id_iff (fun id => ∃ a ∈ p.selected start, ReflTransGen (Edge.Leads p.edges) a id) hbelow
      hfrom,
    any_id_iff (fun id => ∃ b ∈ p.selected stop, ReflTransGen (Edge.Leads p.edges) id b) habove hto,
    exists_mem_selected, exists_mem_selected]

/-- Of the nodes, a cut keeps those that lie between the selections. -/
theorem cut_of_ordered (hp : p.Sound) (hm : p.mode = .sync) (ho : p.Ordered)
    (start stop : String → Bool) :
    ∃ kept, p.cut start stop = .ok ⟨p.restrict kept, p.cutChannels kept⟩ ∧
      ∀ n ∈ p.nodes, kept n.id = true ↔ p.Between start stop n.id := by
  obtain ⟨kept, hc, hkept⟩ := cut_spec hp hm ho start stop
  exact ⟨kept, hc, fun n _ => hkept n.id⟩

end

end Pipeline

/-- **A cut keeps what lies between the selections**: the nodes on a path from a node that `start`
selects to one that `stop` selects, in order, the edges between them and their deployment
settings. -/
theorem cut_keeps_between {p : Pipeline} (hp : p.Obtained) (hm : p.mode = .sync) (ho : p.Ordered)
    (start stop : String → Bool) :
    ∃ (c : Cut) (kept : String → Bool), p.cut start stop = .ok c ∧
      (∀ n ∈ p.nodes, kept n.id = true ↔ p.Between start stop n.id) ∧
      c.pipeline.nodes = p.nodes.filter (fun n => kept n.id) ∧
      c.pipeline.edges = p.edges.filter (fun e => kept e.producer && kept e.consumer) ∧
      c.pipeline.id = p.id ∧ c.pipeline.mode = p.mode ∧ c.pipeline.parameters = p.parameters ∧
      ∀ n ∈ p.nodes, c.pipeline.settings? n.id =
        if kept n.id = true then p.settings? n.id else none := by
  obtain ⟨kept, hc, hkept⟩ := Pipeline.cut_of_ordered hp.sound hm ho start stop
  refine ⟨_, kept, hc, hkept, rfl, rfl, rfl, rfl, rfl, fun n _ => ?_⟩
  exact KeyMap.get?_filterKeys kept p.deployment n.id

theorem ordered_twoQueriesBuilt : twoQueriesBuilt.Ordered := by
  intro e he
  obtain rfl := List.mem_singleton.1 he
  exact ⟨0, 1, _, _, by decide, ⟨rfl, rfl⟩, rfl, rfl⟩

theorem cut_keeps_between_twoQueries : ∃ (c : Cut) (kept : String → Bool),
    twoQueriesBuilt.cut (· = "b") (· = "b") = .ok c ∧
      (∀ n ∈ twoQueriesBuilt.nodes, kept n.id = true ↔
        twoQueriesBuilt.Between (· = "b") (· = "b") n.id) ∧
      c.pipeline.nodes = twoQueriesBuilt.nodes.filter (fun n => kept n.id) := by
  obtain ⟨c, kept, hc, hkept, hnodes, -⟩ := cut_keeps_between (.built build_twoQueries) rfl
    ordered_twoQueriesBuilt (· = "b") (· = "b")
  exact ⟨c, kept, hc, hkept, hnodes⟩

end Dataflow
