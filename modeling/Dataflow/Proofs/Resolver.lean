import Dataflow.Resolver
import Mathlib.Data.List.Nodup
import Mathlib.Data.List.Perm.Basic

/-!
# A query resolves to the only node that satisfies it

The index of a resolver has the positions of every id (`Resolver.positions_eq`), so looking at the
nodes with the id that a query names finds the same nodes as looking at all of them
(`Resolver.candidates_eq`). Hence a query resolves exactly if one position satisfies it and no other
does (`Resolver.resolve_eq_ok_iff`).

Whatever it names, the outcome is that of looking at every node in order
(`resolve_agrees_with_scan`).

`Node.position?` finds an id exactly if a node has it, and finds the node's own position if ids are
not repeated (`Node.position?_eq_some_iff`).
-/

namespace Dataflow

/-! ## What a node satisfies -/

namespace Node

theorem hasOutput_iff {n : Node} {key typeName : String} :
    n.hasOutput key typeName = true ↔ ∃ t, n.outputs.get? key = some t ∧ t.name = typeName := by
  unfold hasOutput
  cases n.outputs.get? key <;> simp

theorem satisfies_iff {n : Node} {q : Query} :
    n.satisfies q = true ↔
      (∀ id, q.producer = some id → n.id = id) ∧ (∀ c ∈ q.contexts, c ∈ n.contexts) ∧
        ∃ t, n.outputs.get? q.output = some t ∧ t.name = q.type := by
  unfold satisfies offers carries
  rw [Bool.and_eq_true, Bool.and_eq_true, Context.covers_iff, hasOutput_iff]
  refine and_congr_left' ?_
  cases q.producer <;> simp

/-! ## Positions of ids -/

theorem getElem?_of_position? {id : String} : ∀ {nodes : List Node} {i : Nat},
    position? id nodes = some i → ∃ n, nodes[i]? = some n ∧ n.id = id
  | [], _, h => by cases h
  | m :: nodes, i, h => by
    unfold position? at h
    cases hp : position? id nodes with
    | some j =>
      rw [hp] at h
      cases h
      obtain ⟨n, hn, hid⟩ := getElem?_of_position? hp
      exact ⟨n, by rw [List.getElem?_cons_succ, hn], hid⟩
    | none =>
      rw [hp] at h
      obtain ⟨hid, hi⟩ := Option.ite_none_right_eq_some.1 h
      cases hi
      exact ⟨m, rfl, hid⟩

theorem isSome_position?_iff {id : String} : ∀ {nodes : List Node},
    (position? id nodes).isSome = true ↔ ∃ n ∈ nodes, n.id = id
  | [] => by simp [position?]
  | m :: nodes => by
    unfold position?
    rw [List.exists_mem_cons_iff, ← isSome_position?_iff]
    cases position? id nodes with
    | some j => simp
    | none => by_cases h : m.id = id <;> simp [h]

theorem position?_eq_some_iff {nodes : List Node} (h : (nodes.map (·.id)).Nodup) {id : String}
    {i : Nat} : position? id nodes = some i ↔ ∃ n, nodes[i]? = some n ∧ n.id = id := by
  refine ⟨getElem?_of_position?, ?_⟩
  rintro ⟨n, hn, hid⟩
  have hs : (position? id nodes).isSome = true :=
    isSome_position?_iff.2 ⟨n, List.mem_of_getElem? hn, hid⟩
  obtain ⟨j, hj⟩ := Option.isSome_iff_exists.1 hs
  obtain ⟨m, hm, hid'⟩ := getElem?_of_position? hj
  have hi : (nodes.map (·.id))[i]? = some id := by
    rw [List.getElem?_map, hn, Option.map_some, hid]
  have hj' : (nodes.map (·.id))[j]? = some id := by
    rw [List.getElem?_map, hm, Option.map_some, hid']
  obtain ⟨hlt, -⟩ := List.getElem?_eq_some_iff.1 hi
  rw [hj, (List.getElem?_inj hlt h).1 (hi.trans hj'.symm)]

/-- The ids of the nodes at some positions. -/
def idsAt (nodes : List Node) (positions : List Nat) : List String :=
  positions.filterMap fun i => nodes[i]?.map (·.id)

theorem eq_of_id_eq {nodes : List Node} (h : (nodes.map (·.id)).Nodup) {m n : Node}
    (hm : m ∈ nodes) (hn : n ∈ nodes) (hid : m.id = n.id) : m = n :=
  List.inj_on_of_nodup_map h hm hn hid

end Node

/-! ## The index -/

namespace Resolver

/-- The positions of an id in a list that is numbered from `start` on. -/
def positionsFrom (start : Nat) (nodes : List Node) (id : String) : List Nat :=
  (nodes.zipIdx start).filterMap fun (n, i) => if n.id = id then some i else none

/-- Recording nodes in turn appends the positions of every id. -/
theorem get?_foldl_record {id : String} : ∀ {nodes : List Node} {start : Nat}
    {index : KeyMap (List Nat)},
    (((nodes.zipIdx start).foldl (fun index (n, i) => record index n.id i) index).get? id).getD [] =
      (index.get? id).getD [] ++ positionsFrom start nodes id
  | [], _, _ => (List.append_nil _).symm
  | n :: nodes, start, index => by
    unfold positionsFrom
    rw [List.zipIdx_cons, List.foldl_cons, get?_foldl_record, List.filterMap_cons]
    unfold record
    rw [KeyMap.get?_insert]
    by_cases h : n.id = id
    · subst h
      simp [positionsFrom]
    · simp [h, Ne.symm h, positionsFrom]

theorem positions_eq (nodes : List Node) (id : String) :
    ((ofNodes nodes).index.get? id).getD [] = positionsFrom 0 nodes id := by
  unfold ofNodes
  rw [get?_foldl_record, KeyMap.get?_empty, Option.getD_none, List.nil_append]

/-! ## Candidates -/

/-- The nodes of a list with their positions. -/
def placed (nodes : List Node) : List (Nat × Node) :=
  nodes.zipIdx.map fun (n, i) => (i, n)

theorem mem_placed {nodes : List Node} {i : Nat} {n : Node} :
    (i, n) ∈ placed nodes ↔ nodes[i]? = some n := by
  unfold placed
  rw [List.mem_map]
  constructor
  · rintro ⟨⟨m, j⟩, hm, he⟩
    cases he
    exact List.mk_mem_zipIdx_iff_getElem?.1 hm
  · intro h
    exact ⟨(n, i), List.mk_mem_zipIdx_iff_getElem?.2 h, rfl⟩

theorem map_fst_placed (nodes : List Node) :
    (placed nodes).map (·.1) = List.range nodes.length := by
  unfold placed
  rw [List.map_map, List.range_eq_range', ← List.zipIdx_map_snd 0 nodes]
  rfl

theorem nodup_placed (nodes : List Node) : (placed nodes).Nodup := by
  refine List.Nodup.of_map (·.1) ?_
  rw [map_fst_placed]
  exact List.nodup_range

/-- Whether a query allows the id of a node. -/
def allows (q : Query) (n : Node) : Bool :=
  q.producer.all fun id => n.id = id

theorem filterMap_getElem? {nodes : List Node} {keep : Node → Bool} :
    ((nodes.zipIdx.filter fun p => keep p.1).map (·.2)).filterMap
        (fun i => nodes[i]?.map fun n => (i, n)) =
      (placed nodes).filter fun p => keep p.2 := by
  unfold placed
  rw [List.filterMap_map, List.filter_map, ← List.filterMap_eq_map]
  refine List.filterMap_congr fun p hp => ?_
  have h := List.mk_mem_zipIdx_iff_getElem?.1 (List.mem_filter.1 hp).1
  show nodes[p.2]?.map _ = _
  rw [h]
  rfl

theorem scope_eq (nodes : List Node) (q : Query) :
    (ofNodes nodes).scope q = (placed nodes).filter fun p => allows q p.2 := by
  unfold scope
  cases hq : q.producer with
  | none =>
    have hrange : List.range nodes.length =
        (nodes.zipIdx.filter fun p => allows q p.1).map (·.2) := by
      rw [List.filter_eq_self.2 fun p _ => by unfold allows; rw [hq]; rfl, List.zipIdx_map_snd,
        List.range_eq_range']
    show (List.range nodes.length).filterMap _ = _
    rw [hrange]
    exact filterMap_getElem?
  | some id =>
    have hpos : positionsFrom 0 nodes id =
        (nodes.zipIdx.filter fun p => allows q p.1).map (·.2) := by
      unfold positionsFrom allows
      rw [hq, ← List.filterMap_eq_filter, List.map_filterMap]
      refine List.filterMap_congr fun p _ => ?_
      by_cases h : p.1.id = id <;> simp [Option.guard, h]
    show (((ofNodes nodes).index.get? id).getD []).filterMap _ = _
    rw [positions_eq, hpos]
    exact filterMap_getElem?

/-- **The candidates** of a query are the nodes that satisfy it, with their positions. -/
theorem candidates_eq (nodes : List Node) (q : Query) :
    (ofNodes nodes).candidates q = (placed nodes).filter fun p => p.2.satisfies q := by
  unfold candidates
  rw [scope_eq, List.filter_filter]
  refine List.filter_congr fun p _ => ?_
  rw [Node.satisfies, allows, Bool.and_comm]

/-! ## Resolution -/

theorem filter_eq_singleton_iff {α : Type} {l : List α} (hl : l.Nodup) {test : α → Bool} {a : α} :
    l.filter test = [a] ↔ (a ∈ l ∧ test a = true) ∧ ∀ b ∈ l, test b = true → b = a := by
  rw [← List.perm_singleton, List.perm_ext_iff_of_nodup (hl.filter _) (List.nodup_singleton a)]
  constructor
  · intro h
    refine ⟨List.mem_filter.1 ((h a).2 (List.mem_singleton_self a)), fun b hb ht => ?_⟩
    exact List.mem_singleton.1 ((h b).1 (List.mem_filter.2 ⟨hb, ht⟩))
  · rintro ⟨ha, h⟩ b
    rw [List.mem_filter, List.mem_singleton]
    exact ⟨fun ⟨hb, ht⟩ => h b hb ht, fun he => he ▸ ha⟩

theorem resolve_eq_ok {r : Resolver} {q : Query} {found : Resolution} :
    r.resolve q = .ok found ↔
      r.candidates q = [(found.position, found.node)] ∧ found.output = q.output := by
  unfold resolve
  cases r.candidates q with
  | nil => simp
  | cons c rest =>
    cases rest with
    | nil =>
      obtain ⟨i, n⟩ := c
      obtain ⟨j, m, output⟩ := found
      simp [eq_comm, and_assoc]
    | cons c' rest => simp

/-- **A query resolves** to a node exactly if this satisfies it and no other does. -/
theorem resolve_eq_ok_iff {nodes : List Node} {q : Query} {found : Resolution} :
    (ofNodes nodes).resolve q = .ok found ↔
      (nodes[found.position]? = some found.node ∧ found.node.satisfies q = true) ∧
        (∀ j m, nodes[j]? = some m → m.satisfies q = true → j = found.position) ∧
          found.output = q.output := by
  rw [resolve_eq_ok, candidates_eq, filter_eq_singleton_iff (nodup_placed nodes), mem_placed,
    and_assoc]
  refine and_congr_right fun ⟨hat, _⟩ => and_congr_left' ?_
  constructor
  · intro h j m hm hs
    exact congrArg (·.1) (h (j, m) (mem_placed.2 hm) hs)
  · rintro h ⟨j, m⟩ hm hs
    obtain rfl := h j m (mem_placed.1 hm) hs
    rw [mem_placed.1 hm] at hat
    cases hat
    rfl

/-! ## Positions that match -/

/-- The positions of the candidates ascend, as those of all nodes do. -/
theorem pairwise_candidates (nodes : List Node) (q : Query) :
    (((ofNodes nodes).candidates q).map (·.1)).Pairwise (· < ·) := by
  rw [candidates_eq]
  refine List.Pairwise.sublist (List.filter_sublist.map _) ?_
  rw [map_fst_placed]
  exact List.pairwise_lt_range

theorem mem_candidates_iff {nodes : List Node} {q : Query} {i : Nat} {n : Node} :
    (i, n) ∈ (ofNodes nodes).candidates q ↔ nodes[i]? = some n ∧ n.satisfies q = true := by
  rw [candidates_eq, List.mem_filter, mem_placed]

/-- The ids of the candidates are those at their positions, repeated ones included. -/
theorem map_id_candidates (nodes : List Node) (q : Query) :
    ((ofNodes nodes).candidates q).map (·.2.id) =
      Node.idsAt nodes (((ofNodes nodes).candidates q).map (·.1)) := by
  unfold Node.idsAt
  rw [List.filterMap_map, ← List.filterMap_eq_map]
  refine List.filterMap_congr fun c hc => ?_
  have hat : nodes[c.1]? = some c.2 := (mem_candidates_iff.1 hc).1
  show some c.2.id = nodes[c.1]?.map (·.id)
  rw [hat, Option.map_some]

end Resolver

/-- **Resolving is scanning**, also where a query names its producer and the index is asked. What
matches are the positions, in order, of the nodes that have the id the query names if it names one,
all its contexts, and its output with its type. If there is one, the query resolves to the node
there; if there is none, no node matches; and if there are more, all are candidates, each by its id
and in order. -/
theorem resolve_agrees_with_scan (nodes : List Node) (q : Query) :
    ∃ matching : List Nat,
      (matching.Pairwise (· < ·) ∧ ∀ i, i ∈ matching ↔ ∃ n, nodes[i]? = some n ∧
        (∀ id, q.producer = some id → n.id = id) ∧ (∀ c ∈ q.contexts, c ∈ n.contexts) ∧
        ∃ t, n.outputs.get? q.output = some t ∧ t.name = q.type) ∧
      (∀ i, matching = [i] → ∃ n, nodes[i]? = some n ∧
        (Resolver.ofNodes nodes).resolve q = .ok ⟨i, n, q.output⟩) ∧
      (matching = [] → (Resolver.ofNodes nodes).resolve q = .error (.noProducer q.text none)) ∧
      (2 ≤ matching.length → (Resolver.ofNodes nodes).resolve q =
        .error (.ambiguousProducer q.text (Node.idsAt nodes matching) none)) := by
  refine ⟨((Resolver.ofNodes nodes).candidates q).map (·.1),
    ⟨Resolver.pairwise_candidates nodes q, fun i => ?_⟩, fun i hi => ?_, fun hnone => ?_,
    fun hseveral => ?_⟩
  · rw [List.mem_map]
    constructor
    · rintro ⟨⟨j, n⟩, hc, rfl⟩
      obtain ⟨hn, hs⟩ := Resolver.mem_candidates_iff.1 hc
      exact ⟨n, hn, Node.satisfies_iff.1 hs⟩
    · rintro ⟨n, hn, hs⟩
      exact ⟨(i, n), Resolver.mem_candidates_iff.2 ⟨hn, Node.satisfies_iff.2 hs⟩, rfl⟩
  · obtain ⟨⟨j, n⟩, hc, rfl⟩ := List.map_eq_singleton_iff.1 hi
    have hn := Resolver.mem_candidates_iff.1 (hc ▸ List.mem_singleton_self (j, n))
    exact ⟨n, hn.1, Resolver.resolve_eq_ok.2 ⟨hc, rfl⟩⟩
  · unfold Resolver.resolve
    rw [List.map_eq_nil_iff.1 hnone]
  · rw [List.length_map] at hseveral
    rw [← Resolver.map_id_candidates]
    unfold Resolver.resolve
    match hc : (Resolver.ofNodes nodes).candidates q, hseveral with
    | _ :: _ :: _, _ => rfl

/-- Two nodes with one id are both candidates of a query that names it. -/
example : (Resolver.ofNodes [.ofId "b", ⟨"a", [], .ofList [("out", ⟨"T", .empty⟩)], .empty⟩,
    ⟨"a", [], .ofList [("out", ⟨"T", .empty⟩)], .empty⟩]).resolve ⟨some "a", [], "T", "out"⟩ =
      .error (.ambiguousProducer "'a.out' of type 'T'" ["a", "a"] none) := by
  rfl

end Dataflow
