import Dataflow.Proofs.Edges

/-!
# Connecting channels

`Node.Source nodes q p`: `p` is the only one of `nodes` that satisfies `q`. A query becomes an edge
exactly if its type is known and its source is another node than its own
(`connectQuery_eq_ok_iff`). `connect` reports nothing exactly if every query becomes an edge
(`connect_eq_nil_iff`), and its edges are the first ones of every ends in the order of the walk
(`connect_edges`).
-/

namespace Dataflow

/-! ## Sources -/

/-- `p` is the only node of a list that satisfies a query. -/
structure Node.Source (nodes : List Node) (q : Query) (p : Node) : Prop where
  mem : p ∈ nodes
  satisfies : p.satisfies q = true
  only : ∀ m ∈ nodes, m.satisfies q = true → m = p

namespace Node

variable {nodes : List Node} {q : Query} {p : Node}

theorem Source.unique {p' : Node} (h : Source nodes q p) (h' : Source nodes q p') : p' = p :=
  h.only p' h'.mem h'.satisfies

theorem source_of_resolve {found : Resolution}
    (h : (Resolver.ofNodes nodes).resolve q = .ok found) : Source nodes q found.node := by
  obtain ⟨⟨hat, hs⟩, honly, -⟩ := Resolver.resolve_eq_ok_iff.1 h
  refine ⟨List.mem_of_getElem? hat, hs, fun m hm hms => ?_⟩
  obtain ⟨j, hj⟩ := List.mem_iff_getElem?.1 hm
  rw [honly j m hj hms, hat] at hj
  cases hj
  rfl

/-- A query resolves to its source, if ids are not repeated. -/
theorem Source.resolve (hids : (nodes.map (·.id)).Nodup) (h : Source nodes q p) :
    ∃ i, (Resolver.ofNodes nodes).resolve q = .ok ⟨i, p, q.output⟩ := by
  obtain ⟨i, hi⟩ := List.mem_iff_getElem?.1 h.mem
  refine ⟨i, Resolver.resolve_eq_ok_iff.2 ⟨⟨hi, h.satisfies⟩, fun j m hj hs => ?_, rfl⟩⟩
  obtain rfl := h.only m (List.mem_of_getElem? hj) hs
  have hlt := (List.getElem?_eq_some_iff.1 hj).1
  exact (List.getElem?_inj hlt hids.of_map).1 (hj.trans hi.symm)

end Node

/-! ## One query -/

section
variable {nodes : List Node} {known : String → Bool}

theorem connectQuery_ne_error_nil {r : Resolver} {n : Node} {input : String} {q : Query} :
    connectQuery r known n input q ≠ .error [] := by
  unfold connectQuery
  intro h
  by_cases hself : q.producer = some n.id
  · simp [hself] at h
  · by_cases hk : known q.type = true
    · cases hr : r.resolve q with
      | error problem => simp [hself, hk, hr] at h
      | ok found => by_cases hid : found.node.id = n.id <;> simp [hself, hk, hr, hid] at h
    · simp [hself, hk] at h

/-- **A query becomes an edge** exactly if its type is known and its source is another node. -/
theorem connectQuery_eq_ok_iff (hids : (nodes.map (·.id)).Nodup) {n : Node} {input : String}
    {q : Query} {e : Edge} :
    connectQuery (.ofNodes nodes) known n input q = .ok e ↔
      known q.type = true ∧ ∃ p, Node.Source nodes q p ∧ p.id ≠ n.id ∧
        e = ⟨p.id, q.output, n.id, input, q⟩ := by
  unfold connectQuery
  by_cases hk : known q.type = true
  · by_cases hself : q.producer = some n.id
    · -- A source of such a query would be the node itself.
      simp only [hk, hself, if_true, reduceCtorEq, true_and, false_iff]
      rintro ⟨p, hp, hne, -⟩
      exact hne ((Node.satisfies_iff.1 hp.satisfies).1 n.id hself)
    · simp only [hk, hself, if_true, if_false, ne_eq, not_true_eq_false, true_and]
      cases hr : (Resolver.ofNodes nodes).resolve q with
      | error problem =>
        refine iff_of_false (by simp) ?_
        rintro ⟨p, hp, -⟩
        obtain ⟨i, hi⟩ := hp.resolve hids
        rw [hi] at hr
        cases hr
      | ok found =>
        have hs := Node.source_of_resolve hr
        have hout := (Resolver.resolve_eq_ok_iff.1 hr).2.2
        show ite _ _ _ = _ ↔ _
        by_cases hid : found.node.id = n.id
        · rw [if_pos hid]
          refine iff_of_false (by simp) ?_
          rintro ⟨p, hp, hne, -⟩
          exact hne (hs.unique hp ▸ hid)
        · rw [if_neg hid, hout]
          constructor
          · intro h
            cases h
            exact ⟨found.node, hs, hid, rfl⟩
          · rintro ⟨p, hp, -, rfl⟩
            rw [hs.unique hp]
  · refine iff_of_false (fun h => ?_) fun h => hk h.1
    by_cases hself : q.producer = some n.id <;> simp [hk, hself] at h

/-! ## All queries -/

/-- The queries of some nodes, with the node and the input that each one feeds. -/
def Node.walk (nodes : List Node) : List (Node × String × Query) :=
  nodes.flatMap fun n => n.channels.map fun (input, q) => (n, input, q)

theorem Node.mem_walk {c : Node × String × Query} :
    c ∈ walk nodes ↔ c.1 ∈ nodes ∧ c.2 ∈ c.1.channels := by
  unfold walk
  rw [List.mem_flatMap]
  constructor
  · rintro ⟨n, hn, hc⟩
    obtain ⟨⟨input, q⟩, hm, rfl⟩ := List.mem_map.1 hc
    exact ⟨hn, hm⟩
  · rintro ⟨hn, hc⟩
    exact ⟨c.1, hn, List.mem_map.2 ⟨c.2, hc, rfl⟩⟩

theorem connect_eq_foldl :
    connect nodes known =
      (Node.walk nodes).foldl (connectChannel (.ofNodes nodes) known) ([], []) := rfl

theorem foldl_connectChannel {r : Resolver} {connected : Node × String × Query → Edge} :
    ∀ {l : List (Node × String × Query)} {edges : List Edge} {problems : List Diagnostic},
      (∀ c ∈ l, connectQuery r known c.1 c.2.1 c.2.2 = .ok (connected c)) →
        l.foldl (connectChannel r known) (edges, problems) =
          ((l.map connected).foldl Edge.add edges, problems)
  | [], _, _, _ => rfl
  | c :: l, edges, problems, h => by
    obtain ⟨hc, hl⟩ := List.forall_mem_cons.1 h
    have hstep : connectChannel r known (edges, problems) c =
        (Edge.add edges (connected c), problems) := by
      unfold connectChannel
      rw [hc]
    rw [List.foldl_cons, hstep, foldl_connectChannel hl, List.map_cons, List.foldl_cons]

/-- A query that does not connect adds diagnostics, and these stay. -/
theorem foldl_connectChannel_eq_nil_iff {r : Resolver} :
    ∀ {l : List (Node × String × Query)} {found : List Edge × List Diagnostic},
      (l.foldl (connectChannel r known) found).2 = [] ↔
        found.2 = [] ∧ ∀ c ∈ l, ∃ e, connectQuery r known c.1 c.2.1 c.2.2 = .ok e
  | [], found => by simp
  | c :: l, found => by
    rw [List.foldl_cons, foldl_connectChannel_eq_nil_iff, List.forall_mem_cons, ← and_assoc]
    refine and_congr_left' ?_
    unfold connectChannel
    cases hc : connectQuery r known c.1 c.2.1 c.2.2 with
    | ok e => simp
    | error problems =>
      refine iff_of_false (fun h => ?_) fun h => by simp at h
      exact connectQuery_ne_error_nil (hc.trans (congrArg _ (List.append_eq_nil_iff.1 h).2))

variable (hids : (nodes.map (·.id)).Nodup)
include hids

/-- Nothing is reported exactly if every query has a known type and another node as its
source. -/
theorem connect_eq_nil_iff :
    (connect nodes known).2 = [] ↔
      ∀ n ∈ nodes, ∀ c ∈ n.channels,
        known c.2.type = true ∧ ∃ p, Node.Source nodes c.2 p ∧ p.id ≠ n.id := by
  rw [connect_eq_foldl, foldl_connectChannel_eq_nil_iff]
  constructor
  · rintro ⟨-, h⟩ n hn c hc
    obtain ⟨e, he⟩ := h (n, c) (Node.mem_walk.2 ⟨hn, hc⟩)
    obtain ⟨hk, p, hp, hne, -⟩ := (connectQuery_eq_ok_iff hids).1 he
    exact ⟨hk, p, hp, hne⟩
  · refine fun h => ⟨rfl, fun c hc => ?_⟩
    obtain ⟨hn, hm⟩ := Node.mem_walk.1 hc
    obtain ⟨hk, p, hp, hne⟩ := h c.1 hn c.2 hm
    exact ⟨_, (connectQuery_eq_ok_iff hids).2 ⟨hk, p, hp, hne, rfl⟩⟩

/-- **The edges** are the first ones of every ends in the order of the walk. -/
theorem connect_edges (source : Query → Node) (h : (connect nodes known).2 = [])
    (hs : ∀ n ∈ nodes, ∀ c ∈ n.channels, Node.Source nodes c.2 (source c.2)) :
    (connect nodes known).1 = Edge.firsts ((Node.walk nodes).map fun (n, input, q) =>
      ⟨(source q).id, q.output, n.id, input, q⟩) := by
  have hc : ∀ c ∈ Node.walk nodes, connectQuery (.ofNodes nodes) known c.1 c.2.1 c.2.2 =
      .ok ⟨(source c.2.2).id, c.2.2.output, c.1.id, c.2.1, c.2.2⟩ := by
    intro c hc
    obtain ⟨hn, hm⟩ := Node.mem_walk.1 hc
    obtain ⟨hk, p, hp, hne⟩ := (connect_eq_nil_iff hids).1 h c.1 hn c.2 hm
    have heq := hp.unique (hs c.1 hn c.2 hm)
    exact (connectQuery_eq_ok_iff hids).2 ⟨hk, p, hp, hne, by rw [heq]⟩
  rw [connect_eq_foldl, foldl_connectChannel hc, Edge.foldl_add, List.nil_append,
    List.filter_eq_self.2]
  exact fun _ _ => rfl

end

end Dataflow
