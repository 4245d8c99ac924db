import Dataflow.Proofs.Cut

/-!
# What a cut lists

A removed producer is listed with the channels of the edges that led from it to kept nodes
(`Pipeline.mem_listed_iff`). An edge stands for one query only, the first one of an input that has
its output and its source (`Node.Leading`). So a cut lists the queries that lead at an input of a
kept node (`Pipeline.Linked.mem_listed_iff`), and a query that leads nowhere is missing.
-/

namespace Dataflow

/-- The queries that a cut lists for a producer. -/
def Cut.listed (c : Cut) (id : String) : List Query :=
  (c.removed.get? id).getD []

namespace Pipeline

/-! ## The channels of a list of edges -/

/-- Recording edges in turn appends what is new of the channels that come from a producer. -/
theorem getD_foldl_recordCut {id : String} : ∀ {l : List Edge} {m : KeyMap (List Query)},
    ((l.foldl recordCut m).get? id).getD [] = (m.get? id).getD [] ++
      fresh ((m.get? id).getD []) ((l.filter (·.producer = id)).map (·.channel))
  | [], m => (List.append_nil _).symm
  | e :: l, m => by
    rw [List.foldl_cons, getD_foldl_recordCut]
    unfold recordCut
    rw [KeyMap.get?_insert]
    by_cases he : e.producer = id
    · subst he
      have hfilter : (e :: l).filter (·.producer = e.producer) =
          e :: l.filter (·.producer = e.producer) := List.filter_cons_of_pos (decide_eq_true rfl)
      rw [if_pos rfl, Option.getD_some, hfilter, List.map_cons, fresh]
      by_cases hc : e.channel ∈ (m.get? e.producer).getD []
      · rw [if_pos (List.contains_iff_mem.2 hc), if_pos hc]
      · rw [if_neg (mt List.contains_iff_mem.1 hc), if_neg hc, List.append_assoc]
        refine congrArg _ (congrArg (e.channel :: ·) (fresh_congr fun q => ?_))
        rw [List.mem_append, List.mem_singleton, List.mem_cons, or_comm]
    · rw [if_neg (Ne.symm he), List.filter_cons_of_neg (by simpa using he)]

theorem mem_keys_foldl_recordCut {id : String} : ∀ {l : List Edge} {m : KeyMap (List Query)},
    id ∈ (l.foldl recordCut m).keys ↔ (∃ e ∈ l, e.producer = id) ∨ id ∈ m.keys
  | [], m => by simp
  | e :: l, m => by
    have hrecord : id ∈ (recordCut m e).keys ↔ e.producer = id ∨ id ∈ m.keys := by
      unfold recordCut
      rw [KeyMap.mem_keys_insert, eq_comm]
    rw [List.foldl_cons, mem_keys_foldl_recordCut, hrecord, List.exists_mem_cons_iff, or_left_comm,
      or_assoc]

section
variable {p : Pipeline} {kept : String → Bool} {id : String}

theorem mem_cut_edges_iff {e : Edge} :
    e ∈ p.edges.filter (fun e => kept e.consumer && !kept e.producer) ↔
      e ∈ p.edges ∧ kept e.consumer = true ∧ kept e.producer = false := by
  rw [List.mem_filter, Bool.and_eq_true, Bool.not_eq_true']

theorem listed_eq (p q : Pipeline) (kept : String → Bool) (id : String) :
    (Cut.mk q (p.cutChannels kept)).listed id =
      fresh [] (((p.edges.filter fun e => kept e.consumer && !kept e.producer).filter
        (·.producer = id)).map (·.channel)) := by
  unfold Cut.listed cutChannels
  rw [getD_foldl_recordCut, KeyMap.get?_empty, Option.getD_none, List.nil_append]

/-- **What is listed** are the channels of the edges from a removed producer to kept nodes. -/
theorem mem_listed_iff {o : Pipeline} {q : Query} :
    q ∈ (Cut.mk o (p.cutChannels kept)).listed id ↔ ∃ e ∈ p.edges,
      (kept e.consumer = true ∧ kept e.producer = false) ∧ e.producer = id ∧ e.channel = q := by
  rw [listed_eq, mem_fresh, List.mem_map]
  constructor
  · rintro ⟨⟨e, he, hq⟩, -⟩
    obtain ⟨he, hid⟩ := List.mem_filter.1 he
    obtain ⟨he, hk⟩ := mem_cut_edges_iff.1 he
    exact ⟨e, he, hk, of_decide_eq_true hid, hq⟩
  · rintro ⟨e, he, hk, hid, hq⟩
    refine ⟨⟨e, List.mem_filter.2 ⟨mem_cut_edges_iff.2 ⟨he, hk⟩, decide_eq_true hid⟩, hq⟩, ?_⟩
    exact List.not_mem_nil

theorem mem_keys_cutChannels_iff :
    id ∈ (p.cutChannels kept).keys ↔ ∃ e ∈ p.edges,
      (kept e.consumer = true ∧ kept e.producer = false) ∧ e.producer = id := by
  unfold cutChannels
  rw [mem_keys_foldl_recordCut]
  simp only [mem_cut_edges_iff, KeyMap.keys, KeyMap.empty, List.map_nil, List.not_mem_nil, or_false,
    and_assoc]

theorem exists_cut_edge_iff (hj : Edge.Joining p.nodes p.edges) (P : Edge → Prop) :
    (∃ e ∈ p.edges, (kept e.consumer = true ∧ kept e.producer = false) ∧ e.producer = id ∧ P e) ↔
      ∃ n ∈ (p.restrict kept).nodes, ∃ r ∈ p.nodes, r ∉ (p.restrict kept).nodes ∧ r.id = id ∧
        ∃ e ∈ p.edges, e.producer = r.id ∧ e.consumer = n.id ∧ P e := by
  constructor
  · rintro ⟨e, he, ⟨hck, hpk⟩, rfl, hP⟩
    obtain ⟨n, hn, hnid⟩ := hj.consumer e he
    obtain ⟨r, hr, hrid⟩ := hj.producer e he
    refine ⟨n, mem_restrict_nodes.2 ⟨hn, hnid ▸ hck⟩, r, hr, ?_, hrid, ?_⟩
    · exact (not_mem_restrict_iff hr).2 (hrid ▸ hpk)
    · exact ⟨e, he, hrid.symm, hnid.symm, hP⟩
  · rintro ⟨n, hn, r, hr, hrem, rfl, e, he, hpid, hcid, hP⟩
    have hck : kept e.consumer = true := hcid ▸ (mem_restrict_nodes.1 hn).2
    have hpk : kept e.producer = false := hpid ▸ (not_mem_restrict_iff hr).1 hrem
    exact ⟨e, he, ⟨hck, hpk⟩, hpid, hP⟩

end

end Pipeline

/-! ## Queries that lead -/

/-- `q` has the source `r`, and at some input of `n` no query before it has this source and the same
output. -/
def Node.Leading (nodes : List Node) (n : Node) (q : Query) (r : Node) : Prop :=
  Source nodes q r ∧ ∃ input before after, n.inputs.get? input = some (before ++ q :: after) ∧
    ∀ o ∈ before, o.output = q.output → ¬ Source nodes o r

namespace Pipeline

section
variable {p : Pipeline} {source : Query → Node} (h : p.Linked source)
include h

/-- The source of a query is the node with the id that its edges come from. -/
theorem Linked.source_iff {n r : Node} (hn : n ∈ p.nodes) (hr : r ∈ p.nodes) {c : String × Query}
    (hc : c ∈ n.channels) : Node.Source p.nodes c.2 r ↔ (source c.2).id = r.id := by
  have hs := h.sources n hn c hc
  constructor
  · intro hr'
    rw [hs.unique hr']
  · intro hid
    exact Node.eq_of_id_eq h.ids hs.mem hr hid ▸ hs

/-- The edges from one node to another stand for the queries that lead there. -/
theorem Linked.exists_edge_iff {q : Query} {n r : Node} (hn : n ∈ p.nodes) (hr : r ∈ p.nodes) :
    (∃ e ∈ p.edges, e.producer = r.id ∧ e.consumer = n.id ∧ e.channel = q) ↔
      n.Leading p.nodes q r := by
  constructor
  · rintro ⟨e, he, hpid, hcid, hq⟩
    obtain ⟨m, hm, input, before, q', after, hg, rfl, hb⟩ := h.mem_edges_iff.1 he
    obtain rfl : q' = q := hq
    obtain rfl : m = n := Node.eq_of_id_eq h.ids hm hn hcid
    have hch : ∀ o ∈ before ++ q' :: after, (input, o) ∈ m.channels := fun o ho =>
      Node.mem_channels_iff.2 ⟨_, hg, ho⟩
    have hs := (h.source_iff hn hr (hch q' (by simp))).2 hpid
    refine ⟨hs, input, before, after, hg, fun o ho hout hs => ?_⟩
    have hid := (h.source_iff hn hr (hch o (by simp [ho]))).1 hs
    exact hb o ho hout (hid.trans hpid.symm)
  · rintro ⟨hs, input, before, after, hg, hb⟩
    have hch : ∀ o ∈ before ++ q :: after, (input, o) ∈ n.channels := fun o ho =>
      Node.mem_channels_iff.2 ⟨_, hg, ho⟩
    have hid := (h.source_iff hn hr (hch q (by simp))).1 hs
    refine ⟨n.edge source input q, ?_, hid, rfl, rfl⟩
    refine h.mem_edges_iff.2 ⟨n, hn, input, before, q, after, hg, rfl, fun o ho hout hne => ?_⟩
    exact hb o ho hout ((h.source_iff hn hr (hch o (by simp [ho]))).2 (hne.trans hid))

theorem Linked.leads_iff {n r : Node} (hn : n ∈ p.nodes) (hr : r ∈ p.nodes) :
    Edge.Leads p.edges r.id n.id ↔ ∃ c ∈ n.channels, Node.Source p.nodes c.2 r := by
  constructor
  · rintro ⟨e, he, hpid, hcid⟩
    obtain ⟨m, hm, c, hc, rfl⟩ := h.exists_channel he
    obtain rfl : m = n := Node.eq_of_id_eq h.ids hm hn hcid
    exact ⟨c, hc, (h.source_iff hn hr hc).2 hpid⟩
  · rintro ⟨c, hc, hs⟩
    rw [h.edges, Edge.leads_firsts]
    have he : n.edge source c.1 c.2 ∈ n.edges source := Node.mem_edges_iff.2 ⟨c, hc, rfl⟩
    exact ⟨_, List.mem_flatMap.2 ⟨n, hn, he⟩, (h.source_iff hn hr hc).1 hs, rfl⟩

/-- The queries that a restriction lists are those that lead from a kept node to a removed one. -/
theorem Linked.mem_listed_iff {kept : String → Bool} {id : String} {q : Query} :
    q ∈ (Cut.mk (p.restrict kept) (p.cutChannels kept)).listed id ↔
      ∃ n ∈ (p.restrict kept).nodes, ∃ r ∈ p.nodes, r ∉ (p.restrict kept).nodes ∧ r.id = id ∧
        n.Leading p.nodes q r := by
  rw [Pipeline.mem_listed_iff, exists_cut_edge_iff h.joining fun e => e.channel = q]
  refine exists_congr fun n => and_congr_right fun hn => exists_congr fun r => ?_
  refine and_congr_right fun hr => and_congr_right fun _ => and_congr_right fun _ => ?_
  exact h.exists_edge_iff (mem_restrict_nodes.1 hn).1 hr

theorem Linked.mem_keys_removed_iff {kept : String → Bool} {id : String} :
    id ∈ (p.cutChannels kept).keys ↔
      ∃ n ∈ (p.restrict kept).nodes, ∃ r ∈ p.nodes, r ∉ (p.restrict kept).nodes ∧ r.id = id ∧
        ∃ c ∈ n.channels, Node.Source p.nodes c.2 r := by
  have hedge := @exists_cut_edge_iff p kept id h.joining fun _ => True
  simp only [and_true] at hedge
  rw [mem_keys_cutChannels_iff, hedge]
  refine exists_congr fun n => and_congr_right fun hn => exists_congr fun r => ?_
  refine and_congr_right fun hr => and_congr_right fun _ => and_congr_right fun _ => ?_
  exact h.leads_iff (mem_restrict_nodes.1 hn).1 hr

end

end Pipeline

/-- **A cut lists the queries that lead** from a kept node to a removed one, each once, under
exactly the removed nodes that kept nodes read from. So it lists every query that a kept node has
on a removed one exactly if each of them leads at some input of a kept node. -/
theorem cut_lists_leading {r : Registry} {d : Definition} {p : Pipeline}
    (h : (build r d).1 = .ok p) (hm : p.mode = .sync) (ho : p.Ordered)
    (start stop : String → Bool) :
    ∃ c : Cut, p.cut start stop = .ok c ∧
      (∀ id q, q ∈ c.listed id ↔ ∃ n ∈ c.pipeline.nodes, ∃ s ∈ p.nodes,
        s ∉ c.pipeline.nodes ∧ s.id = id ∧ n.Leading p.nodes q s) ∧
      (∀ id, id ∈ c.removed.keys ↔ ∃ n ∈ c.pipeline.nodes, ∃ s ∈ p.nodes,
        s ∉ c.pipeline.nodes ∧ s.id = id ∧ ∃ ch ∈ n.channels, Node.Source p.nodes ch.2 s) ∧
      (∀ id, (c.listed id).Nodup) ∧
      ((∀ n ∈ c.pipeline.nodes, ∀ ch ∈ n.channels, ∀ s ∈ p.nodes, s ∉ c.pipeline.nodes →
          Node.Source p.nodes ch.2 s → ch.2 ∈ c.listed s.id) ↔
        ∀ n ∈ c.pipeline.nodes, ∀ ch ∈ n.channels, ∀ s ∈ p.nodes, s ∉ c.pipeline.nodes →
          Node.Source p.nodes ch.2 s → ∃ m ∈ c.pipeline.nodes, m.Leading p.nodes ch.2 s) := by
  obtain ⟨source, hl⟩ := Pipeline.linked_of_build h
  obtain ⟨kept, hc, -⟩ := Pipeline.cut_of_ordered ⟨hl.ids, hl.joining⟩ hm ho start stop
  refine ⟨_, hc, fun id q => hl.mem_listed_iff, fun id => hl.mem_keys_removed_iff, fun id => ?_, ?_⟩
  · rw [Pipeline.listed_eq]
    exact nodup_fresh _ _
  · refine forall₂_congr fun n hn => forall₂_congr fun ch hch => forall₂_congr fun s hs => ?_
    refine forall₂_congr fun hrem hsrc => ?_
    rw [hl.mem_listed_iff]
    constructor
    · rintro ⟨m, hm, s', hs', -, hid, hlead⟩
      exact ⟨m, hm, Node.eq_of_id_eq hl.ids hs' hs hid ▸ hlead⟩
    · rintro ⟨m, hm, hlead⟩
      exact ⟨m, hm, s, hs, hrem, rfl, hlead⟩

/-- The cut that keeps the second node lists the first of its queries. -/
theorem cut_lists_leading_twoQueries : ∃ c : Cut,
    twoQueriesBuilt.cut (· = "b") (· = "b") = .ok c ∧ c.removed.keys = ["a"] ∧
      (∀ id q, q ∈ c.listed id ↔ ∃ n ∈ c.pipeline.nodes, ∃ s ∈ twoQueriesBuilt.nodes,
        s ∉ c.pipeline.nodes ∧ s.id = id ∧ n.Leading twoQueriesBuilt.nodes q s) := by
  obtain ⟨c, hc, hlisted, -⟩ := cut_lists_leading build_twoQueries rfl ordered_twoQueriesBuilt
    (· = "b") (· = "b")
  refine ⟨c, hc, ?_, hlisted⟩
  cases hc
  rfl

/-- A cut does not list every query that a kept node has on a removed one. -/
theorem cut_misses_query : ∃ (d : Definition) (p : Pipeline) (c : Cut),
    (build .empty d).1 = .ok p ∧ p.mode = .sync ∧ p.Ordered ∧
      p.cut (· = "b") (· = "b") = .ok c ∧
      ∃ n ∈ c.pipeline.nodes, ∃ ch ∈ n.channels, ∃ s ∈ p.nodes, s ∉ c.pipeline.nodes ∧
        Node.Source p.nodes ch.2 s ∧ ch.2 ∉ c.listed s.id := by
  refine ⟨twoQueries, twoQueriesBuilt, _, build_twoQueries, rfl, ordered_twoQueriesBuilt, rfl, ?_⟩
  refine ⟨_, List.mem_cons_self, ("in", ⟨some "a", [⟨"run", .int 1⟩], "T", "out"⟩), by decide,
    _, List.mem_cons_self, by decide, ⟨by decide, by decide, by decide⟩, by decide⟩

end Dataflow
