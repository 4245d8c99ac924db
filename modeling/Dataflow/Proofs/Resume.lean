import Dataflow.Proofs.Removed

/-!
# What a cut can be resumed from

The kept nodes are convex: what lies on a path between two of them is kept
(`Pipeline.Between.mid`). A removed producer leads to a node that is between the selections, so it
would be between them itself if a selected start led to it (`Pipeline.Between.not_below_of_leads`).
Hence no kept node leads to it, and the artifacts that a cut asks for are made without any node
that is run again.
-/

namespace Dataflow

open Relation

namespace Pipeline

section
variable {p : Pipeline} {start stop : String → Bool} {a b id : String}

/-- What lies on a path between two nodes that are between the selections is so too. -/
theorem Between.mid (ha : p.Between start stop a) (hb : p.Between start stop b)
    (hai : ReflTransGen (Edge.Leads p.edges) a id) (hib : ReflTransGen (Edge.Leads p.edges) id b) :
    p.Between start stop id := by
  obtain ⟨⟨s, hs, hsel, hsa⟩, -⟩ := ha
  obtain ⟨-, t, ht, htsel, hbt⟩ := hb
  exact ⟨⟨s, hs, hsel, hsa.trans hai⟩, t, ht, htsel, hib.trans hbt⟩

/-- No selected start leads to a producer that is cut off. -/
theorem Between.not_below_of_leads (hb : p.Between start stop b) (hl : Edge.Leads p.edges id b)
    (hid : ¬ p.Between start stop id) {s : Node} (hs : s ∈ p.nodes) (hsel : start s.id = true) :
    ¬ ReflTransGen (Edge.Leads p.edges) s.id id := by
  intro hsi
  obtain ⟨-, t, ht, htsel, hbt⟩ := hb
  exact hid ⟨⟨s, hs, hsel, hsi⟩, t, ht, htsel, hbt.head hl⟩

theorem Between.not_leads_of_leads (ha : p.Between start stop a) (hb : p.Between start stop b)
    (hl : Edge.Leads p.edges id b) (hid : ¬ p.Between start stop id) :
    ¬ ReflTransGen (Edge.Leads p.edges) a id := by
  intro hai
  obtain ⟨⟨s, hs, hsel, hsa⟩, -⟩ := ha
  exact hb.not_below_of_leads hl hid hs hsel (hsa.trans hai)

theorem exists_leads_of_mem_removed (hj : Edge.Joining p.nodes p.edges) {kept : String → Bool}
    (h : id ∈ (p.cutChannels kept).keys) :
    ∃ r ∈ p.nodes, r.id = id ∧ kept id = false ∧
      ∃ n ∈ p.nodes, kept n.id = true ∧ Edge.Leads p.edges id n.id := by
  obtain ⟨e, he, ⟨hck, hpk⟩, rfl⟩ := mem_keys_cutChannels_iff.1 h
  obtain ⟨r, hr, hrid⟩ := hj.producer e he
  obtain ⟨n, hn, hnid⟩ := hj.consumer e he
  exact ⟨r, hr, hrid, hpk, n, hn, hnid ▸ hck, e, he, rfl, hnid.symm⟩

end

end Pipeline

/-- **A cut is safe to resume from**: it keeps every node on a path between two kept nodes, and a
removed producer that it lists is neither selected as a start nor behind any kept node. So no
artifact of an earlier run that it asks for depends on a node that is run again. -/
theorem cut_safe_to_resume {p : Pipeline} (hp : p.Obtained) (hm : p.mode = .sync) (ho : p.Ordered)
    (start stop : String → Bool) :
    ∃ c : Cut, p.cut start stop = .ok c ∧
      (∀ a ∈ c.pipeline.nodes, ∀ b ∈ c.pipeline.nodes, ∀ n ∈ p.nodes,
        ReflTransGen (Edge.Leads p.edges) a.id n.id →
          ReflTransGen (Edge.Leads p.edges) n.id b.id → n ∈ c.pipeline.nodes) ∧
      ∀ id ∈ c.removed.keys,
        (∃ r ∈ p.nodes, r.id = id ∧ r ∉ c.pipeline.nodes) ∧ start id = false ∧
          ∀ a ∈ c.pipeline.nodes, ¬ ReflTransGen (Edge.Leads p.edges) a.id id := by
  obtain ⟨kept, hc, hkept⟩ := Pipeline.cut_of_ordered hp.sound hm ho start stop
  have hbetween : ∀ n ∈ (p.restrict kept).nodes, n ∈ p.nodes ∧ p.Between start stop n.id := by
    intro n hn
    have hn := Pipeline.mem_restrict_nodes.1 hn
    exact ⟨hn.1, (hkept n hn.1).1 hn.2⟩
  refine ⟨_, hc, fun a ha b hb n hn han hnb => ?_, fun id hid => ?_⟩
  · have hmid := (hbetween a ha).2.mid (hbetween b hb).2 han hnb
    exact Pipeline.mem_restrict_nodes.2 ⟨hn, (hkept n hn).2 hmid⟩
  · obtain ⟨r, hr, rfl, hrk, n, hn, hnk, hl⟩ :=
      Pipeline.exists_leads_of_mem_removed hp.sound.joining hid
    have hnb : p.Between start stop n.id := (hkept n hn).1 hnk
    have hrb : ¬ p.Between start stop r.id := fun h => by
      rw [(hkept r hr).2 h] at hrk
      cases hrk
    have hstart : start r.id ≠ true := fun h => hnb.not_below_of_leads hl hrb hr h .refl
    refine ⟨⟨r, hr, rfl, (Pipeline.not_mem_restrict_iff hr).2 hrk⟩, ?_, fun a ha => ?_⟩
    · exact Bool.eq_false_iff.2 hstart
    · exact (hbetween a ha).2.not_leads_of_leads hnb hl hrb

/-- The cut that keeps the second node asks for artifacts of the first, which nothing kept leads
to. -/
theorem cut_safe_to_resume_twoQueries : ∃ c : Cut,
    twoQueriesBuilt.cut (· = "b") (· = "b") = .ok c ∧ c.removed.keys = ["a"] ∧
      ∀ a ∈ c.pipeline.nodes, ¬ ReflTransGen (Edge.Leads twoQueriesBuilt.edges) a.id "a" := by
  obtain ⟨c, hc, -, hremoved⟩ := cut_safe_to_resume (.built build_twoQueries) rfl
    ordered_twoQueriesBuilt (· = "b") (· = "b")
  have hkeys : c.removed.keys = ["a"] := by
    cases hc
    rfl
  exact ⟨c, hc, hkeys, (hremoved "a" (hkeys ▸ List.mem_cons_self)).2.2⟩

end Dataflow
