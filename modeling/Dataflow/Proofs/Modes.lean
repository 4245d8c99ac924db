import Dataflow.Proofs.Registered
import Dataflow.Proofs.WellFormed

/-!
# The two modes of a definition

The mode of a definition (`Definition.inMode`) decides only whether cycles are reported. Two
analyses look for them: a build at the components of the graph of its edges, and the order of a
pipeline at what is left once no vertex is ready. Both find one exactly if a path of edges leads
back to its start, so a definition is built in one pass exactly if it is built with feedback and the
pipeline has an order (`build_sync_eq_ok_iff`). The violations in one pass are those with feedback,
followed by cycles (`Definition.violations_sync`).
-/

namespace Dataflow

open Relation

/-- A definition in another mode. -/
def Definition.inMode (d : Definition) (mode : Mode) : Definition :=
  { d with mode := mode }

section
variable {r : Registry} {d : Definition} {p : Pipeline}

/-- **Both analyses agree**: a build finds no cycle among edges exactly if they can be ordered. -/
theorem Pipeline.check_eq_nil_iff_order (hj : Edge.Joining p.nodes p.edges) :
    CyclePolicy.reject.check p.nodes p.edges = [] ↔ ∃ order, p.topologicalOrder = .ok order := by
  rw [CyclePolicy.check_eq_nil_iff hj, Pipeline.exists_order_iff hj]
  exact ⟨fun h => h rfl, fun h _ => h⟩

/-- A build in one pass gives the pipeline with feedback, if this has an order. -/
theorem build_sync_eq_ok_iff :
    (build r (d.inMode .sync)).1 = .ok p ↔
      ∃ q, (build r (d.inMode .async)).1 = .ok q ∧ (∃ order, q.topologicalOrder = .ok order) ∧
        p = { q with mode := .sync } := by
  constructor
  · intro h
    obtain ⟨hpar, hids, hbind, hconn, hcyc, rfl⟩ := build_eq_ok_iff.1 h
    have hq : (build r (d.inMode .async)).1 = .ok _ :=
      build_eq_ok_iff.2 ⟨hpar, hids, hbind, hconn, rfl, rfl⟩
    have hj := (Pipeline.wellFormed_of_build hq).joining
    exact ⟨_, hq, (Pipeline.check_eq_nil_iff_order hj).1 hcyc, rfl⟩
  · rintro ⟨q, hq, ho, rfl⟩
    have hj := (Pipeline.wellFormed_of_build hq).joining
    have hcyc := (Pipeline.check_eq_nil_iff_order hj).2 ho
    obtain ⟨hpar, hids, hbind, hconn, -, rfl⟩ := build_eq_ok_iff.1 hq
    exact build_eq_ok_iff.2 ⟨hpar, hids, hbind, hconn, hcyc, rfl⟩

theorem Definition.channelFaults_inMode (d : Definition) (r : Registry) (mode : Mode) :
    (d.inMode mode).channelFaults r = d.channelFaults r := by
  rw [← connected_snd_eq, ← connected_snd_eq]
  rfl

/-- The violations in one pass are those with feedback, followed by the cycles. -/
theorem Definition.violations_sync (d : Definition) (r : Registry) :
    (d.inMode .sync).violations r =
      (d.inMode .async).violations r ++ (d.inMode .sync).accepted.cycles := by
  have hnone : (d.inMode .async).accepted.cycles = [] := rfl
  have hchannels : (d.inMode .sync).accepted.channelFaults r =
      (d.inMode .async).accepted.channelFaults r :=
    (d.accepted.channelFaults_inMode r .sync).trans (d.accepted.channelFaults_inMode r .async).symm
  unfold violations
  rw [hnone, List.append_nil, hchannels]
  rfl

theorem Definition.exists_cyclic_of_mem_cycles {c : Diagnostic} (h : c ∈ d.cycles) :
    ∃ ids, c = .cyclic ids := by
  unfold cycles at h
  cases hm : d.mode with
  | sync =>
    simp only [hm, List.mem_map] at h
    obtain ⟨members, -, rfl⟩ := h
    exact ⟨_, rfl⟩
  | async => simp [hm] at h

end

/-- **One pass and feedback**: a definition is built in one pass exactly if it is built with
feedback and that pipeline has an order; the pipelines differ in the mode alone. If it is not built
with feedback, it is not built in one pass either, and what is reported is the same, followed only
by cycles. -/
theorem sync_is_async_with_order (r : Registry) (d : Definition) :
    ((∃ p, (build r (d.inMode .sync)).1 = .ok p) ↔
        ∃ q, (build r (d.inMode .async)).1 = .ok q ∧ ∃ order, q.topologicalOrder = .ok order) ∧
      (∀ p q, (build r (d.inMode .sync)).1 = .ok p → (build r (d.inMode .async)).1 = .ok q →
        p = { q with mode := .sync }) ∧
      ∀ report, (build r (d.inMode .async)).1 = .error report → ∃ cycles : List Diagnostic,
        (∀ c ∈ cycles, ∃ ids, c = .cyclic ids) ∧
          (build r (d.inMode .sync)).1 =
            .error ⟨report.pipeline, report.diagnostics ++ cycles⟩ := by
  refine ⟨⟨?_, ?_⟩, fun p q hp hq => ?_, fun report hreport => ?_⟩
  · rintro ⟨p, hp⟩
    obtain ⟨q, hq, ho, -⟩ := build_sync_eq_ok_iff.1 hp
    exact ⟨q, hq, ho⟩
  · rintro ⟨q, hq, ho⟩
    exact ⟨_, build_sync_eq_ok_iff.2 ⟨q, hq, ho, rfl⟩⟩
  · obtain ⟨q', hq', -, rfl⟩ := build_sync_eq_ok_iff.1 hp
    rw [hq] at hq'
    cases hq'
    rfl
  · have hasync := violations_ne_nil hreport
    have hsync : (d.inMode .sync).violations r ≠ [] := by
      rw [d.violations_sync r]
      simp [hasync]
    rw [build_of_violations hasync] at hreport
    cases hreport
    refine ⟨(d.inMode .sync).accepted.cycles, fun c => Definition.exists_cyclic_of_mem_cycles, ?_⟩
    rw [build_of_violations hsync, d.violations_sync r]
    rfl

/-- A definition that is built in one pass is built with feedback too. -/
theorem sync_is_async_with_order_twoQueries : ∃ q,
    (build .empty (twoQueries.inMode .async)).1 = .ok q ∧
      (∃ order, q.topologicalOrder = .ok order) ∧ twoQueriesBuilt = { q with mode := .sync } := by
  have hsync : (build .empty (twoQueries.inMode .sync)).1 = .ok twoQueriesBuilt := build_twoQueries
  obtain ⟨hiff, hsame, -⟩ := sync_is_async_with_order .empty twoQueries
  obtain ⟨q, hq, ho⟩ := hiff.1 ⟨_, hsync⟩
  exact ⟨q, hq, ho, hsame _ q hsync hq⟩

end Dataflow
