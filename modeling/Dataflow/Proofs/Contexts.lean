import Dataflow.Proofs.Sharing

/-!
# The contexts of a pipeline

Every node of a built pipeline carries the contexts that all nodes share and its own, and the
pipeline has those of all its nodes; a repeated context stays where it occurs first. Nodes refer to
the pipeline's instances, of which there is one for each context, so the instances that any number
of cuts leave (`Pipeline.instances_of_cuts`) are those of the contexts that the remaining nodes
carry (`Sharing.contexts_filter_refers`).

* `Value.Same`: when two values are equal.
* `Pipeline.CutsTo`: what one cut makes of a pipeline.
-/

namespace Dataflow

open Relation

/-- Values are equal if they are of one kind and have the same content, doubles the same bits. -/
def Value.Same : Value → Value → Prop
  | .int m, .int n => m = n
  | .string s, .string t => s = t
  | .double x, .double y => x.bits = y.bits
  | _, _ => False

theorem Value.eq_iff_same {v w : Value} : v = w ↔ v.Same w := by
  have hbits (x y : Binary64) : x = y ↔ x.bits = y.bits := by
    cases x
    cases y
    simp
  cases v <;> cases w <;> simp [Same, hbits]

theorem Context.eq_iff {c c' : Context} : c = c' ↔ c.type = c'.type ∧ c.name.Same c'.name := by
  rw [← Value.eq_iff_same]
  cases c
  cases c'
  simp

namespace Pipeline

/-- A cut of `p` leaves `q`. -/
def CutsTo (p q : Pipeline) : Prop :=
  ∃ start stop c, p.cut start stop = .ok c ∧ q = c.pipeline

variable {p q : Pipeline}

theorem refers_of_subset (h : ∀ n ∈ q.nodes, n ∈ p.nodes) {s : Context.Instance}
    (hs : q.refers s = true) : p.refers s = true := by
  obtain ⟨n, hn, hsn⟩ := refers_iff.1 hs
  exact refers_iff.2 ⟨n, h n hn, hsn⟩

/-- One cut keeps some nodes as they are, and the instances that they refer to. -/
theorem CutsTo.kept (h : p.CutsTo q) :
    (∀ n ∈ q.nodes, n ∈ p.nodes) ∧ q.instances = p.instances.filter q.refers := by
  obtain ⟨start, stop, c, hc, rfl⟩ := h
  obtain ⟨-, -, below, above, -, -, rfl⟩ := cut_eq_ok_iff.1 hc
  exact ⟨fun n hn => (mem_restrict_nodes.1 hn).1, restrict_instances⟩

/-- **After any number of cuts** the instances that are left are those that a node refers to that is
left. -/
theorem instances_of_cuts (h : TransGen CutsTo p q) :
    (∀ n ∈ q.nodes, n ∈ p.nodes) ∧ q.instances = p.instances.filter q.refers := by
  induction h with
  | single h => exact h.kept
  | tail _ h ih =>
    obtain ⟨hnodes, hinstances⟩ := h.kept
    refine ⟨fun n hn => ih.1 n (hnodes n hn), ?_⟩
    rw [hinstances, ih.2, List.filter_filter]
    -- what the last cut leaves was referred to by nodes that were there before it
    refine List.filter_congr fun s _ => ?_
    rw [Bool.and_eq_left_iff_imp]
    exact refers_of_subset hnodes

end Pipeline

theorem Definition.contexts_bound (d : Definition) :
    d.bound.map (fun n => (n.id, n.contexts)) =
      d.nodes.map fun n => (n.id, (d.contexts ++ n.contexts).eraseDups) := by
  unfold Definition.bound
  rw [List.map_map]
  refine List.map_congr_left fun n _ => ?_
  show (n.id, (d.bind n).contexts) = _
  rw [Definition.contexts_bind, fresh_nil_eq_eraseDups]

/-- **Contexts are kept in the order of first sight, and shared.** A node of a built pipeline
carries the contexts of the definition, followed by its own; the pipeline has the contexts of the
definition, followed by those of its nodes; and each is kept where it occurs first. Nodes refer to
the pipeline's own instances, and two of these are one exactly if their contexts are equal; so every
context that a node carries stands at one place in the pipeline's. Any number of cuts leave those
instances, in their order, that a node refers to that is left, and so those contexts that such a
node carries; these nodes refer to what they did. Contexts are equal if their types are and their
values are the same. -/
theorem contexts_of_pipeline {r : Registry} {d : Definition} {p : Pipeline}
    (h : (build r d).1 = .ok p) :
    p.nodes.map (fun n => (n.id, n.contexts)) =
        d.nodes.map (fun n => (n.id, (d.contexts ++ n.contexts).eraseDups)) ∧
      p.contexts = (d.contexts ++ d.nodes.flatMap (·.contexts)).eraseDups ∧
      (∀ n ∈ p.nodes, ∀ s ∈ n.instances, s ∈ p.instances) ∧
      (∀ s ∈ p.instances, ∀ t ∈ p.instances, s.same t = true ↔ s.value = t.value) ∧
      (∀ n ∈ p.nodes, ∀ c ∈ n.contexts, ∃! i : Nat, p.contexts[i]? = some c) ∧
      (∀ q, TransGen Pipeline.CutsTo p q →
        q.instances = p.instances.filter (fun s => q.nodes.any fun n => n.instances.any s.same) ∧
          q.contexts = p.contexts.filter (fun c => q.nodes.any fun n => n.contexts.contains c) ∧
          ∀ n ∈ q.nodes, n ∈ p.nodes ∧ (∀ s ∈ n.instances, s ∈ q.instances) ∧
            ∀ c ∈ n.contexts, c ∈ q.contexts) ∧
      ∀ c c' : Context, c = c' ↔ c.type = c'.type ∧ c.name.Same c'.name := by
  have hshared := Pipeline.sharing_of_build h
  obtain ⟨source, -, rfl⟩ := eq_pipeline_of_build h
  refine ⟨d.contexts_bound, ?_, hshared.own, fun s hs t ht => hshared.same_iff hs ht,
    fun n hn c hc => ?_, fun q hq => ?_, fun c c' => Context.eq_iff⟩
  · rw [Pipeline.contexts_pipeline, Definition.allContexts, fresh_nil_eq_eraseDups]
  · obtain ⟨s, hs, rfl⟩ := List.mem_map.1 hc
    have hmem : s.value ∈ (d.pipeline source).contexts :=
      List.mem_map_of_mem (hshared.own n hn s hs)
    obtain ⟨i, hi⟩ := List.mem_iff_getElem?.1 hmem
    refine ⟨i, hi, fun j hj => ?_⟩
    have hlt := (List.getElem?_eq_some_iff.1 hj).1
    exact (List.getElem?_inj hlt hshared.distinct).1 (hj.trans hi.symm)
  · obtain ⟨hleft, hkept⟩ := Pipeline.instances_of_cuts hq
    have hown : ∀ n ∈ q.nodes, ∀ s ∈ n.instances, s ∈ q.instances := fun n hn s hs => by
      rw [hkept, List.mem_filter, Pipeline.refers_iff]
      exact ⟨hshared.own n (hleft n hn) s hs, n, hn, s, hs, decide_eq_true rfl⟩
    have hcontexts : q.contexts = (d.pipeline source).contexts.filter q.carried := by
      rw [← hshared.contexts_filter_refers hleft, ← hkept]
      rfl
    refine ⟨hkept, hcontexts, fun n hn => ⟨hleft n hn, hown n hn, fun c hc => ?_⟩⟩
    obtain ⟨s, hs, rfl⟩ := List.mem_map.1 hc
    exact List.mem_map_of_mem (hown n hn s hs)

/-- Two nodes that repeat contexts, with two zeros that differ in their sign. -/
def twoZeros : Definition where
  id := "p"
  mode := .sync
  contexts := [⟨"run", .int 1⟩, ⟨"run", .int 1⟩]
  parameters := []
  nodes := [
    ⟨"a", [⟨"run", .int 1⟩, ⟨"scale", .double .zero⟩], .empty, .empty⟩,
    ⟨"b", [⟨"scale", .double Binary64.zero.neg⟩, ⟨"run", .int 1⟩], .empty, .empty⟩]
  deployment := .empty

/-- The cut that keeps the second node drops one of the zeros, and what is left is in the slots in
which it was stored. -/
theorem contexts_of_pipeline_twoZeros : ∃ (p : Pipeline) (c : Cut),
    (build .empty twoZeros).1 = .ok p ∧ p.cut (· = "b") (· = "b") = .ok c ∧
      p.contexts =
        [⟨"run", .int 1⟩, ⟨"scale", .double .zero⟩, ⟨"scale", .double Binary64.zero.neg⟩] ∧
      c.pipeline.instances =
        [⟨0, ⟨"run", .int 1⟩⟩, ⟨2, ⟨"scale", .double Binary64.zero.neg⟩⟩] ∧
      c.pipeline.contexts = [⟨"run", .int 1⟩, ⟨"scale", .double Binary64.zero.neg⟩] := by
  obtain ⟨p, c, hbuild, hcut, hstored, hnodes⟩ : ∃ (p : Pipeline) (c : Cut),
      (build .empty twoZeros).1 = .ok p ∧ p.cut (· = "b") (· = "b") = .ok c ∧
        p.instances = [⟨0, ⟨"run", .int 1⟩⟩, ⟨1, ⟨"scale", .double .zero⟩⟩,
          ⟨2, ⟨"scale", .double Binary64.zero.neg⟩⟩] ∧
        c.pipeline.nodes = [⟨"b", [⟨0, ⟨"run", .int 1⟩⟩,
          ⟨2, ⟨"scale", .double Binary64.zero.neg⟩⟩], .empty, .empty⟩] :=
    ⟨_, _, rfl, rfl, rfl, rfl⟩
  obtain ⟨-, hcontexts, -, -, -, hcuts, -⟩ := contexts_of_pipeline hbuild
  obtain ⟨hinstances, hleft, -⟩ := hcuts c.pipeline (.single ⟨_, _, c, hcut, rfl⟩)
  have hall : p.contexts =
      [⟨"run", .int 1⟩, ⟨"scale", .double .zero⟩, ⟨"scale", .double Binary64.zero.neg⟩] := by
    rw [hcontexts]
    decide
  refine ⟨p, c, hbuild, hcut, hall, ?_, ?_⟩
  · rw [hinstances, hstored, hnodes]
    rfl
  · rw [hleft, hall, hnodes]
    decide

end Dataflow
