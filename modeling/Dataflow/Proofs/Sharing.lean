import Dataflow.Proofs.Cut

/-!
# Shared instances of contexts

One interner serves a whole build, so the nodes of a built pipeline refer to the pipeline's own
instances, and there is one instance of each context (`Pipeline.Sharing`). A cut keeps some of the
nodes and of the instances those that the kept nodes refer to (`Pipeline.refers`), so it leaves a
pipeline of this kind (`Sharing.restrict`). Where instances are shared it makes no difference
whether references are compared or contexts (`Sharing.same_iff`), so a cut leaves the contexts that
a kept node carries (`Sharing.contexts_restrict`). -/

namespace Dataflow.Pipeline

/-- The nodes of a pipeline refer to the pipeline's instances, which are in different slots and of
different contexts. -/
structure Sharing (p : Pipeline) : Prop where
  own : ∀ n ∈ p.nodes, ∀ s ∈ n.instances, s ∈ p.instances
  slots : (p.instances.map (·.slot)).Nodup
  distinct : p.contexts.Nodup

/-- Some node refers to an instance. -/
def refers (p : Pipeline) (s : Context.Instance) : Bool :=
  p.nodes.any fun n => n.instances.any s.same

/-- Some node carries a context. -/
def carried (p : Pipeline) (c : Context) : Bool :=
  p.nodes.any fun n => n.contexts.contains c

variable {p q : Pipeline} {kept : String → Bool}

theorem refers_iff {s : Context.Instance} :
    p.refers s = true ↔ ∃ n ∈ p.nodes, ∃ t ∈ n.instances, s.same t = true := by
  simp [refers]

theorem carried_iff {c : Context} : p.carried c = true ↔ ∃ n ∈ p.nodes, c ∈ n.contexts := by
  simp [carried]

theorem restrict_instances :
    (p.restrict kept).instances = p.instances.filter (p.restrict kept).refers :=
  rfl

section
variable (h : p.Sharing)
include h

/-- **References lead to one instance exactly if the contexts there are equal.** -/
theorem Sharing.same_iff {s t : Context.Instance} (hs : s ∈ p.instances) (ht : t ∈ p.instances) :
    s.same t = true ↔ s.value = t.value := by
  rw [Context.Instance.same, decide_eq_true_iff]
  constructor
  · intro hslot
    rw [List.inj_on_of_nodup_map h.slots hs ht hslot]
  · intro hvalue
    rw [List.inj_on_of_nodup_map h.distinct hs ht hvalue]

/-- Whether nodes of a pipeline refer to an instance may be told by what they carry. -/
theorem Sharing.refers_eq_carried (hq : ∀ n ∈ q.nodes, n ∈ p.nodes) {s : Context.Instance}
    (hs : s ∈ p.instances) : q.refers s = q.carried s.value := by
  rw [Bool.eq_iff_iff, refers_iff, carried_iff]
  refine exists_congr fun n => and_congr_right fun hn => ?_
  rw [Node.contexts, List.mem_map]
  refine exists_congr fun t => and_congr_right fun ht => ?_
  rw [h.same_iff hs (h.own n (hq n hn) t ht)]
  exact eq_comm

theorem Sharing.contexts_filter_refers (hq : ∀ n ∈ q.nodes, n ∈ p.nodes) :
    (p.instances.filter q.refers).map (·.value) = p.contexts.filter q.carried := by
  rw [contexts, List.filter_map]
  exact congrArg _ (List.filter_congr fun s hs => h.refers_eq_carried hq hs)

/-- A restriction has the contexts that its nodes carry. -/
theorem Sharing.contexts_restrict :
    (p.restrict kept).contexts = p.contexts.filter (p.restrict kept).carried :=
  h.contexts_filter_refers fun _ hn => (mem_restrict_nodes.1 hn).1

/-- **A restriction shares instances** like the pipeline it is made from. -/
theorem Sharing.restrict (kept : String → Bool) : (p.restrict kept).Sharing where
  own n hn s hs := by
    have hsame : s.same s = true := decide_eq_true rfl
    rw [restrict_instances, List.mem_filter, refers_iff]
    exact ⟨h.own n (mem_restrict_nodes.1 hn).1 s hs, n, hn, s, hs, hsame⟩
  slots := h.slots.sublist (List.filter_sublist.map _)
  distinct := h.distinct.sublist (List.filter_sublist.map _)

end

theorem Sharing.forall_refers_iff (h : p.Sharing) :
    (∀ s ∈ p.instances, p.refers s = true) ↔ ∀ c ∈ p.contexts, ∃ n ∈ p.nodes, c ∈ n.contexts := by
  rw [contexts, List.forall_mem_map]
  refine forall₂_congr fun s hs => ?_
  rw [h.refers_eq_carried (fun _ hn => hn) hs, carried_iff]

/-! ## What is built shares its instances -/

theorem contexts_pipeline (d : Definition) (source : Query → NodeDeclaration) :
    (d.pipeline source).contexts = d.allContexts :=
  Context.map_value_storedIn _ _

theorem sharing_pipeline (d : Definition) (source : Query → NodeDeclaration) :
    (d.pipeline source).Sharing where
  own := by
    refine List.forall_mem_map.2 fun n hn => List.forall_mem_map.2 fun c hc => ?_
    refine List.mem_map_of_mem (mem_fresh.2 ⟨?_, List.not_mem_nil⟩)
    rcases List.mem_append.1 (mem_fresh.1 hc).1 with hshared | hown
    · exact List.mem_append_left _ hshared
    · exact List.mem_append_right _ (List.mem_flatMap.2 ⟨n, hn, hown⟩)
  slots := by
    show ((d.allContexts.map _).map _).Nodup
    rw [List.map_map]
    refine (nodup_fresh _ _).map_on fun c hc c' _ hslot => ?_
    exact (List.idxOf_inj hc).1 hslot
  distinct := by
    rw [contexts_pipeline]
    exact nodup_fresh _ _

theorem sharing_of_build {r : Registry} {d : Definition} (h : (build r d).1 = .ok p) :
    p.Sharing := by
  obtain ⟨source, -, rfl⟩ := eq_pipeline_of_build h
  exact sharing_pipeline d source

theorem Obtained.sharing (hp : p.Obtained) : p.Sharing := by
  induction hp with
  | built h => exact sharing_of_build h
  | cut _ h ih =>
    obtain ⟨-, -, below, above, -, -, rfl⟩ := cut_eq_ok_iff.1 h
    exact ih.restrict _

end Dataflow.Pipeline
