import Dataflow.Proofs.Resume
import Dataflow.Proofs.Sharing

/-!
# Cuts that remove nothing

A restriction leaves a pipeline as it is if it keeps every node, if every context is carried by a
node and if every deployment setting is a node's (`Pipeline.restrict_eq_self_iff`). The first of
these holds of a cut whose selections have every node between them (`Pipeline.cut_of_between`).

What a cut keeps is such a pipeline: all nodes on a path between kept nodes are kept, so the paths
that put a node between the selections are still there (`Pipeline.Between.restrict`), and cutting
again changes nothing. What a build makes need not be one. Settings are passed through whatever they
are for, and without nodes no context is carried; a cut that selects every node drops both
(`cut_of_everything`).
-/

namespace Dataflow

open Relation

namespace Pipeline

section
variable {p : Pipeline} {kept : String → Bool}

/-! ## Restrictions that keep every node -/

theorem restrict_nodes_eq_self_iff :
    (p.restrict kept).nodes = p.nodes ↔ ∀ n ∈ p.nodes, kept n.id = true :=
  List.filter_eq_self

section
variable (hj : Edge.Joining p.nodes p.edges) (hall : ∀ n ∈ p.nodes, kept n.id = true)
include hj hall

theorem restrict_edges_of_kept : (p.restrict kept).edges = p.edges := by
  refine List.filter_eq_self.2 fun e he => ?_
  obtain ⟨m, hm, hmid⟩ := hj.producer e he
  obtain ⟨n, hn, hnid⟩ := hj.consumer e he
  rw [← hmid, ← hnid, hall m hm, hall n hn]
  rfl

theorem cutChannels_of_kept : p.cutChannels kept = .empty := by
  have hnone : p.edges.filter (fun e => kept e.consumer && !kept e.producer) = [] := by
    refine List.filter_eq_nil_iff.2 fun e he => ?_
    obtain ⟨m, hm, hmid⟩ := hj.producer e he
    rw [← hmid, hall m hm]
    simp
  unfold cutChannels
  rw [hnone]
  rfl

end

theorem restrict_instances_eq_self_iff (hs : p.Sharing)
    (hall : ∀ n ∈ p.nodes, kept n.id = true) :
    (p.restrict kept).instances = p.instances ↔
      ∀ c ∈ p.contexts, ∃ n ∈ p.nodes, c ∈ n.contexts := by
  have hrefers : (p.restrict kept).refers = p.refers := by
    funext s
    rw [refers, restrict_nodes_eq_self_iff.2 hall, refers]
  rw [restrict_instances, hrefers, List.filter_eq_self, hs.forall_refers_iff]

/-- **A restriction changes nothing** exactly if it keeps every node, every context is carried by a
node, and the deployment settings are for ids that are kept. -/
theorem restrict_eq_self_iff (hs : p.Sharing) (hj : Edge.Joining p.nodes p.edges) :
    p.restrict kept = p ↔ (∀ n ∈ p.nodes, kept n.id = true) ∧
      (∀ c ∈ p.contexts, ∃ n ∈ p.nodes, c ∈ n.contexts) ∧
        ∀ id ∈ p.deployment.keys, kept id = true := by
  constructor
  · intro h
    have hall := restrict_nodes_eq_self_iff.1 (congrArg Pipeline.nodes h)
    exact ⟨hall, (restrict_instances_eq_self_iff hs hall).1 (congrArg Pipeline.instances h),
      KeyMap.filterKeys_eq_self_iff.1 (congrArg Pipeline.deployment h)⟩
  · rintro ⟨hall, hcarried, hkeys⟩
    have hinstances := (restrict_instances_eq_self_iff hs hall).2 hcarried
    have hnodes := restrict_nodes_eq_self_iff.2 hall
    have hedges := restrict_edges_of_kept hj hall
    have hdeployment : (p.restrict kept).deployment = p.deployment :=
      KeyMap.filterKeys_eq_self_iff.2 hkeys
    calc p.restrict kept
      _ = ⟨p.id, p.mode, (p.restrict kept).instances, p.parameters, (p.restrict kept).nodes,
          (p.restrict kept).edges, (p.restrict kept).deployment⟩ := rfl
      _ = p := by rw [hinstances, hnodes, hedges, hdeployment]

/-! ## Order and paths of a restriction -/

theorem declaredBefore_iff_sublist {a b : String} :
    p.DeclaredBefore a b ↔ ∃ m n : Node, m.id = a ∧ n.id = b ∧ [m, n].Sublist p.nodes := by
  constructor
  · rintro ⟨i, j, m, n, hlt, ⟨hm, ha⟩, hn, hb⟩
    obtain ⟨hi, rfl⟩ := List.getElem?_eq_some_iff.1 hm
    obtain ⟨hj, rfl⟩ := List.getElem?_eq_some_iff.1 hn
    have hpairs : p.nodes.Pairwise fun m n => [m, n].Sublist p.nodes :=
      List.pairwise_iff_forall_sublist.2 fun h => h
    exact ⟨_, _, ha, hb, List.pairwise_iff_getElem.1 hpairs i j hi hj hlt⟩
  · rintro ⟨m, n, ha, hb, hsub⟩
    have hpairs : p.nodes.Pairwise fun m n =>
        ∃ i j : Nat, i < j ∧ p.nodes[i]? = some m ∧ p.nodes[j]? = some n :=
      List.pairwise_iff_getElem.2 fun i j hi hj hlt =>
        ⟨i, j, hlt, List.getElem?_eq_getElem hi, List.getElem?_eq_getElem hj⟩
    obtain ⟨i, j, hlt, hm, hn⟩ := List.pairwise_iff_forall_sublist.1 hpairs hsub
    exact ⟨i, j, m, n, hlt, ⟨hm, ha⟩, hn, hb⟩

theorem Ordered.restrict (ho : p.Ordered) (kept : String → Bool) : (p.restrict kept).Ordered := by
  intro e he
  obtain ⟨he, hpk, hck⟩ := mem_restrict_edges.1 he
  obtain ⟨m, n, hm, hn, hsub⟩ := declaredBefore_iff_sublist.1 (ho e he)
  have hpair : [m, n].filter (fun n => kept n.id) = [m, n] := by simp [hm, hn, hpk, hck]
  have hkept := hsub.filter fun n => kept n.id
  rw [hpair] at hkept
  exact declaredBefore_iff_sublist.2 ⟨m, n, hm, hn, hkept⟩

section
variable {start stop : String → Bool} {a b id : String}
  (hkept : ∀ id, kept id = true ↔ p.Between start stop id)
include hkept

/-- A path between nodes that are between the selections is kept with all its edges. -/
theorem Between.path_restrict (ha : p.Between start stop a) (hb : p.Between start stop b)
    (h : ReflTransGen (Edge.Leads p.edges) a b) :
    ReflTransGen (Edge.Leads (p.restrict kept).edges) a b := by
  -- From the front: the first edge leads to a node that is again between the selections.
  induction h using ReflTransGen.head_induction_on with
  | refl => exact .refl
  | head hac hcb ih =>
    have hc := ha.mid hb (.single hac) hcb
    obtain ⟨e, he, rfl, rfl⟩ := hac
    have hek := mem_restrict_edges.2 ⟨he, (hkept _).2 ha, (hkept _).2 hc⟩
    exact .head ⟨e, hek, rfl, rfl⟩ (ih hc)

/-- **What lies between the selections lies between them after the cut**: the selected nodes that
say so, and the paths from one to the other, are kept. -/
theorem Between.restrict (h : p.Between start stop id) :
    (p.restrict kept).Between start stop id := by
  have hid := h
  obtain ⟨⟨s, hs, hsel, hsid⟩, t, ht, htsel, hidt⟩ := h
  have hsb : p.Between start stop s.id := ⟨⟨s, hs, hsel, .refl⟩, t, ht, htsel, hsid.trans hidt⟩
  have htb : p.Between start stop t.id := ⟨⟨s, hs, hsel, hsid.trans hidt⟩, t, ht, htsel, .refl⟩
  exact ⟨⟨s, mem_restrict_nodes.2 ⟨hs, (hkept _).2 hsb⟩, hsel, hsb.path_restrict hkept hid hsid⟩,
    t, mem_restrict_nodes.2 ⟨ht, (hkept _).2 htb⟩, htsel, hid.path_restrict hkept htb hidt⟩

end

/-! ## Cuts that keep every node -/

theorem Between.exists_node (hp : p.Sound) {start stop : String → Bool} {id : String}
    (h : p.Between start stop id) : ∃ n ∈ p.nodes, n.id = id := by
  obtain ⟨⟨a, ha, -, hpath⟩, -⟩ := h
  exact hp.exists_of_path hpath ⟨a, ha, rfl⟩

/-- A cut with every node between its selections keeps the ids of all nodes, and lists
nothing. -/
theorem cut_of_between (hp : p.Sound) (hm : p.mode = .sync) (ho : p.Ordered)
    {start stop : String → Bool} (h : ∀ n ∈ p.nodes, p.Between start stop n.id) :
    ∃ kept, p.cut start stop = .ok ⟨p.restrict kept, .empty⟩ ∧
      ∀ id, kept id = true ↔ ∃ n ∈ p.nodes, n.id = id := by
  obtain ⟨kept, hc, hkept⟩ := cut_spec hp hm ho start stop
  have hnone := cutChannels_of_kept hp.joining fun n hn => (hkept n.id).2 (h n hn)
  refine ⟨kept, hnone ▸ hc, fun id => ⟨fun hid => ?_, ?_⟩⟩
  · exact ((hkept id).1 hid).exists_node hp
  · rintro ⟨n, hn, rfl⟩
    exact (hkept n.id).2 (h n hn)

end

end Pipeline

/-- **Cutting again changes nothing**: what a cut of an ordered pipeline keeps is cut by the same
selections into itself, and no removed producer is listed. -/
theorem cut_again {p : Pipeline} (hp : p.Obtained) (hm : p.mode = .sync) (ho : p.Ordered)
    (start stop : String → Bool) :
    ∃ c : Cut, p.cut start stop = .ok c ∧ c.pipeline.cut start stop = .ok ⟨c.pipeline, .empty⟩ := by
  obtain ⟨kept, hc, hkept⟩ := Pipeline.cut_spec hp.sound hm ho start stop
  have hs : (p.restrict kept).Sound := hp.sound.restrict kept
  have hshared : (p.restrict kept).Sharing := hp.sharing.restrict kept
  have hbetween : ∀ n ∈ (p.restrict kept).nodes, (p.restrict kept).Between start stop n.id := by
    intro n hn
    exact ((hkept n.id).1 (Pipeline.mem_restrict_nodes.1 hn).2).restrict hkept
  obtain ⟨again, hagain, hids⟩ := Pipeline.cut_of_between hs hm (ho.restrict kept) hbetween
  have hsame : (p.restrict kept).restrict again = p.restrict kept := by
    refine (Pipeline.restrict_eq_self_iff hshared hs.joining).2 ⟨fun n hn => ?_, fun c hcx => ?_,
      fun id hid => ?_⟩
    · exact (hids n.id).2 ⟨n, hn, rfl⟩
    · rw [hp.sharing.contexts_restrict] at hcx
      exact Pipeline.carried_iff.1 (List.mem_filter.1 hcx).2
    -- The first cut has already dropped settings that are not for a node.
    · obtain ⟨-, hk⟩ := KeyMap.mem_keys_filterKeys.1 hid
      obtain ⟨n, hn, rfl⟩ := ((hkept id).1 hk).exists_node hp.sound
      exact (hids n.id).2 ⟨n, Pipeline.mem_restrict_nodes.2 ⟨hn, hk⟩, rfl⟩
  rw [hsame] at hagain
  exact ⟨_, hc, hagain⟩

/-- The cut that keeps the second node is cut into itself, although its query is fed by a node that
has been removed. -/
theorem cut_again_twoQueries : ∃ c : Cut,
    twoQueriesBuilt.cut (· = "b") (· = "b") = .ok c ∧ c.removed.keys = ["a"] ∧
      c.pipeline.cut (· = "b") (· = "b") = .ok ⟨c.pipeline, .empty⟩ := by
  obtain ⟨c, hc, hagain⟩ := cut_again (.built build_twoQueries) rfl ordered_twoQueriesBuilt
    (· = "b") (· = "b")
  refine ⟨c, hc, ?_, hagain⟩
  cases hc
  rfl

/-! ## Selecting everything -/

/-- Every context of a built pipeline is carried by a node, unless there is none. -/
theorem carried_iff_of_build {r : Registry} {d : Definition} {p : Pipeline}
    (h : (build r d).1 = .ok p) :
    (∀ c ∈ p.contexts, ∃ n ∈ p.nodes, c ∈ n.contexts) ↔ (p.nodes = [] → p.contexts = []) := by
  constructor
  · intro hcarried hnil
    refine List.eq_nil_iff_forall_not_mem.2 fun c hc => ?_
    obtain ⟨n, hn, -⟩ := hcarried c hc
    exact List.not_mem_nil (hnil ▸ hn)
  · obtain ⟨source, -, rfl⟩ := eq_pipeline_of_build h
    intro hnil c hc
    rw [Pipeline.contexts_pipeline] at hnil hc
    obtain ⟨hmem, -⟩ := mem_fresh.1 hc
    rcases List.mem_append.1 hmem with hshared | hown
    · obtain ⟨n, hn⟩ := List.exists_mem_of_ne_nil d.bound fun hb =>
        List.not_mem_nil ((hnil hb) ▸ hc)
      obtain ⟨m, -, rfl⟩ := List.mem_map.1 hn
      exact ⟨_, hn, Definition.mem_contexts_bound_iff.2 (.inl hshared)⟩
    · obtain ⟨m, hm, hcm⟩ := List.mem_flatMap.1 hown
      exact ⟨_, List.mem_map_of_mem hm, Definition.mem_contexts_bound_iff.2 (.inr hcm)⟩

/-- **A cut that selects everything** keeps the nodes, the edges, the parameters and, if there is a
node, the contexts, and lists nothing; but of the deployment settings it keeps those of nodes only.
So it gives the pipeline back exactly if all settings are for nodes and there are no contexts
without nodes. -/
theorem cut_of_everything {r : Registry} {d : Definition} {p : Pipeline}
    (h : (build r d).1 = .ok p) (hm : p.mode = .sync) (ho : p.Ordered) (start stop : String → Bool)
    (hstart : ∀ n ∈ p.nodes, start n.id = true) (hstop : ∀ n ∈ p.nodes, stop n.id = true) :
    ∃ c : Cut, p.cut start stop = .ok c ∧ c.removed = .empty ∧ c.pipeline.id = p.id ∧
      c.pipeline.mode = p.mode ∧ c.pipeline.parameters = p.parameters ∧
      c.pipeline.nodes = p.nodes ∧ c.pipeline.edges = p.edges ∧
      (c.pipeline.contexts = if p.nodes = [] then [] else p.contexts) ∧
      (∀ id, c.pipeline.settings? id = if p.contains id = true then p.settings? id else none) ∧
      (c.pipeline = p ↔ (p.nodes = [] → p.contexts = []) ∧
        ∀ id ∈ p.deployment.keys, ∃ n ∈ p.nodes, n.id = id) := by
  have hs := (Pipeline.Obtained.built h).sound
  have hshared := Pipeline.sharing_of_build h
  obtain ⟨kept, hc, hkept⟩ := Pipeline.cut_of_between hs hm ho fun n hn =>
    ⟨⟨n, hn, hstart n hn, .refl⟩, n, hn, hstop n hn, .refl⟩
  have hall : ∀ n ∈ p.nodes, kept n.id = true := fun n hn => (hkept n.id).2 ⟨n, hn, rfl⟩
  refine ⟨_, hc, rfl, rfl, rfl, rfl, Pipeline.restrict_nodes_eq_self_iff.2 hall,
    Pipeline.restrict_edges_of_kept hs.joining hall, ?_, fun id => ?_, ?_⟩
  · split
    · rename_i hnil
      have hnodes := (Pipeline.restrict_nodes_eq_self_iff.2 hall).trans hnil
      rw [hshared.contexts_restrict]
      exact List.filter_eq_nil_iff.2 fun c _ => by simp [Pipeline.carried, hnodes]
    · rename_i hne
      exact congrArg (List.map _) ((Pipeline.restrict_instances_eq_self_iff hshared hall).2
        ((carried_iff_of_build h).2 fun hnil => absurd hnil hne))
  · refine (KeyMap.get?_filterKeys kept p.deployment id).trans ?_
    simp only [hkept, Pipeline.contains_iff]
    rfl
  · rw [Pipeline.restrict_eq_self_iff hshared hs.joining, carried_iff_of_build h,
      and_iff_right hall]
    simp only [hkept]

/-- The nodes of the pipeline are selected with all that belongs to them. -/
theorem cut_of_everything_twoQueries : ∃ c : Cut,
    twoQueriesBuilt.cut (fun _ => true) (fun _ => true) = .ok c ∧ c.pipeline = twoQueriesBuilt ∧
      c.removed = .empty := by
  obtain ⟨c, hc, hremoved, -, -, -, -, -, -, -, hiff⟩ := cut_of_everything build_twoQueries rfl
    ordered_twoQueriesBuilt (fun _ => true) (fun _ => true) (fun _ _ => rfl) (fun _ _ => rfl)
  exact ⟨c, hc, hiff.2 ⟨by decide, by decide⟩, hremoved⟩

/-- A node, and settings for something else. -/
def settingsApart : Definition where
  id := "p"
  mode := .sync
  contexts := []
  parameters := []
  nodes := [⟨"a", [], .empty, .empty⟩]
  deployment := .ofList [("x", .ofJson (.bool true))]

/-- A cut that selects every node need not give the pipeline back: settings that are not for a node
are passed through by the build and dropped by the cut. -/
theorem cut_of_everything_drops_settings : ∃ (p : Pipeline) (c : Cut),
    (build .empty settingsApart).1 = .ok p ∧ p.mode = .sync ∧ p.Ordered ∧
      p.cut (fun _ => true) (fun _ => true) = .ok c ∧ (p.settings? "x").isSome = true ∧
        c.pipeline.settings? "x" = none ∧ c.pipeline ≠ p := by
  have hcut : ∃ (p : Pipeline) (c : Cut), (build .empty settingsApart).1 = .ok p ∧
      p.mode = .sync ∧ p.edges = [] ∧ p.cut (fun _ => true) (fun _ => true) = .ok c ∧
        (p.settings? "x").isSome = true ∧ c.pipeline.settings? "x" = none :=
    ⟨_, _, rfl, rfl, rfl, rfl, rfl, rfl⟩
  obtain ⟨p, c, hbuild, hm, hedges, hc, hsettings, hdropped⟩ := hcut
  refine ⟨p, c, hbuild, hm, fun e he => ?_, hc, hsettings, hdropped, ?_⟩
  · exact absurd (hedges ▸ he) List.not_mem_nil
  · rintro rfl
    simp [hdropped] at hsettings

end Dataflow
