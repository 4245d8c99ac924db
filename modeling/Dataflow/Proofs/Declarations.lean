import Dataflow.Proofs.Interner
import Dataflow.Proofs.Types
import Mathlib.Data.List.DropRight

/-!
# What is wrong with declarations

The passes of a build before it looks at queries, each with the condition under which it reports
nothing: parameters (`Parameter.problems_eq_nil_iff`), node ids (`acceptNodes_eq_nil_iff`) and
output types (`bindNodes_spec`, with `Registry.agree_iff`). Binding gives every node the shared
contexts and its own, each once, and leaves its outputs and inputs as declared
(`NodeDeclaration.bound`).
-/

namespace Dataflow

/-! ## Names that are not repeated -/

theorem nodup_unseen_cons_iff {α : Type} {name : α → String} {seen : List String} {a : α}
    {l : List α} :
    (((a :: l).map name).Nodup ∧ ∀ b ∈ a :: l, name b ∉ seen) ↔
      name a ∉ seen ∧ (l.map name).Nodup ∧ ∀ b ∈ l, name b ∉ name a :: seen := by
  rw [List.map_cons, List.nodup_cons, List.forall_mem_cons, List.mem_map]
  constructor
  · rintro ⟨⟨ha, hl⟩, hs, hseen⟩
    refine ⟨hs, hl, fun b hb hm => ?_⟩
    rcases List.mem_cons.1 hm with he | hm
    · exact ha ⟨b, hb, he⟩
    · exact hseen b hb hm
  · rintro ⟨hs, hl, hseen⟩
    refine ⟨⟨?_, hl⟩, hs, fun b hb hm => hseen b hb (List.mem_cons_of_mem _ hm)⟩
    rintro ⟨b, hb, he⟩
    exact hseen b hb (he ▸ List.mem_cons_self)

/-! ## Parameters -/

/-- The characters of a text without the white space at its two ends. -/
def Text.trimmed (text : String) : List Char :=
  (text.toList.dropWhile isBlank).rdropWhile isBlank

theorem Text.allBlank_iff {text : String} : allBlank text = true ↔ trimmed text = [] := by
  unfold allBlank trimmed
  rw [List.all_eq_true, List.rdropWhile_eq_nil_iff]
  constructor
  · intro h c hc
    exact h c ((List.dropWhile_sublist _).subset hc)
  · intro h
    -- What is left at the front would be blank, so nothing is left.
    have hnil : text.toList.dropWhile isBlank = [] := by
      cases hd : text.toList.dropWhile isBlank with
      | nil => rfl
      | cons c rest =>
        have hne : text.toList.dropWhile isBlank ≠ [] := hd ▸ List.cons_ne_nil c rest
        have hhead := List.head_dropWhile_not isBlank hne
        rw [h _ (List.head_mem hne)] at hhead
        cases hhead
    exact List.dropWhile_eq_nil_iff.1 hnil

namespace Parameter

/-- A parameter that is well formed by itself. -/
structure Sound (p : Parameter) : Prop where
  /-- The name is more than white space. -/
  named : Text.trimmed p.name ≠ []
  /-- The default is of the declared kind. -/
  default : ∀ v, p.default = some v → v.kind = p.kind

theorem problem?_eq_none_iff {p : Parameter} : p.problem? = none ↔ p.Sound := by
  unfold problem?
  by_cases hb : Text.allBlank p.name = true
  · rw [if_pos hb]
    exact iff_of_false (by simp) fun h => h.named (Text.allBlank_iff.1 hb)
  · rw [if_neg hb]
    have hn : Text.trimmed p.name ≠ [] := mt Text.allBlank_iff.2 hb
    cases hd : p.default with
    | none => exact iff_of_true rfl ⟨hn, fun v hv => by rw [hd] at hv; cases hv⟩
    | some value =>
      show ite _ _ _ = _ ↔ _
      by_cases hk : value.kind = p.kind
      · rw [if_pos hk]
        refine iff_of_true rfl ⟨hn, fun v hv => ?_⟩
        rw [hd] at hv
        cases hv
        exact hk
      · rw [if_neg hk]
        exact iff_of_false (by simp) fun h => hk (h.default value hd)

theorem problemsAfter_eq_nil_iff : ∀ {ps : List Parameter} {seen : List String},
    problemsAfter seen ps = [] ↔
      (∀ p ∈ ps, p.Sound) ∧ (ps.map (·.name)).Nodup ∧ ∀ p ∈ ps, p.name ∉ seen
  | [], _ => by simp [problemsAfter]
  | p :: ps, seen => by
    have hrep : (if seen.contains p.name = true then [p.repeated] else []) = [] ↔
        p.name ∉ seen := by simp
    unfold problemsAfter
    rw [List.append_eq_nil_iff, List.append_eq_nil_iff, problemsAfter_eq_nil_iff,
      Option.toList_eq_nil_iff, problem?_eq_none_iff, hrep, nodup_unseen_cons_iff,
      List.forall_mem_cons, and_assoc, and_assoc]
    exact and_congr_right fun _ => and_left_comm

/-- Nothing is wrong with parameters exactly if each is well formed and names differ. -/
theorem problems_eq_nil_iff {ps : List Parameter} :
    problems ps = [] ↔ (∀ p ∈ ps, p.Sound) ∧ (ps.map (·.name)).Nodup := by
  unfold problems
  rw [problemsAfter_eq_nil_iff]
  simp

end Parameter

/-! ## Node ids -/

theorem acceptNodesAfter_eq_nil_iff : ∀ {nodes : List NodeDeclaration} {seen : List String},
    (acceptNodesAfter seen nodes).2 = [] ↔
      (nodes.map (·.id)).Nodup ∧ ∀ n ∈ nodes, n.id ∉ seen
  | [], _ => by simp [acceptNodesAfter]
  | n :: nodes, seen => by
    rw [nodup_unseen_cons_iff]
    unfold acceptNodesAfter
    by_cases hn : n.id ∈ seen
    · rw [if_pos (List.contains_iff_mem.2 hn)]
      exact iff_of_false (List.cons_ne_nil _ _) fun h => h.1 hn
    · rw [if_neg (mt List.contains_iff_mem.1 hn)]
      exact acceptNodesAfter_eq_nil_iff.trans (and_iff_right hn).symm

theorem acceptNodesAfter_fst : ∀ {nodes : List NodeDeclaration} {seen : List String},
    (acceptNodesAfter seen nodes).2 = [] → (acceptNodesAfter seen nodes).1 = nodes
  | [], _, _ => rfl
  | n :: nodes, seen, h => by
    unfold acceptNodesAfter at h ⊢
    by_cases hn : seen.contains n.id = true
    · rw [if_pos hn] at h
      cases h
    · rw [if_neg hn] at h ⊢
      exact congrArg (n :: ·) (acceptNodesAfter_fst h)

/-- No node is refused exactly if ids differ. -/
theorem acceptNodes_eq_nil_iff {nodes : List NodeDeclaration} :
    (acceptNodes nodes).2 = [] ↔ (nodes.map (·.id)).Nodup := by
  unfold acceptNodes
  rw [acceptNodesAfter_eq_nil_iff]
  simp

/-! ## Nodes and their outputs -/

/-- The node that a declaration becomes under some shared contexts, where `all` are stored. -/
def NodeDeclaration.bound (all shared : List Context) (n : NodeDeclaration) : Node :=
  ⟨n.id, (fresh [] (shared ++ n.contexts)).map (·.storedIn all), n.outputs, n.inputs⟩

/-- What is stored behind its contexts leaves a node as it is. -/
theorem NodeDeclaration.bound_append {all shared : List Context} {n : NodeDeclaration}
    (h : ∀ c ∈ shared ++ n.contexts, c ∈ all) (later : List Context) :
    n.bound (all ++ later) shared = n.bound all shared := by
  unfold NodeDeclaration.bound
  congr 1
  refine List.map_congr_left fun c hc => ?_
  exact Context.storedIn_append (h c (mem_fresh.1 hc).1) later

/-- The types that the outputs of some nodes declare, in order. -/
def declaredTypes (ns : List NodeDeclaration) : List ArtifactType :=
  ns.flatMap fun n => n.outputs.entries.map (·.2)

/-- What binding the nodes `ns` leaves behind, after the types `ts` and before the types `us`. -/
structure Binding.Of (r : Registry) (shared : List Context) (i : Interner) (ts : List ArtifactType)
    (ns : List NodeDeclaration) (us : List ArtifactType) (b : Binding) : Prop where
  nodes : b.nodes = ns.map (·.bound b.interner.contexts shared)
  interner : b.interner.Sound
  contexts : b.interner.contexts = i.contexts ++ fresh i.contexts (ns.flatMap (·.contexts))
  staging : Supplement r (ts ++ declaredTypes ns) b.staging.types
  problems : b.problems = Staging.conflictsOf r (ts ++ (declaredTypes ns ++ us)) (declaredTypes ns)

theorem bindNodes_cons {r : Registry} {shared : List Context} {i : Interner} {s : Staging}
    {n : NodeDeclaration} {ns : List NodeDeclaration} {later : Binding}
    (h : bindNodes r shared (i.internAll (shared ++ n.contexts)).2
      (s.bindAll r n.outputs.entries).2.1 ns = later) :
    bindNodes r shared i s (n :: ns) =
      { later with
        nodes := ⟨n.id, (i.internAll (shared ++ n.contexts)).1,
          .ofList (s.bindAll r n.outputs.entries).1, n.inputs⟩ :: later.nodes
        problems := (s.bindAll r n.outputs.entries).2.2 ++ later.problems } := by
  subst h
  rfl

/-- **Binding nodes**: every declaration becomes its node, contexts are stored in the order of first
sight, what the registry lacks is staged, and every conflict of types is reported. -/
theorem bindNodes_spec {r : Registry} {shared : List Context} :
    ∀ {ts : List ArtifactType} {i : Interner} {s : Staging}, i.Sound →
      (∀ c ∈ shared, c ∈ i.contexts) → Supplement r ts s.types →
      ∀ (ns : List NodeDeclaration) (us : List ArtifactType),
        (bindNodes r shared i s ns).Of r shared i ts ns us
  | ts, i, s, hi, _, hs, [], us => by
    refine ⟨rfl, hi, ?_, ?_, rfl⟩
    · exact (List.append_nil _).symm
    · exact (List.append_nil ts).symm ▸ hs
  | ts, i, s, hi, hc, hs, n :: ns, us => by
    obtain ⟨hown, hi', hctx⟩ := hi.internAll (shared ++ n.contexts)
    obtain ⟨hout, hs', hprob⟩ := Staging.bindAll_spec hs n.outputs.entries (declaredTypes ns ++ us)
    have hc' : ∀ c ∈ shared, c ∈ (i.internAll (shared ++ n.contexts)).2.contexts := fun c h => by
      rw [hctx]
      exact List.mem_append_left _ (hc c h)
    have hlater := bindNodes_spec hi' hc' hs' ns us
    -- The shared contexts are stored already, so only the node's own ones can be new.
    have hnew : (i.internAll (shared ++ n.contexts)).2.contexts =
        i.contexts ++ fresh i.contexts n.contexts := by
      rw [hctx, fresh_append, fresh_eq_nil hc, List.nil_append]
      refine congrArg _ (fresh_congr fun c => ?_)
      rw [List.mem_append]
      exact ⟨fun h => h.elim id (hc c), .inl⟩
    have hstored : ∀ c ∈ shared ++ n.contexts,
        c ∈ (i.internAll (shared ++ n.contexts)).2.contexts := fun c h => by
      rw [hctx, List.mem_append, mem_fresh]
      by_cases hold : c ∈ i.contexts
      · exact .inl hold
      · exact .inr ⟨h, hold⟩
    rw [bindNodes_cons rfl, hown, hout, hprob, KeyMap.ofList_entries]
    refine ⟨?_, hlater.interner, ?_, ?_, ?_⟩
    · show n.bound _ shared :: _ = n.bound _ shared :: _
      rw [hlater.nodes, hlater.contexts, NodeDeclaration.bound_append hstored]
    · refine hlater.contexts.trans ?_
      rw [hnew, List.flatMap_cons, fresh_append, List.append_assoc]
      congr 2
      refine fresh_congr fun c => ?_
      rw [List.mem_append, List.mem_append, mem_fresh]
      by_cases h : c ∈ i.contexts <;> simp [h]
    · have := hlater.staging
      rwa [List.append_assoc] at this
    · refine (congrArg (_ ++ ·) hlater.problems).trans ?_
      unfold declaredTypes
      rw [List.flatMap_cons, Staging.conflictsOf_append, List.append_assoc, List.append_assoc]

end Dataflow
