import Dataflow.Proofs.Built
import Dataflow.Proofs.Violations

/-!
# What a build leaves registered

If no type of a batch conflicts, the batch is registered, and every name then stands for the type
that it stood for once the batch was declared (`Registry.registerAll_of_agree`). What a name stands
for then depends on the members of the batch alone (`Registry.binding_eq_some_iff`), so the order in
which the staged types of a build (`Definition.staged`) are handed over does not matter. A build
that succeeds leaves what its declarations stand for (`get?_build`), and one that fails leaves the
registry as it was (`build_snd_of_error`).
-/

namespace Dataflow

namespace Registry

variable {r : Registry} {ts us : List ArtifactType}

theorem ext_get? {r r' : Registry} (h : ∀ name, r.get? name = r'.get? name) : r = r' := by
  have ht : r.types = r'.types := KeyMap.ext_get? h
  cases r
  cases r'
  simpa using ht

/-! ## Declarations that agree -/

theorem agree_congr (h : ∀ t, t ∈ us ↔ t ∈ ts) :
    (∀ t ∈ us, r.conflicts us t = false) ↔ ∀ t ∈ ts, r.conflicts ts t = false := by
  rw [agree_iff, agree_iff]
  simp only [h]

/-- Where declarations agree, the name of each of them stands for this very type. -/
theorem binding_of_agree {t : ArtifactType} (h : ∀ t ∈ ts, r.conflicts ts t = false)
    (ht : t ∈ ts) : r.binding ts t.name = some t := by
  obtain ⟨known, hk⟩ := r.binding_of_mem ht
  have hname : known.name = t.name := name_of_binding hk
  have hschema : known.schema = t.schema := conflicts_eq_false_iff.1 (h t ht) known hk
  have heq : known = t := by
    cases known
    cases t
    simp_all
  rw [hk, heq]

/-- If declarations agree, a name stands for the registered type, or else for any declared one. -/
theorem binding_eq_some_iff (h : ∀ t ∈ ts, r.conflicts ts t = false) {name : String}
    {t : ArtifactType} :
    r.binding ts name = some t ↔
      r.get? name = some t ∨ r.get? name = none ∧ t ∈ ts ∧ t.name = name := by
  unfold binding
  rw [Option.or_eq_some_iff]
  refine or_congr_right (and_congr_right fun hnone => ?_)
  constructor
  · intro hf
    exact ⟨List.mem_of_find?_eq_some hf, by simpa using List.find?_some hf⟩
  · rintro ⟨ht, rfl⟩
    have hb := binding_of_agree h ht
    rwa [binding, hnone, Option.none_or] at hb

theorem binding_congr (h : ∀ t ∈ ts, r.conflicts ts t = false) (hm : ∀ t, t ∈ us ↔ t ∈ ts)
    (name : String) : r.binding us name = r.binding ts name := by
  refine Option.ext fun t => ?_
  rw [binding_eq_some_iff h, binding_eq_some_iff ((agree_congr hm).2 h), hm]

/-! ## Registering a batch -/

theorem types_foldl_add : ∀ {l : List (String × ArtifactType)} {r : Registry},
    (∀ e ∈ l, e.1 = e.2.name) →
      (l.foldl (fun r e => r.add e.2) r).types = l.foldl (fun m e => m.insert e.1 e.2) r.types
  | [], _, _ => rfl
  | e :: l, r, h => by
    obtain ⟨he, hl⟩ := List.forall_mem_cons.1 h
    rw [List.foldl_cons, List.foldl_cons, types_foldl_add hl, he]
    rfl

end Registry

theorem Supplement.keys_eq {r : Registry} {ts : List ArtifactType} {m : KeyMap ArtifactType}
    (h : Supplement r ts m) : ∀ e ∈ m.entries, e.1 = e.2.name := fun _ he =>
  (h.get?_eq_some (KeyMap.get?_eq_some_iff.2 he)).2.symm

/-- Once what the registry lacks is written, look-up sees what names stand for. -/
theorem Supplement.get?_commit {r : Registry} {ts : List ArtifactType} {m : KeyMap ArtifactType}
    (h : Supplement r ts m) (name : String) : (r.commit m).get? name = r.binding ts name := by
  unfold Registry.commit Registry.get?
  rw [Registry.types_foldl_add h.keys_eq, KeyMap.get?_foldl_insert (KeyMap.nodup_keys m)]
  exact h.known name

namespace Registry

variable {r : Registry} {ts us : List ArtifactType}

/-- **A batch in which nothing conflicts is registered**, and every name then stands for what it
stands for once the batch is declared. -/
theorem registerAll_of_agree (h : ∀ t ∈ ts, r.conflicts ts t = false) :
    ∃ r', r.registerAll ts = (.ok (), r') ∧ ∀ name, r'.get? name = r.binding ts name := by
  obtain ⟨m, hm, hs⟩ := pendingTypes_of_agree (.empty r) h
  refine ⟨r.commit m, ?_, hs.get?_commit⟩
  rw [registerAll, hm]

theorem agree_of_registerAll (h : (r.registerAll ts).1 = .ok ()) :
    ∀ t ∈ ts, r.conflicts ts t = false := by
  unfold registerAll at h
  cases hp : r.pendingTypes .empty ts with
  | error problem => simp [hp] at h
  | ok m => exact agree_of_pendingTypes (.empty r) hp

theorem get?_of_registerAll (h : (r.registerAll ts).1 = .ok ()) (name : String) :
    (r.registerAll ts).2.get? name = r.binding ts name := by
  obtain ⟨r', hr', hget⟩ := registerAll_of_agree (agree_of_registerAll h)
  rw [hr', hget]

/-- A batch that is refused has written nothing. -/
theorem registerAll_snd_of_error {problem : Diagnostic}
    (h : (r.registerAll ts).1 = .error problem) : (r.registerAll ts).2 = r := by
  unfold registerAll at h ⊢
  cases hp : r.pendingTypes .empty ts with
  | error problem => rfl
  | ok m => simp [hp] at h

end Registry

theorem find?_values {name : String} : ∀ {l : List (String × ArtifactType)},
    (∀ e ∈ l, e.1 = e.2.name) →
      (l.map (·.2)).find? (fun t => t.name = name) = KeyMap.lookup name l
  | [], _ => rfl
  | (k, t) :: l, h => by
    obtain ⟨hk, hl⟩ := List.forall_mem_cons.1 h
    obtain rfl : k = t.name := hk
    rw [List.map_cons, List.find?_cons, KeyMap.lookup, find?_values hl]
    by_cases ht : t.name = name <;> simp [ht]

/-- What the registry lacks of some declarations stands for the same types as all of them. -/
theorem Supplement.binding_values {r : Registry} {ts : List ArtifactType} {m : KeyMap ArtifactType}
    (h : Supplement r ts m) (name : String) :
    r.binding (m.entries.map (·.2)) name = r.binding ts name := by
  rw [← h.known' name]
  unfold Registry.binding
  rw [find?_values h.keys_eq]
  rfl

/-! ## The staged types of a build -/

/-- The types that a build stages, and registers if nothing is wrong with the definition. -/
def Definition.staged (d : Definition) (r : Registry) : List ArtifactType :=
  (bindNodes r d.contexts (Interner.empty.internAll d.contexts).2 .empty
    (acceptNodes d.nodes).1).staging.toList

section
variable {r : Registry} {d : Definition} {p : Pipeline}

theorem Definition.staged_eq : d.staged r = (d.accepted.binding r).staging.toList := by
  unfold Definition.staged
  rw [d.acceptNodes_eq]
  rfl

/-- Staged types can be registered in any order, and always leave what the declarations that
are accepted stand for. -/
theorem Definition.registerAll_of_perm {ts : List ArtifactType} (h : ts.Perm (d.staged r)) :
    ∃ r', r.registerAll ts = (.ok (), r') ∧
      ∀ name, r'.get? name = r.binding (declaredTypes d.accepted.nodes) name := by
  have hs : Supplement r _ _ := d.accepted.binding_staging r
  rw [Definition.staged_eq] at h
  obtain ⟨r', hr', hget⟩ := Registry.registerAll_of_agree
    ((Registry.agree_congr fun _ => h.mem_iff).2 hs.agree)
  refine ⟨r', hr', fun name => ?_⟩
  rw [hget, Registry.binding_congr hs.agree (fun _ => h.mem_iff), hs.binding_values]

theorem Definition.accepted_nodes (hids : (d.nodes.map (·.id)).Nodup) :
    d.accepted.nodes = d.nodes := by
  have hrep : (acceptNodesAfter [] d.nodes).2 = [] := acceptNodes_eq_nil_iff.2 hids
  have hfst : (acceptNodes d.nodes).1 = d.nodes := acceptNodesAfter_fst hrep
  rw [d.acceptNodes_eq] at hfst
  exact hfst

theorem build_of_violations (h : d.violations r ≠ []) :
    build r d = (.error ⟨d.id, d.violations r⟩, r) := by
  rw [build_eq, if_neg (by simpa using h)]

theorem violations_ne_nil {report : Report} (h : (build r d).1 = .error report) :
    d.violations r ≠ [] := by
  intro hnil
  obtain ⟨r', hr', -⟩ := Definition.registerAll_of_perm (List.Perm.refl (d.staged r))
  rw [Definition.staged_eq] at hr'
  rw [build_eq, hr'] at h
  simp [hnil] at h

theorem build_snd_of_error {report : Report} (h : (build r d).1 = .error report) :
    (build r d).2 = r := by
  rw [build_of_violations (violations_ne_nil h)]

/-- **A build that succeeds** leaves what its declarations stand for. -/
theorem get?_build (h : (build r d).1 = .ok p) (name : String) :
    (build r d).2.get? name = r.binding (declaredTypes d.nodes) name := by
  obtain ⟨r', hr', hget⟩ := Definition.registerAll_of_perm (List.Perm.refl (d.staged r))
  rw [Definition.staged_eq] at hr'
  rw [Definition.accepted_nodes (valid_of_build h).ids] at hget
  rw [build_eq, hr'] at h ⊢
  cases hv : d.violations r with
  | nil => exact hget name
  | cons v vs => simp [hv] at h

theorem agree_of_build (h : (build r d).1 = .ok p) :
    ∀ t ∈ declaredTypes d.nodes, r.conflicts (declaredTypes d.nodes) t = false :=
  Registry.agree_iff.2 ⟨(valid_of_build h).schemas, (valid_of_build h).registered⟩

end

/-- **A build leaves the registry as it was if it fails, and otherwise adds exactly the declared
types that were not registered.** The types that it stages can be registered in any order, without a
conflict and with the same result. -/
theorem registry_after_build (r : Registry) (d : Definition) :
    (∀ report, (build r d).1 = .error report → (build r d).2 = r) ∧
      (∀ p, (build r d).1 = .ok p → ∀ name t, (build r d).2.get? name = some t ↔
        r.get? name = some t ∨
          r.get? name = none ∧ t ∈ declaredTypes d.nodes ∧ t.name = name) ∧
      ∀ ts : List ArtifactType, ts.Perm (d.staged r) → ∃ r', r.registerAll ts = (.ok (), r') ∧
        ∀ p, (build r d).1 = .ok p → r' = (build r d).2 := by
  refine ⟨fun _ => build_snd_of_error, fun p hp name t => ?_, fun ts hts => ?_⟩
  · rw [get?_build hp, Registry.binding_eq_some_iff (agree_of_build hp)]
  · obtain ⟨r', hr', hget⟩ := Definition.registerAll_of_perm hts
    refine ⟨r', hr', fun p hp => Registry.ext_get? fun name => ?_⟩
    rw [hget, get?_build hp, Definition.accepted_nodes (valid_of_build hp).ids]

/-- The type that is declared is registered, and no other. -/
theorem registry_after_build_twoQueries :
    (build .empty twoQueries).2.get? "T" = some ⟨"T", .empty⟩ ∧
      (build .empty twoQueries).2.get? "U" = none := by
  obtain ⟨-, hok, -⟩ := registry_after_build .empty twoQueries
  have hget := hok _ build_twoQueries
  refine ⟨(hget _ _).2 (.inr ⟨rfl, List.mem_singleton_self _, rfl⟩), ?_⟩
  refine Option.eq_none_iff_forall_ne_some.2 fun t ht => ?_
  rcases (hget "U" t).1 ht with h | ⟨-, hmem, hname⟩
  · cases h
  · obtain rfl : t = ⟨"T", .empty⟩ := List.mem_singleton.1 hmem
    exact absurd hname (by decide)

end Dataflow
