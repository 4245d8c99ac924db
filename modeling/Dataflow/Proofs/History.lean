import Dataflow.Proofs.Registered

/-!
# Earlier uses of a registry

A registry is used by registering a type or a batch and by building (`Use`). One use leaves a
registry as it was, or adds what the registry lacks of the types that the use is about
(`Use.apply_cases`), so after any number of them (`Registry.after`) every entry is still there
(`Registry.get?_after_of_get?`) and every other entry is one of these types
(`Registry.get?_after`).

What a definition is built into does not depend on the registry, as long as nothing that is
registered conflicts with what it declares (`Definition.Fits`, `build_of_fits`).
-/

namespace Dataflow

/-! ## Uses -/

/-- A use of a registry. -/
inductive Use
  | register (t : ArtifactType)
  | registerAll (ts : List ArtifactType)
  | build (d : Definition)

namespace Registry

variable {r : Registry} {t : ArtifactType}

/-- A type that is refused has not been written. -/
theorem register_snd_of_error {problem : Diagnostic} (h : (r.register t).1 = .error problem) :
    (r.register t).2 = r := by
  unfold register at h ⊢
  cases hk : r.get? t.name with
  | none => simp [hk] at h
  | some known =>
    by_cases hs : known.schema = t.schema
    · simp [hs]
    · simp [hs]

end Registry

namespace Use

/-- The types that a use is about. -/
def types : Use → List ArtifactType
  | .register t => [t]
  | .registerAll ts => ts
  | .build d => declaredTypes d.nodes

/-- The registry that a use leaves. -/
def apply (r : Registry) : Use → Registry
  | .register t => (r.register t).2
  | .registerAll ts => (r.registerAll ts).2
  | .build d => (Dataflow.build r d).2

/-- **One use** changes nothing, or leaves what names stand for once its types are declared. -/
theorem apply_cases (r : Registry) (u : Use) :
    u.apply r = r ∨ ∀ name, (u.apply r).get? name = r.binding u.types name := by
  cases u with
  | register t =>
    cases ht : r.get? t.name with
    | some known =>
      by_cases hs : known.schema = t.schema <;> simp [apply, Registry.register, ht, hs]
    | none =>
      have hadd : (register t).apply r = r.add t := by simp [apply, Registry.register, ht]
      refine .inr fun name => ?_
      rw [hadd]
      show (r.types.insert t.name t).get? name = (r.get? name).or ([t].find? _)
      rw [KeyMap.get?_insert, List.find?_singleton]
      by_cases hn : name = t.name
      · subst hn
        simp [ht]
      · simp [hn, Ne.symm hn, Registry.get?]
  | registerAll ts =>
    cases h : (r.registerAll ts).1 with
    | ok => exact .inr (Registry.get?_of_registerAll h)
    | error problem => exact .inl (Registry.registerAll_snd_of_error h)
  | build d =>
    cases h : (Dataflow.build r d).1 with
    | ok p => exact .inr (get?_build h)
    | error report => exact .inl (build_snd_of_error h)

end Use

/-! ## Histories -/

namespace Registry

/-- The registry after some uses, one after the other. -/
def after (r : Registry) (us : List Use) : Registry :=
  us.foldl (fun r u => u.apply r) r

variable {r : Registry} {name : String} {t : ArtifactType}

theorem get?_apply_of_get? (u : Use) (h : r.get? name = some t) :
    (u.apply r).get? name = some t := by
  rcases u.apply_cases r with he | hb
  · rw [he, h]
  · rw [hb, binding, h, Option.some_or]

/-- Entries stay as they are. -/
theorem get?_after_of_get? {us : List Use} (h : r.get? name = some t) :
    (r.after us).get? name = some t := by
  induction us generalizing r with
  | nil => exact h
  | cons u us ih => exact ih (get?_apply_of_get? u h)

theorem get?_apply {u : Use} (h : (u.apply r).get? name = some t) :
    r.get? name = some t ∨ t ∈ u.types := by
  rcases u.apply_cases r with he | hb
  · exact .inl (he ▸ h)
  · rw [hb] at h
    rcases Option.or_eq_some_iff.1 h with h | ⟨-, h⟩
    · exact .inl h
    · exact .inr (List.mem_of_find?_eq_some h)

/-- **Every entry** was there before, or some use is about it. -/
theorem get?_after {us : List Use} (h : (r.after us).get? name = some t) :
    r.get? name = some t ∨ ∃ u ∈ us, t ∈ u.types := by
  induction us generalizing r with
  | nil => exact .inl h
  | cons u us ih =>
    rcases ih h with h | ⟨v, hv, ht⟩
    · rcases get?_apply h with h | ht
      · exact .inl h
      · exact .inr ⟨u, List.mem_cons_self, ht⟩
    · exact .inr ⟨v, List.mem_cons_of_mem _ hv, ht⟩

end Registry

/-! ## Building over different registries -/

/-- No type that a definition declares conflicts with the one that is registered. -/
def Definition.Fits (d : Definition) (r : Registry) : Prop :=
  ∀ t ∈ declaredTypes d.nodes, ∀ known, r.get? t.name = some known → known.schema = t.schema

section
variable {r r' : Registry} {d : Definition} {p : Pipeline}

theorem Definition.fits_empty (d : Definition) : d.Fits .empty := by
  intro t _ known hk
  cases hk

theorem Definition.Valid.of_fits (h : d.Valid r) (hf : d.Fits r') : d.Valid r' :=
  { h with registered := hf }

/-- **What is built over one registry is built over any other** that it fits. -/
theorem build_of_fits (h : (build r d).1 = .ok p) (hf : d.Fits r') : (build r' d).1 = .ok p := by
  obtain ⟨source, hs, rfl⟩ := eq_pipeline_of_build h
  exact build_of_valid ((valid_of_build h).of_fits hf) hs

theorem fits_of_build (h : (build r d).1 = .ok p) : d.Fits r :=
  (valid_of_build h).registered

theorem fits_build (h : (build r d).1 = .ok p) : d.Fits (build r d).2 := by
  intro t ht known hk
  rw [get?_build h] at hk
  exact Registry.conflicts_eq_false_iff.1 (agree_of_build h t ht) known hk

theorem build_again_snd (h : (build r d).1 = .ok p) :
    (build (build r d).2 d).2 = (build r d).2 := by
  refine Registry.ext_get? fun name => ?_
  rw [get?_build (build_of_fits h (fits_build h))]
  cases hb : (build r d).2.get? name with
  | some t => rw [Registry.binding, hb, Option.some_or]
  | none =>
    -- A declared type with this name would be registered by now.
    rw [Registry.binding, hb, Option.none_or]
    rw [get?_build h] at hb
    exact (Option.or_eq_none_iff.1 hb).2

end

/-- **A build is independent of the registry**: it succeeds over a registry exactly if it succeeds
over the empty one and fits, and its pipeline is always the same. So uses of the registry that do
not conflict with a definition never change what it is built into, and building it again gives the
same pipeline and leaves the registry as it is. -/
theorem build_independent_of_registry (r : Registry) (d : Definition) :
    ((∃ p, (build r d).1 = .ok p) ↔ (∃ p, (build .empty d).1 = .ok p) ∧ d.Fits r) ∧
      (∀ r' p p', (build r d).1 = .ok p → (build r' d).1 = .ok p' → p' = p) ∧
      (∀ us p, (build r d).1 = .ok p →
        (∀ u ∈ us, ∀ s ∈ u.types, ∀ t ∈ declaredTypes d.nodes,
          s.name = t.name → s.schema = t.schema) → (build (r.after us) d).1 = .ok p) ∧
      ∀ p, (build r d).1 = .ok p → build (build r d).2 d = (.ok p, (build r d).2) := by
  refine ⟨⟨?_, ?_⟩, fun r' p p' hp hp' => ?_, fun us p hp hus => ?_, fun p hp => ?_⟩
  · rintro ⟨p, hp⟩
    exact ⟨⟨p, build_of_fits hp d.fits_empty⟩, fits_of_build hp⟩
  · rintro ⟨⟨p, hp⟩, hf⟩
    exact ⟨p, build_of_fits hp hf⟩
  · have h := build_of_fits hp (fits_of_build hp')
    rw [hp'] at h
    cases h
    rfl
  · refine build_of_fits hp fun t ht known hk => ?_
    rcases Registry.get?_after hk with h | ⟨u, hu, hs⟩
    · exact fits_of_build hp t ht known h
    · exact hus u hu known hs t ht (Registry.name_of_get? hk)
  · exact Prod.ext (build_of_fits hp (fits_build hp)) (build_again_snd hp)

/-- A type with another name is registered and the same types are declared by a build, before the
definition is built. -/
theorem build_independent_of_registry_twoQueries :
    (build (Registry.empty.after [.register ⟨"U", .ofList [("x", .int)]⟩, .build twoQueries])
      twoQueries).1 = .ok twoQueriesBuilt := by
  obtain ⟨-, -, hafter, -⟩ := build_independent_of_registry .empty twoQueries
  refine hafter _ _ build_twoQueries fun u hu s hs t ht hname => ?_
  obtain rfl : t = ⟨"T", .empty⟩ := List.mem_singleton.1 ht
  rcases List.mem_cons.1 hu with rfl | hu
  · obtain rfl := List.mem_singleton.1 hs
    exact absurd hname (by decide)
  · obtain rfl := List.mem_singleton.1 hu
    obtain rfl : s = ⟨"T", .empty⟩ := List.mem_singleton.1 hs
    rfl

end Dataflow
