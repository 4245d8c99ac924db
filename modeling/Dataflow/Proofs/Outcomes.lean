import Dataflow.Proofs.History

/-!
# What uses of a registry give

`Use.outcome r u`: what a use gives over the registry `r`, a bound type or a pipeline, or why it is
refused. `Registry.outcomes r us`: what some uses give, one after the other.

The types that a use gives are registered once it is over (`Use.get?_of_outcome`), and entries
stay, so they are registered from then on (`Registry.get?_of_mem_outcomes`). Pipelines of one run
can therefore not disagree about a type (`registry_of_uses`).
-/

namespace Dataflow

/-- The types of the outputs of a pipeline, in order. -/
def Pipeline.types (p : Pipeline) : List ArtifactType :=
  p.nodes.flatMap fun n => n.outputs.entries.map (·.2)

theorem Definition.types_pipeline (d : Definition) (source : Query → NodeDeclaration) :
    (d.pipeline source).types = declaredTypes d.nodes := by
  show (d.nodes.map _).flatMap _ = _
  rw [List.flatMap_map]
  rfl

theorem Pipeline.types_of_build {r : Registry} {d : Definition} {p : Pipeline}
    (h : (build r d).1 = .ok p) : p.types = declaredTypes d.nodes := by
  obtain ⟨source, -, rfl⟩ := eq_pipeline_of_build h
  exact d.types_pipeline source

/-! ## Outcomes -/

/-- What a use gives that is not refused. -/
inductive Outcome
  | type (t : ArtifactType)
  | batch
  | pipeline (p : Pipeline)

namespace Outcome

/-- The types that an outcome is about. -/
def types : Outcome → List ArtifactType
  | .type t => [t]
  | .batch => []
  | .pipeline p => p.types

end Outcome

namespace Use

/-- What a use gives over a registry, or what is wrong with it. -/
def outcome (r : Registry) : Use → Except (List Diagnostic) Outcome
  | .register t =>
    match (r.register t).1 with
    | .ok bound => .ok (.type bound)
    | .error problem => .error [problem]
  | .registerAll ts =>
    match (r.registerAll ts).1 with
    | .ok () => .ok .batch
    | .error problem => .error [problem]
  | .build d =>
    match (Dataflow.build r d).1 with
    | .ok p => .ok (.pipeline p)
    | .error report => .error report.diagnostics

variable {r : Registry} {u : Use}

/-- A use that is refused leaves the registry as it was. -/
theorem apply_of_refused {problems : List Diagnostic} (h : u.outcome r = .error problems) :
    u.apply r = r := by
  cases u with
  | register t =>
    cases hr : (r.register t).1 with
    | ok bound => simp [outcome, hr] at h
    | error problem => exact Registry.register_snd_of_error hr
  | registerAll ts =>
    cases hr : (r.registerAll ts).1 with
    | ok => simp [outcome, hr] at h
    | error problem => exact Registry.registerAll_snd_of_error hr
  | build d =>
    cases hb : (Dataflow.build r d).1 with
    | ok p => simp [outcome, hb] at h
    | error report => exact build_snd_of_error hb

theorem get?_of_register {t bound : ArtifactType} (h : (r.register t).1 = .ok bound) :
    (r.register t).2.get? bound.name = some bound := by
  unfold Registry.register at h ⊢
  cases hk : r.get? t.name with
  | none =>
    obtain rfl : t = bound := by simpa [hk] using h
    show (r.types.insert t.name t).get? t.name = some t
    rw [KeyMap.get?_insert, if_pos rfl]
  | some known =>
    by_cases hs : known.schema = t.schema
    · obtain rfl : known = bound := by simpa [hk, hs] using h
      simpa [hs, Registry.name_of_get? hk] using hk
    · simp [hk, hs] at h

/-- What a use gives is registered once it is over. -/
theorem get?_of_outcome {o : Outcome} (h : u.outcome r = .ok o) :
    ∀ t ∈ o.types, (u.apply r).get? t.name = some t := by
  cases u with
  | register t =>
    cases hr : (r.register t).1 with
    | error problem => simp [outcome, hr] at h
    | ok bound =>
      have ho : o = .type bound := by simpa [outcome, hr] using h.symm
      subst ho
      intro t' ht'
      obtain rfl : t' = bound := List.mem_singleton.1 ht'
      exact get?_of_register hr
  | registerAll ts =>
    cases hr : (r.registerAll ts).1 with
    | error problem => simp [outcome, hr] at h
    | ok =>
      have ho : o = .batch := by simpa [outcome, hr] using h.symm
      subst ho
      exact fun t ht => absurd ht List.not_mem_nil
  | build d =>
    cases hb : (Dataflow.build r d).1 with
    | error report => simp [outcome, hb] at h
    | ok p =>
      have ho : o = .pipeline p := by simpa [outcome, hb] using h.symm
      subst ho
      intro t ht
      have hdecl : t ∈ declaredTypes d.nodes := Pipeline.types_of_build hb ▸ ht
      show (Dataflow.build r d).2.get? t.name = some t
      rw [get?_build hb, Registry.binding_of_agree (agree_of_build hb) hdecl]

end Use

/-! ## Runs -/

namespace Registry

/-- What some uses give, one after the other. -/
def outcomes (r : Registry) : List Use → List (Except (List Diagnostic) Outcome)
  | [] => []
  | u :: us => u.outcome r :: (u.apply r).outcomes us

theorem after_append (r : Registry) (us vs : List Use) :
    r.after (us ++ vs) = (r.after us).after vs :=
  List.foldl_append

/-- **What is given anywhere in a run** is registered when the run is over. -/
theorem get?_of_mem_outcomes {o : Outcome} : ∀ {us : List Use} {r : Registry},
    .ok o ∈ r.outcomes us → ∀ t ∈ o.types, (r.after us).get? t.name = some t
  | [], _, h, _, _ => absurd h List.not_mem_nil
  | u :: us, r, h, t, ht => by
    rcases List.mem_cons.1 h with h | h
    · have hnow : (u.apply r).get? t.name = some t := Use.get?_of_outcome h.symm t ht
      show ((u.apply r).after us).get? t.name = some t
      exact get?_after_of_get? hnow
    · exact get?_of_mem_outcomes h t ht

end Registry

/-- **A registry never contradicts what it has given.** After any uses of a registry that was empty,
every type is kept under its own name, a name that has a type has the same one from then on, and a
use that is refused changes nothing. The types of every pipeline that was built are registered then
and from then on, so no two of these pipelines have different types with one name. -/
theorem registry_of_uses (us vs : List Use) :
    (∀ entry ∈ (Registry.empty.after us).types.entries, entry.1 = entry.2.name) ∧
      (∀ name t, (Registry.empty.after us).get? name = some t →
        (Registry.empty.after (us ++ vs)).get? name = some t) ∧
      (∀ u problems, Use.outcome (Registry.empty.after us) u = .error problems →
        Registry.empty.after (us ++ [u]) = Registry.empty.after us) ∧
      (∀ p, .ok (.pipeline p) ∈ Registry.empty.outcomes us →
        ∀ t ∈ p.types, (Registry.empty.after (us ++ vs)).get? t.name = some t) ∧
      ∀ p q, .ok (.pipeline p) ∈ Registry.empty.outcomes us →
        .ok (.pipeline q) ∈ Registry.empty.outcomes us →
        ∀ t ∈ p.types, ∀ t' ∈ q.types, t.name = t'.name → t = t' := by
  have hlater : ∀ {name t}, (Registry.empty.after us).get? name = some t →
      (Registry.empty.after (us ++ vs)).get? name = some t := fun h => by
    rw [Registry.after_append]
    exact Registry.get?_after_of_get? h
  have hnow : ∀ p, .ok (.pipeline p) ∈ Registry.empty.outcomes us →
      ∀ t ∈ p.types, (Registry.empty.after us).get? t.name = some t :=
    fun p hp => Registry.get?_of_mem_outcomes hp
  refine ⟨(Registry.empty.after us).named, fun _ _ => hlater, fun u problems hu => ?_,
    fun p hp t ht => hlater (hnow p hp t ht), fun p q hp hq t ht t' ht' hname => ?_⟩
  · rw [Registry.after_append]
    exact Use.apply_of_refused hu
  · have hget := hnow q hq t' ht'
    rw [← hname, hnow p hp t ht] at hget
    exact Option.some.inj hget

/-- A pipeline is built between two uses that register types, of which the second one contradicts
it. -/
theorem registry_of_uses_twoQueries :
    let us : List Use := [.register ⟨"U", .empty⟩, .build twoQueries]
    let other : ArtifactType := ⟨"T", .ofList [("x", .int)]⟩
    Registry.empty.after (us ++ [.register other]) = Registry.empty.after us ∧
      ∀ vs, (Registry.empty.after (us ++ vs)).get? "T" = some ⟨"T", .empty⟩ ∧
        ∀ q, .ok (.pipeline q) ∈ Registry.empty.outcomes us → ∀ t ∈ q.types, t.name = "T" →
          t.schema = .empty := by
  intro us other
  have hp : .ok (.pipeline twoQueriesBuilt) ∈ Registry.empty.outcomes us :=
    .tail _ (List.mem_singleton_self _)
  have ht : ⟨"T", .empty⟩ ∈ twoQueriesBuilt.types := List.mem_singleton_self _
  obtain ⟨-, -, hrefused, -, -⟩ := registry_of_uses us []
  refine ⟨hrefused (.register other) [.typeConflict "T"] rfl, fun vs => ?_⟩
  obtain ⟨-, -, -, hregistered, hagree⟩ := registry_of_uses us vs
  refine ⟨hregistered _ hp _ ht, fun q hq t htq hname => ?_⟩
  rw [hagree q _ hq hp t htq _ ht hname]

end Dataflow
