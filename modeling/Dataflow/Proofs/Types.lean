import Dataflow.Build
import Dataflow.Proofs.KeyMap

/-!
# The type that a name stands for

`Registry.binding r ts name`: the type that `name` stands for once `ts` have been declared over `r`,
the registered one or else the first of `ts` with that name. A declaration conflicts
(`Registry.conflicts`) if it has another schema than the type that its name stands for.

`Supplement r ts m`: the map `m` holds what `r` lacks of `ts`. It is what staging keeps while the
outputs of a definition are bound (`Staging.bindAll_spec`), and a batch too
(`Registry.pendingTypes_of_agree`), so what has been staged can be registered
(`Supplement.registerAll`).
-/

namespace Dataflow

/-! ## Bindings -/

namespace Registry

/-- The type that a name stands for once some types have been declared. -/
def binding (r : Registry) (ts : List ArtifactType) (name : String) : Option ArtifactType :=
  (r.get? name).or (ts.find? fun t => t.name = name)

/-- Whether a type has another schema than the type that its name stands for. -/
def conflicts (r : Registry) (ts : List ArtifactType) (t : ArtifactType) : Bool :=
  (r.binding ts t.name).any fun known => known.schema ≠ t.schema

variable {r : Registry}

theorem contains_eq_false_iff {name : String} : r.contains name = false ↔ r.get? name = none := by
  unfold contains KeyMap.contains get?
  cases r.types.get? name <;> simp

theorem name_of_get? {name : String} {t : ArtifactType} (h : r.get? name = some t) :
    t.name = name :=
  (r.named (name, t) (KeyMap.get?_eq_some_iff.1 h)).symm

theorem name_of_binding {ts : List ArtifactType} {name : String} {t : ArtifactType}
    (h : r.binding ts name = some t) : t.name = name := by
  rcases Option.or_eq_some_iff.1 h with h | ⟨-, h⟩
  · exact name_of_get? h
  · simpa using List.find?_some h

theorem binding_append (ts us : List ArtifactType) (name : String) :
    r.binding (ts ++ us) name = (r.binding ts name).or (us.find? fun t => t.name = name) := by
  unfold binding
  rw [List.find?_append, Option.or_assoc]

theorem binding_of_mem (r : Registry) {ts : List ArtifactType} {t : ArtifactType} (h : t ∈ ts) :
    ∃ known, r.binding ts t.name = some known := by
  unfold binding
  cases r.get? t.name with
  | some known => exact ⟨known, rfl⟩
  | none =>
    rw [Option.none_or]
    exact Option.isSome_iff_exists.1 (List.find?_isSome.2 ⟨t, h, by simp⟩)

theorem conflicts_append {ts us : List ArtifactType} {t known : ArtifactType}
    (h : r.binding ts t.name = some known) : r.conflicts (ts ++ us) t = r.conflicts ts t := by
  unfold conflicts
  rw [binding_append, h, Option.some_or]

theorem conflicts_eq_false_iff {ts : List ArtifactType} {t : ArtifactType} :
    r.conflicts ts t = false ↔
      ∀ known, r.binding ts t.name = some known → known.schema = t.schema := by
  unfold conflicts
  cases r.binding ts t.name <;> simp

theorem binding_self {ts : List ArtifactType} {t : ArtifactType} (h : r.binding ts t.name = none) :
    r.binding (ts ++ [t]) t.name = some t := by
  rw [binding_append, h]
  simp

theorem conflicts_of_new {ts us : List ArtifactType} {t : ArtifactType}
    (h : r.binding ts t.name = none) : r.conflicts (ts ++ t :: us) t = false := by
  rw [List.append_cons, conflicts_append (binding_self h), conflicts_eq_false_iff]
  intro known hk
  rw [binding_self h] at hk
  cases hk
  rfl

theorem conflicts_of_known {ts us : List ArtifactType} {t known : ArtifactType}
    (h : r.binding ts t.name = some known) :
    r.conflicts (ts ++ t :: us) t = decide (known.schema ≠ t.schema) := by
  rw [conflicts_append h, conflicts, h, Option.any_some]

/-- No declaration conflicts exactly if all of them agree, with each other and with the registry. -/
theorem agree_iff {ts : List ArtifactType} :
    (∀ t ∈ ts, r.conflicts ts t = false) ↔
      (∀ t ∈ ts, ∀ u ∈ ts, t.name = u.name → t.schema = u.schema) ∧
        ∀ t ∈ ts, ∀ known, r.get? t.name = some known → known.schema = t.schema := by
  constructor
  · intro h
    refine ⟨fun t ht u hu he => ?_, fun t ht known hk => ?_⟩
    · obtain ⟨known, hk⟩ := r.binding_of_mem ht
      rw [← conflicts_eq_false_iff.1 (h t ht) known hk,
        conflicts_eq_false_iff.1 (h u hu) known (he ▸ hk)]
    · refine conflicts_eq_false_iff.1 (h t ht) known ?_
      unfold binding
      rw [hk, Option.some_or]
  · rintro ⟨heach, hreg⟩ t ht
    refine conflicts_eq_false_iff.2 fun known hk => ?_
    rcases Option.or_eq_some_iff.1 hk with hk | ⟨-, hk⟩
    · exact hreg t ht known hk
    · exact heach known (List.mem_of_find?_eq_some hk) t ht (by simpa using List.find?_some hk)

end Registry

/-! ## What the registry lacks -/

/-- `m` holds what `r` lacks of `ts`: of every name that is not registered the first type. -/
def Supplement (r : Registry) (ts : List ArtifactType) (m : KeyMap ArtifactType) : Prop :=
  ∀ name, m.get? name = if r.contains name = true then none else ts.find? fun t => t.name = name

namespace Supplement

variable {r : Registry} {ts : List ArtifactType} {m : KeyMap ArtifactType}

theorem empty (r : Registry) : Supplement r [] .empty := by
  intro name
  rw [KeyMap.get?_empty, List.find?_nil, ite_self]

theorem known (h : Supplement r ts m) (name : String) :
    (m.get? name).or (r.get? name) = r.binding ts name := by
  rw [h name]
  unfold Registry.binding
  cases hr : r.contains name with
  | true =>
    obtain ⟨t, ht⟩ := Option.isSome_iff_exists.1 hr
    unfold Registry.get?
    simp [ht]
  | false => simp [Registry.contains_eq_false_iff.1 hr]

/-- The map and the registry may be asked in either order, as no name is in both. -/
theorem known' (h : Supplement r ts m) (name : String) :
    (r.get? name).or (m.get? name) = r.binding ts name := by
  rw [← h.known name]
  cases hr : r.get? name with
  | none => rw [Option.none_or, Option.or_none]
  | some t =>
    have hm : m.get? name = none := by
      rw [h name, if_pos]
      unfold Registry.get? at hr
      simp [Registry.contains, KeyMap.contains, hr]
    rw [hm, Option.or_none, Option.none_or]

theorem keep (h : Supplement r ts m) {t known : ArtifactType}
    (hb : r.binding ts t.name = some known) : Supplement r (ts ++ [t]) m := by
  intro name
  rw [h name, List.find?_append, List.find?_singleton]
  cases hr : r.contains name with
  | true => rfl
  | false =>
    by_cases hn : t.name = name
    · subst hn
      unfold Registry.binding at hb
      rw [Registry.contains_eq_false_iff.1 hr, Option.none_or] at hb
      simp [hb]
    · simp [hn]

theorem insert (h : Supplement r ts m) {t : ArtifactType} (hb : r.binding ts t.name = none) :
    Supplement r (ts ++ [t]) (m.insert t.name t) := by
  obtain ⟨hr, hts⟩ := Option.or_eq_none_iff.1 hb
  intro name
  rw [KeyMap.get?_insert, h name, List.find?_append, List.find?_singleton]
  by_cases hn : t.name = name
  · subst hn
    rw [if_pos rfl, Registry.contains_eq_false_iff.2 hr, hts]
    simp
  · simp [hn, Ne.symm hn]

theorem get?_eq_some (h : Supplement r ts m) {name : String} {t : ArtifactType}
    (ht : m.get? name = some t) : r.get? name = none ∧ t.name = name := by
  rw [h name] at ht
  split at ht
  · cases ht
  · rename_i hr
    refine ⟨Registry.contains_eq_false_iff.1 (Bool.eq_false_iff.2 hr), ?_⟩
    simpa using List.find?_some ht

end Supplement

/-! ## Staging -/

namespace Staging

variable {r : Registry} {ts : List ArtifactType} {s : Staging}

/-- What is wrong with declared types, `all` being every declaration there is. -/
def conflictsOf (r : Registry) (all declared : List ArtifactType) : List Diagnostic :=
  (declared.filter (r.conflicts all)).map fun t => .typeConflict t.name

theorem conflictsOf_append (r : Registry) (all declared others : List ArtifactType) :
    conflictsOf r all (declared ++ others) =
      conflictsOf r all declared ++ conflictsOf r all others := by
  unfold conflictsOf
  rw [List.filter_append, List.map_append]

theorem conflictsOf_eq_nil_iff {r : Registry} {all declared : List ArtifactType} :
    conflictsOf r all declared = [] ↔ ∀ t ∈ declared, r.conflicts all t = false := by
  unfold conflictsOf
  rw [List.map_eq_nil_iff, List.filter_eq_nil_iff]
  simp

theorem knows_iff (h : Supplement r ts s.types) {name : String} :
    s.knows r name = true ↔ ∃ t, r.binding ts name = some t := by
  rw [← h.known name, ← Option.isSome_iff_exists, Option.isSome_or]
  rfl

/-- A declared type is bound to itself, and refused if it conflicts. -/
theorem bind_spec (h : Supplement r ts s.types) (t : ArtifactType) (us : List ArtifactType) :
    (s.bind r t).1 = t ∧ Supplement r (ts ++ [t]) (s.bind r t).2.1.types ∧
      (s.bind r t).2.2 = conflictsOf r (ts ++ t :: us) [t] := by
  unfold Staging.bind conflictsOf
  rw [h.known, List.filter_singleton]
  cases hb : r.binding ts t.name with
  | none =>
    rw [Registry.conflicts_of_new hb]
    exact ⟨rfl, h.insert hb, rfl⟩
  | some known =>
    have hname := Registry.name_of_binding hb
    rw [Registry.conflicts_of_known hb]
    dsimp only
    by_cases hs : known.schema = t.schema
    · have heq : known = t := by
        cases known
        cases t
        simp_all
      rw [if_pos hs]
      exact ⟨heq, h.keep hb, by simp [hs]⟩
    · rw [if_neg hs]
      exact ⟨rfl, h.keep hb, by simp [hs]⟩

/-- Binding outputs leaves them as they are, stages what the registry lacks and reports every
conflict, whatever is declared later. -/
theorem bindAll_spec : ∀ {ts : List ArtifactType} {s : Staging}, Supplement r ts s.types →
    ∀ (entries : List (String × ArtifactType)) (us : List ArtifactType),
      (s.bindAll r entries).1 = entries ∧
      Supplement r (ts ++ entries.map (·.2)) (s.bindAll r entries).2.1.types ∧
      (s.bindAll r entries).2.2 =
        conflictsOf r (ts ++ (entries.map (·.2) ++ us)) (entries.map (·.2))
  | ts, s, h, [], us => ⟨rfl, by rw [List.map_nil, List.append_nil]; exact h, rfl⟩
  | ts, s, h, (key, t) :: rest, us => by
    obtain ⟨h1, h2, h3⟩ := bind_spec h t (rest.map (·.2) ++ us)
    obtain ⟨k1, k2, k3⟩ := bindAll_spec h2 rest us
    rw [List.append_assoc] at k2 k3
    refine ⟨?_, k2, ?_⟩
    · show (key, (s.bind r t).1) :: ((s.bind r t).2.1.bindAll r rest).1 = _
      rw [h1, k1]
    · show (s.bind r t).2.2 ++ ((s.bind r t).2.1.bindAll r rest).2.2 = _
      rw [h3, k3]
      exact (conflictsOf_append r _ [t] (rest.map (·.2))).symm

end Staging

/-! ## Registering a batch -/

namespace Registry

variable {r : Registry}

/-- A batch in which nothing conflicts is found to be new as far as the registry lacks it. -/
theorem pendingTypes_of_agree : ∀ {ts us : List ArtifactType} {m : KeyMap ArtifactType},
    Supplement r ts m → (∀ t ∈ us, r.conflicts (ts ++ us) t = false) →
      ∃ m', r.pendingTypes m us = .ok m' ∧ Supplement r (ts ++ us) m'
  | ts, [], m, h, _ => ⟨m, rfl, by simpa using h⟩
  | ts, t :: us, m, h, hc => by
    obtain ⟨hct, hrest⟩ := List.forall_mem_cons.1 hc
    unfold pendingTypes
    rw [h.known']
    cases hb : r.binding ts t.name with
    | none =>
      rw [List.append_cons] at hrest ⊢
      exact pendingTypes_of_agree (h.insert hb) hrest
    | some known =>
      have hs : known.schema = t.schema := by simpa [conflicts_of_known hb] using hct
      rw [List.append_cons] at hrest ⊢
      show ∃ m', ite _ _ _ = _ ∧ _
      rw [if_pos hs]
      exact pendingTypes_of_agree (h.keep hb) hrest

theorem agree_of_pendingTypes : ∀ {ts us : List ArtifactType} {m m' : KeyMap ArtifactType},
    Supplement r ts m → r.pendingTypes m us = .ok m' → ∀ t ∈ us, r.conflicts (ts ++ us) t = false
  | ts, [], m, m', _, _ => fun _ ht => absurd ht List.not_mem_nil
  | ts, t :: us, m, m', h, hp => by
    unfold pendingTypes at hp
    rw [h.known'] at hp
    cases hb : r.binding ts t.name with
    | none =>
      rw [hb] at hp
      refine List.forall_mem_cons.2 ⟨conflicts_of_new hb, ?_⟩
      rw [List.append_cons]
      exact agree_of_pendingTypes (h.insert hb) hp
    | some known =>
      rw [hb] at hp
      by_cases hs : known.schema = t.schema
      · refine List.forall_mem_cons.2 ⟨by simp [conflicts_of_known hb, hs], ?_⟩
        rw [List.append_cons]
        simp only [hs, if_true] at hp
        exact agree_of_pendingTypes (h.keep hb) hp
      · simp [hs] at hp

end Registry

theorem Supplement.mem_values {r : Registry} {ts : List ArtifactType} {m : KeyMap ArtifactType}
    (h : Supplement r ts m) {t : ArtifactType} (ht : t ∈ m.entries.map (·.2)) :
    r.get? t.name = none ∧ m.get? t.name = some t := by
  obtain ⟨⟨name, t⟩, hm, rfl⟩ := List.mem_map.1 ht
  have hg := KeyMap.get?_eq_some_iff.2 hm
  obtain ⟨hr, rfl⟩ := h.get?_eq_some hg
  exact ⟨hr, hg⟩

/-- What has been staged agrees, as names are not repeated and none of them is registered. -/
theorem Supplement.agree {r : Registry} {ts : List ArtifactType} {m : KeyMap ArtifactType}
    (h : Supplement r ts m) :
    ∀ t ∈ m.entries.map (·.2), r.conflicts (m.entries.map (·.2)) t = false := by
  refine Registry.agree_iff.2 ⟨fun t ht u hu he => ?_, fun t ht known hk => ?_⟩
  · have := (h.mem_values ht).2
    rw [he, (h.mem_values hu).2] at this
    cases this
    rfl
  · rw [(h.mem_values ht).1] at hk
    cases hk

/-- **What has been staged can be registered**, in one batch and without a conflict. -/
theorem Supplement.registerAll {r : Registry} {ts : List ArtifactType} {m : KeyMap ArtifactType}
    (h : Supplement r ts m) : ∃ r', r.registerAll (m.entries.map (·.2)) = (.ok (), r') := by
  obtain ⟨m', hm', -⟩ := Registry.pendingTypes_of_agree (.empty r) h.agree
  unfold Registry.registerAll
  rw [hm']
  exact ⟨_, rfl⟩

end Dataflow
