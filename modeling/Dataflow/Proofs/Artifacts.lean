import Dataflow.Artifact
import Dataflow.Proofs.Bytes
import Dataflow.Proofs.KeyMap

/-!
# Artifacts hold what was set last

A draft may be set any number of times in any order. What it holds in the end is what was set last
(`Draft.after_spec`), and only that is checked: the artifact is built if the last value of every
property fits the schema, and otherwise the diagnostic is of the least property that does not
(`Draft.build_eq_error_iff`).

* `Setting`, `Draft.after`: what is set, in turn.
* `last`: what was set last.
* `Misfit`: why a value does not fit a schema.
-/

namespace Dataflow.Artifact

open Text (bytes)

/-! ## What was set last -/

/-- Something that is set in a draft. -/
inductive Setting
  | uri (location : String)
  | property (key : String) (value : Value)
  | custom (key : String) (value : Value)

namespace Setting

/-- The location a call sets, if it sets one. -/
def uri? : Setting → Option String
  | .uri location => some location
  | _ => none

/-- The value that is set for a property. -/
def property? (key : String) : Setting → Option Value
  | .property k value => if key = k then some value else none
  | _ => none

/-- The value that is set for a custom property. -/
def custom? (key : String) : Setting → Option Value
  | .custom k value => if key = k then some value else none
  | _ => none

end Setting

/-- One call on the draft. -/
def Draft.set (d : Draft) : Setting → Draft
  | .uri location => d.setUri location
  | .property key value => d.setProperty key value
  | .custom key value => d.setCustom key value

/-- A draft after some settings in turn. -/
def Draft.after (d : Draft) (settings : List Setting) : Draft :=
  settings.foldl Draft.set d

/-- The last of the values that some of the settings set. -/
def last {β : Type} (pick : Setting → Option β) (settings : List Setting) : Option β :=
  (settings.filterMap pick).getLast?

theorem last_cons {β : Type} (pick : Setting → Option β) (s : Setting) (settings : List Setting) :
    last pick (s :: settings) = (last pick settings).or (pick s) := by
  rw [last, last, List.filterMap_cons]
  cases pick s with
  | none => rw [Option.or_none]
  | some b =>
    rw [List.getLast?_cons]
    cases (settings.filterMap pick).getLast? <;> rfl

namespace Draft

/-- If each setting replaces what is seen of a draft, the last one is seen in the end. -/
theorem after_last {β : Type} (see : Draft → Option β) {pick : Setting → Option β}
    (hset : ∀ d s, see (d.set s) = (pick s).or (see d)) (settings : List Setting) (d : Draft) :
    see (d.after settings) = (last pick settings).or (see d) := by
  induction settings generalizing d with
  | nil => rfl
  | cons s settings ih =>
    show see ((d.set s).after settings) = _
    rw [ih, hset, last_cons, Option.or_assoc]

theorem uri_set (d : Draft) (s : Setting) : (d.set s).uri = s.uri?.or d.uri := by
  cases s <;> rfl

theorem get?_properties_set (key : String) (d : Draft) (s : Setting) :
    (d.set s).properties.get? key = (s.property? key).or (d.properties.get? key) := by
  cases s with
  | uri location => rfl
  | custom k value => rfl
  | property k value =>
    rw [set, setProperty, KeyMap.get?_insert, Setting.property?]
    split <;> rfl

theorem get?_custom_set (key : String) (d : Draft) (s : Setting) :
    (d.set s).custom.get? key = (s.custom? key).or (d.custom.get? key) := by
  cases s with
  | uri location => rfl
  | property k value => rfl
  | custom k value =>
    rw [set, setCustom, KeyMap.get?_insert, Setting.custom?]
    split <;> rfl

theorem type_after (d : Draft) (settings : List Setting) : (d.after settings).type = d.type := by
  induction settings generalizing d with
  | nil => rfl
  | cons s settings ih =>
    show ((d.set s).after settings).type = _
    rw [ih]
    cases s <;> rfl

/-- A draft holds what was set last. -/
theorem after_spec (t : ArtifactType) (settings : List Setting) :
    let d := (ofType t).after settings
    d.type = t ∧ d.uri = last Setting.uri? settings ∧
      (∀ key, d.properties.get? key = last (Setting.property? key) settings) ∧
      ∀ key, d.custom.get? key = last (Setting.custom? key) settings := by
  intro d
  refine ⟨type_after _ _, ?_, fun key => ?_, fun key => ?_⟩
  · exact (after_last uri uri_set settings (ofType t)).trans Option.or_none
  · exact (after_last (·.properties.get? key) (get?_properties_set key) settings _).trans
      Option.or_none
  · exact (after_last (·.custom.get? key) (get?_custom_set key) settings _).trans Option.or_none

/-! ## What fits -/

/-- Why a value does not fit what a schema has for its key. -/
inductive Misfit (schema : Schema) (key : String) (value : Value) : SchemaMismatch → Prop
  | undeclared : schema.get? key = none → Misfit schema key value .undeclared
  | wrongKind {expected : Kind} : schema.get? key = some expected → expected ≠ value.kind →
      Misfit schema key value (.wrongKind expected value.kind)

theorem mismatch?_eq_some_iff {schema : Schema} {key : String} {value : Value}
    {reason : SchemaMismatch} :
    mismatch? schema key value = some reason ↔ Misfit schema key value reason := by
  unfold mismatch?
  constructor
  · intro h
    split at h
    · rename_i hnone
      cases h
      exact .undeclared hnone
    · rename_i expected hsome
      split at h
      · cases h
      · rename_i hne
        cases h
        exact .wrongKind hsome hne
  · rintro (hnone | ⟨hsome, hne⟩)
    · rw [hnone]
    · rw [hsome]
      exact if_neg hne

theorem mismatch?_eq_none_iff {schema : Schema} {key : String} {value : Value} :
    mismatch? schema key value = none ↔ schema.get? key = some value.kind := by
  unfold mismatch?
  split
  · rename_i hnone
    simp [hnone]
  · rename_i expected hsome
    simp [hsome]

/-! ## Building -/

/-- The diagnostic of the first property that does not fit, if there is one. -/
def misfit? (d : Draft) : Option Diagnostic :=
  d.properties.entries.findSome? fun p =>
    (mismatch? d.type.schema p.1 p.2).map (.schemaMismatch d.type.name p.1)

theorem build_eq (d : Draft) :
    d.build =
      match d.misfit? with
      | some problem => .error problem
      | none => .ok ⟨d.type, d.uri, d.properties, d.custom⟩ :=
  rfl

theorem misfit?_eq_none_iff {d : Draft} :
    d.misfit? = none ↔ ∀ key value, d.properties.get? key = some value →
      d.type.schema.get? key = some value.kind := by
  rw [misfit?, KeyMap.findSome?_entries_eq_none_iff]
  simp only [Option.map_eq_none_iff, mismatch?_eq_none_iff]

/-- The first property that does not fit is the least one. -/
theorem misfit?_eq_some_iff {d : Draft} {problem : Diagnostic} :
    d.misfit? = some problem ↔ ∃ key value reason, d.properties.get? key = some value ∧
      Misfit d.type.schema key value reason ∧ problem = .schemaMismatch d.type.name key reason ∧
      ∀ k v why, d.properties.get? k = some v → Misfit d.type.schema k v why →
        k = key ∨ bytes key < bytes k := by
  rw [misfit?, KeyMap.findSome?_entries_eq_some_iff]
  simp only [Option.map_eq_some_iff, mismatch?_eq_some_iff, ← Text.lt_iff_bytes_lt]
  constructor
  · rintro ⟨key, value, hkey, ⟨reason, hreason, rfl⟩, hleast⟩
    exact ⟨key, value, reason, hkey, hreason, rfl, fun k v why hk hwhy =>
      hleast k v _ hk ⟨why, hwhy, rfl⟩⟩
  · rintro ⟨key, value, reason, hkey, hreason, rfl, hleast⟩
    refine ⟨key, value, hkey, ⟨reason, hreason, rfl⟩, ?_⟩
    rintro k v _ hk ⟨why, hwhy, rfl⟩
    exact hleast k v why hk hwhy

theorem build_eq_ok_iff {d : Draft} {a : Artifact} :
    d.build = .ok a ↔ d.misfit? = none ∧ a = ⟨d.type, d.uri, d.properties, d.custom⟩ := by
  rw [build_eq]
  cases d.misfit? with
  | some problem => simp
  | none => simp [eq_comm]

theorem build_eq_error_iff {d : Draft} {problem : Diagnostic} :
    d.build = .error problem ↔ d.misfit? = some problem := by
  rw [build_eq]
  cases d.misfit? <;> simp

/-- What is built and why not are a matter of the type and the properties. -/
theorem build_congr {d d' : Draft} (ht : d.type = d'.type) (hp : d.properties = d'.properties) :
    d.build.map (fun a => (a.type, a.properties)) =
      d'.build.map fun a => (a.type, a.properties) := by
  rw [build_eq, build_eq, misfit?, misfit?, ht, hp]
  split <;> rfl

end Draft

/-- **An artifact holds what was set last, if it fits.** Whatever is set in whatever order, an
artifact is built exactly if the schema of its type has the kind of the last value of every
property, and it holds the last location and the last values. Otherwise the diagnostic is of the
least property, by its bytes, whose last value does not fit. Neither the location nor a custom
property has a part in this, not even one with the name of a property. -/
theorem artifact_of_settings (t : ArtifactType) (settings : List Setting) :
    let build := ((Draft.ofType t).after settings).build
    let value key := last (Setting.property? key) settings
    ((∃ a, build = .ok a) ↔ ∀ key v, value key = some v → t.schema.get? key = some v.kind) ∧
      (∀ a, build = .ok a → a.type = t ∧ a.uri = last Setting.uri? settings ∧
        (∀ key, a.properties.get? key = value key) ∧
        ∀ key, a.custom.get? key = last (Setting.custom? key) settings) ∧
      (∀ problem, build = .error problem ↔ ∃ key v reason, value key = some v ∧
        Draft.Misfit t.schema key v reason ∧ problem = .schemaMismatch t.name key reason ∧
        ∀ k w why, value k = some w → Draft.Misfit t.schema k w why →
          k = key ∨ bytes key < bytes k) ∧
      ∀ others, (∀ key, last (Setting.property? key) others = value key) →
        ((Draft.ofType t).after others).build.map (fun a => (a.type, a.properties)) =
          build.map fun a => (a.type, a.properties) := by
  intro build value
  obtain ⟨ht, huri, hproperties, hcustom⟩ := Draft.after_spec t settings
  have hmisfits := Draft.misfit?_eq_none_iff (d := (Draft.ofType t).after settings)
  rw [ht] at hmisfits
  simp only [hproperties] at hmisfits
  refine ⟨⟨?_, fun h => ⟨_, Draft.build_eq_ok_iff.2 ⟨hmisfits.2 h, rfl⟩⟩⟩, fun a ha => ?_,
    fun problem => ?_, fun others hothers => ?_⟩
  · rintro ⟨a, ha⟩
    exact hmisfits.1 (Draft.build_eq_ok_iff.1 ha).1
  · obtain ⟨-, rfl⟩ := Draft.build_eq_ok_iff.1 ha
    exact ⟨ht, huri, hproperties, hcustom⟩
  · rw [Draft.build_eq_error_iff, Draft.misfit?_eq_some_iff, ht]
    simp only [hproperties]
    rfl
  · obtain ⟨ht', -, hproperties', -⟩ := Draft.after_spec t others
    refine Draft.build_congr (ht'.trans ht.symm) (KeyMap.ext_get? fun key => ?_)
    rw [hproperties', hproperties, hothers]

/-- A value of the wrong kind may be replaced, and a custom property may have any kind. Of two
properties that do not fit, the one that was set later is the least. -/
theorem artifact_of_settings_overwritten :
    let t : ArtifactType := ⟨"Examples", .ofList [("span", .int), ("split", .string)]⟩
    (∃ a, ((Draft.ofType t).after [.property "span" (.string "10"), .custom "split" (.int 1),
      .property "span" (.int 10)]).build = .ok a) ∧
    ((Draft.ofType t).after [.property "version" (.int 1), .property "split" (.string "eval"),
      .property "split" (.int 0)]).build =
        .error (.schemaMismatch "Examples" "split" (.wrongKind .string .int)) := by
  intro t
  obtain ⟨hbuilt, -, -, -⟩ := artifact_of_settings t [.property "span" (.string "10"),
    .custom "split" (.int 1), .property "span" (.int 10)]
  obtain ⟨-, -, hrefused, -⟩ := artifact_of_settings t [.property "version" (.int 1),
    .property "split" (.string "eval"), .property "split" (.int 0)]
  refine ⟨hbuilt.2 fun key v h => ?_, (hrefused _).2 ⟨"split", .int 0, _, rfl,
    .wrongKind rfl (by decide), rfl, fun k w why hk _ => ?_⟩⟩
  · by_cases hkey : key = "span"
    · subst hkey
      cases h
      rfl
    · simp [last, Setting.property?, hkey] at h
  · by_cases hsplit : k = "split"
    · exact .inl hsplit
    · by_cases hversion : k = "version"
      · subst hversion
        exact .inr (by decide +kernel)
      · simp [last, Setting.property?, hsplit, hversion] at hk

end Dataflow.Artifact
