import Dataflow.Proofs.History

/-!
# Batches of types

A batch is checked type by type against the registry and against what is pending, and is written
once all of it has been checked. `Registry.registerEach` registers types one by one and writes as it
goes. The registry with the pending types written to it (`Registry.commit`) is always the one that
registering one by one has come to, so both stop at the same type, if at all
(`Supplement.pendingTypes_registerEach`).

What a batch leaves depends on its members alone (`Registry.registerAll_of_mem_iff`), and pending
types may be written in any order (`Registry.foldl_add_perm`).
-/

namespace Dataflow

/-! ## One by one -/

namespace Registry

/-- Registers types one by one, up to the first one that is refused; those before it are registered
by then. -/
def registerEach (r : Registry) : List ArtifactType → Except Diagnostic Unit × Registry
  | [] => (.ok (), r)
  | t :: ts =>
    match r.register t with
    | (.ok _, r') => r'.registerEach ts
    | (.error problem, r') => (.error problem, r')

variable {r : Registry} {ts : List ArtifactType}

theorem eq_typeConflict_of_register {t : ArtifactType} {problem : Diagnostic}
    (h : (r.register t).1 = .error problem) : problem = .typeConflict t.name := by
  unfold register at h
  cases hk : r.get? t.name with
  | none => simp [hk] at h
  | some known =>
    by_cases hs : known.schema = t.schema
    · simp [hk, hs] at h
    · simpa [hk, hs] using h.symm

theorem registerEach_of_ok {t bound : ArtifactType} (h : (r.register t).1 = .ok bound) :
    r.registerEach (t :: ts) = (r.register t).2.registerEach ts := by
  rw [registerEach, ← Prod.eta (r.register t), h]

theorem registerEach_of_error {t : ArtifactType} {problem : Diagnostic}
    (h : (r.register t).1 = .error problem) : r.registerEach (t :: ts) = (.error problem, r) := by
  rw [registerEach, ← Prod.eta (r.register t), h, register_snd_of_error h]

/-- Registering one by one stops at a type that is refused once the types before it are
registered, and leaves these registered. -/
theorem registerEach_eq_error {problem : Diagnostic}
    (h : (r.registerEach ts).1 = .error problem) :
    ∃ before t after, ts = before ++ t :: after ∧
      r.registerEach before = (.ok (), (r.registerEach ts).2) ∧
      ((r.registerEach ts).2.register t).1 = .error problem := by
  induction ts generalizing r with
  | nil => cases h
  | cons t ts ih =>
    cases ht : (r.register t).1 with
    | error refused =>
      rw [registerEach_of_error ht] at h ⊢
      cases h
      exact ⟨[], t, ts, rfl, rfl, ht⟩
    | ok bound =>
      rw [registerEach_of_ok ht] at h ⊢
      obtain ⟨before, u, after, rfl, hbefore, hu⟩ := ih h
      refine ⟨t :: before, u, after, rfl, ?_, hu⟩
      rw [registerEach_of_ok ht, hbefore]

end Registry

/-! ## All at once -/

section
variable {r : Registry} {ts : List ArtifactType} {m : KeyMap ArtifactType}

theorem Registry.get?_add (r : Registry) (t : ArtifactType) (name : String) :
    (r.add t).get? name = if name = t.name then some t else r.get? name :=
  KeyMap.get?_insert r.types t.name t name

/-- It makes no difference whether a new type is pending with the others or added after them. -/
theorem Supplement.commit_insert (h : Supplement r ts m) {t : ArtifactType}
    (hb : r.binding ts t.name = none) : r.commit (m.insert t.name t) = (r.commit m).add t := by
  refine Registry.ext_get? fun name => ?_
  rw [(h.insert hb).get?_commit, Registry.get?_add, h.get?_commit, Registry.binding_append,
    List.find?_singleton]
  by_cases hn : name = t.name
  · subst hn
    simp [hb]
  · simp [hn, Ne.symm hn]

/-- **Checking a batch keeps in step with registering one by one**: both are stopped by the same
type, and what is pending in the end makes the same registry. -/
theorem Supplement.pendingTypes_registerEach (h : Supplement r ts m) (us : List ArtifactType) :
    (r.pendingTypes m us).map (fun _ => ()) = ((r.commit m).registerEach us).1 ∧
      ∀ m', r.pendingTypes m us = .ok m' → r.commit m' = ((r.commit m).registerEach us).2 := by
  induction us generalizing ts m with
  | nil => exact ⟨rfl, fun m' hm' => by cases hm'; rfl⟩
  | cons t us ih =>
    -- both find what the name of `t` stands for so far
    rw [Registry.pendingTypes, h.known', Registry.registerEach, Registry.register, h.get?_commit]
    cases hb : r.binding ts t.name with
    | none =>
      have hlater := ih (h.insert hb)
      rwa [h.commit_insert hb] at hlater
    | some known =>
      by_cases hs : known.schema = t.schema
      · simpa [hs] using ih (h.keep hb)
      · simp [hs, Except.map]

end

namespace Registry

variable {r r' : Registry} {ts us : List ArtifactType}

/-- A batch is refused like registering one by one, and leaves the same registry otherwise. -/
theorem registerAll_registerEach (r : Registry) (ts : List ArtifactType) :
    (r.registerAll ts).1 = (r.registerEach ts).1 ∧
      ((r.registerAll ts).1 = .ok () → (r.registerAll ts).2 = (r.registerEach ts).2) := by
  obtain ⟨hsame, hcommit⟩ := (Supplement.empty r).pendingTypes_registerEach ts
  have hempty : r.commit .empty = r := rfl
  rw [hempty] at hsame hcommit
  unfold registerAll
  cases hp : r.pendingTypes .empty ts with
  | error problem =>
    rw [hp] at hsame
    exact ⟨hsame, fun h => by simp at h⟩
  | ok m =>
    rw [hp] at hsame
    exact ⟨hsame, fun _ => hcommit m hp⟩

theorem supplement_of_pendingTypes {m m' : KeyMap ArtifactType} (h : Supplement r ts m)
    (hp : r.pendingTypes m us = .ok m') : Supplement r (ts ++ us) m' := by
  obtain ⟨m₁, hm₁, hs⟩ := pendingTypes_of_agree h (agree_of_pendingTypes h hp)
  rw [hp] at hm₁
  cases hm₁
  exact hs

/-! ## Order and repetitions -/

/-- **A batch with the same members** leaves the same registry. -/
theorem registerAll_of_mem_iff (h : (r.registerAll ts).1 = .ok ()) (hm : ∀ t, t ∈ us ↔ t ∈ ts) :
    r.registerAll us = r.registerAll ts := by
  have hagree := agree_of_registerAll h
  obtain ⟨r₁, hr₁, hget⟩ := registerAll_of_agree ((agree_congr hm).2 hagree)
  have hsame : r₁ = (r.registerAll ts).2 := ext_get? fun name => by
    rw [hget, binding_congr hagree hm, get?_of_registerAll h]
  rw [hr₁, hsame, ← h]

theorem add_add_of_ne {t u : ArtifactType} (h : t.name ≠ u.name) (r : Registry) :
    (r.add t).add u = (r.add u).add t := by
  refine ext_get? fun name => ?_
  simp only [get?_add]
  by_cases ht : name = t.name
  · subst ht
    simp [h]
  · simp [ht]

/-- Pending types may be written in any order. -/
theorem foldl_add_perm {m : KeyMap ArtifactType} (hkeys : ∀ e ∈ m.entries, e.1 = e.2.name)
    {order : List (String × ArtifactType)} (h : order.Perm m.entries) :
    order.foldl (fun r e => r.add e.2) r = r.commit m := by
  refine h.foldl_eq' (fun a ha b hb r => ?_) r
  rw [h.mem_iff] at ha hb
  by_cases hab : a = b
  · rw [hab]
  · have hname : a.2.name ≠ b.2.name := by
      rw [← hkeys a ha, ← hkeys b hb]
      exact fun hkey => hab (List.inj_on_of_nodup_map (KeyMap.nodup_keys m) ha hb hkey)
    exact add_add_of_ne hname r

end Registry

/-- **A batch is a transaction over its types.** It is accepted exactly if they can be registered
one by one, and then leaves the same registry. Otherwise it is refused like the first type that is
refused then; and while the types before that one stay registered if they are registered one by one,
the batch leaves the registry as it was. What it leaves depends neither on the order of its types
nor on repetitions, nor on the order in which the new ones are written. -/
theorem batch_is_transaction (r : Registry) (ts : List ArtifactType) :
    (r.registerAll ts).1 = (r.registerEach ts).1 ∧
      ((r.registerAll ts).1 = .ok () → (r.registerAll ts).2 = (r.registerEach ts).2) ∧
      (∀ problem, (r.registerAll ts).1 = .error problem →
        (∃ before t after, ts = before ++ t :: after ∧
          r.registerEach before = (.ok (), (r.registerEach ts).2) ∧
          ((r.registerEach ts).2.register t).1 = .error problem ∧
          problem = .typeConflict t.name) ∧
        (r.registerAll ts).2 = r) ∧
      (∀ us, (∀ t, t ∈ us ↔ t ∈ ts) → (r.registerAll ts).1 = .ok () →
        r.registerAll us = r.registerAll ts) ∧
      ∀ m (order : List (String × ArtifactType)), r.pendingTypes .empty ts = .ok m →
        order.Perm m.entries →
        r.registerAll ts = (.ok (), order.foldl (fun r e => r.add e.2) r) := by
  obtain ⟨hsame, hleft⟩ := Registry.registerAll_registerEach r ts
  refine ⟨hsame, hleft, fun problem h => ⟨?_, Registry.registerAll_snd_of_error h⟩,
    fun us hm h => Registry.registerAll_of_mem_iff h hm, fun m order hm horder => ?_⟩
  · obtain ⟨before, t, after, hts, hbefore, ht⟩ :=
      Registry.registerEach_eq_error (hsame.symm.trans h)
    exact ⟨before, t, after, hts, hbefore, ht, Registry.eq_typeConflict_of_register ht⟩
  · have hpending := Registry.supplement_of_pendingTypes (.empty r) hm
    rw [Registry.registerAll, hm, Registry.foldl_add_perm hpending.keys_eq horder]

/-- Of two types the second one conflicts with a registered one, and the first one stays registered
only if they are registered one by one. Without the conflict both can be registered, also in another
order and one of them twice. -/
theorem batch_is_transaction_schema :
    let r : Registry := Registry.empty.add ⟨"Schema", .empty⟩
    let examples : ArtifactType := ⟨"Examples", .ofList [("span", .int)]⟩
    let other : ArtifactType := ⟨"Schema", .ofList [("version", .int)]⟩
    r.registerAll [examples, other] = (.error (.typeConflict "Schema"), r) ∧
      r.registerEach [examples, other] = (.error (.typeConflict "Schema"), r.add examples) ∧
      r.registerAll [⟨"Schema", .empty⟩, examples, examples] = (.ok (), r.add examples) := by
  intro r examples other
  obtain ⟨hsame, -, hrefused, -, -⟩ := batch_is_transaction r [examples, other]
  obtain ⟨-, -, -, hmembers, -⟩ := batch_is_transaction r [examples, ⟨"Schema", .empty⟩]
  have hconflict : (r.registerAll [examples, other]).1 = .error (.typeConflict "Schema") := rfl
  have hok : r.registerAll [examples, ⟨"Schema", .empty⟩] = (.ok (), r.add examples) := rfl
  have hwritten : r.register examples = (.ok examples, r.add examples) := rfl
  refine ⟨Prod.ext hconflict (hrefused _ hconflict).2, ?_, ?_⟩
  · rw [Registry.registerEach_of_ok (congrArg Prod.fst hwritten), hwritten]
    refine Registry.registerEach_of_error ?_
    have hget : (r.add examples).get? other.name = some ⟨"Schema", .empty⟩ :=
      Registry.get?_add r examples other.name
    rw [Registry.register, hget]
    rfl
  rw [← hok]
  refine hmembers _ (fun t => ?_) (congrArg Prod.fst hok)
  simp [or_comm]

end Dataflow
