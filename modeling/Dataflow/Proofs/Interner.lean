import Dataflow.Context.Interner
import Dataflow.Proofs.Closure

/-!
# What an interner keeps

`Interner.Sound i`: every instance of `i` is in its own slot, their contexts differ, and the index
has every one of them at its slot and nothing else. It holds of the interner that has seen nothing
and is kept by `Interner.intern` and `Interner.internAll`.

What is interned comes back as the stored instance (`Context.storedIn`). As instances stay in their
slots, that is the same one from then on (`Context.storedIn_append`).
-/

namespace Dataflow

/-! ## Stored contexts -/

/-- The instance of a context where these contexts are stored in order. -/
def Context.storedIn (c : Context) (cs : List Context) : Context.Instance :=
  ⟨cs.idxOf c, c⟩

theorem Context.storedIn_append {c : Context} {cs : List Context} (h : c ∈ cs)
    (later : List Context) : c.storedIn (cs ++ later) = c.storedIn cs := by
  unfold Context.storedIn
  rw [List.idxOf_append_of_mem h]

theorem Context.map_value_storedIn (cs all : List Context) :
    (cs.map (·.storedIn all)).map Instance.value = cs := by
  rw [List.map_map]
  exact List.map_id cs

namespace Interner

/-- Every instance is in its own slot, their contexts differ, and the index has the slot of every
one of them. -/
structure Sound (i : Interner) : Prop where
  placed : ∀ (slot : Nat) (s : Context.Instance), i.instances[slot]? = some s → s.slot = slot
  distinct : i.contexts.Nodup
  slots : ∀ c slot, i.slot? c = some slot ↔ i.contexts[slot]? = some c

theorem Sound.empty : Interner.empty.Sound where
  placed slot s h := by simp [Interner.empty] at h
  distinct := List.nodup_nil
  slots c slot := by simp [Interner.empty, slot?, contexts]

theorem getElem?_concat_eq_some_iff {α : Type} {l : List α} {a b : α} {k : Nat} :
    (l ++ [a])[k]? = some b ↔ l[k]? = some b ∨ k = l.length ∧ a = b := by
  rcases Nat.lt_trichotomy k l.length with h | rfl | h
  · rw [List.getElem?_append_left h, or_iff_left fun hk => Nat.ne_of_lt h hk.1]
  · simp
  · rw [List.getElem?_eq_none (Nat.le_of_lt h), List.getElem?_eq_none (by simp; omega)]
    simp [Nat.ne_of_gt h]

theorem length_contexts (i : Interner) : i.contexts.length = i.instances.length :=
  List.length_map _

theorem contexts_push (i : Interner) (c : Context) : (i.push c).contexts = i.contexts ++ [c] := by
  simp [contexts, push, create]

section
variable {i : Interner} (hi : i.Sound)
include hi

theorem Sound.slot?_eq_none_iff {c : Context} : i.slot? c = none ↔ c ∉ i.contexts := by
  rw [List.mem_iff_getElem?, Option.eq_none_iff_forall_ne_some, not_exists]
  exact forall_congr' fun slot => not_congr (hi.slots c slot)

theorem Sound.getElem?_instances_eq_some_iff {slot : Nat} {s : Context.Instance} :
    i.instances[slot]? = some s ↔ s.slot = slot ∧ i.contexts[slot]? = some s.value := by
  rw [contexts, List.getElem?_map, Option.map_eq_some_iff]
  constructor
  · intro h
    exact ⟨hi.placed slot s h, s, h, rfl⟩
  · rintro ⟨rfl, t, ht, hvalue⟩
    have hslot := hi.placed s.slot t ht
    cases s
    cases t
    simp_all

theorem Sound.storedIn_eq {c : Context} {slot : Nat} (h : i.contexts[slot]? = some c) :
    c.storedIn i.contexts = ⟨slot, c⟩ := by
  obtain ⟨hlt, rfl⟩ := List.getElem?_eq_some_iff.1 h
  rw [Context.storedIn, hi.distinct.idxOf_getElem slot hlt]

/-- The stored instances are those of the contexts. -/
theorem Sound.instances_eq : i.instances = i.contexts.map (·.storedIn i.contexts) := by
  refine List.ext_getElem? fun slot => Option.ext fun s => ?_
  rw [hi.getElem?_instances_eq_some_iff, List.getElem?_map, Option.map_eq_some_iff]
  constructor
  · rintro ⟨rfl, hc⟩
    exact ⟨s.value, hc, hi.storedIn_eq hc⟩
  · rintro ⟨c, hc, rfl⟩
    rw [hi.storedIn_eq hc]
    exact ⟨rfl, hc⟩

theorem Sound.push {c : Context} (hc : c ∉ i.contexts) : (i.push c).Sound where
  placed slot s h := by
    rcases getElem?_concat_eq_some_iff.1 h with h | ⟨rfl, rfl⟩
    · exact hi.placed slot s h
    · rfl
  distinct := by
    rw [contexts_push]
    refine List.nodup_append'.2 ⟨hi.distinct, List.nodup_singleton c, fun d hd hm => ?_⟩
    exact hc (List.mem_singleton.1 hm ▸ hd)
  slots d slot := by
    rw [contexts_push, getElem?_concat_eq_some_iff, ← hi.slots, length_contexts]
    have hnone : i.slot? c = none := hi.slot?_eq_none_iff.2 hc
    unfold slot? at hnone ⊢
    unfold Interner.push
    rw [List.lookup_cons]
    by_cases hd : d = c
    · subst hd
      simp [hnone, eq_comm]
    · simp [beq_false_of_ne hd, Ne.symm hd]

/-- Interning a context stores it if it is new, and returns the stored instance. -/
theorem Sound.intern (c : Context) :
    (i.intern c).1 = c.storedIn (i.intern c).2.contexts ∧ (i.intern c).2.Sound ∧
      (i.intern c).2.contexts = i.contexts ++ fresh i.contexts [c] := by
  unfold Interner.intern
  cases h : i.slot? c with
  | some slot =>
    have hs := (hi.slots c slot).1 h
    have hm : c ∈ i.contexts := List.mem_of_getElem? hs
    have hstored : i.instances[slot]? = some ⟨slot, c⟩ :=
      hi.getElem?_instances_eq_some_iff.2 ⟨rfl, hs⟩
    refine ⟨?_, hi, ?_⟩
    · show i.instances[slot]?.getD _ = _
      rw [hstored, Option.getD_some, hi.storedIn_eq hs]
    · rw [fresh_eq_nil (by simpa using hm), List.append_nil]
  | none =>
    have hm := hi.slot?_eq_none_iff.1 h
    refine ⟨?_, hi.push hm, ?_⟩
    · show i.create c = c.storedIn (i.push c).contexts
      rw [contexts_push, Context.storedIn, List.idxOf_append_of_notMem hm, length_contexts]
      simp [create]
    · rw [fresh_eq_self (List.nodup_singleton c) (by simpa using hm)]
      exact contexts_push i c

end

/-- Interning what is not in `seen`, all of which is stored already, stores what is new of it and
returns the stored instances. -/
theorem Sound.internUnseen : ∀ {cs : List Context} {i : Interner} {seen : List Context},
    i.Sound → (∀ c ∈ seen, c ∈ i.contexts) →
      (i.internUnseen seen cs).1 =
          (fresh seen cs).map (·.storedIn (i.internUnseen seen cs).2.contexts) ∧
        (i.internUnseen seen cs).2.Sound ∧
        (i.internUnseen seen cs).2.contexts = i.contexts ++ fresh i.contexts cs
  | [], i, _, hi, _ => ⟨rfl, hi, by simp [Interner.internUnseen, fresh]⟩
  | c :: cs, i, seen, hi, hs => by
    rw [Interner.internUnseen, fresh]
    by_cases hc : c ∈ seen
    · rw [if_pos (List.contains_iff_mem.2 hc), if_pos hc, fresh, if_pos (hs c hc)]
      exact Sound.internUnseen hi hs
    · rw [if_neg (mt List.contains_iff_mem.1 hc), if_neg hc]
      obtain ⟨hstored, hsound, hctx⟩ := hi.intern c
      have hmem : ∀ d, d ∈ (i.intern c).2.contexts ↔ d ∈ i.contexts ++ [c] := by
        intro d
        rw [hctx, List.mem_append, List.mem_append, mem_fresh]
        by_cases hd : d ∈ i.contexts <;> simp [hd]
      have hcnow : c ∈ (i.intern c).2.contexts :=
        (hmem c).2 (List.mem_append_right _ (List.mem_singleton_self c))
      have hseen : ∀ d ∈ c :: seen, d ∈ (i.intern c).2.contexts := by
        intro d hd
        rcases List.mem_cons.1 hd with rfl | hd
        · exact hcnow
        · exact (hmem d).2 (List.mem_append_left _ (hs d hd))
      obtain ⟨h1, h2, h3⟩ := @Sound.internUnseen cs _ _ hsound hseen
      refine ⟨?_, h2, ?_⟩
      · show (i.intern c).1 :: _ = c.storedIn _ :: _
        -- the rest is stored behind, so the first instance is still the stored one
        rw [h1, hstored, h3, Context.storedIn_append hcnow]
      · show ((i.intern c).2.internUnseen (c :: seen) cs).2.contexts = _
        rw [h3, fresh_congr hmem, hctx, List.append_assoc, ← fresh_append]
        rfl

/-- **Interning a list** stores what is new of it and returns the stored instances of its contexts,
without repeats. -/
theorem Sound.internAll {i : Interner} (hi : i.Sound) (cs : List Context) :
    (i.internAll cs).1 = (fresh [] cs).map (·.storedIn (i.internAll cs).2.contexts) ∧
      (i.internAll cs).2.Sound ∧
      (i.internAll cs).2.contexts = i.contexts ++ fresh i.contexts cs :=
  Sound.internUnseen hi fun _ h => absurd h List.not_mem_nil

end Interner

end Dataflow
