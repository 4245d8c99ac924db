import Dataflow.Proofs.Interner

/-!
# Runs of an interner

An interner is shown contexts one by one and in lists (`Interner.Call`). Every call returns the
stored instances of the contexts it shows, each once (`Sound.stores_apply`), and stores those that
are new behind the ones that were there (`Sound.apply`). So after any number of calls
(`Interner.after`) the contexts are those that have been shown, in the order of first sight
(`Sound.after`), none of them has moved (`Stores.after`), and there is one instance of each
(`Stores.unique`).
-/

namespace Dataflow.Interner

/-! ## Calls -/

/-- A call of an interner. -/
inductive Call
  | intern (c : Context)
  | internAll (cs : List Context)

namespace Call

/-- The contexts that a call shows. -/
def shown : Call → List Context
  | .intern c => [c]
  | .internAll cs => cs

/-- What a call returns, and the interner it leaves. -/
def apply (i : Interner) : Call → List Context.Instance × Interner
  | .intern c => ([(i.intern c).1], (i.intern c).2)
  | .internAll cs => i.internAll cs

end Call

/-- The interner that calls leave, one after the other. -/
def after (i : Interner) (calls : List Call) : Interner :=
  calls.foldl (fun i call => (call.apply i).2) i

/-- An instance is stored: it is the one in its slot, and the index leads from its context there. -/
def Stores (i : Interner) (s : Context.Instance) : Prop :=
  i.slot? s.value = some s.slot ∧ i.instances[s.slot]? = some s

/-- Instances of equal contexts are one instance, if both are stored. -/
theorem Stores.unique {i : Interner} {s t : Context.Instance} (hs : i.Stores s) (ht : i.Stores t)
    (h : s.value = t.value) : s = t := by
  have hslot : s.slot = t.slot := by
    have := hs.1
    rw [h, ht.1] at this
    exact (Option.some.inj this).symm
  have hsame := hs.2
  rw [hslot, ht.2] at hsame
  exact (Option.some.inj hsame).symm

section
variable {i : Interner} (hi : i.Sound)
include hi

theorem Sound.stores_iff {s : Context.Instance} :
    i.Stores s ↔ s.value ∈ i.contexts ∧ s = s.value.storedIn i.contexts := by
  unfold Stores
  rw [hi.getElem?_instances_eq_some_iff, hi.slots]
  constructor
  · rintro ⟨-, -, hc⟩
    exact ⟨List.mem_of_getElem? hc, (hi.storedIn_eq hc).symm⟩
  · rintro ⟨hc, hs⟩
    have hget : i.contexts[i.contexts.idxOf s.value]? = some s.value :=
      List.getElem?_idxOf hc
    rw [hs]
    exact ⟨hget, rfl, hget⟩

/-- One call returns the stored instances of what it shows, without repeats, and stores what is
new of it. -/
theorem Sound.apply (call : Call) :
    (call.apply i).1 = (fresh [] call.shown).map (·.storedIn (call.apply i).2.contexts) ∧
      (call.apply i).2.Sound ∧
      (call.apply i).2.contexts = i.contexts ++ fresh i.contexts call.shown := by
  cases call with
  | intern c =>
    obtain ⟨hc, hsound, hcontexts⟩ := hi.intern c
    exact ⟨congrArg (fun s => [s]) hc, hsound, hcontexts⟩
  | internAll cs => exact hi.internAll cs

theorem Sound.map_value_apply (call : Call) :
    (call.apply i).1.map (·.value) = call.shown.eraseDups := by
  rw [(hi.apply call).1, Context.map_value_storedIn, fresh_nil_eq_eraseDups]

theorem Sound.stores_apply (call : Call) :
    ∀ s ∈ (call.apply i).1, (call.apply i).2.Stores s := by
  obtain ⟨hreturned, hsound, hcontexts⟩ := hi.apply call
  intro s hs
  rw [hreturned] at hs
  obtain ⟨c, hc, rfl⟩ := List.mem_map.1 hs
  refine hsound.stores_iff.2 ⟨?_, rfl⟩
  show c ∈ (call.apply i).2.contexts
  rw [hcontexts, List.mem_append, mem_fresh]
  by_cases hold : c ∈ i.contexts
  · exact .inl hold
  · exact .inr ⟨(mem_fresh.1 hc).1, hold⟩

/-- **Any number of calls** store what is new of all that they show. -/
theorem Sound.after (calls : List Call) :
    (i.after calls).Sound ∧
      (i.after calls).contexts = i.contexts ++ fresh i.contexts (calls.flatMap Call.shown) := by
  induction calls generalizing i with
  | nil => exact ⟨hi, by simp [Interner.after, fresh]⟩
  | cons call calls ih =>
    obtain ⟨-, hsound, hcontexts⟩ := hi.apply call
    obtain ⟨hrest, hall⟩ := ih hsound
    -- what is new to the interner after the call is new to the interner and to the call
    have hseen : ∀ c, c ∈ (call.apply i).2.contexts ↔ c ∈ i.contexts ++ call.shown := by
      intro c
      rw [hcontexts, List.mem_append, List.mem_append, mem_fresh]
      by_cases hc : c ∈ i.contexts <;> simp [hc]
    refine ⟨hrest, ?_⟩
    show ((call.apply i).2.after calls).contexts = _
    rw [hall, fresh_congr hseen, hcontexts, List.flatMap_cons, fresh_append, List.append_assoc]

theorem Stores.after {s : Context.Instance} (hs : i.Stores s) (calls : List Call) :
    (i.after calls).Stores s := by
  obtain ⟨hsound, hcontexts⟩ := hi.after calls
  obtain ⟨hmem, heq⟩ := hi.stores_iff.1 hs
  rw [hsound.stores_iff, hcontexts]
  exact ⟨List.mem_append_left _ hmem, heq.trans (Context.storedIn_append hmem _).symm⟩

/-- What a call returns for a context that is stored is the instance that is stored. -/
theorem Stores.eq_of_mem_apply {s t : Context.Instance} (hs : i.Stores s) (call : Call)
    (ht : t ∈ (call.apply i).1) (h : t.value = s.value) : t = s := by
  have hstays : (call.apply i).2.Stores s := Stores.after hi hs [call]
  exact (hi.stores_apply call t ht).unique hstays h

end

/-! ## Runs -/

/-- **An interner keeps one instance of every context, in the order of first sight**, whatever it is
called with. It has the contexts that have been shown without repeats, every instance is in its own
slot, the index has the slot of each context and nothing else, and no later call moves one. A
context that is interned comes back as it is, a list without repeats. What comes back is the stored
instance, and if the context was stored before, the one that was there. -/
theorem interned_in_order_of_sight (calls : List Call) :
    let i := Interner.empty.after calls
    i.contexts = (calls.flatMap Call.shown).eraseDups ∧ i.contexts.Nodup ∧
      (∀ (slot : Nat) s, i.instances[slot]? = some s → s.slot = slot) ∧
      (∀ c slot, i.slot? c = some slot ↔ i.contexts[slot]? = some c) ∧
      (∀ later c slot, i.slot? c = some slot →
        (i.after later).slot? c = some slot ∧ (i.after later).contexts[slot]? = some c) ∧
      (∀ later s, i.Stores s → (i.after later).Stores s) ∧
      (∀ c, (i.intern c).1.value = c ∧ (i.intern c).2.Stores (i.intern c).1 ∧
        ∀ s, i.Stores s → s.value = c → (i.intern c).1 = s) ∧
      ∀ cs, (i.internAll cs).1.map (·.value) = cs.eraseDups ∧
        ∀ s ∈ (i.internAll cs).1, (i.internAll cs).2.Stores s ∧
          ∀ t, i.Stores t → t.value = s.value → s = t := by
  intro i
  obtain ⟨hi, hcontexts⟩ := Sound.empty.after calls
  refine ⟨?_, hi.distinct, hi.placed, hi.slots, fun later c slot hslot => ?_,
    fun later s hs => hs.after hi later, fun c => ?_, fun cs => ?_⟩
  · rw [hcontexts, ← fresh_nil_eq_eraseDups]
    rfl
  · have hstored : i.Stores ⟨slot, c⟩ :=
      ⟨hslot, hi.getElem?_instances_eq_some_iff.2 ⟨rfl, (hi.slots c slot).1 hslot⟩⟩
    have hstays := hstored.after hi later
    exact ⟨hstays.1, ((hi.after later).1.slots c slot).1 hstays.1⟩
  · have hvalue : (i.intern c).1.value = c :=
      (List.cons.inj (hi.map_value_apply (.intern c))).1
    have hreturned : (i.intern c).1 ∈ ((Call.intern c).apply i).1 := List.mem_singleton_self _
    refine ⟨hvalue, hi.stores_apply (.intern c) _ hreturned, fun s hs hsc => ?_⟩
    exact hs.eq_of_mem_apply hi (.intern c) hreturned (hvalue.trans hsc.symm)
  · refine ⟨hi.map_value_apply (.internAll cs), fun s hs => ?_⟩
    refine ⟨hi.stores_apply (.internAll cs) s hs, fun t ht hts => ?_⟩
    exact ht.eq_of_mem_apply hi (.internAll cs) hs hts.symm

/-- A NaN that is shown twice is stored once, the zeros are two contexts, and each comes back as the
instance that was stored at first sight. -/
theorem interned_in_order_of_sight_doubles :
    let zero : Context := ⟨"scale", .double .zero⟩
    let minus : Context := ⟨"scale", .double Binary64.zero.neg⟩
    let nan : Context := ⟨"scale", .double ⟨0x7ff8000000000000⟩⟩
    let i := Interner.empty.after [.intern zero, .internAll [nan, minus, nan], .intern zero]
    i.contexts = [zero, nan, minus] ∧ (i.intern minus).1 = ⟨2, minus⟩ ∧
      ∀ later, (i.after later).Stores ⟨2, minus⟩ := by
  intro zero minus nan i
  obtain ⟨hcontexts, -, -, hslots, -, hstays, hintern, -⟩ :=
    interned_in_order_of_sight [.intern zero, .internAll [nan, minus, nan], .intern zero]
  have hall : i.contexts = [zero, nan, minus] := hcontexts.trans (by decide)
  have hminus : i.slot? minus = some 2 := by
    refine (hslots minus 2).2 ?_
    rw [hall]
    rfl
  have hstored : i.Stores ⟨2, minus⟩ := ⟨hminus, rfl⟩
  exact ⟨hall, (hintern minus).2.2 _ hstored rfl, fun later => hstays later _ hstored⟩

end Dataflow.Interner
