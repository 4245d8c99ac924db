import Dataflow.KeyMap
import Mathlib.Data.List.Nodup
import Mathlib.Data.List.Sort

/-!
# Look-up and the entries of a map

What look-up sees are the entries (`KeyMap.get?_eq_some_iff`), and as these stand in ascending order
a map is what look-up sees of it (`KeyMap.ext_get?`). The other lemmas say what look-up sees after
insertion in turn and after dropping keys, and that the first entry found has the least key
(`KeyMap.findSome?_entries_eq_some_iff`).
-/

namespace Dataflow.KeyMap

variable {α β : Type}

/-! ## Entries -/

theorem mem_of_lookup {key : String} {value : α} :
    ∀ {l : List (String × α)}, lookup key l = some value → (key, value) ∈ l
  | [], h => by cases h
  | (k, v) :: rest, h => by
    unfold lookup at h
    split at h
    · rename_i hk
      cases h
      exact hk ▸ List.mem_cons_self
    · exact List.mem_cons_of_mem _ (mem_of_lookup h)

theorem lookup_eq_some_iff {key : String} {value : α} :
    ∀ {l : List (String × α)}, l.Pairwise (fun a b => a.1 < b.1) →
      (lookup key l = some value ↔ (key, value) ∈ l)
  | [], _ => by simp [lookup]
  | (k, v) :: rest, h => by
    obtain ⟨hlt, hrest⟩ := List.pairwise_cons.1 h
    refine ⟨mem_of_lookup, fun hm => ?_⟩
    unfold lookup
    rcases List.mem_cons.1 hm with he | hm
    · cases he
      rw [if_pos rfl]
    · have hne : k ≠ key := by
        rintro rfl
        exact String.lt_irrefl k (hlt (k, value) hm)
      rw [if_neg hne, (lookup_eq_some_iff hrest).2 hm]

theorem get?_eq_some_iff {m : KeyMap α} {key : String} {value : α} :
    m.get? key = some value ↔ (key, value) ∈ m.entries :=
  lookup_eq_some_iff m.ascending

theorem mem_keys {m : KeyMap α} {key : String} :
    key ∈ m.keys ↔ ∃ value, m.get? key = some value := by
  constructor
  · intro h
    obtain ⟨⟨k, v⟩, hm, rfl⟩ := List.mem_map.1 h
    exact ⟨v, get?_eq_some_iff.2 hm⟩
  · rintro ⟨value, h⟩
    exact List.mem_map.2 ⟨(key, value), get?_eq_some_iff.1 h, rfl⟩

theorem mem_keys_insert {m : KeyMap α} {key k : String} {value : α} :
    k ∈ (m.insert key value).keys ↔ k = key ∨ k ∈ m.keys := by
  rw [mem_keys, mem_keys, get?_insert]
  split
  · rename_i h
    exact iff_of_true ⟨value, rfl⟩ (.inl h)
  · rename_i h
    exact ⟨.inr, fun hm => hm.resolve_left h⟩

theorem nodup_keys (m : KeyMap α) : (m.entries.map (·.1)).Nodup :=
  List.pairwise_map.2 (m.ascending.imp fun {a b} h (he : a.1 = b.1) =>
    String.lt_irrefl b.1 (he ▸ h))

/-! ## Extensionality -/

/-- **A map is what look-up sees of it.** -/
theorem ext_get? {m n : KeyMap α} (h : ∀ key, m.get? key = n.get? key) : m = n := by
  have hirrefl : Std.Irrefl fun a b : String × α => a.1 < b.1 := ⟨fun _ => String.lt_irrefl _⟩
  have hantisymm : Std.Antisymm fun a b : String × α => a.1 < b.1 :=
    ⟨fun _ _ hab hba => absurd (String.lt_trans hab hba) (String.lt_irrefl _)⟩
  have he : m.entries = n.entries := m.ascending.eq_of_mem_iff n.ascending fun p => by
    have hm : m.get? p.1 = some p.2 ↔ p ∈ m.entries := get?_eq_some_iff
    rw [← hm, h, get?_eq_some_iff]
  cases m
  cases n
  simpa using he

/-! ## Insertion in turn -/

theorem get?_foldl_insert {key : String} : ∀ {pairs : List (String × α)} {m : KeyMap α},
    (pairs.map (·.1)).Nodup →
      (pairs.foldl (fun m p => m.insert p.1 p.2) m).get? key = (lookup key pairs).or (m.get? key)
  | [], _, _ => by simp [lookup]
  | (k, v) :: rest, m, h => by
    obtain ⟨hk, hrest⟩ := List.nodup_cons.1 h
    rw [List.foldl_cons, get?_foldl_insert hrest, get?_insert, lookup]
    by_cases he : k = key
    · subst he
      have hnone : lookup k rest = none := by
        cases hl : lookup k rest with
        | none => rfl
        | some w => exact absurd (List.mem_map_of_mem (mem_of_lookup hl)) hk
      rw [if_pos rfl, if_pos rfl, hnone]
      rfl
    · rw [if_neg (Ne.symm he), if_neg he]

theorem mem_keys_foldl_insert {key : String} : ∀ {pairs : List (String × α)} {m : KeyMap α},
    key ∈ (pairs.foldl (fun m p => m.insert p.1 p.2) m).keys ↔
      key ∈ pairs.map (·.1) ∨ key ∈ m.keys
  | [], _ => by simp
  | (k, v) :: pairs, m => by
    rw [List.foldl_cons, mem_keys_foldl_insert, mem_keys_insert, List.map_cons, List.mem_cons,
      or_left_comm, or_assoc]

theorem ofList_entries (m : KeyMap α) : ofList m.entries = m := by
  refine ext_get? fun key => ?_
  unfold ofList
  rw [get?_foldl_insert (nodup_keys m), get?_empty, Option.or_none]
  rfl

/-! ## Dropping keys -/

theorem get?_filterKeys (keep : String → Bool) (m : KeyMap α) (key : String) :
    (m.filterKeys keep).get? key = if keep key = true then m.get? key else none := by
  refine Option.ext fun value => ?_
  rw [get?_eq_some_iff]
  unfold filterKeys
  rw [List.mem_filter]
  split
  · rename_i hk; simp [hk, get?_eq_some_iff]
  · rename_i hk; simp [hk]

theorem mem_keys_filterKeys {keep : String → Bool} {m : KeyMap α} {key : String} :
    key ∈ (m.filterKeys keep).keys ↔ key ∈ m.keys ∧ keep key = true := by
  rw [mem_keys, mem_keys, get?_filterKeys]
  split
  · rename_i hk
    exact (and_iff_left hk).symm
  · rename_i hk
    exact iff_of_false (by simp) fun h => hk h.2

theorem filterKeys_eq_self_iff {keep : String → Bool} {m : KeyMap α} :
    m.filterKeys keep = m ↔ ∀ key ∈ m.keys, keep key = true := by
  constructor
  · intro h key hkey
    rw [← h] at hkey
    exact (mem_keys_filterKeys.1 hkey).2
  · intro h
    refine ext_get? fun key => ?_
    rw [get?_filterKeys]
    split
    · rfl
    · rename_i hk
      have hnone : key ∉ m.keys := fun hkey => hk (h key hkey)
      have hget : ∀ value, m.get? key ≠ some value := fun value hv => hnone (mem_keys.2 ⟨value, hv⟩)
      exact (Option.eq_none_iff_forall_ne_some.2 hget).symm

/-! ## The first entry with an answer -/

theorem findSome?_entries_eq_none_iff {m : KeyMap α} {f : String × α → Option β} :
    m.entries.findSome? f = none ↔
      ∀ key value, m.get? key = some value → f (key, value) = none := by
  simp only [List.findSome?_eq_none_iff, Prod.forall, get?_eq_some_iff]

theorem exists_least_of_findSome? {m : KeyMap α} {f : String × α → Option β} {b : β}
    (h : m.entries.findSome? f = some b) :
    ∃ key value, m.get? key = some value ∧ f (key, value) = some b ∧
      ∀ k v c, m.get? k = some v → f (k, v) = some c → k = key ∨ key < k := by
  obtain ⟨before, ⟨key, value⟩, after, hentries, hb, hbefore⟩ := List.findSome?_eq_some_iff.1 h
  have hascending := m.ascending
  rw [hentries] at hascending
  have hafter := (List.pairwise_cons.1 (List.pairwise_append.1 hascending).2.1).1
  refine ⟨key, value, get?_eq_some_iff.2 (by simp [hentries]), hb, fun k v c hk hc => ?_⟩
  rw [get?_eq_some_iff, hentries] at hk
  rcases List.mem_append.1 hk with hk | hk
  · rw [hbefore _ hk] at hc
    cases hc
  · rcases List.mem_cons.1 hk with hk | hk
    · exact .inl (Prod.mk.inj hk).1
    · exact .inr (hafter _ hk)

/-- The first entry with an answer has the least key that has one. -/
theorem findSome?_entries_eq_some_iff {m : KeyMap α} {f : String × α → Option β} {b : β} :
    m.entries.findSome? f = some b ↔
      ∃ key value, m.get? key = some value ∧ f (key, value) = some b ∧
        ∀ k v c, m.get? k = some v → f (k, v) = some c → k = key ∨ key < k := by
  refine ⟨exists_least_of_findSome?, ?_⟩
  rintro ⟨key, value, hkey, hb, hleast⟩
  obtain ⟨c, hc⟩ : ∃ c, m.entries.findSome? f = some c := by
    refine Option.ne_none_iff_exists'.1 fun hnone => ?_
    rw [findSome?_entries_eq_none_iff.1 hnone key value hkey] at hb
    cases hb
  obtain ⟨key', value', hkey', hc', hleast'⟩ := exists_least_of_findSome? hc
  -- either key is the least one
  have heq : key' = key := by
    rcases hleast key' value' c hkey' hc' with heq | hlt
    · exact heq
    · rcases hleast' key value b hkey hb with heq | hlt'
      · exact heq.symm
      · exact absurd (String.lt_trans hlt hlt') (String.lt_irrefl _)
  subst heq
  rw [hkey'] at hkey
  cases hkey
  rw [hc, ← hc', hb]

end Dataflow.KeyMap
