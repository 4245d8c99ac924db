/-! # Maps with string keys

`KeyMap α` is a finite map from strings. Its entries stand in strictly ascending key order, by code
point, which is the order every answer shows; so two maps with the same content are equal.

* `KeyMap.get?`, `KeyMap.contains`: look-up by key.
* `KeyMap.insert`: binds a key, replacing what it was bound to.
* `KeyMap.ofList`: inserts pairs in turn, so the last value of a repeated key stays.
* `KeyMap.get?_insert`: what look-up sees after an insertion.
-/

namespace Dataflow

/-- A finite map from strings, held in strictly ascending key order. -/
structure KeyMap (α : Type) where
  entries : List (String × α)
  ascending : entries.Pairwise fun a b => a.1 < b.1
deriving DecidableEq

namespace KeyMap

variable {α β : Type}

/-! ## Entries of a sorted list -/

/-- The value of the first entry under `key`. -/
def lookup (key : String) : List (String × α) → Option α
  | [] => none
  | (k, v) :: rest => if k = key then some v else lookup key rest

/-- Puts a key in its place in an ascending list, replacing an entry with that key. -/
def place (key : String) (value : α) : List (String × α) → List (String × α)
  | [] => [(key, value)]
  | (k, v) :: rest =>
    if key < k then (key, value) :: (k, v) :: rest
    else if k = key then (key, value) :: rest
    else (k, v) :: place key value rest

theorem mem_place {key : String} {value : α} {p : String × α} :
    ∀ {l : List (String × α)}, p ∈ place key value l → p = (key, value) ∨ p ∈ l
  | [], h => by simpa [place] using h
  | (k, v) :: rest, h => by
    unfold place at h
    split at h
    · simpa using h
    · split at h
      · rcases List.mem_cons.1 h with h | h
        · exact .inl h
        · exact .inr (List.mem_cons_of_mem _ h)
      · rcases List.mem_cons.1 h with h | h
        · exact .inr (h ▸ List.mem_cons_self)
        · exact (mem_place h).imp_right (List.mem_cons_of_mem _)

theorem lt_of_not_lt {a b : String} (h : ¬ a < b) (hne : b ≠ a) : b < a :=
  Decidable.byContradiction fun h' => hne (String.le_antisymm h h')

theorem ascending_place (key : String) (value : α) :
    ∀ {l : List (String × α)}, l.Pairwise (fun a b => a.1 < b.1) →
      (place key value l).Pairwise fun a b => a.1 < b.1
  | [], _ => by simp [place]
  | (k, v) :: rest, h => by
    have hrest := List.pairwise_cons.1 h
    unfold place
    split
    · rename_i hlt
      refine List.pairwise_cons.2 ⟨fun p hp => ?_, h⟩
      rcases List.mem_cons.1 hp with hp | hp
      · exact hp ▸ hlt
      · exact String.lt_trans hlt (hrest.1 p hp)
    · split
      · rename_i heq
        exact List.pairwise_cons.2 ⟨fun p hp => heq ▸ hrest.1 p hp, hrest.2⟩
      · rename_i hnlt hne
        refine List.pairwise_cons.2 ⟨fun p hp => ?_, ascending_place key value hrest.2⟩
        rcases mem_place hp with hp | hp
        · exact hp ▸ lt_of_not_lt hnlt hne
        · exact hrest.1 p hp

theorem lookup_place (key : String) (value : α) (k : String) :
    ∀ l : List (String × α),
      lookup k (place key value l) = if k = key then some value else lookup k l
  | [] => by simp only [place, lookup, eq_comm]
  | (k', v) :: rest => by
    unfold place
    split
    · simp only [lookup, eq_comm]
    · split
      · rename_i heq
        subst heq
        simp only [lookup, eq_comm]
        split <;> rfl
      · rename_i hne
        simp only [lookup, lookup_place key value k rest]
        by_cases hk : k' = k
        · subst hk
          simp [hne]
        · simp [hk]

/-! ## The map -/

/-- The map without entries. -/
def empty : KeyMap α := ⟨[], .nil⟩

instance : EmptyCollection (KeyMap α) := ⟨empty⟩

instance : Inhabited (KeyMap α) := ⟨empty⟩

/-- The value under `key`. -/
def get? (m : KeyMap α) (key : String) : Option α :=
  lookup key m.entries

/-- Whether the map has an entry under `key`. -/
def contains (m : KeyMap α) (key : String) : Bool :=
  (m.get? key).isSome

/-- The keys in byte order. -/
def keys (m : KeyMap α) : List String :=
  m.entries.map (·.1)

/-- The number of entries. -/
def size (m : KeyMap α) : Nat :=
  m.entries.length

/-- Whether the map has no entry, in which case some records leave it out of their text. -/
def isEmpty (m : KeyMap α) : Bool :=
  m.entries.isEmpty

/-- Binds `key` to `value`, replacing what it was bound to. -/
def insert (m : KeyMap α) (key : String) (value : α) : KeyMap α :=
  ⟨place key value m.entries, ascending_place key value m.ascending⟩

/-- Inserts pairs in turn, so the last value of a repeated key stays. -/
def ofList (pairs : List (String × α)) : KeyMap α :=
  pairs.foldl (fun m p => m.insert p.1 p.2) empty

/-- The entries whose key is to be kept, in their order. -/
def filterKeys (keep : String → Bool) (m : KeyMap α) : KeyMap α :=
  ⟨m.entries.filter fun p => keep p.1, m.ascending.filter _⟩

@[simp] theorem get?_empty (key : String) : (empty : KeyMap α).get? key = none := rfl

@[simp] theorem get?_insert (m : KeyMap α) (key : String) (value : α) (k : String) :
    (m.insert key value).get? k = if k = key then some value else m.get? k :=
  lookup_place key value k m.entries

theorem mem_of_mem_ofList {pairs : List (String × α)} {p : String × α}
    (h : p ∈ (ofList pairs).entries) : p ∈ pairs := by
  have key : ∀ (l : List (String × α)) (m : KeyMap α),
      p ∈ (l.foldl (fun m p => m.insert p.1 p.2) m).entries → p ∈ l ∨ p ∈ m.entries := by
    intro l
    induction l with
    | nil => exact fun _ h => .inr h
    | cons q l ih =>
      intro m h
      rcases ih _ h with h | h
      · exact .inl (List.mem_cons_of_mem _ h)
      · rcases mem_place h with h | h
        · exact .inl (h ▸ List.mem_cons_self)
        · exact .inr h
  exact (key pairs empty h).resolve_right List.not_mem_nil

end KeyMap

end Dataflow
