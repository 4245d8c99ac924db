import Dataflow.Binary64
import Dataflow.KeyMap

/-! # JSON trees

A JSON document as a tree. The members of an object are kept as they stand in the text;
`Json.canonical` sorts them by key, keeps the last of equal keys and leaves no double that JSON
cannot write.

* `Json`, `Json.Number`: the trees.
* `Json.Canonical`: sorted, unrepeated keys and finite doubles throughout.
* `Json.canonical`: the canonical tree with the same content.
* `FreeJson`: canonical trees, the values of a definition that the library does not interpret.
-/

namespace Dataflow

/-- A JSON number. Integers beyond 64 bits are doubles. -/
inductive Json.Number
  | natural (n : UInt64)
  | negative (n : Fin 9223372036854775808)
  /-- A number with a fraction or an exponent, or an integer beyond 64 bits. -/
  | double (x : Binary64)
deriving DecidableEq

/-- A JSON document. -/
inductive Json
  | null
  | bool (b : Bool)
  | number (n : Json.Number)
  | string (s : String)
  | array (items : List Json)
  | object (members : List (String × Json))

namespace Json

/-- A signed integer in the reader's form: natural where it can be, negative otherwise. -/
def Number.ofInt64 (n : Int64) : Number :=
  match h : n.toInt with
  | .ofNat k => .natural k.toUInt64
  | .negSucc k => .negative ⟨k, by have := n.le_toInt; rw [h] at this; omega⟩

/-- A double as a number; JSON has none for NaN and the infinities, which become `null`. -/
def ofBinary64 (x : Binary64) : Json :=
  if x.isFinite then .number (.double x) else .null

/-! ## Canonical trees -/

mutual

/-- Keys ascend strictly in every object, and every double is finite. -/
def Canonical : Json → Prop
  | .number (.double x) => x.isFinite
  | .array items => CanonicalItems items
  | .object members => (members.Pairwise fun a b => a.1 < b.1) ∧ CanonicalMembers members
  | _ => True

/-- Every element is in canonical form. -/
def CanonicalItems : List Json → Prop
  | [] => True
  | j :: rest => j.Canonical ∧ CanonicalItems rest

/-- Every member's value is in canonical form; the order of the keys is asked for outside. -/
def CanonicalMembers : List (String × Json) → Prop
  | [] => True
  | (_, j) :: rest => j.Canonical ∧ CanonicalMembers rest

end

mutual

/-- The canonical tree with the same content: members sorted by key, the last of equal keys kept,
and `null` for a double that is not finite. -/
def canonical : Json → Json
  | .number (.double x) => ofBinary64 x
  | .array items => .array (canonicalItems items)
  | .object members => .object (KeyMap.ofList (canonicalMembers members)).entries
  | j => j

/-- Canonical forms element by element. -/
def canonicalItems : List Json → List Json
  | [] => []
  | j :: rest => j.canonical :: canonicalItems rest

/-- Canonical forms member by member, keys left where they are. -/
def canonicalMembers : List (String × Json) → List (String × Json)
  | [] => []
  | (key, j) :: rest => (key, j.canonical) :: canonicalMembers rest

end

theorem canonicalMembers_iff :
    ∀ {members : List (String × Json)},
      CanonicalMembers members ↔ ∀ p ∈ members, p.2.Canonical
  | [] => by simp [CanonicalMembers]
  | (_, j) :: rest => by simp [CanonicalMembers, @canonicalMembers_iff rest]

mutual

theorem canonical_canonical : ∀ j : Json, j.canonical.Canonical
  | .null => by simp [canonical, Canonical]
  | .bool _ => by simp [canonical, Canonical]
  | .string _ => by simp [canonical, Canonical]
  | .number (.natural _) => by simp [canonical, Canonical]
  | .number (.negative _) => by simp [canonical, Canonical]
  | .number (.double x) => by
    simp only [canonical, ofBinary64]
    split <;> simp_all [Canonical]
  | .array items => by
    simp only [canonical, Canonical]
    exact canonicalItems_canonical items
  | .object members => by
    simp only [canonical, Canonical]
    refine ⟨KeyMap.ascending _, canonicalMembers_iff.2 fun p hp => ?_⟩
    exact canonicalMembers_iff.1 (canonicalMembers_canonical members) p
      (KeyMap.mem_of_mem_ofList hp)

theorem canonicalItems_canonical : ∀ items : List Json, CanonicalItems (canonicalItems items)
  | [] => trivial
  | j :: rest => ⟨canonical_canonical j, canonicalItems_canonical rest⟩

theorem canonicalMembers_canonical :
    ∀ members : List (String × Json), CanonicalMembers (canonicalMembers members)
  | [] => trivial
  | (_, j) :: rest => ⟨canonical_canonical j, canonicalMembers_canonical rest⟩

end

/-! ## Sameness -/

/-- Equality of numbers by value, so that `0.0` is `-0.0`; an integer is never a double. -/
def Number.same : Number → Number → Bool
  | .natural a, .natural b => a = b
  | .negative a, .negative b => a = b
  | .double x, .double y => x = y ∨ (x.isZero ∧ y.isZero)
  | _, _ => false

mutual

/-- Equality of trees, with doubles compared as numbers. -/
def same : Json → Json → Bool
  | .null, .null => true
  | .bool a, .bool b => a = b
  | .number m, .number n => m.same n
  | .string s, .string t => s = t
  | .array a, .array b => sameItems a b
  | .object a, .object b => sameMembers a b
  | _, _ => false

/-- Equality of lists of trees, with numbers compared by value. -/
def sameItems : List Json → List Json → Bool
  | [], [] => true
  | j :: js, k :: ks => j.same k && sameItems js ks
  | _, _ => false

/-- Equality of members, with numbers compared by value. -/
def sameMembers : List (String × Json) → List (String × Json) → Bool
  | [], [] => true
  | (key, j) :: js, (other, k) :: ks => decide (key = other) && j.same k && sameMembers js ks
  | _, _ => false

end

end Json

/-- A canonical JSON tree: part of a definition that is carried along and not interpreted. -/
structure FreeJson where
  tree : Json
  canonical : tree.Canonical

/-- The canonical form of any tree. -/
def FreeJson.ofJson (j : Json) : FreeJson :=
  ⟨j.canonical, j.canonical_canonical⟩

end Dataflow
