import Dataflow.KeyMap

/-! # Closures

The least set that contains some members and is closed under a successor function, found by
expanding one member after the other.

* `fresh`: what a list adds to a set.
* `closure?`: the closure in order of discovery, if it has no more members than a bound allows.
* `idClosure?`: the closure of ids, sorted.
-/

namespace Dataflow

variable {α : Type} [DecidableEq α]

/-- The members of a list that are not in `seen`, each once and in order. -/
def fresh (seen : List α) : List α → List α
  | [] => []
  | a :: rest => if a ∈ seen then fresh seen rest else a :: fresh (a :: seen) rest

/-- Expands the members of `frontier` in turn; `seen` holds them and every member already expanded.
Every member is expanded once, so `bound` is a bound on the members. -/
def expand (next : α → List α) : Nat → List α → List α → Option (List α)
  | _, [], seen => some seen
  | 0, _ :: _, _ => none
  | bound + 1, a :: frontier, seen =>
    expand next bound (frontier ++ fresh seen (next a)) (seen ++ fresh seen (next a))

/-- The least set that contains `initial` and is closed under `next`, in order of discovery;
`none` if it has more than `bound` members. -/
def closure? (next : α → List α) (bound : Nat) (initial : List α) : Option (List α) :=
  expand next bound (fresh [] initial) (fresh [] initial)

/-- The ids in ascending order, each once. -/
def sortedIds (ids : List String) : List String :=
  (KeyMap.ofList (ids.map fun id => (id, ()))).keys

/-- The least set of ids that contains `initial` and is closed under `next`, ascending; `none` if it
has more than `bound` members. -/
def idClosure? (next : String → List String) (bound : Nat) (initial : List String) :
    Option (List String) :=
  (closure? next bound initial).map sortedIds

end Dataflow
