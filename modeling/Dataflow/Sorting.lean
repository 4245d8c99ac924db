/-! # Sorted lists

* `insertSorted`: puts a member into a sorted list.
* `sorted`: the members of a list in order.
* `collapse`: takes one of several equal members in a row.
* `lexLE`: the lexicographic order of lists of numbers.

Sorting is structural, so that terms with it can be evaluated, as with `List.mergeSort` they cannot.
-/

namespace Dataflow

section
variable {α : Type}

/-- Puts a member into a sorted list, in front of the first one that it may precede. -/
def insertSorted (le : α → α → Bool) (a : α) : List α → List α
  | [] => [a]
  | b :: l => if le a b then a :: b :: l else b :: insertSorted le a l

/-- The members of a list in order. -/
def sorted (le : α → α → Bool) : List α → List α
  | [] => []
  | a :: l => insertSorted le a (sorted le l)

/-- A list with one of several equal members in a row. -/
def collapse [DecidableEq α] : List α → List α
  | [] => []
  | [a] => [a]
  | a :: b :: l => if a = b then collapse (b :: l) else a :: collapse (b :: l)

end

/-- Whether a list of numbers may precede another in lexicographic order. -/
def lexLE : List Nat → List Nat → Bool
  | [], _ => true
  | _ :: _, [] => false
  | a :: l, b :: m => a < b || (a = b && lexLE l m)

end Dataflow
