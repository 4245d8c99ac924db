import Dataflow.Sorting
import Mathlib.Data.List.Sort

/-!
# Sorted lists

What is sorted is in order and has the members of the list it is made of (`sorted_pairwise`,
`sorted_perm`), so a list that is in order is sorted already (`sorted_eq_self`) and lists of the
same members are sorted alike (`sorted_congr`). Collapsing a sorted list leaves each member once
(`collapse_sorted_pairwise`). -/

namespace Dataflow

section
variable {α : Type} {le : α → α → Bool} {l m : List α}

theorem insertSorted_eq (le : α → α → Bool) (a : α) :
    ∀ l : List α, insertSorted le a l = l.orderedInsert (fun a b => le a b = true) a
  | [] => rfl
  | b :: l => by
    unfold insertSorted List.orderedInsert
    rw [insertSorted_eq le a l]

theorem sorted_eq (le : α → α → Bool) :
    ∀ l : List α, sorted le l = l.insertionSort (fun a b => le a b = true)
  | [] => rfl
  | a :: l => by
    unfold sorted
    rw [sorted_eq le l, insertSorted_eq, List.insertionSort_cons]

theorem insertSorted_perm {a : α} : (insertSorted le a l).Perm (a :: l) :=
  insertSorted_eq le a l ▸ List.perm_orderedInsert _ a l

theorem sorted_perm : (sorted le l).Perm l :=
  sorted_eq le l ▸ List.perm_insertionSort _ l

theorem sorted_eq_self (h : l.Pairwise fun a b => le a b = true) : sorted le l = l :=
  (sorted_eq le l).trans h.insertionSort_eq

variable [Std.Total fun a b => le a b = true] [IsTrans α fun a b => le a b = true]

theorem insertSorted_pairwise {a : α} (h : l.Pairwise fun a b => le a b = true) :
    (insertSorted le a l).Pairwise fun a b => le a b = true :=
  insertSorted_eq le a l ▸ h.orderedInsert a l

theorem sorted_pairwise (l : List α) : (sorted le l).Pairwise fun a b => le a b = true :=
  sorted_eq le l ▸ List.pairwise_insertionSort _ l

/-- Lists of the same members are sorted alike. -/
theorem sorted_congr [Std.Antisymm fun a b => le a b = true] (h : l.Perm m) :
    sorted le l = sorted le m :=
  (sorted_perm.trans (h.trans sorted_perm.symm)).eq_of_pairwise
    (fun _ _ _ _ => Std.Antisymm.antisymm (r := fun a b => le a b = true) _ _)
    (sorted_pairwise l) (sorted_pairwise m)

end

/-! ## Numbers -/

section
variable {l m : List Nat}

instance natLE_total : Std.Total fun a b : Nat => decide (a ≤ b) = true :=
  ⟨fun a b => by simpa using Nat.le_total a b⟩

instance natLE_trans : IsTrans Nat fun a b => decide (a ≤ b) = true :=
  ⟨fun a b c => by simpa using Nat.le_trans⟩

instance natLE_antisymm : Std.Antisymm fun a b : Nat => decide (a ≤ b) = true :=
  ⟨fun a b => by simpa using Nat.le_antisymm⟩

theorem sorted_eq_self_of_lt (h : l.Pairwise (· < ·)) : sorted (· ≤ ·) l = l :=
  sorted_eq_self (h.imp fun hab => by simpa using Nat.le_of_lt hab)

theorem mem_collapse {a : Nat} : ∀ {l : List Nat}, a ∈ collapse l ↔ a ∈ l
  | [] => Iff.rfl
  | [b] => Iff.rfl
  | b :: c :: l => by
    have ih := mem_collapse (a := a) (l := c :: l)
    unfold collapse
    split
    · next h => simp [ih, h]
    · simp [ih]

/-- Collapsing a sorted list leaves each member once. -/
theorem collapse_pairwise : ∀ {l : List Nat}, l.Pairwise (· ≤ ·) → (collapse l).Pairwise (· < ·)
  | [], _ => List.Pairwise.nil
  | [a], _ => List.pairwise_singleton _ a
  | a :: b :: l, h => by
    obtain ⟨ha, hrest⟩ := List.pairwise_cons.1 h
    have ih := collapse_pairwise hrest
    unfold collapse
    split
    · exact ih
    · next hne =>
      refine List.pairwise_cons.2 ⟨fun c hc => ?_, ih⟩
      have hab : a < b := Nat.lt_of_le_of_ne (ha b List.mem_cons_self) hne
      rcases List.mem_cons.1 (mem_collapse.1 hc) with rfl | hc
      · exact hab
      · exact Nat.lt_of_lt_of_le hab ((List.pairwise_cons.1 hrest).1 c hc)

theorem collapse_sorted_pairwise (l : List Nat) :
    (collapse (sorted (· ≤ ·) l)).Pairwise (· < ·) :=
  collapse_pairwise ((sorted_pairwise l).imp of_decide_eq_true)

theorem mem_collapse_sorted {a : Nat} : a ∈ collapse (sorted (· ≤ ·) l) ↔ a ∈ l :=
  mem_collapse.trans sorted_perm.mem_iff

/-! ## Lists of numbers -/

theorem lexLE_total : ∀ l m : List Nat, lexLE l m = true ∨ lexLE m l = true
  | [], _ => .inl (by simp [lexLE])
  | _ :: _, [] => .inr rfl
  | a :: l, b :: m => by
    have ih := lexLE_total l m
    rcases Nat.lt_trichotomy a b with h | rfl | h
    · simp [lexLE, h]
    · simpa [lexLE] using ih
    · simp [lexLE, h]

theorem lexLE_trans : ∀ k l m : List Nat, lexLE k l = true → lexLE l m = true → lexLE k m = true
  | [], _, _, _, _ => by simp [lexLE]
  | _ :: _, [], _, h, _ => by simp [lexLE] at h
  | _ :: _, _ :: _, [], _, h => by simp [lexLE] at h
  | a :: k, b :: l, c :: m, hab, hbc => by
    have ih := lexLE_trans k l m
    simp only [lexLE, Bool.or_eq_true, Bool.and_eq_true, decide_eq_true_eq] at hab hbc ⊢
    rcases hab with hab | ⟨rfl, hab⟩ <;> rcases hbc with hbc | ⟨rfl, hbc⟩
    · exact .inl (Nat.lt_trans hab hbc)
    · exact .inl hab
    · exact .inl hbc
    · exact .inr ⟨rfl, ih hab hbc⟩

theorem lexLE_antisymm : ∀ l m : List Nat, lexLE l m = true → lexLE m l = true → l = m
  | [], [], _, _ => rfl
  | [], _ :: _, _, h => by simp [lexLE] at h
  | _ :: _, [], h, _ => by simp [lexLE] at h
  | a :: l, b :: m, h, h' => by
    have ih := lexLE_antisymm l m
    simp only [lexLE, Bool.or_eq_true, Bool.and_eq_true, decide_eq_true_eq] at h h'
    rcases h with h | ⟨rfl, h⟩
    · omega
    · rw [ih h (by simpa using h')]

instance : Std.Total fun l m => lexLE l m = true := ⟨lexLE_total⟩

instance : IsTrans (List Nat) fun l m => lexLE l m = true := ⟨lexLE_trans⟩

instance : Std.Antisymm fun l m => lexLE l m = true := ⟨lexLE_antisymm⟩

theorem lexLE_of_head?_lt {a b : Nat} (hl : l.head? = some a) (hm : m.head? = some b)
    (h : a < b) : lexLE l m = true := by
  cases l with
  | nil => cases hl
  | cons x l =>
    cases m with
    | nil => cases hm
    | cons y m =>
      cases hl
      cases hm
      simp [lexLE, h]

end

end Dataflow
