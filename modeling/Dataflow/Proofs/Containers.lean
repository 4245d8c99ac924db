import Dataflow.Proofs.Numbers

/-!
# The parts of a container

One turn of the loops that read the inside of an array and of an object, whatever reads the items
and the members: a loop closes, or it reads its first part, or it reads another one behind a comma.
Blank space may stand wherever one token ends.

* `Token.ends_blank_append`: what may stand behind a part does not go on with a number.
* `Reader.items_close`, `Reader.items_first`, `Reader.items_next`: one turn in an array.
* `Reader.members_close`, `Reader.members_first`, `Reader.members_next`: one turn in an object.
-/

namespace Dataflow.Json

namespace Token

theorem ends_of_isBlank {c : Char} (hc : isBlank c = true) (rest : List Char) :
    Ends (c :: rest) := by
  intro d hd
  obtain rfl : c = d := by simpa using hd
  simp only [isBlank, decide_eq_true_eq] at hc
  rcases hc with rfl | rfl | rfl | rfl <;> decide

theorem ends_blank_append {blank : List Char} (hblank : Blank blank) {c : Char}
    (hc : c = ',' ∨ c = ']' ∨ c = '}') (rest : List Char) : Ends (blank ++ c :: rest) := by
  cases blank with
  | cons b blank => exact ends_of_isBlank (hblank b List.mem_cons_self) _
  | nil =>
    intro d hd
    obtain rfl : c = d := by simpa using hd
    rcases hc with rfl | rfl | rfl <;> decide

theorem Blank.ends {blank : List Char} (hblank : Blank blank) : Ends blank := by
  cases blank with
  | nil => exact .nil
  | cons b blank => exact ends_of_isBlank (hblank b List.mem_cons_self) _

theorem colon_append {blank : List Char} (hblank : Blank blank) (rest : List Char) :
    colon (blank ++ ':' :: rest) = .ok rest := by
  rw [colon, dropBlank_append hblank rfl]
  rfl

/-- A text starts like a value: with a character that is not blank and that no loop takes for the
end of a part. -/
def StartsValue (v : List Char) : Prop :=
  ∃ c cs, v = c :: cs ∧ isBlank c = false ∧ c ≠ ']' ∧ c ≠ ','

theorem startsValue_of_startsNumber {c : Char} (h : Reader.startsNumber c = true) :
    isBlank c = false ∧ c ≠ ']' ∧ c ≠ ',' := by
  refine ⟨isBlank_of_startsNumber h, ?_, ?_⟩ <;>
    · rintro rfl
      cases h

theorem StartsValue.dropBlank {v blank : List Char} (h : StartsValue v) (hblank : Blank blank)
    (rest : List Char) : dropBlank (blank ++ (v ++ rest)) = v ++ rest := by
  obtain ⟨c, cs, rfl, hc, -⟩ := h
  exact dropBlank_append hblank hc _

end Token

namespace Reader

open Token

variable {σ : Type} {blank v cs rest : List Char} (faults : CommaFaults) (rounds : Nat) {acc : σ}

section
variable {item : σ → List Char → Step σ}

theorem items_close (first : Bool) (hblank : Blank blank) (rest : List Char) :
    items faults item (rounds + 1) first acc (blank ++ ']' :: rest) = .ok (acc, rest) := by
  rw [items, dropBlank_append hblank rfl]
  rfl

theorem items_first (hv : StartsValue v) (hblank : Blank blank) :
    items faults item (rounds + 1) true acc (blank ++ (v ++ rest)) =
      (item acc (v ++ rest)).andThen fun acc rest =>
        items faults item rounds false acc rest := by
  rw [items, hv.dropBlank hblank]
  obtain ⟨c, cs, rfl, -, hclose, -⟩ := hv
  simp

theorem items_next (hcs : dropBlank cs = ',' :: (blank ++ (v ++ rest))) (hv : StartsValue v)
    (hblank : Blank blank) :
    items faults item (rounds + 1) false acc cs =
      (item acc (v ++ rest)).andThen fun acc rest =>
        items faults item rounds false acc rest := by
  have hdrop := hv.dropBlank hblank rest
  obtain ⟨c, tail, rfl, -, hclose, -⟩ := hv
  rw [List.cons_append] at hdrop
  simp [items, hcs, hdrop, hclose]

end

section
variable {key : List Char → Step String} {member : σ → String → List Char → Step σ}

theorem members_close (first : Bool) (hblank : Blank blank) (rest : List Char) :
    members faults key member (rounds + 1) first acc (blank ++ '}' :: rest) = .ok (acc, rest) := by
  rw [members, dropBlank_append hblank rfl]
  rfl

theorem members_first (hblank : Blank blank) :
    members faults key member (rounds + 1) true acc (blank ++ '"' :: rest) =
      (key rest).andThen fun k rest => (member acc k rest).andThen fun acc rest =>
        members faults key member rounds false acc rest := by
  rw [members, dropBlank_append hblank rfl]
  rfl

theorem members_next (hcs : dropBlank cs = ',' :: (blank ++ '"' :: rest)) (hblank : Blank blank) :
    members faults key member (rounds + 1) false acc cs =
      (key rest).andThen fun k rest => (member acc k rest).andThen fun acc rest =>
        members faults key member rounds false acc rest := by
  have hdrop : dropBlank (blank ++ '"' :: rest) = '"' :: rest := dropBlank_append hblank rfl rest
  simp [members, hcs, hdrop]

end

end Reader

end Dataflow.Json
