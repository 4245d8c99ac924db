import Dataflow.Closure
import Mathlib.Data.List.Nodup
import Mathlib.Data.List.Perm.Subperm
import Mathlib.Logic.Relation

/-!
# A closure is what paths lead to

`Reached next initial b`: a path of successors leads from a member of `initial` to `b`. The work
list of `expand` is the tail of what has been seen, so a run is described by the members in front of
it, which are `Expanded`: their successors have been seen (`Expanded.step`). A run that ends has
seen exactly what is reached (`Expanded.mem_iff`, `mem_closure?`), and it ends if its bound is one
on every duplicate-free list of reached members (`closure?_of_bound`).
-/

namespace Dataflow

variable {α : Type}

/-! ## Paths -/

/-- A path of successors leads from a member of `initial` to `b`. -/
def Reached (next : α → List α) (initial : List α) (b : α) : Prop :=
  ∃ a ∈ initial, Relation.ReflTransGen (fun x y => y ∈ next x) a b

theorem Reached.start {next : α → List α} {initial : List α} {a : α} (h : a ∈ initial) :
    Reached next initial a := ⟨a, h, .refl⟩

theorem Reached.tail {next : α → List α} {initial : List α} {a b : α}
    (h : Reached next initial a) (hb : b ∈ next a) : Reached next initial b := by
  obtain ⟨s, hs, hp⟩ := h
  exact ⟨s, hs, hp.tail hb⟩

theorem Reached.mem_of_closed {next : α → List α} {initial : List α} {P : α → Prop} {b : α}
    (h : Reached next initial b) (hi : ∀ a ∈ initial, P a) (hc : ∀ a, P a → ∀ b ∈ next a, P b) :
    P b := by
  obtain ⟨a, ha, hp⟩ := h
  induction hp with
  | refl => exact hi a ha
  | tail _ hb ih => exact hc _ ih _ hb

/-! ## What a list adds to a set -/

section
variable [DecidableEq α]

theorem mem_fresh {a : α} : ∀ {seen l : List α}, a ∈ fresh seen l ↔ a ∈ l ∧ a ∉ seen
  | _, [] => by simp [fresh]
  | seen, b :: l => by
    unfold fresh
    by_cases hb : b ∈ seen
    · rw [if_pos hb, mem_fresh, List.mem_cons]
      constructor
      · rintro ⟨hl, hs⟩; exact ⟨.inr hl, hs⟩
      · rintro ⟨rfl | hl, hs⟩
        · exact absurd hb hs
        · exact ⟨hl, hs⟩
    · rw [if_neg hb, List.mem_cons, mem_fresh, List.mem_cons, List.mem_cons]
      by_cases hab : a = b
      · subst hab; simp [hb]
      · simp [hab]

theorem nodup_fresh : ∀ (seen l : List α), (fresh seen l).Nodup
  | _, [] => by simp [fresh]
  | seen, b :: l => by
    unfold fresh
    split
    · exact nodup_fresh seen l
    · refine List.nodup_cons.2 ⟨fun h => ?_, nodup_fresh _ l⟩
      exact (mem_fresh.1 h).2 List.mem_cons_self

theorem fresh_eq_self : ∀ {seen l : List α}, l.Nodup → (∀ a ∈ l, a ∉ seen) → fresh seen l = l
  | _, [], _, _ => rfl
  | seen, b :: l, hl, hs => by
    obtain ⟨hb, hl⟩ := List.nodup_cons.1 hl
    unfold fresh
    rw [if_neg (hs b List.mem_cons_self), fresh_eq_self hl]
    intro a ha hab
    rcases List.mem_cons.1 hab with rfl | hab
    · exact hb ha
    · exact hs a (List.mem_cons_of_mem _ ha) hab

theorem fresh_congr : ∀ {seen seen' l : List α}, (∀ a, a ∈ seen ↔ a ∈ seen') →
    fresh seen l = fresh seen' l
  | _, _, [], _ => rfl
  | seen, seen', b :: l, h => by
    rw [fresh, fresh]
    by_cases hb : b ∈ seen
    · rw [if_pos hb, if_pos ((h b).1 hb), fresh_congr h]
    · rw [if_neg hb, if_neg fun hb' => hb ((h b).2 hb'), fresh_congr fun a => ?_]
      rw [List.mem_cons, List.mem_cons, h a]

theorem fresh_append : ∀ (seen l m : List α),
    fresh seen (l ++ m) = fresh seen l ++ fresh (seen ++ l) m
  | seen, [], m => by simp [fresh]
  | seen, b :: l, m => by
    rw [List.cons_append, fresh, fresh]
    by_cases hb : b ∈ seen
    · rw [if_pos hb, if_pos hb, fresh_append seen l m]
      congr 1
      refine fresh_congr fun a => ?_
      rw [List.mem_append, List.mem_append, List.mem_cons]
      constructor
      · rintro (h | h)
        · exact .inl h
        · exact .inr (.inr h)
      · rintro (h | rfl | h)
        · exact .inl h
        · exact .inl hb
        · exact .inr h
    · rw [if_neg hb, if_neg hb, fresh_append (b :: seen) l m, List.cons_append]
      congr 2
      exact fresh_congr fun a => by simp [or_left_comm]

theorem fresh_eq_nil {seen l : List α} (h : ∀ a ∈ l, a ∈ seen) : fresh seen l = [] := by
  refine List.eq_nil_iff_forall_not_mem.2 fun a ha => ?_
  obtain ⟨hl, hs⟩ := mem_fresh.1 ha
  exact hs (h a hl)

/-- What is new of a list is what has not been seen, without repetitions. -/
theorem fresh_eq_eraseDups : ∀ seen l : List α,
    fresh seen l = (l.filter fun a => a ∉ seen).eraseDups
  | _, [] => rfl
  | seen, b :: l => by
    rw [fresh, List.filter_cons]
    by_cases hb : b ∈ seen
    · rw [if_pos hb, if_neg (by simpa using hb)]
      exact fresh_eq_eraseDups seen l
    · rw [if_neg hb, if_pos (by simpa using hb), List.eraseDups_cons, List.filter_filter,
        fresh_eq_eraseDups (b :: seen) l]
      refine congrArg (fun l => b :: List.eraseDups l) (List.filter_congr fun a _ => ?_)
      by_cases ha : a = b <;> simp [ha]

theorem fresh_nil_eq_eraseDups (l : List α) : fresh [] l = l.eraseDups := by
  simpa using fresh_eq_eraseDups [] l

/-! ## Runs -/

variable {next : α → List α} {initial : List α}

/-- A state of a run: `done` has been expanded, `frontier` waits, and together they are what has
been seen. -/
structure Expanded (next : α → List α) (initial done frontier : List α) : Prop where
  nodup : (done ++ frontier).Nodup
  starts : ∀ a ∈ initial, a ∈ done ++ frontier
  closed : ∀ a ∈ done, ∀ b ∈ next a, b ∈ done ++ frontier
  reached : ∀ a ∈ done ++ frontier, Reached next initial a

theorem Expanded.entry (next : α → List α) (initial : List α) :
    Expanded next initial [] (fresh [] initial) where
  nodup := nodup_fresh [] initial
  starts _ ha := mem_fresh.2 ⟨ha, List.not_mem_nil⟩
  closed _ ha := absurd ha List.not_mem_nil
  reached _ ha := .start (mem_fresh.1 ha).1

theorem seen_step (next : α → List α) (done frontier : List α) (a : α) :
    done ++ [a] ++ (frontier ++ fresh (done ++ a :: frontier) (next a)) =
      done ++ a :: frontier ++ fresh (done ++ a :: frontier) (next a) := by
  rw [List.append_assoc, List.append_assoc, List.singleton_append, List.cons_append]

/-- One expansion: the first waiting member is done, and what it adds waits at the end. -/
theorem Expanded.step {done frontier : List α} {a : α}
    (h : Expanded next initial done (a :: frontier)) :
    Expanded next initial (done ++ [a])
      (frontier ++ fresh (done ++ a :: frontier) (next a)) := by
  have ha : a ∈ done ++ a :: frontier := by simp
  refine ⟨?_, ?_, ?_, ?_⟩ <;> rw [seen_step]
  · refine List.nodup_append'.2 ⟨h.nodup, nodup_fresh _ _, fun b hb hn => ?_⟩
    exact (mem_fresh.1 hn).2 hb
  · exact fun b hb => List.mem_append_left _ (h.starts b hb)
  · intro b hb c hc
    by_cases hcs : c ∈ done ++ a :: frontier
    · exact List.mem_append_left _ hcs
    · rcases List.mem_append.1 hb with hb | hb
      · exact absurd (h.closed b hb c hc) hcs
      · obtain rfl := List.mem_singleton.1 hb
        exact List.mem_append_right _ (mem_fresh.2 ⟨hc, hcs⟩)
  · intro b hb
    rcases List.mem_append.1 hb with hb | hb
    · exact h.reached b hb
    · exact (h.reached a ha).tail (mem_fresh.1 hb).1

omit [DecidableEq α] in
theorem Expanded.mem_iff {done : List α} (h : Expanded next initial done []) {b : α} :
    b ∈ done ↔ Reached next initial b := by
  refine ⟨fun hb => h.reached b (List.mem_append_left _ hb), fun hb => ?_⟩
  rw [← List.append_nil done]
  refine hb.mem_of_closed h.starts fun a ha b hb => ?_
  exact h.closed a (by simpa using ha) b hb

/-- A run that ends has seen exactly what is reached, each member once. -/
theorem mem_expand : ∀ {bound : Nat} {done frontier l : List α},
    Expanded next initial done frontier → expand next bound frontier (done ++ frontier) = some l →
      l.Nodup ∧ ∀ b, b ∈ l ↔ Reached next initial b
  | _, done, [], l, h, hl => by
    unfold expand at hl
    obtain rfl : done ++ [] = l := by simpa using hl
    exact ⟨h.nodup, fun b => by rw [List.append_nil, h.mem_iff]⟩
  | 0, _, _ :: _, _, _, hl => by
    unfold expand at hl
    cases hl
  | bound + 1, done, a :: frontier, l, h, hl => by
    unfold expand at hl
    rw [← seen_step] at hl
    exact mem_expand h.step hl

/-- A run ends if every duplicate-free list of reached members leaves room for what is done. -/
theorem expand_of_bound : ∀ {bound : Nat} {done frontier : List α},
    Expanded next initial done frontier →
    (∀ l : List α, l.Nodup → (∀ a ∈ l, Reached next initial a) → l.length ≤ done.length + bound) →
      ∃ l, expand next bound frontier (done ++ frontier) = some l
  | bound, done, [], _, _ => ⟨done ++ [], by cases bound <;> simp [expand]⟩
  | 0, done, a :: frontier, h, hb => by
    have := hb _ h.nodup h.reached
    rw [List.length_append, List.length_cons] at this
    omega
  | bound + 1, done, a :: frontier, h, hb => by
    have hroom : ∀ l : List α, l.Nodup → (∀ a ∈ l, Reached next initial a) →
        l.length ≤ (done ++ [a]).length + bound := by
      intro l hn hr
      have := hb l hn hr
      rw [List.length_append, List.length_singleton]
      omega
    obtain ⟨l, hl⟩ := expand_of_bound h.step hroom
    refine ⟨l, ?_⟩
    unfold expand
    rw [← seen_step, hl]

/-! ## Closures -/

/-- **A closure is what paths lead to**, each member once. -/
theorem mem_closure? {bound : Nat} {l : List α} (h : closure? next bound initial = some l) :
    l.Nodup ∧ ∀ b, b ∈ l ↔ Reached next initial b :=
  mem_expand (.entry next initial) h

/-- **A closure ends** if its bound is one on the members that are reached. -/
theorem closure?_of_bound {bound : Nat}
    (h : ∀ l : List α, l.Nodup → (∀ a ∈ l, Reached next initial a) → l.length ≤ bound) :
    ∃ l, closure? next bound initial = some l :=
  expand_of_bound (.entry next initial) (by simpa using h)

/-- The closure inside a list that has the initial members and every successor of its own, with the
length of that list as the bound. -/
theorem closure?_within {univ : List α} (hi : ∀ a ∈ initial, a ∈ univ)
    (hc : ∀ a ∈ univ, ∀ b ∈ next a, b ∈ univ) :
    ∃ l, closure? next univ.length initial = some l ∧ ∀ b, b ∈ l ↔ Reached next initial b := by
  have hbound : ∀ l : List α, l.Nodup → (∀ a ∈ l, Reached next initial a) →
      l.length ≤ univ.length := fun l hn hr =>
    (List.subperm_of_subset hn fun a ha => (hr a ha).mem_of_closed hi hc).length_le
  obtain ⟨l, hl⟩ := closure?_of_bound hbound
  exact ⟨l, hl, (mem_closure? hl).2⟩

end

end Dataflow
