import Dataflow.Proofs.Containers
import Dataflow.Proofs.Tokens

/-!
# The grammar of values

What a JSON value is, as a predicate on characters that no reader takes part in. The inside of a
container is a relation between the texts of its parts and its own text, so that a text can be
looked at part by part; the loops of the readers fold over these parts (`Items.fold`,
`Members.fold`).

* `Json.Items`, `Json.Members`: the inside of an array and of an object.
* `Json.IsValue`: a value.
* `Json.skip_append`: passing over a value ends exactly where the value ends.
-/

namespace Dataflow.Json

open Token Reader

/-! ## The inside of a container -/

/-- The texts of the items of an array, and its text from a point where no item has been read
(`true`) or where one has been (`false`), up to the closing bracket. -/
inductive Items : Bool → List (List Char) → List Char → Prop
  | close {first : Bool} {blank : List Char} : Blank blank → Items first [] (blank ++ [']'])
  | first {blank v text : List Char} {vs : List (List Char)} :
    Blank blank → Items false vs text → Items true (v :: vs) (blank ++ (v ++ text))
  | next {blank gap v text : List Char} {vs : List (List Char)} :
    Blank blank → Blank gap → Items false vs text →
      Items false (v :: vs) (blank ++ ',' :: (gap ++ (v ++ text)))

/-- A member of an object: its key from behind the opening quote, and the text of its value. -/
structure Member where
  key : List Char
  value : List Char

/-- The members of an object, and its text from a point where no member has been read (`true`) or
where one has been (`false`), up to the closing brace. -/
inductive Members : Bool → List Member → List Char → Prop
  | close {first : Bool} {blank : List Char} : Blank blank → Members first [] (blank ++ ['}'])
  | first {blank colon gap text : List Char} {m : Member} {ms : List Member} :
    Blank blank → IsString m.key → Blank colon → Blank gap → Members false ms text →
      Members true (m :: ms)
        (blank ++ '"' :: (m.key ++ (colon ++ ':' :: (gap ++ (m.value ++ text)))))
  | next {blank comma colon gap text : List Char} {m : Member} {ms : List Member} :
    Blank blank → Blank comma → IsString m.key → Blank colon → Blank gap → Members false ms text →
      Members false (m :: ms)
        (blank ++ ',' :: (comma ++ '"' ::
          (m.key ++ (colon ++ ':' :: (gap ++ (m.value ++ text))))))

/-- The characters of a value. -/
inductive IsValue : List Char → Prop
  | nullWord : IsValue ['n', 'u', 'l', 'l']
  | trueWord : IsValue ['t', 'r', 'u', 'e']
  | falseWord : IsValue ['f', 'a', 'l', 's', 'e']
  | string {cs : List Char} : IsString cs → IsValue ('"' :: cs)
  | number {cs : List Char} : IsNumber cs → IsValue cs
  | array {vs : List (List Char)} {text : List Char} :
    Items true vs text → (∀ v ∈ vs, IsValue v) → IsValue ('[' :: text)
  | object {ms : List Member} {text : List Char} :
    Members true ms text → (∀ m ∈ ms, IsValue m.value) → IsValue ('{' :: text)

theorem IsNumber.eq_cons {cs : List Char} (h : IsNumber cs) :
    ∃ c tail, cs = c :: tail ∧ startsNumber c = true := by
  cases h with
  | positive hwhole _ _ =>
    obtain ⟨d, ds, rfl, hd⟩ := hwhole.eq_cons
    exact ⟨d, _, rfl, by simp [startsNumber, hd]⟩
  | negative _ _ _ => exact ⟨'-', _, rfl, rfl⟩

theorem IsValue.startsValue {v : List Char} (h : IsValue v) : StartsValue v := by
  cases h with
  | number hn =>
    obtain ⟨c, tail, rfl, hc⟩ := hn.eq_cons
    exact ⟨c, tail, rfl, startsValue_of_startsNumber hc⟩
  | _ => exact ⟨_, _, rfl, rfl, by decide, by decide⟩

/-! ## Folding over the parts -/

theorem Items.ends {vs : List (List Char)} {text : List Char} (h : Items false vs text)
    (rest : List Char) : Ends (text ++ rest) := by
  cases h with
  | close hblank =>
    rw [List.append_assoc]
    exact ends_blank_append hblank (.inr (.inl rfl)) rest
  | next hblank _ _ =>
    rw [List.append_assoc]
    exact ends_blank_append hblank (.inl rfl) _

theorem Members.ends {ms : List Member} {text : List Char} (h : Members false ms text)
    (rest : List Char) : Ends (text ++ rest) := by
  cases h with
  | close hblank =>
    rw [List.append_assoc]
    exact ends_blank_append hblank (.inr (.inr rfl)) rest
  | next hblank _ _ _ _ _ =>
    rw [List.append_assoc]
    exact ends_blank_append hblank (.inl rfl) _

/-- There is a round for every item and for the closing bracket. -/
theorem Items.length_le {first : Bool} {vs : List (List Char)} {text : List Char}
    (h : Items first vs text) : vs.length + (if first then 0 else 1) ≤ text.length := by
  induction h with
  | close _ =>
    simp only [List.length_append, List.length_cons, List.length_nil]
    split <;> omega
  | first _ _ ih =>
    simp only [List.length_append, List.length_cons, Bool.false_eq_true, ↓reduceIte] at ih ⊢
    omega
  | next _ _ _ ih =>
    simp only [List.length_append, List.length_cons, Bool.false_eq_true, ↓reduceIte] at ih ⊢
    omega

theorem Members.length_lt {first : Bool} {ms : List Member} {text : List Char}
    (h : Members first ms text) : ms.length < text.length := by
  induction h with
  | close _ =>
    simp only [List.length_append, List.length_cons, List.length_nil]
    omega
  | first _ _ _ _ _ ih =>
    simp only [List.length_append, List.length_cons]
    omega
  | next _ _ _ _ _ _ ih =>
    simp only [List.length_append, List.length_cons]
    omega

theorem Items.length_lt_of_mem {first : Bool} {vs : List (List Char)} {text v : List Char}
    (h : Items first vs text) (hv : v ∈ vs) : v.length < text.length := by
  induction h with
  | close _ => cases hv
  | first _ htext ih =>
    have hlength := htext.length_le
    simp only [List.length_append, Bool.false_eq_true, ↓reduceIte] at hlength ⊢
    rcases List.mem_cons.1 hv with rfl | hv
    · omega
    · have := ih hv
      omega
  | next _ _ _ ih =>
    simp only [List.length_append, List.length_cons]
    rcases List.mem_cons.1 hv with rfl | hv
    · omega
    · have := ih hv
      omega

theorem Members.length_lt_of_mem {first : Bool} {ms : List Member} {text : List Char} {m : Member}
    (h : Members first ms text) (hm : m ∈ ms) : m.value.length < text.length := by
  induction h with
  | close _ => cases hm
  | first _ _ _ _ _ ih =>
    simp only [List.length_append, List.length_cons]
    rcases List.mem_cons.1 hm with rfl | hm
    · omega
    · have := ih hm
      omega
  | next _ _ _ _ _ _ ih =>
    simp only [List.length_append, List.length_cons]
    rcases List.mem_cons.1 hm with rfl | hm
    · omega
    · have := ih hm
      omega

theorem Step.andThen_map {α β : Type} {step : Step α} {outcome : Except Fault α}
    {next : α → List Char → Step β} {g : α → Except Fault β} {rest rest' : List Char}
    (hstep : step = outcome.map fun a => (a, rest))
    (hnext : ∀ a, next a rest = (g a).map fun b => (b, rest')) :
    step.andThen next = (outcome >>= g).map fun b => (b, rest') := by
  rw [hstep]
  cases outcome with
  | error fault => rfl
  | ok a => exact hnext a

section Folds

variable {σ : Type} {faults : CommaFaults} {first : Bool} {text : List Char}

/-- Reading the items of an array folds over them, if what is made of one item does not depend
on the text behind it. -/
theorem Items.fold {item : σ → List Char → Step σ} (next : σ → List Char → Except Fault σ)
    {vs : List (List Char)} (h : Items first vs text) (hstart : ∀ v ∈ vs, StartsValue v)
    (hitem : ∀ v ∈ vs, ∀ acc rest, Ends rest →
      item acc (v ++ rest) = (next acc v).map fun acc => (acc, rest))
    {rounds : Nat} (hrounds : vs.length < rounds) (acc : σ) (rest : List Char) :
    items faults item rounds first acc (text ++ rest) =
      (vs.foldlM next acc).map fun acc => (acc, rest) := by
  induction h generalizing rounds acc with
  | close hblank =>
    obtain ⟨rounds, rfl⟩ : ∃ n, rounds = n + 1 := ⟨rounds - 1, by omega⟩
    rw [List.append_assoc]
    exact items_close faults rounds _ hblank rest
  | first hblank htext ih =>
    obtain ⟨rounds, rfl⟩ : ∃ n, rounds = n + 1 := ⟨rounds - 1, by omega⟩
    obtain ⟨hv, hstart⟩ := List.forall_mem_cons.1 hstart
    obtain ⟨hread, hitem⟩ := List.forall_mem_cons.1 hitem
    rw [List.append_assoc, List.append_assoc, items_first faults rounds hv hblank, List.foldlM_cons]
    refine Step.andThen_map (hread acc _ (htext.ends rest)) fun acc => ?_
    exact ih hstart hitem (Nat.lt_of_succ_lt_succ hrounds) acc
  | next hblank hgap htext ih =>
    obtain ⟨rounds, rfl⟩ : ∃ n, rounds = n + 1 := ⟨rounds - 1, by omega⟩
    obtain ⟨hv, hstart⟩ := List.forall_mem_cons.1 hstart
    obtain ⟨hread, hitem⟩ := List.forall_mem_cons.1 hitem
    simp only [List.append_assoc, List.cons_append]
    rw [items_next faults rounds (dropBlank_append hblank rfl _) hv hgap, List.foldlM_cons]
    refine Step.andThen_map (hread acc _ (htext.ends rest)) fun acc => ?_
    exact ih hstart hitem (Nat.lt_of_succ_lt_succ hrounds) acc

/-- Reading the members of an object folds over them, if what is made of a key and of a value
does not depend on the text behind it. -/
theorem Members.fold {key : List Char → Step String} (name : List Char → Except Fault String)
    {member : σ → String → List Char → Step σ}
    (next : σ → String → List Char → Except Fault σ) {ms : List Member} (h : Members first ms text)
    (hkey : ∀ k rest, IsString k → key (k ++ rest) = (name k).map fun s => (s, rest))
    (hmember : ∀ m ∈ ms, ∀ acc k colon gap rest, Blank colon → Blank gap → Ends rest →
      member acc k (colon ++ ':' :: (gap ++ (m.value ++ rest))) =
        (next acc k m.value).map fun acc => (acc, rest))
    {rounds : Nat} (hrounds : ms.length < rounds) (acc : σ) (rest : List Char) :
    members faults key member rounds first acc (text ++ rest) =
      (ms.foldlM (fun acc m => name m.key >>= fun k => next acc k m.value) acc).map
        fun acc => (acc, rest) := by
  induction h generalizing rounds acc with
  | close hblank =>
    obtain ⟨rounds, rfl⟩ : ∃ n, rounds = n + 1 := ⟨rounds - 1, by omega⟩
    rw [List.append_assoc]
    exact members_close faults rounds _ hblank rest
  | first hblank hm hcolon hgap htext ih =>
    obtain ⟨rounds, rfl⟩ : ∃ n, rounds = n + 1 := ⟨rounds - 1, by omega⟩
    obtain ⟨hvalue, hmember⟩ := List.forall_mem_cons.1 hmember
    simp only [List.append_assoc, List.cons_append]
    rw [members_first faults rounds hblank, List.foldlM_cons, bind_assoc]
    refine Step.andThen_map (hkey _ _ hm) fun k => ?_
    refine Step.andThen_map (hvalue acc k _ _ _ hcolon hgap (htext.ends rest)) fun acc => ?_
    exact ih hmember (Nat.lt_of_succ_lt_succ hrounds) acc
  | next hblank hcomma hm hcolon hgap htext ih =>
    obtain ⟨rounds, rfl⟩ : ∃ n, rounds = n + 1 := ⟨rounds - 1, by omega⟩
    obtain ⟨hvalue, hmember⟩ := List.forall_mem_cons.1 hmember
    simp only [List.append_assoc, List.cons_append]
    rw [members_next faults rounds (dropBlank_append hblank rfl _) hcomma, List.foldlM_cons,
      bind_assoc]
    refine Step.andThen_map (hkey _ _ hm) fun k => ?_
    refine Step.andThen_map (hvalue acc k _ _ _ hcolon hgap (htext.ends rest)) fun acc => ?_
    exact ih hmember (Nat.lt_of_succ_lt_succ hrounds) acc

theorem Items.list_eq {item : σ → List Char → Step σ} (next : σ → List Char → Except Fault σ)
    {vs : List (List Char)} (h : Items true vs text) (hstart : ∀ v ∈ vs, StartsValue v)
    (hitem : ∀ v ∈ vs, ∀ acc rest, Ends rest →
      item acc (v ++ rest) = (next acc v).map fun acc => (acc, rest))
    (acc : σ) (rest : List Char) :
    list faults item acc (text ++ rest) = (vs.foldlM next acc).map fun acc => (acc, rest) := by
  have hlength := h.length_le
  refine h.fold next hstart hitem ?_ acc rest
  simp only [List.length_append, ↓reduceIte] at hlength ⊢
  omega

theorem Members.object_eq {key : List Char → Step String} (name : List Char → Except Fault String)
    {member : σ → String → List Char → Step σ}
    (next : σ → String → List Char → Except Fault σ) {ms : List Member} (h : Members true ms text)
    (hkey : ∀ k rest, IsString k → key (k ++ rest) = (name k).map fun s => (s, rest))
    (hmember : ∀ m ∈ ms, ∀ acc k colon gap rest, Blank colon → Blank gap → Ends rest →
      member acc k (colon ++ ':' :: (gap ++ (m.value ++ rest))) =
        (next acc k m.value).map fun acc => (acc, rest))
    (acc : σ) (rest : List Char) :
    Reader.object faults key member acc (text ++ rest) =
      (ms.foldlM (fun acc m => name m.key >>= fun k => next acc k m.value) acc).map
        fun acc => (acc, rest) := by
  have hlength := h.length_lt
  refine h.fold name next hkey hmember ?_ acc rest
  simp only [List.length_append]
  omega

end Folds

/-! ## Passing over a value -/

section Skipping

variable {levels : Nat} {blank rest : List Char}

theorem skipWithin_of_startsNumber {cs tail : List Char} {c : Char}
    (hdrop : dropBlank cs = c :: tail) (hc : startsNumber c = true) :
    skipWithin (levels + 1) cs = passed (skipNumber (c :: tail)) := by
  rw [skipWithin, hdrop]
  split
  case h_8 heq =>
    cases heq
    rw [if_pos hc]
  all_goals
    rename_i heq
    cases heq
    try cases hc

theorem foldlM_unit {α : Type} (l : List α) :
    l.foldlM (fun _ _ => .ok ()) () = (.ok () : Except Fault Unit) := by
  induction l with
  | nil => rfl
  | cons a l ih => exact ih

theorem skipWithin_append {v : List Char} (h : IsValue v) (hlevels : v.length < levels)
    (hblank : Blank blank) (hrest : Ends rest) :
    skipWithin levels (blank ++ (v ++ rest)) = .ok ((), rest) := by
  induction h generalizing levels blank rest with
  | nullWord =>
    obtain ⟨levels, rfl⟩ : ∃ n, levels = n + 1 := ⟨levels - 1, by omega⟩
    rw [skipWithin, IsValue.nullWord.startsValue.dropBlank hblank]
    rfl
  | trueWord =>
    obtain ⟨levels, rfl⟩ : ∃ n, levels = n + 1 := ⟨levels - 1, by omega⟩
    rw [skipWithin, IsValue.trueWord.startsValue.dropBlank hblank]
    rfl
  | falseWord =>
    obtain ⟨levels, rfl⟩ : ∃ n, levels = n + 1 := ⟨levels - 1, by omega⟩
    rw [skipWithin, IsValue.falseWord.startsValue.dropBlank hblank]
    rfl
  | string hs =>
    obtain ⟨levels, rfl⟩ : ∃ n, levels = n + 1 := ⟨levels - 1, by omega⟩
    rw [skipWithin, (IsValue.string hs).startsValue.dropBlank hblank]
    show passed (skipString (_ ++ rest)) = _
    rw [skipString_append hs]
    rfl
  | number hn =>
    obtain ⟨levels, rfl⟩ : ∃ n, levels = n + 1 := ⟨levels - 1, by omega⟩
    obtain ⟨c, tail, rfl, hc⟩ := hn.eq_cons
    have hskip := skipNumber_append hn hrest
    rw [skipWithin_of_startsNumber ((IsValue.number hn).startsValue.dropBlank hblank rest) hc]
    rw [List.cons_append] at hskip
    show passed (skipNumber (c :: (tail ++ rest))) = _
    rw [hskip]
    rfl
  | @array vs text htext hvs ih =>
    obtain ⟨levels, rfl⟩ : ∃ n, levels = n + 1 := ⟨levels - 1, by omega⟩
    rw [skipWithin, (IsValue.array htext hvs).startsValue.dropBlank hblank]
    show list .skipping (fun _ cs => skipWithin levels cs) () (text ++ rest) = _
    have hitem : ∀ v ∈ vs, ∀ (_ : Unit) rest, Ends rest →
        skipWithin levels (v ++ rest) = .ok ((), rest) := by
      intro v hv _ rest hrest
      have hlength := htext.length_lt_of_mem hv
      simp only [List.length_cons] at hlevels
      exact ih v hv (by omega) .nil hrest
    rw [htext.list_eq (fun _ _ => .ok ()) (fun v hv => (hvs v hv).startsValue) hitem, foldlM_unit]
    rfl
  | @object ms text htext hms ih =>
    obtain ⟨levels, rfl⟩ : ∃ n, levels = n + 1 := ⟨levels - 1, by omega⟩
    rw [skipWithin, (IsValue.object htext hms).startsValue.dropBlank hblank]
    show Reader.object .skipping
      (fun cs => (passed (skipString cs)).andThen fun _ rest => .ok ("", rest))
      (fun _ _ cs => (passed (colon cs)).andThen fun _ cs => skipWithin levels cs) ()
      (text ++ rest) = _
    rw [htext.object_eq (fun _ => .ok "") (fun _ _ _ => .ok ())]
    · exact congrArg _ (foldlM_unit ms)
    · intro k rest hk
      rw [skipString_append hk]
      rfl
    · intro m hm _ _ gap gap' rest hgap hgap' hrest
      have hlength := htext.length_lt_of_mem hm
      simp only [List.length_cons] at hlevels
      rw [colon_append hgap]
      exact ih m hm (by omega) hgap' hrest

/-- **Passing over a value** ends exactly where the value ends. -/
theorem skip_append {v : List Char} (h : IsValue v) (hblank : Blank blank) (hrest : Ends rest) :
    skip (blank ++ (v ++ rest)) = .ok ((), rest) := by
  refine skipWithin_append h ?_ hblank hrest
  simp only [List.length_append]
  omega

end Skipping

end Dataflow.Json
