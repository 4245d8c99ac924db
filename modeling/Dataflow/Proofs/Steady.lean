import Dataflow.Proofs.Grammar
import Dataflow.Proofs.Trees

/-!
# Readers do not look past a value

A reader is steady (`Steady`) if what it makes of a value depends on the characters of the value
alone, whatever blank space stands before it and whatever text behind it that does not go on with a
number. Every reader of a value of one type is steady, and so is every reader of a list or of a map
that is put together from steady ones.

* `Json.alone`: what a reader makes of a value.
* `Json.Settles`, `Json.Steady`: this is what it makes of it anywhere.
* `Json.steady_value`: the reader of trees is steady.
-/

namespace Dataflow.Json

open Token Reader

variable {α β : Type}

/-- What a reader makes of a text on its own. -/
def alone (read : List Char → Step α) (v : List Char) : Except Fault α :=
  (read v).map (·.1)

/-- A reader makes the same of a value wherever it stands. -/
def Settles (read : List Char → Step α) (v : List Char) : Prop :=
  ∀ ⦃blank rest⦄, Blank blank → Ends rest →
    read (blank ++ (v ++ rest)) = (alone read v).map fun a => (a, rest)

/-- A reader makes the same of every value wherever it stands. -/
def Steady (read : List Char → Step α) : Prop :=
  ∀ v, IsValue v → Settles read v

/-- What a reader makes of a value in front of any text, it makes of the value on its own. -/
theorem alone_eq {read : List Char → Step α} {v : List Char} {outcome : Except Fault α}
    (h : ∀ rest, Ends rest → read (v ++ rest) = outcome.map fun a => (a, rest)) :
    alone read v = outcome := by
  have hnone := h [] .nil
  rw [List.append_nil] at hnone
  rw [alone, hnone]
  cases outcome <;> rfl

theorem Settles.of_eq {read : List Char → Step α} {v : List Char} (outcome : Except Fault α)
    (h : ∀ blank rest, Blank blank → Ends rest →
      read (blank ++ (v ++ rest)) = outcome.map fun a => (a, rest)) : Settles read v := by
  intro blank rest hblank hrest
  rw [alone_eq fun rest hrest => h [] rest .nil hrest, h blank rest hblank hrest]

theorem Settles.of_error {read : List Char → Step α} {v : List Char} (fault : Fault)
    (h : ∀ blank rest, Blank blank → Ends rest → read (blank ++ (v ++ rest)) = .error fault) :
    Settles read v :=
  .of_eq (.error fault) h

theorem Settles.tight {read : List Char → Step α} {v rest : List Char} (h : Settles read v)
    (hrest : Ends rest) : read (v ++ rest) = (alone read v).map fun a => (a, rest) := by
  simpa using h .nil hrest

/-- What is read may be checked and passed through a function. -/
theorem Settles.andThen {read : List Char → Step α} {v : List Char} (h : Settles read v)
    {next : α → List Char → Step β} (g : α → Except Fault β)
    (hnext : ∀ a rest, next a rest = (g a).map fun b => (b, rest)) :
    Settles (fun cs => (read cs).andThen next) v := by
  refine .of_eq (alone read v >>= g) fun blank rest hblank hrest => ?_
  exact Step.andThen_map (h hblank hrest) fun a => hnext a rest

theorem Steady.andThen {read : List Char → Step α} (h : Steady read)
    {next : α → List Char → Step β} (g : α → Except Fault β)
    (hnext : ∀ a rest, next a rest = (g a).map fun b => (b, rest)) :
    Steady fun cs => (read cs).andThen next :=
  fun v hv => (h v hv).andThen g hnext

theorem Steady.map {read : List Char → Step α} (h : Steady read) (g : α → β) :
    Steady fun cs => (read cs).andThen fun a rest => .ok (g a, rest) :=
  h.andThen (fun a => .ok (g a)) fun _ _ => rfl

theorem alone_map (read : List Char → Step α) (g : α → β) (v : List Char) :
    alone (fun cs => (read cs).andThen fun a rest => .ok (g a, rest)) v = (alone read v).map g := by
  simp only [alone]
  cases read v <;> rfl

/-! ## The first character of a value -/

section

variable {v cs : List Char} {c : Char}

theorem IsValue.isNumber (h : IsValue (c :: cs)) (hc : startsNumber c = true) :
    IsNumber (c :: cs) := by
  cases h with
  | number hn => exact hn
  | _ => cases hc

theorem IsNumber.not_cons (hc : startsNumber c = false) : ¬ IsNumber (c :: cs) := by
  intro h
  obtain ⟨d, tail, heq, hd⟩ := h.eq_cons
  rw [← (List.cons.inj heq).1, hc] at hd
  cases hd

theorem IsValue.isString (h : IsValue ('"' :: cs)) : IsString cs := by
  cases h with
  | string hs => exact hs
  | number hn => exact absurd hn (IsNumber.not_cons rfl)

theorem IsValue.eq_null (h : IsValue ('n' :: cs)) : cs = ['u', 'l', 'l'] := by
  cases h with
  | nullWord => rfl
  | number hn => exact absurd hn (IsNumber.not_cons rfl)

theorem IsValue.items (h : IsValue ('[' :: cs)) :
    ∃ vs, Items true vs cs ∧ ∀ v ∈ vs, IsValue v := by
  cases h with
  | array htext hvs => exact ⟨_, htext, hvs⟩
  | number hn => exact absurd hn (IsNumber.not_cons rfl)

theorem IsValue.members (h : IsValue ('{' :: cs)) :
    ∃ ms, Members true ms cs ∧ ∀ m ∈ ms, IsValue m.value := by
  cases h with
  | object htext hms => exact ⟨_, htext, hms⟩
  | number hn => exact absurd hn (IsNumber.not_cons rfl)

end

/-! ## Tokens -/

theorem string_append {cs : List Char} (h : IsString cs) (rest : List Char) :
    Token.string (cs ++ rest) = (alone Token.string cs).map fun s => (s, rest) := by
  obtain ⟨outcome, ho⟩ := stringTail_append h
  have hread (rest : List Char) :
      Token.string (cs ++ rest) = (outcome.map String.ofList).map fun s => (s, rest) := by
    rw [Token.string, ho]
    cases outcome <;> rfl
  rw [alone_eq fun rest _ => hread rest, hread]

theorem number_append_of_isNumber {cs rest : List Char} (h : IsNumber cs) (hrest : Ends rest) :
    Token.number (cs ++ rest) = (alone Token.number cs).map fun n => (n, rest) := by
  obtain ⟨outcome, ho⟩ := number_fixed h
  rw [alone_eq ho, ho rest hrest]

/-- The fault of a value that should have been another, by what its token is read as. -/
def misread (expected : String) (describe : α → String) : Except Fault α → Fault
  | .error fault => fault
  | .ok a => .wrongType (describe a) expected

theorem mismatch_quote (expected : String) (cs : List Char) :
    mismatch expected ('"' :: cs) =
      misread expected (fun s => s!"string {Text.quoted s}") (alone Token.string cs) := by
  rw [mismatch, alone]
  cases Token.string cs <;> rfl

theorem mismatch_of_startsNumber {c : Char} (hc : startsNumber c = true) (expected : String)
    (tail : List Char) :
    mismatch expected (c :: tail) = misread expected shown (alone Token.number (c :: tail)) := by
  unfold mismatch
  split
  case h_8 heq =>
    cases heq
    rw [if_pos hc, alone]
    cases Token.number (c :: tail) <;> rfl
  all_goals
    rename_i heq
    cases heq
    try cases hc

/-- The fault of a value of another type is the same whatever follows. -/
theorem mismatch_append {v : List Char} (h : IsValue v) (expected : String) :
    ∃ fault, ∀ rest, Ends rest → mismatch expected (v ++ rest) = fault := by
  cases h with
  | nullWord => exact ⟨_, fun _ _ => rfl⟩
  | trueWord => exact ⟨_, fun _ _ => rfl⟩
  | falseWord => exact ⟨_, fun _ _ => rfl⟩
  | array _ _ => exact ⟨_, fun _ _ => rfl⟩
  | object _ _ => exact ⟨_, fun _ _ => rfl⟩
  | @string cs hs =>
    refine ⟨misread expected (fun s => s!"string {Text.quoted s}") (alone Token.string cs),
      fun rest _ => ?_⟩
    rw [List.cons_append, mismatch_quote, alone, string_append hs]
    cases alone Token.string cs <;> rfl
  | number hn =>
    obtain ⟨c, tail, rfl, hc⟩ := hn.eq_cons
    refine ⟨misread expected shown (alone Token.number (c :: tail)), fun rest hrest => ?_⟩
    have hnumber := number_append_of_isNumber hn hrest
    rw [List.cons_append] at hnumber
    rw [List.cons_append, mismatch_of_startsNumber hc, alone, hnumber]
    cases alone Token.number (c :: tail) <;> rfl

/-- A reader that wants a value with another first character finds a fault in the value. -/
theorem Settles.of_mismatch {read : List Char → Step α} {v : List Char} (hv : IsValue v)
    (expected : String) (h : ∀ cs c tail, dropBlank cs = c :: tail → v.head? = some c →
      read cs = .error (mismatch expected (c :: tail))) : Settles read v := by
  obtain ⟨fault, hfault⟩ := mismatch_append hv expected
  obtain ⟨c, tail, rfl, -⟩ := hv.startsValue
  refine .of_error fault fun blank rest hblank hrest => ?_
  rw [h _ c (tail ++ rest) (hv.startsValue.dropBlank hblank rest) rfl, ← hfault rest hrest]
  rfl

theorem Settles.of_other {read : List Char → Step α} {v : List Char} (hv : IsValue v) {o : Char}
    (hhead : v.head? ≠ some o) (expected : String) (h : ∀ cs c tail, dropBlank cs = c :: tail →
      c ≠ o → read cs = .error (mismatch expected (c :: tail))) : Settles read v := by
  refine .of_mismatch hv expected fun cs c tail hcs hc => h cs c tail hcs ?_
  rintro rfl
  exact hhead hc

/-! ## Values of one type -/

theorem steady_text : Steady Reader.text := by
  intro v hv
  by_cases hhead : v.head? = some '"'
  · obtain ⟨cs, rfl⟩ := List.head?_eq_some_iff.1 hhead
    refine .of_eq (alone Token.string cs) fun blank rest hblank _ => ?_
    rw [Reader.text, hv.startsValue.dropBlank hblank]
    exact string_append hv.isString rest
  · refine .of_other hv hhead "a string" fun cs c tail hcs hne => ?_
    simp [Reader.text, hcs, hne]

theorem steady_int64 : Steady int64 := by
  intro v hv
  obtain ⟨c, tail, rfl, -⟩ := hv.startsValue
  by_cases hc : startsNumber c = true
  · refine .of_eq (alone Token.number (c :: tail) >>= int64OfNumber)
      fun blank rest hblank hrest => ?_
    have hread := number_append_of_isNumber (hv.isNumber hc) hrest
    rw [List.cons_append] at hread
    rw [int64, hv.startsValue.dropBlank hblank, List.cons_append]
    simp only [if_pos hc, hread]
    cases alone Token.number (c :: tail) <;> rfl
  · refine .of_mismatch hv "i64" fun cs d rest hcs hd => ?_
    obtain rfl : c = d := by simpa using hd
    rw [int64, hcs]
    exact if_neg hc

theorem steady_binary64 : Steady binary64 := by
  intro v hv
  obtain ⟨c, tail, rfl, -⟩ := hv.startsValue
  by_cases hc : startsNumber c = true
  · refine .of_eq ((alone Token.number (c :: tail)).map binary64OfNumber)
      fun blank rest hblank hrest => ?_
    have hread := number_append_of_isNumber (hv.isNumber hc) hrest
    rw [List.cons_append] at hread
    rw [binary64, hv.startsValue.dropBlank hblank, List.cons_append]
    simp only [if_pos hc, hread]
    cases alone Token.number (c :: tail) <;> rfl
  · refine .of_mismatch hv "f64" fun cs d rest hcs hd => ?_
    obtain rfl : c = d := by simpa using hd
    rw [binary64, hcs]
    exact if_neg hc

theorem Steady.optional {read : List Char → Step α} (h : Steady read) : Steady (optional read) := by
  intro v hv
  by_cases hhead : v.head? = some 'n'
  · obtain ⟨cs, rfl⟩ := List.head?_eq_some_iff.1 hhead
    obtain rfl := hv.eq_null
    refine .of_eq (.ok none) fun blank rest hblank _ => ?_
    rw [Reader.optional, hv.startsValue.dropBlank hblank]
    rfl
  · refine .of_eq ((alone read v).map some) fun blank rest hblank hrest => ?_
    have hread := (h v hv).tight hrest
    have hother : Reader.optional read (blank ++ (v ++ rest)) =
        (read (v ++ rest)).andThen fun a rest => .ok (some a, rest) := by
      rw [Reader.optional, hv.startsValue.dropBlank hblank]
      obtain ⟨c, tail, rfl, -⟩ := hv.startsValue
      have hne : c ≠ 'n' := by
        rintro rfl
        exact hhead rfl
      simp [hne]
    rw [hother, hread]
    cases alone read v <;> rfl

/-! ## Lists and maps -/

section Collections

variable {σ : Type}

/-- The items of an array, the last one first. -/
def collected (read : List Char → Step α) (vs : List (List Char)) : Except Fault (List α) :=
  vs.foldlM (fun acc v => (alone read v).map (· :: acc)) []

theorem Items.list_collect {read : List Char → Step α} {vs : List (List Char)} {text : List Char}
    (htext : Items true vs text) (hvs : ∀ v ∈ vs, IsValue v) (hread : ∀ v ∈ vs, Settles read v)
    (rest : List Char) :
    list .reading (collect read) [] (text ++ rest) =
      (collected read vs).map fun acc => (acc, rest) := by
  refine htext.list_eq _ (fun v hv => (hvs v hv).startsValue)
    (fun v hv acc rest hrest => ?_) [] rest
  rw [collect, (hread v hv).tight hrest]
  cases alone read v <;> rfl

theorem listOf_array {read : Nat → List Char → Step α} {depth : Nat}
    (h : Steady (read depth)) {vs : List (List Char)} {text blank : List Char}
    (htext : Items true vs text) (hvs : ∀ v ∈ vs, IsValue v) (hblank : Blank blank)
    (rest : List Char) :
    listOf read (depth + 1) (blank ++ ('[' :: text ++ rest)) =
      ((collected (read depth) vs).map List.reverse).map fun as => (as, rest) := by
  rw [Reader.listOf, (IsValue.array htext hvs).startsValue.dropBlank hblank, List.cons_append]
  show (list .reading (collect (read depth)) [] (text ++ rest)).andThen _ = _
  rw [htext.list_collect hvs fun v hm => h v (hvs v hm)]
  cases collected (read depth) vs <;> rfl

theorem Steady.listOf {read : Nat → List Char → Step α} (h : ∀ depth, Steady (read depth))
    (depth : Nat) : Steady (listOf read depth) := by
  intro v hv
  by_cases hhead : v.head? = some '['
  · obtain ⟨cs, rfl⟩ := List.head?_eq_some_iff.1 hhead
    obtain ⟨vs, htext, hvs⟩ := hv.items
    cases depth with
    | zero =>
      refine .of_error .tooDeep fun blank rest hblank _ => ?_
      rw [Reader.listOf, hv.startsValue.dropBlank hblank]
      rfl
    | succ depth =>
      exact .of_eq _ fun blank rest hblank _ => listOf_array (h depth) htext hvs hblank rest
  · refine .of_other hv hhead "a sequence" fun cs c tail hcs hne => ?_
    simp [Reader.listOf, hcs, hne]

/-- What reading the members of an object one by one amounts to. -/
def gathered (member : σ → String → List Char → Step σ) (start : σ) (ms : List Member) :
    Except Fault σ :=
  ms.foldlM (fun acc m => alone Token.string m.key >>= fun key => alone (member acc key) m.value)
    start

theorem Members.object_gather {member : Nat → σ → String → List Char → Step σ} {depth : Nat}
    {ms : List Member} {text : List Char} (htext : Members true ms text)
    (hmember : ∀ m ∈ ms, ∀ acc key, Settles (member depth acc key) m.value) (start : σ)
    (rest : List Char) :
    Reader.object .reading Token.string (afterColon member depth) start (text ++ rest) =
      (gathered (member depth) start ms).map fun acc => (acc, rest) := by
  refine htext.object_eq (alone Token.string) (fun acc key => alone (member depth acc key))
    (fun key rest hkey => string_append hkey rest) ?_ start rest
  intro m hm acc key gap gap' rest hgap hgap' hrest
  rw [afterColon, colon_append hgap]
  exact hmember m hm acc key hgap' hrest

theorem fold_object (member : Nat → σ → String → List Char → Step σ) {depth : Nat}
    (h : ∀ acc key, Steady (member depth acc key)) (expected : String) (start : σ)
    {ms : List Member} {text blank : List Char} (htext : Members true ms text)
    (hms : ∀ m ∈ ms, IsValue m.value) (hblank : Blank blank) (rest : List Char) :
    fold expected start member (depth + 1) (blank ++ ('{' :: text ++ rest)) =
      (gathered (member depth) start ms).map fun acc => (acc, rest) := by
  rw [Reader.fold, (IsValue.object htext hms).startsValue.dropBlank hblank, List.cons_append]
  exact htext.object_gather (fun m hm acc key => h acc key _ (hms m hm)) start rest

theorem Steady.fold {member : Nat → σ → String → List Char → Step σ}
    (h : ∀ depth acc key, Steady (member depth acc key)) (expected : String) (start : σ)
    (depth : Nat) : Steady (fold expected start member depth) := by
  intro v hv
  by_cases hhead : v.head? = some '{'
  · obtain ⟨cs, rfl⟩ := List.head?_eq_some_iff.1 hhead
    obtain ⟨ms, htext, hms⟩ := hv.members
    cases depth with
    | zero =>
      refine .of_error .tooDeep fun blank rest hblank _ => ?_
      rw [Reader.fold, hv.startsValue.dropBlank hblank]
      rfl
    | succ depth =>
      exact .of_eq _ fun blank rest hblank _ =>
        fold_object member (h depth) expected start htext hms hblank rest
  · refine .of_other hv hhead expected fun cs c tail hcs hne => ?_
    simp [Reader.fold, hcs, hne]

theorem mapOf_object {read : Nat → List Char → Step α} {depth : Nat} (h : Steady (read depth))
    {ms : List Member} {text blank : List Char} (htext : Members true ms text)
    (hms : ∀ m ∈ ms, IsValue m.value) (hblank : Blank blank) (rest : List Char) :
    mapOf read (depth + 1) (blank ++ ('{' :: text ++ rest)) =
      (ms.foldlM (fun acc m => alone Token.string m.key >>= fun key =>
        (alone (read depth) m.value).map (acc.insert key)) KeyMap.empty).map
        fun m => (m, rest) := by
  let insert (depth : Nat) (m : KeyMap α) (key : String) (cs : List Char) : Step (KeyMap α) :=
    (read depth cs).andThen fun a rest => .ok (m.insert key a, rest)
  have hinsert (m : KeyMap α) (key : String) : Steady (insert depth m key) :=
    h.map fun a => m.insert key a
  simp only [← alone_map]
  exact fold_object insert hinsert "a map" KeyMap.empty htext hms hblank rest

theorem Steady.mapOf {read : Nat → List Char → Step α} (h : ∀ depth, Steady (read depth))
    (depth : Nat) : Steady (mapOf read depth) := by
  refine Steady.fold (fun depth m key => ?_) "a map" KeyMap.empty depth
  exact (h depth).map fun a => m.insert key a

end Collections

/-! ## Trees -/

/-- **The reader of trees** is steady at every depth. -/
theorem steady_value (depth : Nat) : Steady (value depth) := by
  intro v hv
  induction hv generalizing depth with
  | nullWord =>
    refine .of_eq (.ok .null) fun blank rest hblank _ => ?_
    rw [value, IsValue.nullWord.startsValue.dropBlank hblank]
    rfl
  | trueWord =>
    refine .of_eq (.ok (.bool true)) fun blank rest hblank _ => ?_
    rw [value, IsValue.trueWord.startsValue.dropBlank hblank]
    rfl
  | falseWord =>
    refine .of_eq (.ok (.bool false)) fun blank rest hblank _ => ?_
    rw [value, IsValue.falseWord.startsValue.dropBlank hblank]
    rfl
  | @string cs hs =>
    refine .of_eq ((alone Token.string cs).map .string) fun blank rest hblank _ => ?_
    rw [value, (IsValue.string hs).startsValue.dropBlank hblank]
    show (Token.string (cs ++ rest)).andThen _ = _
    rw [string_append hs]
    cases alone Token.string cs <;> rfl
  | @number cs hn =>
    refine .of_eq ((alone Token.number cs).map .number) fun blank rest hblank hrest => ?_
    have hdrop := (IsValue.number hn).startsValue.dropBlank hblank rest
    have hread := number_append_of_isNumber hn hrest
    obtain ⟨c, tail, rfl, hc⟩ := hn.eq_cons
    rw [value_of_startsNumber hdrop hc]
    rw [List.cons_append] at hread
    show (Token.number (c :: (tail ++ rest))).andThen _ = _
    rw [hread]
    cases alone Token.number (c :: tail) <;> rfl
  | @array vs text htext hvs ih =>
    have hstart := (IsValue.array htext hvs).startsValue
    cases depth with
    | zero =>
      refine .of_error .tooDeep fun blank rest hblank _ => ?_
      rw [value, hstart.dropBlank hblank]
      rfl
    | succ depth =>
      refine .of_eq ((collected (value depth) vs).map fun acc => .array acc.reverse)
        fun blank rest hblank _ => ?_
      rw [value, hstart.dropBlank hblank]
      show (list .reading (collect (value depth)) [] (text ++ rest)).andThen _ = _
      rw [htext.list_collect hvs fun v hv => ih v hv depth]
      cases collected (value depth) vs <;> rfl
  | @object ms text htext hms ih =>
    have hstart := (IsValue.object htext hms).startsValue
    cases depth with
    | zero =>
      refine .of_error .tooDeep fun blank rest hblank _ => ?_
      rw [value, hstart.dropBlank hblank]
      rfl
    | succ depth =>
      have hmember : ∀ m ∈ ms, ∀ acc key, Settles (collectMember depth acc key) m.value :=
        fun m hm acc key => (ih m hm depth).andThen (fun j => .ok ((key, j) :: acc)) fun _ _ => rfl
      refine .of_eq ((gathered (collectMember depth) [] ms).map fun acc => .object acc.reverse)
        fun blank rest hblank _ => ?_
      rw [value, hstart.dropBlank hblank]
      show (Reader.object .reading Token.string (afterColon collectMember depth) []
        (text ++ rest)).andThen _ = _
      rw [htext.object_gather hmember]
      cases gathered (collectMember depth) [] ms <;> rfl

end Dataflow.Json
