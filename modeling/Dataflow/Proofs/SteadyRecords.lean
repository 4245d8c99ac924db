import Dataflow.Json.Record
import Dataflow.Proofs.Steady

/-!
# Tags and records do not look past a value

The reader of a tag is steady if the readers of what stands behind the tags are, and the reader of a
record, in either of its forms, if the readers of its fields are. What is made of a record is a fold
over the members of an object, and a walk through the items of an array.

* `Json.Record.assembled`: what is made of the members of an object.
* `Json.Record.listed`: what is made of the items of an array.
* `Json.Record.steady`: a record is steady if its fields are.
-/

namespace Dataflow.Json

open Token Reader

variable {α β : Type}

/-! ## Tags -/

section Tags

/-- Nothing but the closing brace may stand behind the value of a tag. -/
theorem closeTag_append {ms : List Member} {text : List Char} (h : Members false ms text)
    (rest : List Char) :
    closeTag (text ++ rest) = if ms.isEmpty then .ok rest else .error .expectedValue := by
  cases h with
  | close hblank =>
    rw [closeTag, List.append_assoc, List.cons_append, dropBlank_append hblank rfl]
    rfl
  | next hblank _ _ _ _ _ =>
    rw [closeTag, List.append_assoc, List.cons_append, dropBlank_append hblank rfl]
    rfl

theorem mem_of_known {variants : List (String × β)} {tag : String} {b : β}
    (h : known variants tag = .ok b) : (tag, b) ∈ variants := by
  unfold known at h
  split at h
  · rename_i hlookup
    cases h
    obtain ⟨front, back, rfl, -⟩ := List.lookup_eq_some_iff.1 hlookup
    exact List.mem_append_right front List.mem_cons_self
  · cases h

variable {variants : List (String × β)} {bare : β → Except Fault α}
  {full : Nat → β → List Char → Step α}

/-- An object that stands for a tag, behind its opening brace. -/
def taggedObject (variants : List (String × β)) (full : Nat → β → List Char → Step α) (depth : Nat)
    (cs : List Char) : Step α :=
  (tagKey cs).andThen fun tag rest =>
    match known variants tag with
    | .error fault => .error fault
    | .ok b =>
      (passed (colon rest)).andThen fun _ rest =>
        (full depth b rest).andThen fun a rest => (closeTag rest).map fun rest => (a, rest)

/-- An object that stands for a tag is made of the value of its first member, and has no other. -/
theorem taggedObject_cons {depth : Nat} {m : Member} {ms : List Member} {text : List Char}
    (htext : Members true (m :: ms) text)
    (h : ∀ tag b, alone Token.string m.key = .ok tag → known variants tag = .ok b →
      Settles (full depth b) m.value) (rest : List Char) :
    taggedObject variants full depth (text ++ rest) =
      (alone Token.string m.key >>= fun tag => known variants tag >>= fun b =>
        alone (full depth b) m.value >>= fun a =>
          if ms.isEmpty then .ok a else .error .expectedValue).map fun a => (a, rest) := by
  cases htext with
  | @first blank gap gap' text m ms hblank hkey hgap hgap' htext =>
    have hread : tagKey (blank ++ '"' ::
        (m.key ++ (gap ++ ':' :: (gap' ++ (m.value ++ (text ++ rest)))))) =
          (alone Token.string m.key).map fun tag =>
            (tag, gap ++ ':' :: (gap' ++ (m.value ++ (text ++ rest)))) := by
      rw [tagKey, dropBlank_append hblank rfl]
      exact string_append hkey _
    simp only [List.append_assoc, List.cons_append, taggedObject, hread]
    cases htag : alone Token.string m.key with
    | error fault => rfl
    | ok tag =>
      show (match known variants tag with
        | .error fault => .error fault
        | .ok b => (passed (colon (gap ++ ':' :: _))).andThen _) =
          Except.map _ (known variants tag >>= _)
      rw [colon_append hgap]
      cases hknown : known variants tag with
      | error fault => rfl
      | ok b =>
        refine Step.andThen_map (h tag b htag hknown hgap' (htext.ends rest)) fun a => ?_
        rw [closeTag_append htext]
        cases ms.isEmpty <;> rfl

theorem taggedObject_append
    (h : ∀ p ∈ variants, ∀ depth, Steady (full depth p.2)) (depth : Nat)
    {ms : List Member} {text : List Char} (htext : Members true ms text)
    (hms : ∀ m ∈ ms, IsValue m.value) : ∃ outcome : Except Fault α, ∀ rest,
      taggedObject variants full depth (text ++ rest) = outcome.map fun a => (a, rest) := by
  cases ms with
  | nil =>
    refine ⟨.error .expectedValue, fun rest => ?_⟩
    cases htext with
    | close hblank =>
      rw [taggedObject, tagKey, List.append_assoc, List.cons_append, dropBlank_append hblank rfl]
      rfl
  | cons m ms =>
    refine ⟨_, taggedObject_cons htext fun tag b _ hb => ?_⟩
    exact h _ (mem_of_known hb) depth m.value (hms m List.mem_cons_self)

theorem tagged_object {depth : Nat} {cs blank : List Char} (hv : IsValue ('{' :: cs))
    (hblank : Blank blank) (rest : List Char) :
    tagged variants bare full (depth + 1) (blank ++ ('{' :: cs ++ rest)) =
      taggedObject variants full depth (cs ++ rest) := by
  rw [Json.tagged, hv.startsValue.dropBlank hblank]
  rfl

theorem Steady.tagged
    (h : ∀ p ∈ variants, ∀ depth, Steady (full depth p.2)) (depth : Nat) :
    Steady (tagged variants bare full depth) := by
  intro v hv
  by_cases hquote : v.head? = some '"'
  · obtain ⟨cs, rfl⟩ := List.head?_eq_some_iff.1 hquote
    refine .of_eq (alone Token.string cs >>= fun tag => known variants tag >>= bare)
      fun blank rest hblank _ => ?_
    rw [Json.tagged, hv.startsValue.dropBlank hblank]
    show (Token.string (cs ++ rest)).andThen _ = _
    rw [string_append hv.isString]
    cases alone Token.string cs with
    | error fault => rfl
    | ok tag =>
      show (match known variants tag with | .error fault => _ | .ok b => _) =
        Except.map _ (known variants tag >>= bare)
      cases known variants tag <;> rfl
  by_cases hbrace : v.head? = some '{'
  · obtain ⟨cs, rfl⟩ := List.head?_eq_some_iff.1 hbrace
    obtain ⟨ms, htext, hms⟩ := hv.members
    cases depth with
    | zero =>
      refine .of_error .tooDeep fun blank rest hblank _ => ?_
      rw [Json.tagged, hv.startsValue.dropBlank hblank]
      rfl
    | succ depth =>
      obtain ⟨outcome, ho⟩ := taggedObject_append h depth htext hms
      exact .of_eq outcome fun blank rest hblank _ => (tagged_object hv hblank rest).trans (ho rest)
  · refine .of_error .expectedValue fun blank rest hblank _ => ?_
    rw [Json.tagged, hv.startsValue.dropBlank hblank]
    obtain ⟨c, tail, rfl, -⟩ := hv.startsValue
    have hne : c ≠ '"' := by
      rintro rfl
      exact hquote rfl
    have hne' : c ≠ '{' := by
      rintro rfl
      exact hbrace rfl
    simp [hne, hne']

theorem steady_unit : Steady Json.unit := by
  intro v hv
  by_cases hhead : v.head? = some 'n'
  · obtain ⟨cs, rfl⟩ := List.head?_eq_some_iff.1 hhead
    obtain rfl := hv.eq_null
    refine .of_eq (.ok ()) fun blank rest hblank _ => ?_
    rw [Json.unit, hv.startsValue.dropBlank hblank]
    rfl
  · refine .of_other hv hhead "unit" fun cs c tail hcs hne => ?_
    simp [Json.unit, hcs, hne]

theorem steady_unitTag (variants : List (String × α)) (depth : Nat) :
    Steady (unitTag variants depth) := by
  refine Steady.tagged (fun p _ _ => ?_) depth
  exact steady_unit.map fun _ => p.2

theorem steady_valueTag {variants : List (String × (Nat → List Char → Step α))}
    (h : ∀ p ∈ variants, ∀ depth, Steady (p.2 depth)) (depth : Nat) :
    Steady (valueTag variants depth) :=
  Steady.tagged h depth

end Tags

/-! ## Records -/

namespace Record

variable {δ : Type} {r : Record δ α}

/-- What is made of a member of an object: a field that is not set is read from its value. -/
def taken (r : Record δ α) (depth : Nat) (draft : δ) (name : String) (v : List Char) :
    Except Fault δ :=
  match r.fields.find? fun f => f.name = name with
  | none => .ok draft
  | some f => if f.isSet draft then .error (.repeatedField name) else alone (f.read depth draft) v

/-- What is made of the items of an array: every field is read from its own item, and fields that
are not required may be left out at the end. -/
def listed (r : Record δ α) (depth : Nat) :
    List (Field δ) → Nat → δ → List (List Char) → Except Fault α
  | [], _, draft, vs =>
    r.finish draft >>= fun a => if vs.isEmpty then .ok a else .error .trailingCharacters
  | f :: fields, index, draft, [] =>
    if f.required then
      .error (.tooShort index s!"{r.described} with {r.fields.length} elements")
    else r.listed depth fields (index + 1) draft []
  | f :: fields, index, draft, v :: vs =>
    alone (f.read depth draft) v >>= fun draft => r.listed depth fields (index + 1) draft vs

/-- What is made of the members of an object. -/
def assembled (r : Record δ α) (depth : Nat) (draft : δ) (ms : List Member) : Except Fault δ :=
  ms.foldlM (fun draft m => alone Token.string m.key >>= fun name =>
    r.taken depth draft name m.value) draft

theorem closeList_append {first : Bool} {vs : List (List Char)} {text : List Char}
    (h : Items first vs text) (hvs : ∀ v ∈ vs, IsValue v) (rest : List Char) :
    closeList (text ++ rest) = if vs.isEmpty then .ok rest else .error .trailingCharacters := by
  cases h with
  | close hblank =>
    rw [closeList, List.append_assoc, List.cons_append, dropBlank_append hblank rfl]
    rfl
  | @first blank v text vs hblank _ =>
    have hv := (hvs v List.mem_cons_self).startsValue
    rw [closeList, List.append_assoc, List.append_assoc, hv.dropBlank hblank]
    obtain ⟨c, cs, rfl, -, hclose, hcomma⟩ := hv
    simp [hclose, hcomma]
  | @next blank gap v text vs hblank hgap _ =>
    have hv := (hvs v List.mem_cons_self).startsValue
    rw [closeList, List.append_assoc, List.cons_append, dropBlank_append hblank rfl]
    simp only [List.append_assoc, hv.dropBlank hgap]
    obtain ⟨c, cs, rfl, -, hclose, -⟩ := hv
    simp [hclose]

/-- A record whose fields have been read from a list. -/
def finishList (r : Record δ α) (draft : δ) (cs : List Char) : Step α :=
  match r.finish draft, closeList cs with
  | .ok a, .ok rest => .ok (a, rest)
  | .error fault, _ => .error fault
  | _, .error fault => .error fault

section Positions

variable {depth index : Nat} {f : Field δ} {fields : List (Field δ)} {draft : δ}
  {v blank rest : List Char}

theorem positions_first (hv : StartsValue v) (hblank : Blank blank) :
    r.positions depth (f :: fields) index true draft (blank ++ (v ++ rest)) =
      (f.read depth draft (v ++ rest)).andThen fun draft rest =>
        r.positions depth fields (index + 1) false draft rest := by
  rw [positions, hv.dropBlank hblank]
  obtain ⟨c, cs, rfl, -, hclose, -⟩ := hv
  simp

theorem positions_next {cs : List Char} (hcs : dropBlank cs = ',' :: (blank ++ (v ++ rest)))
    (hv : StartsValue v) (hblank : Blank blank) :
    r.positions depth (f :: fields) index false draft cs =
      (f.read depth draft (v ++ rest)).andThen fun draft rest =>
        r.positions depth fields (index + 1) false draft rest := by
  have hdrop := hv.dropBlank hblank rest
  obtain ⟨c, tail, rfl, -, hclose, -⟩ := hv
  rw [List.cons_append] at hdrop
  simp [positions, hcs, hdrop, hclose]

end Positions

variable (hr : ∀ f ∈ r.fields, ∀ depth draft, Steady (f.read depth draft)) {depth : Nat}
include hr

theorem member_append {draft : δ} {name : String} {v gap gap' rest : List Char} (hv : IsValue v)
    (hgap : Blank gap) (hgap' : Blank gap') (hrest : Ends rest) :
    r.member depth draft name (gap ++ ':' :: (gap' ++ (v ++ rest))) =
      (r.taken depth draft name v).map fun draft => (draft, rest) := by
  unfold member taken
  cases hfind : r.fields.find? fun f => f.name = name with
  | none =>
    simp only [colon_append hgap, passed, Except.map, Step.andThen_ok, skip_append hv hgap' hrest]
  | some f =>
    have hread := hr f (List.mem_of_find?_eq_some hfind) depth draft v hv hgap' hrest
    cases hset : f.isSet draft with
    | true =>
      simp only [hset, ↓reduceIte]
      rfl
    | false =>
      simp only [hset, Bool.false_eq_true, ↓reduceIte, colon_append hgap]
      exact hread

theorem positions_append {fields : List (Field δ)} (hfields : ∀ f ∈ fields, f ∈ r.fields)
    {index : Nat} {first : Bool} {draft : δ} {vs : List (List Char)} {text : List Char}
    (htext : Items first vs text) (hvs : ∀ v ∈ vs, IsValue v) (rest : List Char) :
    ((r.positions depth fields index first draft (text ++ rest)).andThen r.finishList) =
      (r.listed depth fields index draft vs).map fun a => (a, rest) := by
  induction fields generalizing index first draft vs text with
  | nil =>
    rw [positions, Step.andThen_ok, finishList, closeList_append htext hvs, listed]
    cases r.finish draft <;> cases vs.isEmpty <;> rfl
  | cons f fields ih =>
    have hothers : ∀ f ∈ fields, f ∈ r.fields := fun f hf => hfields f (List.mem_cons_of_mem _ hf)
    have hread {v text : List Char} {vs : List (List Char)} (htext : Items false vs text)
        (hvs : ∀ w ∈ v :: vs, IsValue w) :
        Step.andThen ((f.read depth draft (v ++ (text ++ rest))).andThen fun draft rest =>
          r.positions depth fields (index + 1) false draft rest) r.finishList =
          (r.listed depth (f :: fields) index draft (v :: vs)).map fun a => (a, rest) := by
      have hfield := hr f (hfields f List.mem_cons_self) depth draft v (hvs v List.mem_cons_self)
      rw [hfield.tight (htext.ends rest), listed]
      cases alone (f.read depth draft) v with
      | error fault => rfl
      | ok draft => exact ih hothers htext fun v hv => hvs v (List.mem_cons_of_mem _ hv)
    cases htext with
    | close hblank =>
      have hempty : Items first [] ([] ++ [']']) := .close .nil
      rw [positions, List.append_assoc, List.cons_append, dropBlank_append hblank rfl, listed]
      cases f.required with
      | true => rfl
      | false => exact ih hothers hempty hvs
    | first hblank htext =>
      rw [List.append_assoc, List.append_assoc,
        positions_first (hvs _ List.mem_cons_self).startsValue hblank]
      exact hread htext hvs
    | next hblank hgap htext =>
      simp only [List.append_assoc, List.cons_append]
      have hv := (hvs _ List.mem_cons_self).startsValue
      rw [positions_next (dropBlank_append hblank rfl _) hv hgap]
      exact hread htext hvs

theorem read_object {ms : List Member} {text : List Char} (htext : Members true ms text)
    (hms : ∀ m ∈ ms, IsValue m.value) {blank : List Char} (hblank : Blank blank)
    (rest : List Char) :
    r.read (depth + 1) (blank ++ ('{' :: text ++ rest)) =
      (r.assembled depth r.blank ms >>= r.finish).map fun a => (a, rest) := by
  rw [read, (IsValue.object htext hms).startsValue.dropBlank hblank]
  refine Step.andThen_map (htext.object_eq (alone Token.string) (r.taken depth)
    (fun key rest hkey => string_append hkey rest) ?_ r.blank rest) fun draft => rfl
  intro m hm draft name gap gap' rest hgap hgap' hrest
  exact member_append hr (hms m hm) hgap hgap' hrest

theorem read_array {vs : List (List Char)} {text : List Char} (htext : Items true vs text)
    (hvs : ∀ v ∈ vs, IsValue v) {blank : List Char} (hblank : Blank blank) (rest : List Char) :
    r.read (depth + 1) (blank ++ ('[' :: text ++ rest)) =
      (r.listed depth r.fields 0 r.blank vs).map fun a => (a, rest) := by
  rw [read, (IsValue.array htext hvs).startsValue.dropBlank hblank]
  exact positions_append hr (fun _ hf => hf) htext hvs rest

/-- **A record is steady** if its fields are. -/
theorem steady (depth : Nat) : Steady (r.read depth) := by
  intro v hv
  by_cases hbrace : v.head? = some '{'
  · obtain ⟨cs, rfl⟩ := List.head?_eq_some_iff.1 hbrace
    obtain ⟨ms, htext, hms⟩ := hv.members
    cases depth with
    | zero =>
      refine .of_error .tooDeep fun blank rest hblank _ => ?_
      rw [read, hv.startsValue.dropBlank hblank]
      rfl
    | succ depth => exact .of_eq _ fun blank rest hblank _ => read_object hr htext hms hblank rest
  by_cases hbracket : v.head? = some '['
  · obtain ⟨cs, rfl⟩ := List.head?_eq_some_iff.1 hbracket
    obtain ⟨vs, htext, hvs⟩ := hv.items
    cases depth with
    | zero =>
      refine .of_error .tooDeep fun blank rest hblank _ => ?_
      rw [read, hv.startsValue.dropBlank hblank]
      rfl
    | succ depth => exact .of_eq _ fun blank rest hblank _ => read_array hr htext hvs hblank rest
  · refine .of_mismatch hv r.described fun cs c tail hcs hc => ?_
    have hne : c ≠ '{' := by
      rintro rfl
      exact hbrace hc
    have hne' : c ≠ '[' := by
      rintro rfl
      exact hbracket hc
    simp [read, hcs, hne, hne']

end Record

end Dataflow.Json
