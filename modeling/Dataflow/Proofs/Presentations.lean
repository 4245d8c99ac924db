import Dataflow.Proofs.Alike
import Dataflow.Proofs.SteadyRecords
import Mathlib.Data.List.Pairwise

/-!
# One record, many presentations

A record that is read from an object is read as the same from any other presentation of it: with
the members of the object in another order, with more members that are no fields, with the values of
its fields written in another way, or as a list of its fields in which a default stands for a field
that the object leaves out. What is gathered from the members of an object is described by the
members alone (`Readable`, `Lawful.get?_of_named`), without regard to their order.

* `Json.Slot`, `Json.Record.Lawful`: a record whose fields do not get into each other's way.
* `Json.Restates`: the presentations of the record that an object holds.
* `Json.Record.Lawful.restatable`: they are all read as what the object is read as.
* `Json.Record.Lawful.alone_object_insert`: what a member more makes of an object.
-/

namespace Dataflow.Json

open Token Reader

variable {α δ : Type}

/-! ## Slots -/

/-- A field of a record whose content is found and put in its own place of a draft, with the content
it has if it is left out. -/
structure Slot (δ : Type) where
  Content : Type
  name : String
  get? : δ → Option Content
  set : δ → Content → δ
  read : Nat → List Char → Step Content
  default : Option Content

/-- The field of the record reader that the slot describes. -/
def Slot.field (s : Slot δ) : Field δ :=
  .of s.name s.default.isNone s.get? s.set s.read

/-- What a slot of a draft counts for. -/
def Slot.filled (s : Slot δ) (d : δ) : Option s.Content :=
  (s.get? d).or s.default

/-- The first slot is not touched by setting the second. -/
def Slot.Apart (s t : Slot δ) : Prop :=
  s.name ≠ t.name ∧ ∀ d b, s.get? (t.set d b) = s.get? d

theorem Slot.alone_read_field (s : Slot δ) (depth : Nat) (d : δ) (v : List Char) :
    alone (s.field.read depth d) v = (alone (s.read depth) v).map (s.set d) :=
  alone_map (s.read depth) (s.set d) v

theorem find?_field (slots : List (Slot δ)) (name : String) :
    (slots.map Slot.field).find? (fun f => f.name = name) =
      (slots.find? fun s => s.name = name).map Slot.field :=
  List.find?_map

/-- The fields of a record have slots of their own, and what is made of a draft depends on what the
slots count for. -/
structure Record.Lawful (r : Record δ α) (slots : List (Slot δ)) : Prop where
  fields : r.fields = slots.map Slot.field
  steady : ∀ s ∈ slots, ∀ depth, Steady (s.read depth)
  apart : slots.Pairwise fun s t => s.Apart t ∧ t.Apart s
  get?_set : ∀ s ∈ slots, ∀ d b, s.get? (s.set d b) = some b
  get?_blank : ∀ s ∈ slots, s.get? r.blank = none
  finish : ∀ d d', (∀ s ∈ slots, s.filled d = s.filled d') → r.finish d = r.finish d'

/-! ## Presentations -/

section Presentations

variable (slots : List (Slot δ)) (depth : Nat)

/-- The name of a member is not that of a field. -/
def Member.Foreign (m : Member) : Prop :=
  ∃ name, m.name = .ok name ∧ ∀ s ∈ slots, s.name ≠ name

/-- A member with the same name, whose value is read alike by the field of that name. -/
structure Member.Rewritten (m m' : Member) : Prop where
  name : m'.name = m.name
  value : ∀ s ∈ slots, m.name = .ok s.name → Alike (s.read depth) m.value m'.value

/-- A text for the field in a list: that of its member, or one for the default if no member has its
name. -/
def Stands (ms : List Member) (s : Slot δ) (v : List Char) : Prop :=
  (∃ m ∈ ms, m.name = .ok s.name ∧ Alike (s.read depth) m.value v) ∨
    (∀ m ∈ ms, m.name ≠ .ok s.name) ∧ ∃ b, s.default = some b ∧ ReadsAs (s.read depth) v b

/-- The presentations of the record in an object with the members `ms`. -/
inductive Restates (ms : List Member) : List Char → Prop
  | object {ms' all extra : List Member} {v : List Char} :
    List.Forall₂ (Member.Rewritten slots depth) ms ms' → (∀ m ∈ extra, m.Foreign slots) →
      all.Perm (ms' ++ extra) → IsObject all v → Restates ms v
  | list {vs : List (List Char)} {v : List Char} :
    List.Forall₂ (Stands depth ms) slots vs → IsArray vs v → Restates ms v

end Presentations

/-- An object that is read as a record may be restated, wherever it stands in a text and however
deep, or as a document of its own. -/
structure Record.Restatable (r : Record δ α) (slots : List (Slot δ)) : Prop where
  fields : r.fields = slots.map Slot.field
  anywhere {depth : Nat} {ms : List Member} {v v' blank rest : List Char} {a : α} :
    IsObject ms v → Restates slots depth ms v' → Blank blank → Ends rest →
      r.read (depth + 1) (blank ++ (v ++ rest)) = .ok (a, rest) → ReadsAs (r.read (depth + 1)) v' a
  document {ms : List Member} {v v' : List Char} {text text' : String} {a : α} :
    IsObject ms v → Restates slots (depthLimit - 1) ms v' → IsDocument v text →
      IsDocument v' text' → Reader.document r.read text = .ok a →
        Reader.document r.read text' = .ok a

/-! ## Drafts -/

/-- The members of an object take one draft to another: each of them is passed over or sets a slot
that was empty. -/
inductive Draws (slots : List (Slot δ)) (depth : Nat) : δ → List Member → δ → Prop
  | nil (d : δ) : Draws slots depth d [] d
  | foreign {m : Member} {ms : List Member} {d d' : δ} :
    m.Foreign slots → Draws slots depth d ms d' → Draws slots depth d (m :: ms) d'
  | slot {m : Member} {ms : List Member} {d d' : δ} {s : Slot δ} {b : s.Content} :
    s ∈ slots → m.name = .ok s.name → s.get? d = none → alone (s.read depth) m.value = .ok b →
      Draws slots depth (s.set d b) ms d' → Draws slots depth d (m :: ms) d'

/-- Members that take a draft to some other: every key is a name, and a field is given at most once,
in an empty slot, by a value that its reader accepts. -/
structure Readable (slots : List (Slot δ)) (depth : Nat) (d : δ) (ms : List Member) : Prop where
  named : ∀ m ∈ ms, ∃ name, m.name = .ok name
  once : (ms.map Member.name).Pairwise fun n n' => ∀ s ∈ slots, n = .ok s.name → n' ≠ .ok s.name
  empty : ∀ s ∈ slots, ∀ m ∈ ms, m.name = .ok s.name → s.get? d = none
  accepted : ∀ s ∈ slots, ∀ m ∈ ms, m.name = .ok s.name → ∃ b, alone (s.read depth) m.value = .ok b

theorem Member.Foreign.name_ne {slots : List (Slot δ)} {m : Member} (h : m.Foreign slots)
    {s : Slot δ} (hs : s ∈ slots) : m.name ≠ .ok s.name := by
  obtain ⟨name, hm, hname⟩ := h
  rw [hm]
  exact fun heq => hname s hs (Except.ok.inj heq).symm

namespace Record.Lawful

variable {r : Record δ α} {slots : List (Slot δ)} (h : r.Lawful slots) {depth : Nat}
include h

theorem steady_fields : ∀ f ∈ r.fields, ∀ depth draft, Steady (f.read depth draft) := by
  intro f hf depth draft
  rw [h.fields] at hf
  obtain ⟨s, hs, rfl⟩ := List.mem_map.1 hf
  exact (h.steady s hs depth).map (s.set draft)

theorem apart_of_ne {s t : Slot δ} (hs : s ∈ slots) (ht : t ∈ slots) (hne : s ≠ t) :
    s.Apart t :=
  have : Std.Symm fun s t : Slot δ => s.Apart t ∧ t.Apart s := ⟨fun _ _ => And.symm⟩
  (h.apart.forall hs ht hne).1

theorem eq_of_name {s t : Slot δ} (hs : s ∈ slots) (ht : t ∈ slots) (hname : s.name = t.name) :
    s = t := by
  by_contra hne
  exact (h.apart_of_ne hs ht hne).1 hname

theorem find?_eq {s : Slot δ} (hs : s ∈ slots) :
    r.fields.find? (fun f => f.name = s.name) = some s.field := by
  rw [h.fields, find?_field]
  cases hfind : slots.find? fun t => t.name = s.name with
  | none => simpa using List.find?_eq_none.1 hfind s hs
  | some t =>
    have hname : t.name = s.name := by simpa using List.find?_some hfind
    rw [h.eq_of_name (List.mem_of_find?_eq_some hfind) hs hname]
    rfl

theorem taken_foreign {m : Member} (hm : m.Foreign slots) (d : δ) :
    (m.name >>= fun name => r.taken depth d name m.value) = .ok d := by
  obtain ⟨name, hname, hne⟩ := hm
  rw [hname]
  show r.taken depth d name m.value = .ok d
  have hfind : r.fields.find? (fun f => f.name = name) = none := by
    rw [h.fields, find?_field, Option.map_eq_none_iff, List.find?_eq_none]
    intro s hs
    simpa using hne s hs
  rw [taken, hfind]

theorem taken_slot {m : Member} {s : Slot δ} (hs : s ∈ slots) (hm : m.name = .ok s.name) (d : δ) :
    (m.name >>= fun name => r.taken depth d name m.value) =
      if (s.get? d).isSome then .error (.repeatedField s.name)
      else (alone (s.read depth) m.value).map (s.set d) := by
  rw [hm, ← s.alone_read_field]
  show r.taken depth d s.name m.value = _
  rw [taken, h.find?_eq hs]
  rfl

/-- What one member does to a draft: it is passed over, or it sets an empty slot. -/
theorem eq_of_taken {m : Member} {d d' : δ}
    (hread : (m.name >>= fun name => r.taken depth d name m.value) = .ok d') :
    m.Foreign slots ∧ d' = d ∨ ∃ s ∈ slots, m.name = .ok s.name ∧ s.get? d = none ∧
      ∃ b, alone (s.read depth) m.value = .ok b ∧ d' = s.set d b := by
  cases hm : m.name with
  | error fault =>
    rw [hm] at hread
    cases hread
  | ok name =>
    by_cases hknown : ∃ s ∈ slots, s.name = name
    · obtain ⟨s, hs, rfl⟩ := hknown
      rw [h.taken_slot hs hm] at hread
      cases hset : s.get? d with
      | some b =>
        rw [hset] at hread
        cases hread
      | none =>
        cases hb : alone (s.read depth) m.value with
        | error fault =>
          rw [hset, hb] at hread
          cases hread
        | ok b =>
          rw [hset, hb] at hread
          cases hread
          exact .inr ⟨s, hs, rfl, hset, b, hb, rfl⟩
    · have hforeign : m.Foreign slots := ⟨name, hm, fun s hs hname => hknown ⟨s, hs, hname⟩⟩
      rw [h.taken_foreign hforeign] at hread
      cases hread
      exact .inl ⟨hforeign, rfl⟩

/-- Reading members is drawing them into a draft. -/
theorem draws_iff {ms : List Member} {d d' : δ} :
    r.assembled depth d ms = .ok d' ↔ Draws slots depth d ms d' := by
  have hcons (m : Member) (ms : List Member) (d : δ) : r.assembled depth d (m :: ms) =
      (m.name >>= fun name => r.taken depth d name m.value) >>= fun d => r.assembled depth d ms :=
    List.foldlM_cons
  constructor
  · intro hread
    induction ms generalizing d with
    | nil =>
      cases hread
      exact .nil _
    | cons m ms ih =>
      rw [hcons] at hread
      cases hm : m.name >>= fun name => r.taken depth d name m.value with
      | error fault =>
        rw [hm] at hread
        cases hread
      | ok next =>
        rw [hm] at hread
        rcases h.eq_of_taken hm with ⟨hforeign, rfl⟩ | ⟨s, hs, hname, hset, b, hb, rfl⟩
        · exact .foreign hforeign (ih hread)
        · exact .slot hs hname hset hb (ih hread)
  · intro hdraws
    induction hdraws with
    | nil d => rfl
    | foreign hm _ ih =>
      rw [hcons, h.taken_foreign hm]
      exact ih
    | slot hs hm hset hb _ ih =>
      rw [hcons, h.taken_slot hs hm, hset, hb]
      exact ih

theorem get?_of_some {ms : List Member} {d d' : δ} (hdraws : Draws slots depth d ms d')
    {s : Slot δ} (hs : s ∈ slots) {b : s.Content} (hb : s.get? d = some b) :
    s.get? d' = some b := by
  induction hdraws with
  | nil d => exact hb
  | foreign _ _ ih => exact ih hb
  | @slot _ _ d _ t _ ht _ hempty _ _ ih =>
    have hne : s ≠ t := by
      rintro rfl
      rw [hb] at hempty
      cases hempty
    exact ih (((h.apart_of_ne hs ht hne).2 d _).trans hb)

theorem get?_of_unnamed {ms : List Member} {d d' : δ} (hdraws : Draws slots depth d ms d')
    {s : Slot δ} (hs : s ∈ slots) (hms : ∀ m ∈ ms, m.name ≠ .ok s.name) :
    s.get? d' = s.get? d := by
  induction hdraws with
  | nil d => rfl
  | foreign _ _ ih => exact ih fun m hm => hms m (List.mem_cons_of_mem _ hm)
  | @slot m ms d _ t b ht hm _ _ _ ih =>
    have hne : s ≠ t := by
      rintro rfl
      exact hms m List.mem_cons_self hm
    exact (ih fun m hm => hms m (List.mem_cons_of_mem _ hm)).trans
      ((h.apart_of_ne hs ht hne).2 d b)

theorem get?_of_named {ms : List Member} {d d' : δ} (hdraws : Draws slots depth d ms d')
    {s : Slot δ} (hs : s ∈ slots) {m : Member} (hm : m ∈ ms) (hname : m.name = .ok s.name) :
    ∃ b, alone (s.read depth) m.value = .ok b ∧ s.get? d' = some b := by
  induction hdraws with
  | nil d => cases hm
  | foreign hforeign _ ih =>
    rcases List.mem_cons.1 hm with rfl | hm
    · exact absurd hname (hforeign.name_ne hs)
    · exact ih hm
  | @slot m' ms d d' t b ht hm' _ hb hdraws ih =>
    rcases List.mem_cons.1 hm with rfl | hm
    · obtain rfl := h.eq_of_name hs ht (Except.ok.inj (hname.symm.trans hm'))
      exact ⟨b, hb, h.get?_of_some hdraws hs (h.get?_set s hs d b)⟩
    · exact ih hm

/-! ## The order of members -/

theorem readable {ms : List Member} {d d' : δ} (hdraws : Draws slots depth d ms d') :
    Readable slots depth d ms := by
  induction hdraws with
  | nil d => exact ⟨by simp, .nil, by simp, by simp⟩
  | foreign hm _ ih =>
    refine ⟨?_, ?_, ?_, ?_⟩
    · obtain ⟨name, hname, -⟩ := hm
      exact List.forall_mem_cons.2 ⟨⟨name, hname⟩, ih.named⟩
    · exact List.pairwise_cons.2 ⟨fun _ _ s hs hname => absurd hname (hm.name_ne hs), ih.once⟩
    · exact fun s hs => List.forall_mem_cons.2
        ⟨fun hname => absurd hname (hm.name_ne hs), ih.empty s hs⟩
    · exact fun s hs => List.forall_mem_cons.2
        ⟨fun hname => absurd hname (hm.name_ne hs), ih.accepted s hs⟩
  | @slot m ms d _ t b ht hm hempty hb _ ih =>
    have hother : ∀ m' ∈ ms, m'.name ≠ .ok t.name := by
      intro m' hm' hname
      have := ih.empty t ht m' hm' hname
      rw [h.get?_set t ht] at this
      cases this
    have hslot {s : Slot δ} (hs : s ∈ slots) (hname : m.name = .ok s.name) : s = t :=
      h.eq_of_name hs ht (Except.ok.inj (hname.symm.trans hm))
    refine ⟨?_, ?_, ?_, ?_⟩
    · exact List.forall_mem_cons.2 ⟨⟨t.name, hm⟩, ih.named⟩
    · refine List.pairwise_cons.2 ⟨fun n hn s hs hname => ?_, ih.once⟩
      obtain rfl := hslot hs hname
      obtain ⟨m', hm', rfl⟩ := List.mem_map.1 hn
      exact hother m' hm'
    · refine fun s hs => List.forall_mem_cons.2 ⟨fun hname => ?_, fun m' hm' hname => ?_⟩
      · obtain rfl := hslot hs hname
        exact hempty
      · have hne : s ≠ t := by
          rintro rfl
          exact hother m' hm' hname
        rw [← (h.apart_of_ne hs ht hne).2 d b]
        exact ih.empty s hs m' hm' hname
    · refine fun s hs => List.forall_mem_cons.2 ⟨fun hname => ?_, ih.accepted s hs⟩
      obtain rfl := hslot hs hname
      exact ⟨b, hb⟩

theorem draws_of_readable {ms : List Member} {d : δ} (hread : Readable slots depth d ms) :
    ∃ d', Draws slots depth d ms d' := by
  induction ms generalizing d with
  | nil => exact ⟨d, .nil d⟩
  | cons m ms ih =>
    have hnamed := List.forall_mem_cons.1 hread.named
    have honce := List.pairwise_cons.1 hread.once
    have haccepted s hs := List.forall_mem_cons.1 (hread.accepted s hs)
    have hempty s hs := List.forall_mem_cons.1 (hread.empty s hs)
    obtain ⟨name, hm⟩ := hnamed.1
    by_cases hknown : ∃ s ∈ slots, s.name = name
    · obtain ⟨s, hs, rfl⟩ := hknown
      obtain ⟨b, hb⟩ := (haccepted s hs).1 hm
      have hothers : Readable slots depth (s.set d b) ms := by
        refine ⟨hnamed.2, honce.2, fun t ht m' hm' hname => ?_, fun t ht => (haccepted t ht).2⟩
        have hne : t ≠ s := by
          rintro rfl
          exact honce.1 _ (List.mem_map_of_mem hm') t ht hm hname
        rw [(h.apart_of_ne ht hs hne).2 d b]
        exact (hempty t ht).2 m' hm' hname
      obtain ⟨d', hd'⟩ := ih hothers
      exact ⟨d', .slot hs hm ((hempty s hs).1 hm) hb hd'⟩
    · have hothers : Readable slots depth d ms :=
        ⟨hnamed.2, honce.2, fun t ht => (hempty t ht).2, fun t ht => (haccepted t ht).2⟩
      obtain ⟨d', hd'⟩ := ih hothers
      exact ⟨d', .foreign ⟨name, hm, fun s hs hname => hknown ⟨s, hs, hname⟩⟩ hd'⟩

/-- Members whose values are written in another way lead to the same draft. -/
theorem draws_rewritten {ms ms' : List Member} {d d' : δ} (hms : ∀ m ∈ ms, IsValue m.value)
    (hdraws : Draws slots depth d ms d')
    (hrewritten : List.Forall₂ (Member.Rewritten slots depth) ms ms') :
    Draws slots depth d ms' d' := by
  induction hdraws generalizing ms' with
  | nil d =>
    cases hrewritten
    exact .nil d
  | foreign hm _ ih =>
    cases hrewritten with
    | cons hfirst hrewritten =>
      obtain ⟨name, hname, hne⟩ := hm
      refine .foreign ⟨name, hfirst.name.trans hname, hne⟩ (ih ?_ hrewritten)
      exact (List.forall_mem_cons.1 hms).2
  | slot hs hname hempty hb _ ih =>
    cases hrewritten with
    | cons hfirst hrewritten =>
      have hvalue := (List.forall_mem_cons.1 hms).1
      have hb' := (hfirst.value _ hs hname).eq_ok (h.steady _ hs depth _ hvalue) hb
      refine .slot hs (hfirst.name.trans hname) hempty hb' (ih ?_ hrewritten)
      exact (List.forall_mem_cons.1 hms).2

omit h in
theorem draws_append {ms extra : List Member} {d d' : δ} (hdraws : Draws slots depth d ms d')
    (hextra : ∀ m ∈ extra, m.Foreign slots) : Draws slots depth d (ms ++ extra) d' := by
  induction hdraws with
  | nil d =>
    rw [List.nil_append]
    induction extra with
    | nil => exact .nil d
    | cons m extra ih =>
      obtain ⟨hm, hextra⟩ := List.forall_mem_cons.1 hextra
      exact .foreign hm (ih hextra)
  | foreign hm _ ih => exact .foreign hm ih
  | slot hs hname hempty hb _ ih => exact .slot hs hname hempty hb ih

/-- The same members in any order fill a slot alike, if it was filled alike before. -/
theorem get?_congr {ms ms' : List Member} {d d' e e' : δ} (hd : Draws slots depth d ms d')
    (he : Draws slots depth e ms' e') (hmem : ∀ m, m ∈ ms' ↔ m ∈ ms) {s : Slot δ} (hs : s ∈ slots)
    (hstart : s.get? e = s.get? d) : s.get? e' = s.get? d' := by
  by_cases hnamed : ∃ m ∈ ms, m.name = .ok s.name
  · obtain ⟨m, hm, hname⟩ := hnamed
    obtain ⟨b, hb, hset⟩ := h.get?_of_named hd hs hm hname
    obtain ⟨b', hb', hset'⟩ := h.get?_of_named he hs ((hmem m).2 hm) hname
    rw [hset, hset', Except.ok.inj (hb'.symm.trans hb)]
  · rw [h.get?_of_unnamed hd hs fun m hm hname => hnamed ⟨m, hm, hname⟩,
      h.get?_of_unnamed he hs fun m hm hname => hnamed ⟨m, (hmem m).1 hm, hname⟩, hstart]

theorem draws_perm {ms ms' : List Member} {d d' : δ} (hdraws : Draws slots depth d ms d')
    (hperm : ms'.Perm ms) :
    ∃ d'', Draws slots depth d ms' d'' ∧ ∀ s ∈ slots, s.get? d'' = s.get? d' := by
  have hread := h.readable hdraws
  have hread' : Readable slots depth d ms' := by
    refine ⟨fun m hm => hread.named m (hperm.subset hm), ?_,
      fun s hs m hm => hread.empty s hs m (hperm.subset hm),
      fun s hs m hm => hread.accepted s hs m (hperm.subset hm)⟩
    refine ((hperm.map Member.name).pairwise_iff ?_).2 hread.once
    exact fun hn s hs hname' hname => hn s hs hname hname'
  obtain ⟨d'', hdraws'⟩ := h.draws_of_readable hread'
  exact ⟨d'', hdraws', fun s hs => h.get?_congr hdraws hdraws' (fun m => hperm.mem_iff) hs rfl⟩

/-! ## Fields in a list -/

/-- **A list of all fields** leads to the draft that holds what its items are read as. -/
theorem listed_eq (want : ∀ s : Slot δ, Option s.Content) {left : List (Slot δ)}
    (hleft : ∀ s ∈ left, s ∈ slots) (hapart : left.Pairwise fun s t => s.Apart t ∧ t.Apart s)
    {vs : List (List Char)} (hvs : List.Forall₂ (fun s v =>
      s ∈ slots → ∃ b, want s = some b ∧ alone (s.read depth) v = .ok b) left vs)
    (index : Nat) (d : δ) :
    ∃ d', r.listed depth (left.map Slot.field) index d vs = r.finish d' ∧
      (∀ s : Slot δ, (∀ t ∈ left, s.Apart t) → s.get? d' = s.get? d) ∧
      ∀ s ∈ left, s.get? d' = want s := by
  induction hvs generalizing index d with
  | nil =>
    refine ⟨d, ?_, fun _ _ => rfl, by simp⟩
    rw [List.map_nil, listed]
    cases r.finish d <;> rfl
  | @cons s v left vs hv _ ih =>
    obtain ⟨hs, hleft⟩ := List.forall_mem_cons.1 hleft
    obtain ⟨hfirst, hapart⟩ := List.pairwise_cons.1 hapart
    obtain ⟨b, hwant, hb⟩ := hv hs
    obtain ⟨d', hlisted, hkeep, hset⟩ := ih hleft hapart (index + 1) (s.set d b)
    refine ⟨d', ?_, fun t ht => ?_, List.forall_mem_cons.2 ⟨?_, hset⟩⟩
    · rw [List.map_cons, listed, s.alone_read_field, hb]
      exact hlisted
    · obtain ⟨hts, ht⟩ := List.forall_mem_cons.1 ht
      rw [hkeep t ht, hts.2]
    · rw [hkeep s fun t ht => (hfirst t ht).1, h.get?_set s hs, hwant]

/-- A text that stands for a field in a list is read as what the field counts for. -/
theorem filled_of_stands {ms : List Member} (hms : ∀ m ∈ ms, IsValue m.value) {d : δ}
    (hdraws : Draws slots depth r.blank ms d) {s : Slot δ} (hs : s ∈ slots) {v : List Char}
    (hv : Stands depth ms s v) : ∃ b, s.filled d = some b ∧ alone (s.read depth) v = .ok b := by
  rcases hv with ⟨m, hm, hname, halike⟩ | ⟨hunnamed, b, hdefault, hread⟩
  · obtain ⟨b, hb, hset⟩ := h.get?_of_named hdraws hs hm hname
    refine ⟨b, ?_, halike.eq_ok (h.steady s hs depth _ (hms m hm)) hb⟩
    rw [Slot.filled, hset, Option.some_or]
  · refine ⟨b, ?_, hread.eq_ok⟩
    rw [Slot.filled, h.get?_of_unnamed hdraws hs hunnamed, h.get?_blank s hs, hdefault]
    rfl

/-! ## All presentations -/

theorem alone_object {ms : List Member} {v : List Char} (hv : IsObject ms v) :
    alone (r.read (depth + 1)) v = r.assembled depth r.blank ms >>= r.finish := by
  obtain ⟨text, rfl, htext, hms⟩ := hv
  exact alone_eq fun rest _ => read_object h.steady_fields htext hms .nil rest

theorem exists_draft {ms : List Member} {v : List Char} {a : α} (hv : IsObject ms v)
    (hread : alone (r.read (depth + 1)) v = .ok a) :
    ∃ d, r.assembled depth r.blank ms = .ok d ∧ r.finish d = .ok a := by
  rw [h.alone_object hv] at hread
  cases hassembled : r.assembled depth r.blank ms with
  | error fault =>
    rw [hassembled] at hread
    cases hread
  | ok d =>
    rw [hassembled] at hread
    exact ⟨d, rfl, hread⟩

theorem alone_array {vs : List (List Char)} {v : List Char} (hv : IsArray vs v) :
    alone (r.read (depth + 1)) v = r.listed depth r.fields 0 r.blank vs := by
  obtain ⟨text, rfl, htext, hvs⟩ := hv
  exact alone_eq fun rest _ => read_array h.steady_fields htext hvs .nil rest

/-! ## One member more -/

theorem draws_set {ms : List Member} {d d' : δ} (hdraws : Draws slots depth d ms d') {s : Slot δ}
    (hs : s ∈ slots) (hms : ∀ m ∈ ms, m.name ≠ .ok s.name) (b : s.Content) :
    ∃ d'', Draws slots depth (s.set d b) ms d'' ∧
      ∀ t ∈ slots, t.get? d'' = t.get? (s.set d' b) := by
  have hread := h.readable hdraws
  have hread' : Readable slots depth (s.set d b) ms := by
    refine ⟨hread.named, hread.once, fun t ht m hm hname => ?_, hread.accepted⟩
    have hne : t ≠ s := by
      rintro rfl
      exact hms m hm hname
    rw [(h.apart_of_ne ht hs hne).2 d b]
    exact hread.empty t ht m hm hname
  obtain ⟨d'', hdraws'⟩ := h.draws_of_readable hread'
  refine ⟨d'', hdraws', fun t ht => ?_⟩
  by_cases hts : t = s
  · subst hts
    rw [h.get?_of_unnamed hdraws' ht hms, h.get?_set t ht, h.get?_set t ht]
  · have hapart := (h.apart_of_ne ht hs hts).2
    rw [hapart d' b]
    exact h.get?_congr hdraws hdraws' (fun _ => Iff.rfl) ht (hapart d b)

/-- A member more sets a slot that was empty, wherever it stands, or is the first fault. -/
theorem assembled_insert {before after : List Member} {m : Member} {s : Slot δ} {d : δ}
    (hs : s ∈ slots) (hm : m.name = .ok s.name)
    (hothers : ∀ m' ∈ before ++ after, m'.name ≠ .ok s.name)
    (hread : r.assembled depth r.blank (before ++ after) = .ok d) :
    (r.assembled depth r.blank (before ++ m :: after) >>= r.finish) =
      alone (s.read depth) m.value >>= fun b => r.finish (s.set d b) := by
  have happend (ms : List Member) : r.assembled depth r.blank (before ++ ms) =
      r.assembled depth r.blank before >>= fun d => r.assembled depth d ms :=
    List.foldlM_append
  have hcons (d : δ) : r.assembled depth d (m :: after) =
      (m.name >>= fun name => r.taken depth d name m.value) >>= fun d =>
        r.assembled depth d after :=
    List.foldlM_cons
  rw [happend] at hread
  rw [happend]
  cases hbefore : r.assembled depth r.blank before with
  | error fault =>
    rw [hbefore] at hread
    cases hread
  | ok d₁ =>
    rw [hbefore] at hread
    have hempty : s.get? d₁ = none := by
      rw [h.get?_of_unnamed (h.draws_iff.1 hbefore) hs fun m' hm' =>
        hothers m' (List.mem_append_left _ hm'), h.get?_blank s hs]
    show (r.assembled depth d₁ (m :: after) >>= r.finish) = _
    rw [hcons, h.taken_slot hs hm, hempty]
    cases alone (s.read depth) m.value with
    | error fault => rfl
    | ok b =>
      obtain ⟨d', hdraws, hsame⟩ := h.draws_set (h.draws_iff.1 hread) hs
        (fun m' hm' => hothers m' (List.mem_append_right _ hm')) b
      show (r.assembled depth (s.set d₁ b) after >>= r.finish) = r.finish (s.set d b)
      rw [h.draws_iff.2 hdraws]
      refine h.finish d' (s.set d b) fun t ht => ?_
      rw [Slot.filled, Slot.filled, hsame t ht]

/-- An object with a member more is read as the record with the slot of this member set. -/
theorem alone_object_insert {before after : List Member} {m : Member} {s : Slot δ}
    {v v' : List Char} {a : α} (hs : s ∈ slots) (hm : m.name = .ok s.name)
    (hothers : ∀ m' ∈ before ++ after, m'.name ≠ .ok s.name) (hv : IsObject (before ++ after) v)
    (hread : alone (r.read (depth + 1)) v = .ok a) (hv' : IsObject (before ++ m :: after) v') :
    ∃ d, r.finish d = .ok a ∧ alone (r.read (depth + 1)) v' =
      alone (s.read depth) m.value >>= fun b => r.finish (s.set d b) := by
  obtain ⟨d, hassembled, hfinish⟩ := h.exists_draft hv hread
  exact ⟨d, hfinish, (h.alone_object hv').trans (h.assembled_insert hs hm hothers hassembled)⟩

/-! ## Every presentation -/

theorem alike {ms : List Member} {v v' : List Char} (hv : IsObject ms v)
    (hrestates : Restates slots depth ms v') : Alike (r.read (depth + 1)) v v' := by
  intro a ha
  obtain ⟨d, hassembled, hfinish⟩ := h.exists_draft hv ha.eq_ok
  obtain ⟨_, _, _, hms⟩ := hv
  have hdraws := h.draws_iff.1 hassembled
  cases hrestates with
  | @object ms' all extra _ hrewritten hextra hperm hv' =>
    have hmore := draws_append (h.draws_rewritten hms hdraws hrewritten) hextra
    obtain ⟨d', hdraws', hsame⟩ := h.draws_perm hmore hperm
    have hfilled : ∀ s ∈ slots, s.filled d' = s.filled d := by
      intro s hs
      rw [Slot.filled, Slot.filled, hsame s hs]
    refine (Record.steady h.steady_fields _ _ hv'.isValue).readsAs ?_
    rw [h.alone_object hv', h.draws_iff.2 hdraws']
    exact (h.finish d' d hfilled).trans hfinish
  | @list vs _ hstands hv' =>
    have hvs := hstands.imp fun s v hv hs => h.filled_of_stands hms hdraws hs hv
    obtain ⟨d', hlisted, -, hset⟩ :=
      h.listed_eq (fun s => s.filled d) (fun _ hs => hs) h.apart hvs 0 r.blank
    have hfilled : ∀ s ∈ slots, s.filled d' = s.filled d := by
      intro s hs
      rw [Slot.filled, hset s hs, Slot.filled, Option.or_assoc, Option.or_self]
    refine (Record.steady h.steady_fields _ _ hv'.isValue).readsAs ?_
    rw [h.alone_array hv', h.fields, hlisted]
    exact (h.finish d' d hfilled).trans hfinish

/-- **Every presentation** of the record that an object holds is read as this record. -/
theorem restatable : r.Restatable slots where
  fields := h.fields
  anywhere := by
    intro depth ms v v' blank rest a hv hrestates hblank hrest hread
    have hsettles := Record.steady h.steady_fields (depth + 1) v hv.isValue
    exact h.alike hv hrestates a (hsettles.readsAs_of_once hblank hrest hread)
  document := by
    intro ms v v' text text' a hv hrestates htext htext' hread
    have hsettles := Record.steady h.steady_fields depthLimit v hv.isValue
    exact (h.alike hv hrestates a (hsettles.readsAs_of_document htext hread)).document htext'

end Record.Lawful

end Dataflow.Json
