import Dataflow.Proofs.Steady
import Mathlib.Data.List.Forall2
import Mathlib.Data.List.TakeWhile

/-!
# Values that are read alike

One value may take the place of another if it is read as whatever the other is read as. For a steady
reader this can be told from the two values alone, and lists and maps are read alike if their parts
are, so that what holds of a value holds of it wherever it is nested.

* `Json.ReadsAs`, `Json.Alike`: what a value is read as, wherever it stands.
* `Json.IsDocument`: a text that holds one value.
* `Json.IsArray`, `Json.IsObject`: containers by their parts.
* `Json.arrayText`, `Json.objectText`: containers in one line; `Json.write_object`: written ones.
* `Json.Alike.listOf`, `Json.Alike.mapOf`: lists and maps.
-/

namespace Dataflow.Json

open Token Reader

variable {α β : Type}

/-! ## Values that are read alike -/

/-- A value is read as `a`, wherever it stands. -/
def ReadsAs (read : List Char → Step α) (v : List Char) (a : α) : Prop :=
  ∀ ⦃blank rest⦄, Blank blank → Ends rest → read (blank ++ (v ++ rest)) = .ok (a, rest)

/-- The second value is read as whatever the first one is read as. -/
def Alike (read : List Char → Step α) (v v' : List Char) : Prop :=
  ∀ a, ReadsAs read v a → ReadsAs read v' a

theorem Alike.refl (read : List Char → Step α) (v : List Char) : Alike read v v :=
  fun _ h => h

theorem Settles.readsAs {read : List Char → Step α} {v : List Char} {a : α} (h : Settles read v)
    (ha : alone read v = .ok a) : ReadsAs read v a := by
  intro blank rest hblank hrest
  rw [h hblank hrest, ha]
  rfl

/-- Once is enough: a value that is read as `a` in one place is read so everywhere. -/
theorem Settles.readsAs_of_once {read : List Char → Step α} {v blank rest rest' : List Char} {a : α}
    (h : Settles read v) (hblank : Blank blank) (hrest : Ends rest)
    (ha : read (blank ++ (v ++ rest)) = .ok (a, rest')) : ReadsAs read v a := by
  refine h.readsAs ?_
  rw [h hblank hrest] at ha
  cases hv : alone read v with
  | error fault =>
    rw [hv] at ha
    cases ha
  | ok b =>
    rw [hv] at ha
    cases ha
    rfl

theorem ReadsAs.eq_ok {read : List Char → Step α} {v : List Char} {a : α} (h : ReadsAs read v a) :
    alone read v = .ok a := by
  have hnone := h .nil .nil
  rw [List.nil_append, List.append_nil] at hnone
  rw [alone, hnone]
  rfl

theorem ReadsAs.alone_andThen {read : List Char → Step α} {v : List Char} {a : α}
    (h : ReadsAs read v a) (next : α → List Char → Step β) :
    alone (fun cs => (read cs).andThen next) v = alone (next a) [] := by
  have hnone := h .nil .nil
  rw [List.nil_append, List.append_nil] at hnone
  rw [alone, hnone]
  rfl

theorem Alike.eq_ok {read : List Char → Step α} {v v' : List Char} {a : α} (h : Alike read v v')
    (hread : Settles read v) (ha : alone read v = .ok a) : alone read v' = .ok a :=
  (h a (hread.readsAs ha)).eq_ok

theorem Settles.alike {read : List Char → Step α} {v v' : List Char} (hv' : Settles read v')
    (h : ∀ a, alone read v = .ok a → alone read v' = .ok a) : Alike read v v' :=
  fun a ha => hv'.readsAs (h a ha.eq_ok)

/-! ## Documents -/

section Documents

variable {read : Nat → List Char → Step α} {v : List Char} {text : String} {a : α}

/-- A text that holds a value and nothing else. -/
def IsDocument (v : List Char) (text : String) : Prop :=
  ∃ blank blank', Blank blank ∧ Blank blank' ∧ text.toList = blank ++ (v ++ blank')

theorem isDocument_ofList (v : List Char) : IsDocument v (.ofList v) :=
  ⟨[], [], .nil, .nil, by simp⟩

theorem ReadsAs.document (h : ReadsAs (read depthLimit) v a) (htext : IsDocument v text) :
    document read text = .ok a := by
  obtain ⟨blank, blank', hblank, hblank', htext⟩ := htext
  rw [Reader.document, htext, h hblank hblank'.ends]
  exact if_pos (List.dropWhile_eq_nil_iff.2 hblank')

/-- A document is what a steady reader makes of its value. -/
theorem Settles.document_eq (h : Settles (read depthLimit) v) (htext : IsDocument v text) :
    document read text = alone (read depthLimit) v := by
  obtain ⟨blank, blank', hblank, hblank', htext⟩ := htext
  rw [Reader.document, htext, h hblank hblank'.ends]
  cases alone (read depthLimit) v with
  | error fault => rfl
  | ok a => exact if_pos (List.dropWhile_eq_nil_iff.2 hblank')

theorem Settles.readsAs_of_document (h : Settles (read depthLimit) v) (htext : IsDocument v text)
    (hread : document read text = .ok a) : ReadsAs (read depthLimit) v a :=
  h.readsAs ((h.document_eq htext).symm.trans hread)

end Documents

/-! ## Containers by their parts -/

/-- The text of an array with these items. -/
def IsArray (vs : List (List Char)) (v : List Char) : Prop :=
  ∃ text, v = '[' :: text ∧ Items true vs text ∧ ∀ v ∈ vs, IsValue v

/-- The text of an object with these members. -/
def IsObject (ms : List Member) (v : List Char) : Prop :=
  ∃ text, v = '{' :: text ∧ Members true ms text ∧ ∀ m ∈ ms, IsValue m.value

theorem IsArray.isValue {vs : List (List Char)} {v : List Char} (h : IsArray vs v) : IsValue v := by
  obtain ⟨text, rfl, htext, hvs⟩ := h
  exact .array htext hvs

theorem IsObject.isValue {ms : List Member} {v : List Char} (h : IsObject ms v) : IsValue v := by
  obtain ⟨text, rfl, htext, hms⟩ := h
  exact .object htext hms

/-- What the key of a member is read as. Escapes that stand for no character make no name. -/
def Member.name (m : Member) : Except Fault String :=
  alone Token.string m.key

/-! ## Containers in one line -/

/-- A member with a given name. -/
def Member.of (name : String) (v : List Char) : Member :=
  ⟨escapedAll name.toList ++ ['"'], v⟩

@[simp]
theorem Member.value_of (name : String) (v : List Char) : (Member.of name v).value = v :=
  rfl

@[simp]
theorem Member.name_of (name : String) (v : List Char) : (Member.of name v).name = .ok name := by
  show Except.map _ (Token.string (escapedAll name.toList ++ '"' :: [])) = _
  rw [string_quoted]
  rfl

theorem Member.isString_key_of (name : String) (v : List Char) : IsString (Member.of name v).key :=
  isString_escapedAll name.toList

theorem isValue_quoted (s : String) : IsValue (quoted s) :=
  .string (isString_escapedAll s.toList)

/-- An array of some items, without blank space. -/
def arrayText : List (List Char) → List Char
  | [] => ['[', ']']
  | v :: vs => '[' :: (v ++ ((vs.flatMap fun v => ',' :: v) ++ [']']))

/-- An object with some members, without blank space. -/
def objectText : List Member → List Char
  | [] => ['{', '}']
  | m :: ms =>
    '{' :: '"' :: (m.key ++ (':' :: (m.value ++
      ((ms.flatMap fun m => ',' :: '"' :: (m.key ++ (':' :: m.value))) ++ ['}']))))

theorem isArray_arrayText {vs : List (List Char)} (h : ∀ v ∈ vs, IsValue v) :
    IsArray vs (arrayText vs) := by
  have hrest (vs : List (List Char)) :
      Items false vs ((vs.flatMap fun v => ',' :: v) ++ [']']) := by
    induction vs with
    | nil => exact .close .nil
    | cons v vs ih =>
      rw [List.flatMap_cons, List.append_assoc]
      exact .next .nil .nil ih
  cases vs with
  | nil => exact ⟨_, rfl, .close .nil, h⟩
  | cons v vs => exact ⟨_, rfl, .first .nil (hrest vs), h⟩

theorem isObject_objectText {ms : List Member} (hkeys : ∀ m ∈ ms, IsString m.key)
    (h : ∀ m ∈ ms, IsValue m.value) : IsObject ms (objectText ms) := by
  have hrest (ms : List Member) (hkeys : ∀ m ∈ ms, IsString m.key) : Members false ms
      ((ms.flatMap fun m => ',' :: '"' :: (m.key ++ (':' :: m.value))) ++ ['}']) := by
    induction ms with
    | nil => exact .close .nil
    | cons m ms ih =>
      obtain ⟨hkey, hkeys⟩ := List.forall_mem_cons.1 hkeys
      simp only [List.flatMap_cons, List.cons_append, List.append_assoc]
      exact .next .nil .nil hkey .nil .nil (ih hkeys)
  cases ms with
  | nil => exact ⟨_, rfl, .close .nil, h⟩
  | cons m ms =>
    obtain ⟨hkey, hkeys⟩ := List.forall_mem_cons.1 hkeys
    exact ⟨_, rfl, .first .nil hkey .nil .nil (hrest ms hkeys), h⟩

theorem isObject_map {ι : Type} {l : List ι} (name : ι → String) {value : ι → List Char}
    (h : ∀ i ∈ l, IsValue (value i)) :
    IsObject (l.map fun i => .of (name i) (value i))
      (objectText (l.map fun i => .of (name i) (value i))) :=
  isObject_objectText (List.forall_mem_map.2 fun i _ => Member.isString_key_of (name i) (value i))
    (List.forall_mem_map.2 h)

theorem isArray_nil : IsArray [] (arrayText []) :=
  isArray_arrayText fun _ hv => absurd hv List.not_mem_nil

theorem isObject_nil : IsObject [] (objectText []) :=
  isObject_objectText (fun _ hm => absurd hm List.not_mem_nil)
    fun _ hm => absurd hm List.not_mem_nil

/-! ## Written trees -/

theorem Recovers.readsAs {read : Nat → List Char → Step α} {j : Json} {a : α} {depth : Nat}
    (h : Recovers read j a) (hdepth : j.nesting ≤ depth) (l : Layout) (k : Nat) :
    ReadsAs (read depth) (write l k j) a :=
  fun blank _ hblank hrest => h hdepth ⟨l, k, blank, hblank, rfl, hrest⟩

theorem write_object (k : Nat) (ps : List (String × Json)) :
    write .compact k (.object ps) =
      objectText (ps.map fun p => .of p.1 (write .compact (k + 1) p.2)) := by
  have hrest (ps : List (String × Json)) : writeMembers .compact (k + 1) ps =
      (ps.map fun p => Member.of p.1 (write .compact (k + 1) p.2)).flatMap
        fun m => ',' :: '"' :: (m.key ++ (':' :: m.value)) := by
    induction ps with
    | nil => rfl
    | cons p ps ih =>
      simp [writeMembers, ih, Layout.lineBreak, Layout.colon, quoted, Member.of]
  cases ps with
  | nil => rfl
  | cons p ps =>
    simp [write, hrest, objectText, Layout.lineBreak, Layout.colon, quoted, Member.of]

theorem isObject_write {k : Nat} {ps : List (String × Json)}
    (h : ∀ p ∈ ps, IsValue (write .compact (k + 1) p.2)) :
    IsObject (ps.map fun p => .of p.1 (write .compact (k + 1) p.2))
      (write .compact k (.object ps)) := by
  have hobject := isObject_map Prod.fst h
  rw [write_object]
  exact hobject

/-! ## Lists and maps of values that are read alike -/

section Nesting

variable {σ : Type} {read : Nat → List Char → Step α} (hread : ∀ depth, Steady (read depth))
  {depth : Nat} {v v' : List Char}

theorem map_eq_ok_of_imp {e e' : Except Fault α} {g : α → β} (h : ∀ a, e = .ok a → e' = .ok a)
    {b : β} (hb : e.map g = .ok b) : e'.map g = .ok b := by
  cases e with
  | error fault => cases hb
  | ok a => rwa [h a rfl]

theorem foldlM_eq_ok_of_imp {ι : Type} {next : σ → ι → Except Fault σ} {l l' : List ι}
    (h : List.Forall₂ (fun i i' => ∀ s t, next s i = .ok t → next s i' = .ok t) l l') {s t : σ}
    (ht : l.foldlM next s = .ok t) : l'.foldlM next s = .ok t := by
  induction h generalizing s with
  | nil => exact ht
  | @cons i i' l l' hfirst _ ih =>
    rw [List.foldlM_cons] at ht ⊢
    cases hs : next s i with
    | error fault =>
      rw [hs] at ht
      cases ht
    | ok s' =>
      rw [hs] at ht
      rw [hfirst s s' hs]
      exact ih ht

theorem foldlM_eq_of_forall₂ {ι κ : Type} {next : σ → ι → Except Fault σ}
    {next' : σ → κ → Except Fault σ} {l : List ι} {l' : List κ}
    (h : List.Forall₂ (fun i k => ∀ s, next s i = next' s k) l l') (s : σ) :
    l.foldlM next s = l'.foldlM next' s := by
  induction h generalizing s with
  | nil => rfl
  | cons hfirst _ ih =>
    rw [List.foldlM_cons, List.foldlM_cons, hfirst]
    exact bind_congr fun s' => ih s'

include hread

/-- Lists are read alike if their items are. -/
theorem Alike.listOf {vs vs' : List (List Char)} (hv : IsArray vs v) (hv' : IsArray vs' v')
    (h : List.Forall₂ (Alike (read depth)) vs vs') : Alike (listOf read (depth + 1)) v v' := by
  have halone {vs : List (List Char)} {v : List Char} (hv : IsArray vs v) :
      alone (Reader.listOf read (depth + 1)) v =
        (collected (read depth) vs).map List.reverse := by
    obtain ⟨text, rfl, htext, hvs⟩ := hv
    exact alone_eq fun rest _ => listOf_array (hread depth) htext hvs .nil rest
  refine (Steady.listOf hread _ _ hv'.isValue).alike fun as has => ?_
  rw [halone hv] at has
  rw [halone hv']
  obtain ⟨_, _, _, hvs⟩ := hv
  refine map_eq_ok_of_imp (fun acc => foldlM_eq_ok_of_imp ?_) has
  refine ((List.forall₂_and_left vs vs').2 ⟨hvs, h⟩).imp fun v v' hitem acc as => ?_
  exact map_eq_ok_of_imp fun a => hitem.2.eq_ok (hread depth v hitem.1)

/-- Maps are read alike if they have the same keys in the same order and the values are. -/
theorem Alike.mapOf {ms ms' : List Member} (hv : IsObject ms v) (hv' : IsObject ms' v')
    (h : List.Forall₂ (fun m m' => m'.name = m.name ∧ Alike (read depth) m.value m'.value) ms ms') :
    Alike (mapOf read (depth + 1)) v v' := by
  have halone {ms : List Member} {v : List Char} (hv : IsObject ms v) :
      alone (Reader.mapOf read (depth + 1)) v =
        ms.foldlM (fun acc m => m.name >>= fun key =>
          (alone (read depth) m.value).map (acc.insert key)) KeyMap.empty := by
    obtain ⟨text, rfl, htext, hms⟩ := hv
    exact alone_eq fun rest _ => mapOf_object (hread depth) htext hms .nil rest
  refine (Steady.mapOf hread _ _ hv'.isValue).alike fun m hm => ?_
  rw [halone hv] at hm
  rw [halone hv']
  obtain ⟨_, _, _, hms⟩ := hv
  refine foldlM_eq_ok_of_imp ?_ hm
  refine ((List.forall₂_and_left ms ms').2 ⟨hms, h⟩).imp fun m m' hmember acc acc' => ?_
  obtain ⟨hvalue, hname, halike⟩ := hmember
  rw [hname]
  cases m.name with
  | error fault => exact id
  | ok key => exact map_eq_ok_of_imp fun a => halike.eq_ok (hread depth m.value hvalue)

end Nesting

end Dataflow.Json
