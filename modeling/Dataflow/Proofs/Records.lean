import Dataflow.Json.Record
import Dataflow.Proofs.Trees
import Dataflow.Wire.Encode

/-! # Written records are read back

For each way of reading a value there is one lemma about what it makes of a written tree. A record
is read field by field: it is recovered if each field that was written takes the draft one step
further and the last draft makes the record.

* `int64_recovers`, `binary64_recovers`, `text_recovers`: values of one type.
* `listOf_recovers`, `mapOf_recovers`, `optional_recovers`: collections.
* `Record.takes_field`, `Record.recovers`: one field, and a whole record.
* `unitTag_recovers`, `valueTag_recovers`: tags.
-/

namespace Dataflow.Json

open Token Reader

theorem Recovers.map {α β : Type} {read : Nat → List Char → Step α} {j : Json} {a : α}
    (h : Recovers read j a) (g : α → β) :
    Recovers (fun depth cs => (read depth cs).andThen fun a rest => .ok (g a, rest)) j (g a) := by
  intro depth cs rest hdepth hcs
  simp [h hdepth hcs]

/-! ## Values of one type -/

theorem text_recovers (s : String) : Recovers (fun _ cs => Reader.text cs) (.string s) s := by
  intro depth cs rest _ hcs
  obtain ⟨tail, hdrop, hread⟩ := hcs.string
  simp [Reader.text, hdrop, hread]

theorem int64OfNumber_ofInt64 (n : Int64) : int64OfNumber (.ofInt64 n) = .ok n := by
  have hhigh := n.toInt_lt
  unfold Number.ofInt64
  split
  · rename_i k hk
    have hfits : k < Nat.pow 2 63 := by
      rw [hk] at hhigh
      exact Int.ofNat_lt.1 hhigh
    have hround : k.toUInt64.toNat = k :=
      Nat.mod_eq_of_lt (Nat.lt_trans hfits (by decide))
    rw [int64OfNumber, hround, if_pos hfits]
    rw [← Int64.ofInt_toInt n, hk]
    rfl
  · rename_i k hk
    have hnegative : (-1 - k : Int) = n.toInt := by omega
    rw [int64OfNumber, hnegative, Int64.ofInt_toInt]

/-- A written integer is read back, whatever its sign and size. -/
theorem int64_recovers (n : Int64) :
    Recovers (fun _ cs => int64 cs) (.number (.ofInt64 n)) n := by
  have hinteger (x : Binary64) : Number.ofInt64 n ≠ .double x := by
    unfold Number.ofInt64
    split <;> simp
  intro depth cs rest _ hcs
  obtain ⟨c, tail, hdrop, hc, hread⟩ := hcs.number fun x hx => absurd hx (hinteger x)
  simp [int64, hdrop, hc, hread, int64OfNumber_ofInt64, Except.map]

/-- A written double is read back if its digits are. -/
theorem binary64_recovers {x : Binary64} (hx : x.RoundTrips) :
    Recovers (fun _ cs => binary64 cs) (.ofBinary64 x) x := by
  intro depth cs rest _ hcs
  rw [ofBinary64, if_pos hx.finite] at hcs
  obtain ⟨c, tail, hdrop, hc, hread⟩ := hcs.number fun y hy => Number.double.inj hy ▸ hx
  simp [binary64, hdrop, hc, hread, binary64OfNumber]

/-! ## Collections -/

section Collections

variable {α : Type} {read : Nat → List Char → Step α} {f : α → Json}

theorem optional_recovers {j : Json} {a : α} (h : Recovers read j a)
    (hnull : ∀ l k, (write l k j).head? ≠ some 'n') :
    Recovers (fun depth => optional (read depth)) j (some a) := by
  intro depth cs rest hdepth hcs
  obtain ⟨l, k, hdrop, hrest⟩ := hcs.dropBlank
  have hread := h hdepth ⟨l, k, [], .nil, (List.nil_append _).symm, hrest⟩
  obtain ⟨c, tail, hwrite, _⟩ := startsValue_write l k j
  show Reader.optional (read depth) cs = _
  unfold Reader.optional
  rw [hdrop]
  split
  · rename_i heq
    rw [hwrite] at heq
    have := hnull l k
    simp [hwrite, (List.cons.inj heq).1] at this
  · simp [hread]

theorem listOf_recovers {as : List α} (h : ∀ a ∈ as, Recovers read (f a) a) :
    Recovers (listOf read) (.array (as.map f)) as := by
  intro depth cs rest hdepth hcs
  obtain ⟨l, k, hdrop, _⟩ := hcs.dropBlank
  obtain ⟨inner, rfl, hinner⟩ := room_array hdepth
  have hitems := nestingItems_le.1 hinner
  obtain ⟨tail, hwrite, hread⟩ :=
    list_write h (fun a ha => hitems _ (List.mem_map_of_mem ha)) l k rest
  rw [listOf, hdrop, hwrite]
  show (list .reading (collect (read inner)) [] tail).andThen _ = _
  simp [hread]

theorem fold_recovers {σ : Type} {member : Nat → σ → String → List Char → Step σ} {start acc : σ}
    {ps : List (String × Json)} (expected : String)
    (h : Gathers (afterColon member) start ps acc) :
    Recovers (fold expected start member) (.object ps) acc := by
  intro depth cs rest hdepth hcs
  obtain ⟨l, k, hdrop, _⟩ := hcs.dropBlank
  obtain ⟨inner, rfl, hinner⟩ := room_object hdepth
  obtain ⟨tail, hwrite, hread⟩ := object_write h hinner l k rest
  rw [fold, hdrop, hwrite]
  exact hread

/-- Inserting the entries of a map one by one, when no key is repeated. -/
theorem gathers_insert {member : Nat → KeyMap α → String → List Char → Step (KeyMap α)}
    {ps : List (String × α)} (hps : ps.Pairwise fun a b => a.1 < b.1)
    (h : ∀ m : KeyMap α, ∀ p ∈ ps, m.contains p.1 = false →
      Takes member m p.1 (f p.2) (m.insert p.1 p.2))
    {m : KeyMap α} (hfresh : ∀ p ∈ ps, m.contains p.1 = false) :
    Gathers member m (ps.map fun (key, a) => (key, f a))
      (ps.foldl (fun m p => m.insert p.1 p.2) m) := by
  induction ps generalizing m with
  | nil => exact .nil m
  | cons p ps ih =>
    obtain ⟨hp, hps⟩ := List.pairwise_cons.1 hps
    have hfirst := h m p List.mem_cons_self (hfresh p List.mem_cons_self)
    have hothers : ∀ q ∈ ps, (m.insert p.1 p.2).contains q.1 = false := by
      intro q hq
      have hne : q.1 ≠ p.1 := (String.ne_of_lt (hp q hq)).symm
      simpa [KeyMap.contains, hne] using hfresh q (List.mem_cons_of_mem _ hq)
    exact .cons hfirst (ih hps (fun m q hq => h m q (List.mem_cons_of_mem _ hq)) hothers)

theorem gathers_entries {member : Nat → KeyMap α → String → List Char → Step (KeyMap α)}
    (m : KeyMap α)
    (h : ∀ acc : KeyMap α, ∀ p ∈ m.entries, acc.contains p.1 = false →
      Takes member acc p.1 (f p.2) (acc.insert p.1 p.2)) :
    Gathers member .empty (m.entries.map fun (key, a) => (key, f a)) m := by
  have hall := gathers_insert m.ascending h (m := .empty) fun _ _ => rfl
  rwa [show m.entries.foldl _ .empty = m from KeyMap.ofList_entries m] at hall

theorem mapOf_recovers {m : KeyMap α} (h : ∀ p ∈ m.entries, Recovers read (f p.2) p.2) :
    Recovers (mapOf read) (m.toJson f) m := by
  refine fold_recovers "a map" (gathers_entries m fun acc p hp _ => .afterColon ?_)
  intro depth cs rest hdepth hcs
  simp [h p hp hdepth hcs]

end Collections

/-! ## Records -/

namespace Record

variable {δ α β : Type} {r : Record δ α}

theorem takes_field (name : String) {required : Bool} {get? : δ → Option β} {set : δ → β → δ}
    {read : Nat → List Char → Step β} {draft draft' : δ} {j : Json} {b : β}
    (hfield : r.fields.find? (fun f => f.name = name) = some (.of name required get? set read))
    (hfresh : get? draft = none) (hset : set draft b = draft') (h : Recovers read j b) :
    Takes r.member draft name j draft' := by
  intro depth cs rest hdepth hcs
  have hread : (Field.of name required get? set read).read depth draft cs = .ok (draft', rest) := by
    simp [Field.of, h hdepth hcs, hset]
  have hnew : (Field.of name required get? set read).isSet draft = false := by
    simp [Field.of, hfresh]
  rw [member, hfield]
  simp only [hnew, Bool.false_eq_true, ↓reduceIte]
  exact hread

/-- **A written record** is read back if its fields lead to a draft that makes it. -/
theorem recovers {ps : List (String × Json)} {draft : δ} {a : α}
    (h : Gathers r.member r.blank ps draft) (hfinish : r.finish draft = .ok a) :
    Recovers r.read (.object ps) a := by
  intro depth cs rest hdepth hcs
  obtain ⟨l, k, hdrop, _⟩ := hcs.dropBlank
  obtain ⟨inner, rfl, hinner⟩ := room_object hdepth
  obtain ⟨tail, hwrite, hread⟩ := object_write h hinner l k rest
  rw [read, hdrop, hwrite]
  simp [hread, hfinish, Except.map]

end Record

/-! ## Tags -/

section Tags

variable {α : Type}

/-- A written name is read back as what it names. -/
theorem unitTag_recovers {variants : List (String × α)} {tag : String} {a : α}
    (h : variants.lookup tag = some a) : Recovers (unitTag variants) (.string tag) a := by
  intro depth cs rest _ hcs
  obtain ⟨tail, hdrop, hread⟩ := hcs.string
  rw [unitTag, tagged, hdrop]
  simp [hread, known, h, Except.map]

/-- A written tag with its value is read back by the reader that the tag selects. -/
theorem valueTag_recovers {variants : List (String × (Nat → List Char → Step α))} {tag : String}
    {read : Nat → List Char → Step α} (hread : variants.lookup tag = some read) {j : Json} {a : α}
    (h : Recovers read j a) : Recovers (valueTag variants) (.object [(tag, j)]) a := by
  intro depth cs rest hdepth hcs
  obtain ⟨l, k, hdrop, _⟩ := hcs.dropBlank
  obtain ⟨inner, rfl, hinner⟩ := room_object hdepth
  obtain ⟨hdepth, _⟩ := Nat.max_le.1 hinner
  obtain ⟨blank, hcolon, hblank⟩ := colon_eq l
  have hkey (cs : List Char) :
      tagKey (l.lineBreak (k + 1) ++ (quoted tag ++ cs)) = .ok (tag, cs) := by
    rw [tagKey, quoted_append, dropBlank_append (blank_lineBreak l (k + 1)) rfl]
    exact string_quoted tag cs
  have hpassed (cs : List Char) : passed (colon (':' :: cs)) = .ok ((), cs) := rfl
  have hvalue := h hdepth ⟨l, k + 1, blank, hblank, rfl, ends_lineBreak l k (.inr rfl) rest⟩
  have hclose : closeTag (l.lineBreak k ++ '}' :: rest) = .ok rest := by
    rw [closeTag, dropBlank_append (blank_lineBreak l k) rfl]
    rfl
  have hwrite : write l k (.object [(tag, j)]) ++ rest =
      '{' :: (l.lineBreak (k + 1) ++ (quoted tag ++ (':' :: (blank ++ (write l (k + 1) j ++
        (l.lineBreak k ++ '}' :: rest)))))) := by
    simp [write, writeMembers, hcolon]
  rw [valueTag, tagged, hdrop, hwrite]
  simp [hkey, known, hread, hpassed, hvalue, hclose, Except.map]

end Tags

end Dataflow.Json
