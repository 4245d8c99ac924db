import Dataflow.Proofs.Containers
import Dataflow.Proofs.KeyMap

/-! # Written trees are read back

What a reader makes of the text of a tree, in either layout and with anything behind it. The text
of a container is read by folding over its parts, so a statement about a container comes from one
statement for each part.

* `Json.nesting`, `Json.doubles`: how deep a tree is, and the doubles in it.
* `Json.Spells`: the texts of a tree.
* `Json.Recovers`: a reader reads every text of a tree, given room for its containers.
* `Json.Gathers`: what reading the members of an object one by one amounts to.
* `Json.value_recovers`: the reader of trees reads back the tree that was written.
* `Json.document_render`: a reader that recovers a tree reads its document.
-/

namespace Dataflow.Json

open Token Reader

/-! ## Measures of a tree -/

mutual

/-- The greatest number of containers that are nested in a tree. -/
def nesting : Json → Nat
  | .array items => nestingItems items + 1
  | .object members => nestingMembers members + 1
  | _ => 0

/-- The greatest number of containers that are nested in one of several trees. -/
def nestingItems : List Json → Nat
  | [] => 0
  | j :: rest => max j.nesting (nestingItems rest)

/-- The greatest number of containers that are nested in the value of a member. -/
def nestingMembers : List (String × Json) → Nat
  | [] => 0
  | (_, j) :: rest => max j.nesting (nestingMembers rest)

end

mutual

/-- The doubles in a tree, in the order of its text. -/
def doubles : Json → List Binary64
  | .number (.double x) => [x]
  | .array items => doublesItems items
  | .object members => doublesMembers members
  | _ => []

/-- The doubles in several trees. -/
def doublesItems : List Json → List Binary64
  | [] => []
  | j :: rest => j.doubles ++ doublesItems rest

/-- The doubles in the values of several members. -/
def doublesMembers : List (String × Json) → List Binary64
  | [] => []
  | (_, j) :: rest => j.doubles ++ doublesMembers rest

end

theorem nestingItems_le {items : List Json} {k : Nat} :
    nestingItems items ≤ k ↔ ∀ j ∈ items, j.nesting ≤ k := by
  induction items with
  | nil => simp [nestingItems]
  | cons j rest ih => rw [nestingItems, Nat.max_le, ih, List.forall_mem_cons]

theorem nestingMembers_le {members : List (String × Json)} {k : Nat} :
    nestingMembers members ≤ k ↔ ∀ p ∈ members, p.2.nesting ≤ k := by
  induction members with
  | nil => simp [nestingMembers]
  | cons p rest ih => rw [nestingMembers, Nat.max_le, ih, List.forall_mem_cons]

theorem room_array {items : List Json} {depth : Nat} (h : (array items).nesting ≤ depth) :
    ∃ inner, depth = inner + 1 ∧ nestingItems items ≤ inner := by
  simp only [nesting] at h
  exact ⟨depth - 1, by omega, by omega⟩

theorem room_object {ps : List (String × Json)} {depth : Nat} (h : (object ps).nesting ≤ depth) :
    ∃ inner, depth = inner + 1 ∧ nestingMembers ps ≤ inner := by
  simp only [nesting] at h
  exact ⟨depth - 1, by omega, by omega⟩

/-! ## Texts of a tree -/

/-- A text starts with a tree, in some layout and perhaps behind blank space, and goes on with
`rest`. -/
def Spells (j : Json) (cs rest : List Char) : Prop :=
  ∃ l k blank, Blank blank ∧ cs = blank ++ (write l k j ++ rest) ∧ Ends rest

/-- A reader reads every text of a tree as `a`, given room for the containers in it. -/
def Recovers {α : Type} (read : Nat → List Char → Step α) (j : Json) (a : α) : Prop :=
  ∀ ⦃depth cs rest⦄, j.nesting ≤ depth → Spells j cs rest → read depth cs = .ok (a, rest)

theorem blank_lineBreak (l : Layout) (k : Nat) : Blank (l.lineBreak k) := by
  intro c hc
  cases l with
  | compact => cases hc
  | pretty =>
    rcases List.mem_cons.1 hc with rfl | hc
    · rfl
    · rw [List.eq_of_mem_replicate hc]
      rfl

theorem colon_eq (l : Layout) : ∃ blank, l.colon = ':' :: blank ∧ Blank blank := by
  cases l with
  | compact => exact ⟨[], rfl, .nil⟩
  | pretty => exact ⟨[' '], rfl, by simp [Blank, isBlank]⟩

theorem ends_cons {c : Char} (hc : c = ',' ∨ c = ']' ∨ c = '}') (rest : List Char) :
    Ends (c :: rest) :=
  ends_blank_append .nil hc rest

theorem ends_lineBreak (l : Layout) (k : Nat) {c : Char} (hc : c = ']' ∨ c = '}')
    (rest : List Char) : Ends (l.lineBreak k ++ c :: rest) :=
  ends_blank_append (blank_lineBreak l k) (.inr hc) rest

theorem startsValue_write (l : Layout) (k : Nat) (j : Json) : StartsValue (write l k j) := by
  cases j with
  | null => exact ⟨_, _, rfl, rfl, by decide, by decide⟩
  | bool b => cases b <;> exact ⟨_, _, rfl, rfl, by decide, by decide⟩
  | string s => exact ⟨_, _, rfl, rfl, by decide, by decide⟩
  | array items => cases items <;> exact ⟨_, _, rfl, rfl, by decide, by decide⟩
  | object members => cases members <;> exact ⟨_, _, rfl, rfl, by decide, by decide⟩
  | number n =>
    rcases n.write_eq with ⟨c, cs, hcs, hc⟩ | ⟨hnull, _⟩
    · exact ⟨c, cs, hcs, startsValue_of_startsNumber hc⟩
    · exact ⟨_, _, hnull, rfl, by decide, by decide⟩

/-- What stands behind blank space in a text of a tree. -/
theorem Spells.dropBlank {j : Json} {cs rest : List Char} (h : Spells j cs rest) :
    ∃ l k, Token.dropBlank cs = write l k j ++ rest ∧ Ends rest := by
  obtain ⟨l, k, blank, hblank, rfl, hrest⟩ := h
  exact ⟨l, k, (startsValue_write l k j).dropBlank hblank rest, hrest⟩

theorem Spells.string {s : String} {cs rest : List Char} (h : Spells (.string s) cs rest) :
    ∃ tail, Token.dropBlank cs = '"' :: tail ∧ Token.string tail = .ok (s, rest) := by
  obtain ⟨l, k, hdrop, _⟩ := h.dropBlank
  exact ⟨_, hdrop.trans (quoted_append s rest), string_quoted s rest⟩

/-- Behind blank space stands the written number, whose first character shows that it is one. -/
theorem Spells.number {n : Number} (hn : ∀ x, n = .double x → x.RoundTrips)
    {cs rest : List Char} (h : Spells (.number n) cs rest) :
    ∃ c tail, Token.dropBlank cs = c :: tail ∧ startsNumber c = true ∧
      Token.number (c :: tail) = .ok (n, rest) := by
  obtain ⟨l, k, hdrop, hrest⟩ := h.dropBlank
  have hread := number_write hn hrest
  have hwrite : write l k (.number n) = n.write := rfl
  rcases n.write_eq with ⟨c, tail, hcons, hc⟩ | ⟨_, x, hx, hinfinite⟩
  · rw [hcons] at hread
    exact ⟨c, tail ++ rest, by rw [hdrop, hwrite, hcons, List.cons_append], hc, hread⟩
  · cases (hn x hx).finite.symm.trans hinfinite

/-! ## Lists -/

section Lists

variable {α : Type} {read : Nat → List Char → Step α} {f : α → Json}

/-- Reads an item in front of those that have been read. -/
def collect (read : List Char → Step α) (acc : List α) (cs : List Char) : Step (List α) :=
  (read cs).andThen fun a rest => .ok (a :: acc, rest)

theorem Recovers.collect {j : Json} {a : α} (h : Recovers read j a) {depth : Nat}
    (hdepth : j.nesting ≤ depth) (l : Layout) (k : Nat) {rest : List Char} (hrest : Ends rest)
    (acc : List α) :
    collect (read depth) acc (write l k j ++ rest) = .ok (a :: acc, rest) := by
  have hread := h hdepth ⟨l, k, [], .nil, rfl, hrest⟩
  rw [List.nil_append] at hread
  simp [Json.collect, hread]

theorem ends_writeItems (l : Layout) (k k' : Nat) (items : List Json) (rest : List Char) :
    Ends (writeItems l k items ++ (l.lineBreak k' ++ ']' :: rest)) := by
  cases items with
  | nil => exact ends_lineBreak l k' (.inl rfl) rest
  | cons j items => exact ends_cons (.inl rfl) _

theorem length_le_writeItems (l : Layout) (k : Nat) (items : List Json) :
    items.length ≤ (writeItems l k items).length := by
  induction items with
  | nil => exact Nat.zero_le _
  | cons j items ih =>
    simp only [writeItems, List.length_cons, List.length_append]
    omega

theorem items_collect (l : Layout) (k k' : Nat) (rest : List Char) {depth : Nat} {as : List α}
    (hread : ∀ a ∈ as, Recovers read (f a) a) (hdepth : ∀ a ∈ as, (f a).nesting ≤ depth)
    {rounds : Nat} (hrounds : as.length < rounds) (acc : List α) :
    items .reading (collect (read depth)) rounds false acc
      (writeItems l k (as.map f) ++ (l.lineBreak k' ++ ']' :: rest)) =
      .ok (as.reverse ++ acc, rest) := by
  -- every item takes a round, and the closing bracket takes the last one
  induction as generalizing acc rounds with
  | nil =>
    obtain ⟨rounds, rfl⟩ : ∃ m, rounds = m + 1 := ⟨rounds - 1, by simp at hrounds; omega⟩
    exact items_close _ _ _ (blank_lineBreak l k') rest
  | cons a as ih =>
    obtain ⟨rounds, rfl⟩ : ∃ m, rounds = m + 1 := ⟨rounds - 1, by simp at hrounds; omega⟩
    have hfirst := (hread a List.mem_cons_self).collect (hdepth a List.mem_cons_self) l k
      (ends_writeItems l k k' (as.map f) rest) acc
    have hothers := ih (fun a h => hread a (List.mem_cons_of_mem _ h))
      (fun a h => hdepth a (List.mem_cons_of_mem _ h)) (Nat.lt_of_succ_lt_succ hrounds) (a :: acc)
    simp only [List.map_cons, writeItems, List.cons_append, List.append_assoc]
    rw [items_next .reading rounds (dropBlank_cons rfl _) (startsValue_write l k _)
      (blank_lineBreak l k), hfirst, Step.andThen_ok, hothers]
    simp

/-- The items of a written list are collected in order. -/
theorem list_write {depth : Nat} {as : List α} (hread : ∀ a ∈ as, Recovers read (f a) a)
    (hdepth : ∀ a ∈ as, (f a).nesting ≤ depth) (l : Layout) (k : Nat) (rest : List Char) :
    ∃ tail, write l k (.array (as.map f)) ++ rest = '[' :: tail ∧
      list .reading (collect (read depth)) [] tail = .ok (as.reverse, rest) := by
  cases as with
  | nil => exact ⟨']' :: rest, rfl, items_close _ _ _ .nil rest⟩
  | cons a as =>
    have hfirst := (hread a List.mem_cons_self).collect (hdepth a List.mem_cons_self) l (k + 1)
      (ends_writeItems l (k + 1) k (as.map f) rest) []
    refine ⟨l.lineBreak (k + 1) ++ (write l (k + 1) (f a) ++
      (writeItems l (k + 1) (as.map f) ++ (l.lineBreak k ++ ']' :: rest))), by simp [write], ?_⟩
    rw [list, items_first .reading _ (startsValue_write l (k + 1) _) (blank_lineBreak l (k + 1)),
      hfirst, Step.andThen_ok, items_collect l (k + 1) k]
    · simp
    · exact fun a h => hread a (List.mem_cons_of_mem _ h)
    · exact fun a h => hdepth a (List.mem_cons_of_mem _ h)
    · have hlength := length_le_writeItems l (k + 1) (as.map f)
      simp only [List.length_append, List.length_cons, List.length_map] at hlength ⊢
      omega

end Lists

/-! ## Objects -/

section Objects

variable {σ : Type} {member : Nat → σ → String → List Char → Step σ}

/-- Reading one member behind its key, from its colon on, takes `acc` to `acc'`. -/
def Takes (member : Nat → σ → String → List Char → Step σ) (acc : σ) (key : String) (j : Json)
    (acc' : σ) : Prop :=
  ∀ ⦃depth cs rest⦄, j.nesting ≤ depth → Spells j cs rest →
    member depth acc key (':' :: cs) = .ok (acc', rest)

/-- Reading members one by one takes `acc` to `acc'`. -/
inductive Gathers (member : Nat → σ → String → List Char → Step σ) :
    σ → List (String × Json) → σ → Prop
  | nil (acc : σ) : Gathers member acc [] acc
  | cons {acc mid acc' : σ} {key : String} {j : Json} {ps : List (String × Json)} :
    Takes member acc key j mid → Gathers member mid ps acc' →
      Gathers member acc ((key, j) :: ps) acc'

theorem Gathers.append {acc mid acc' : σ} {ps qs : List (String × Json)}
    (hps : Gathers member acc ps mid) (hqs : Gathers member mid qs acc') :
    Gathers member acc (ps ++ qs) acc' := by
  induction hps with
  | nil => exact hqs
  | cons h _ ih => exact .cons h (ih hqs)

theorem Takes.read {acc acc' : σ} {key : String} {j : Json} (h : Takes member acc key j acc')
    {depth : Nat} (hdepth : j.nesting ≤ depth) (l : Layout) (k : Nat) {rest : List Char}
    (hrest : Ends rest) :
    member depth acc key (l.colon ++ (write l k j ++ rest)) = .ok (acc', rest) := by
  obtain ⟨blank, hcolon, hblank⟩ := colon_eq l
  rw [hcolon]
  exact h hdepth ⟨l, k, blank, hblank, rfl, hrest⟩

theorem ends_writeMembers (l : Layout) (k k' : Nat) (ps : List (String × Json))
    (rest : List Char) : Ends (writeMembers l k ps ++ (l.lineBreak k' ++ '}' :: rest)) := by
  cases ps with
  | nil => exact ends_lineBreak l k' (.inr rfl) rest
  | cons p ps => exact ends_cons (.inl rfl) _

theorem length_le_writeMembers (l : Layout) (k : Nat) (ps : List (String × Json)) :
    ps.length ≤ (writeMembers l k ps).length := by
  induction ps with
  | nil => exact Nat.zero_le _
  | cons p ps ih =>
    simp only [writeMembers, List.length_cons, List.length_append]
    omega

theorem members_gather (l : Layout) (k k' : Nat) (rest : List Char) {depth : Nat} {acc acc' : σ}
    {ps : List (String × Json)} (h : Gathers member acc ps acc')
    (hdepth : nestingMembers ps ≤ depth) {rounds : Nat} (hrounds : ps.length < rounds) :
    members .reading Token.string (member depth) rounds false acc
      (writeMembers l k ps ++ (l.lineBreak k' ++ '}' :: rest)) = .ok (acc', rest) := by
  -- the induction is on what was written; the text after a member never goes on with a number
  induction h generalizing rounds with
  | nil acc =>
    obtain ⟨rounds, rfl⟩ : ∃ m, rounds = m + 1 := ⟨rounds - 1, by simp at hrounds; omega⟩
    exact members_close _ _ _ (blank_lineBreak l k') rest
  | @cons acc mid acc' key j ps htakes _ ih =>
    obtain ⟨rounds, rfl⟩ : ∃ m, rounds = m + 1 := ⟨rounds - 1, by simp at hrounds; omega⟩
    obtain ⟨hj, hps⟩ := Nat.max_le.1 hdepth
    have hfirst := htakes.read hj l k (ends_writeMembers l k k' ps rest)
    have hothers := ih hps (Nat.lt_of_succ_lt_succ hrounds)
    simp only [writeMembers, List.cons_append, List.append_assoc]
    rw [quoted_append, members_next .reading rounds (dropBlank_cons rfl _) (blank_lineBreak l k),
      string_quoted, Step.andThen_ok, hfirst, Step.andThen_ok, hothers]

/-- The members of a written object are read one by one. -/
theorem object_write {depth : Nat} {start acc : σ} {ps : List (String × Json)}
    (h : Gathers member start ps acc) (hdepth : nestingMembers ps ≤ depth) (l : Layout) (k : Nat)
    (rest : List Char) :
    ∃ tail, write l k (.object ps) ++ rest = '{' :: tail ∧
      Reader.object .reading Token.string (member depth) start tail = .ok (acc, rest) := by
  cases h with
  | nil => exact ⟨'}' :: rest, rfl, members_close _ _ _ .nil rest⟩
  | @cons _ mid _ key j ps htakes hps =>
    obtain ⟨hj, hothers⟩ := Nat.max_le.1 hdepth
    have hfirst := htakes.read hj l (k + 1) (ends_writeMembers l (k + 1) k ps rest)
    refine ⟨l.lineBreak (k + 1) ++ (quoted key ++ (l.colon ++ (write l (k + 1) j ++
      (writeMembers l (k + 1) ps ++ (l.lineBreak k ++ '}' :: rest))))), by simp [write], ?_⟩
    rw [Reader.object, quoted_append, members_first .reading _ (blank_lineBreak l (k + 1)),
      string_quoted, Step.andThen_ok, hfirst, Step.andThen_ok]
    refine members_gather l (k + 1) k rest hps hothers ?_
    have hlength := length_le_writeMembers l (k + 1) ps
    simp only [List.length_append, List.length_cons]
    omega

/-- A member whose value is read behind its colon. -/
def afterColon (member : Nat → σ → String → List Char → Step σ) (depth : Nat) (acc : σ)
    (key : String) (cs : List Char) : Step σ :=
  (passed (colon cs)).andThen fun _ cs => member depth acc key cs

theorem Takes.afterColon {acc acc' : σ} {key : String} {j : Json}
    (h : Recovers (fun depth => member depth acc key) j acc') :
    Takes (afterColon member) acc key j acc' := by
  intro depth cs rest hdepth hcs
  show member depth acc key cs = _
  exact h hdepth hcs

end Objects

/-! ## The reader of trees -/

/-- Reads a member in front of those that have been read. -/
def collectMember (depth : Nat) (acc : List (String × Json)) (key : String) (cs : List Char) :
    Step (List (String × Json)) :=
  (value depth cs).andThen fun j rest => .ok ((key, j) :: acc, rest)

theorem gathers_collectMember {ps : List (String × Json)}
    (h : ∀ p ∈ ps, Recovers value p.2 p.2) (acc : List (String × Json)) :
    Gathers (afterColon collectMember) acc ps (ps.reverse ++ acc) := by
  induction ps generalizing acc with
  | nil => exact .nil acc
  | cons p ps ih =>
    have hp : Recovers (fun depth => collectMember depth acc p.1) p.2 (p :: acc) := by
      intro depth cs rest hdepth hcs
      simp [collectMember, h p List.mem_cons_self hdepth hcs]
    have hothers := ih (fun q hq => h q (List.mem_cons_of_mem _ hq)) (p :: acc)
    rw [List.reverse_cons, List.append_assoc]
    exact .cons (.afterColon hp) hothers

theorem value_of_startsNumber {depth : Nat} {cs tail : List Char} {c : Char}
    (hdrop : dropBlank cs = c :: tail) (hc : startsNumber c = true) :
    value depth cs = (Token.number (c :: tail)).andThen fun n rest => .ok (.number n, rest) := by
  rw [value, hdrop]
  split
  case h_8 heq =>
    cases heq
    rw [if_pos hc]
  all_goals
    rename_i heq
    cases heq
    try cases hc

theorem recovers_number {n : Number} (hn : ∀ x, n = .double x → x.RoundTrips) :
    Recovers value (.number n) (.number n) := by
  intro depth cs rest _ hcs
  obtain ⟨c, tail, hdrop, hc, hread⟩ := hcs.number hn
  rw [value_of_startsNumber hdrop hc, hread]
  rfl

mutual

/-- **A written tree is read back**, if the doubles in it are. -/
theorem value_recovers : ∀ j : Json, (∀ x ∈ j.doubles, x.RoundTrips) → Recovers value j j
  | .null, _ => by
    intro depth cs rest _ hcs
    obtain ⟨l, k, hdrop, _⟩ := hcs.dropBlank
    rw [value, hdrop]
    rfl
  | .bool b, _ => by
    intro depth cs rest _ hcs
    obtain ⟨l, k, hdrop, _⟩ := hcs.dropBlank
    rw [value, hdrop]
    cases b <;> rfl
  | .string s, _ => by
    intro depth cs rest _ hcs
    obtain ⟨tail, hdrop, hread⟩ := hcs.string
    rw [value, hdrop]
    simp [hread]
  | .number n, h => by
    refine recovers_number fun x hx => h x ?_
    subst hx
    exact List.mem_cons_self
  | .array items, h => by
    intro depth cs rest hdepth hcs
    obtain ⟨l, k, hdrop, _⟩ := hcs.dropBlank
    obtain ⟨inner, rfl, hinner⟩ := room_array hdepth
    have hitems := nestingItems_le.1 hinner
    obtain ⟨tail, hwrite, hread⟩ := list_write (f := id) (recovers_items items h) hitems l k rest
    rw [List.map_id] at hwrite
    rw [value, hdrop, hwrite]
    show (list .reading (collect (value inner)) [] tail).andThen _ = _
    simp [hread]
  | .object ps, h => by
    intro depth cs rest hdepth hcs
    obtain ⟨l, k, hdrop, _⟩ := hcs.dropBlank
    obtain ⟨inner, rfl, hinner⟩ := room_object hdepth
    have hmembers := gathers_collectMember (recovers_members ps h) []
    obtain ⟨tail, hwrite, hread⟩ := object_write hmembers hinner l k rest
    rw [value, hdrop, hwrite]
    show (Reader.object .reading Token.string (afterColon collectMember inner) [] tail).andThen _ =
      _
    simp [hread]

theorem recovers_items : ∀ items : List Json, (∀ x ∈ doublesItems items, x.RoundTrips) →
    ∀ j ∈ items, Recovers value j j
  | [], _ => fun _ hj => absurd hj List.not_mem_nil
  | j :: rest, h => by
    have hj := value_recovers j fun x hx => h x (List.mem_append_left _ hx)
    have hrest := recovers_items rest fun x hx => h x (List.mem_append_right _ hx)
    exact List.forall_mem_cons.2 ⟨hj, hrest⟩

theorem recovers_members : ∀ ps : List (String × Json),
    (∀ x ∈ doublesMembers ps, x.RoundTrips) → ∀ p ∈ ps, Recovers value p.2 p.2
  | [], _ => fun _ hp => absurd hp List.not_mem_nil
  | (_, j) :: rest, h => by
    have hj := value_recovers j fun x hx => h x (List.mem_append_left _ hx)
    have hrest := recovers_members rest fun x hx => h x (List.mem_append_right _ hx)
    exact List.forall_mem_cons.2 ⟨hj, hrest⟩

end

/-! ## Canonical trees -/

mutual

theorem canonical_eq_self : ∀ {j : Json}, j.Canonical → j.canonical = j
  | .null, _ => rfl
  | .bool _, _ => rfl
  | .string _, _ => rfl
  | .number (.natural _), _ => rfl
  | .number (.negative _), _ => rfl
  | .number (.double _), h => if_pos h
  | .array items, h => by rw [canonical, canonicalItems_eq_self h]
  | .object ps, h => by
    rw [canonical, canonicalMembers_eq_self h.2, KeyMap.ofList_entries ⟨ps, h.1⟩]

theorem canonicalItems_eq_self :
    ∀ {items : List Json}, CanonicalItems items → canonicalItems items = items
  | [], _ => rfl
  | _ :: _, h => by rw [canonicalItems, canonical_eq_self h.1, canonicalItems_eq_self h.2]

theorem canonicalMembers_eq_self :
    ∀ {ps : List (String × Json)}, CanonicalMembers ps → canonicalMembers ps = ps
  | [], _ => rfl
  | (_, _) :: _, h => by rw [canonicalMembers, canonical_eq_self h.1, canonicalMembers_eq_self h.2]

end

/-! ## Documents -/

/-- **A document of a tree** is read by a reader that recovers the tree. -/
theorem document_render {α : Type} {read : Nat → List Char → Step α} {j : Json} {a : α}
    (h : Recovers read j a) (hnesting : j.nesting ≤ depthLimit) (l : Layout) :
    document read (render l j) = .ok a := by
  have hcs : Spells j (render l j).toList [] :=
    ⟨l, 0, [], .nil, by simp [render], .nil⟩
  rw [document, h hnesting hcs]
  rfl

theorem document_line {α : Type} {read : Nat → List Char → Step α} {j : Json} {a : α}
    (h : Recovers read j a) (hnesting : j.nesting ≤ depthLimit) (l : Layout) :
    document read (render l j ++ "\n") = .ok a := by
  have hcs : Spells j (render l j ++ "\n").toList ['\n'] :=
    ⟨l, 0, [], .nil, by simp [render], Blank.ends (by simp [Blank, isBlank])⟩
  rw [document, h hnesting hcs]
  rfl

end Dataflow.Json
