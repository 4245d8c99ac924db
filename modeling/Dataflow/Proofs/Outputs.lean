import Dataflow.Node
import Dataflow.Proofs.Restated
import Dataflow.Proofs.RoundTrip
import Mathlib.Data.List.Induction

/-!
# The outputs of a node

An output whose key is taken is refused, be it declared on a node in a program or listed in a text.
So what has been declared is always the first type of each key (`declared_firstOutputs`), whichever
way the outputs come.

* `repeats`, `firstRepeat`: the keys that occur earlier in a list of outputs.
* `firstOutputs`: the first type of each key.
* `inTurn`: outputs declared in turn, going on after one that is refused.
* `ListsOutputs`: an object that holds a node with a list of outputs.
* `nodeText`: such an object for any id and any list.
-/

namespace Dataflow

open Json

/-! ## Keys that occur earlier -/

/-- For each output its key, if an output before it has the same one. -/
def repeats (pairs : List (String × ArtifactType)) : List (Option String) :=
  pairs.mapIdx fun i p => if p.1 ∈ (pairs.take i).map (·.1) then some p.1 else none

/-- The key of the first output whose key occurs earlier. -/
def firstRepeat (pairs : List (String × ArtifactType)) : Option String :=
  (repeats pairs).findSome? id

theorem repeats_concat (pairs : List (String × ArtifactType)) (p : String × ArtifactType) :
    repeats (pairs ++ [p]) =
      repeats pairs ++ [if p.1 ∈ pairs.map (·.1) then some p.1 else none] := by
  unfold repeats
  rw [List.mapIdx_concat, List.take_left]
  congr 1
  refine List.mapIdx_eq_mapIdx_iff.2 fun i hi => ?_
  rw [List.take_append_of_le_length hi.le]

theorem firstRepeat_concat (pairs : List (String × ArtifactType)) (p : String × ArtifactType) :
    firstRepeat (pairs ++ [p]) =
      (firstRepeat pairs).or (if p.1 ∈ pairs.map (·.1) then some p.1 else none) := by
  rw [firstRepeat, repeats_concat, List.findSome?_append, List.findSome?_singleton]
  rfl

theorem firstRepeat_eq_none_iff (pairs : List (String × ArtifactType)) :
    firstRepeat pairs = none ↔ (pairs.map (·.1)).Nodup := by
  induction pairs using List.reverseRecOn with
  | nil => exact iff_of_true rfl .nil
  | append_singleton pairs p ih =>
    rw [firstRepeat_concat, Option.or_eq_none_iff, ih, List.map_append, List.map_singleton,
      List.nodup_append_comm, List.singleton_append, List.nodup_cons, and_comm]
    simp

/-! ## The first type of each key -/

/-- The first type of each key. -/
def firstOutputs (pairs : List (String × ArtifactType)) : KeyMap ArtifactType :=
  .ofList pairs.reverse

theorem get?_firstOutputs (pairs : List (String × ArtifactType)) (key : String) :
    (firstOutputs pairs).get? key = (pairs.find? fun p => p.1 = key).map (·.2) := by
  rw [firstOutputs, KeyMap.ofList, List.foldl_reverse]
  induction pairs with
  | nil => rfl
  | cons p pairs ih =>
    rw [List.foldr_cons, KeyMap.get?_insert, ih, List.find?_cons]
    by_cases hkey : p.1 = key
    · simp [hkey]
    · simp [hkey, Ne.symm hkey]

theorem contains_firstOutputs {pairs : List (String × ArtifactType)} {key : String} :
    (firstOutputs pairs).contains key = true ↔ key ∈ pairs.map (·.1) := by
  rw [KeyMap.contains, get?_firstOutputs]
  simp

theorem get?_firstOutputs_concat (pairs : List (String × ArtifactType)) (p : String × ArtifactType)
    (key : String) : (firstOutputs (pairs ++ [p])).get? key =
      ((firstOutputs pairs).get? key).or (if p.1 = key then some p.2 else none) := by
  rw [get?_firstOutputs, get?_firstOutputs, List.find?_append, List.find?_singleton,
    Option.map_or]
  congr 1
  split <;> simp_all

theorem firstOutputs_concat_of_mem {pairs : List (String × ArtifactType)}
    {p : String × ArtifactType} (h : p.1 ∈ pairs.map (·.1)) :
    firstOutputs (pairs ++ [p]) = firstOutputs pairs := by
  refine KeyMap.ext_get? fun key => ?_
  rw [get?_firstOutputs_concat]
  by_cases hkey : p.1 = key
  · subst hkey
    obtain ⟨t, ht⟩ := Option.isSome_iff_exists.1 (contains_firstOutputs.2 h)
    rw [ht, Option.some_or]
  · rw [if_neg hkey, Option.or_none]

theorem firstOutputs_concat_of_not_mem {pairs : List (String × ArtifactType)}
    {p : String × ArtifactType} (h : p.1 ∉ pairs.map (·.1)) :
    firstOutputs (pairs ++ [p]) = (firstOutputs pairs).insert p.1 p.2 := by
  refine KeyMap.ext_get? fun key => ?_
  rw [get?_firstOutputs_concat, KeyMap.get?_insert]
  by_cases hkey : p.1 = key
  · subst hkey
    have hnone : (firstOutputs pairs).get? p.1 = none :=
      Option.not_isSome_iff_eq_none.1 fun hsome => h (contains_firstOutputs.1 hsome)
    rw [hnone, Option.none_or]
  · rw [if_neg hkey, if_neg (Ne.symm hkey), Option.or_none]

/-! ## Declaring outputs -/

section

variable {ε : Type}

/-- The outputs with one more, unless its key is taken. -/
def declared (refuse : String → ε) (outputs : KeyMap ArtifactType) (p : String × ArtifactType) :
    Except ε (KeyMap ArtifactType) :=
  if outputs.contains p.1 then .error (refuse p.1) else .ok (outputs.insert p.1 p.2)

/-- One more output is refused exactly if its key occurs earlier, and otherwise the first type
of each key is declared as before. -/
theorem declared_firstOutputs (refuse : String → ε) (pairs : List (String × ArtifactType))
    (p : String × ArtifactType) :
    declared refuse (firstOutputs pairs) p =
      if p.1 ∈ pairs.map (·.1) then .error (refuse p.1) else .ok (firstOutputs (pairs ++ [p])) := by
  rw [declared]
  by_cases h : p.1 ∈ pairs.map (·.1)
  · rw [if_pos (contains_firstOutputs.2 h), if_pos h]
  · rw [if_neg fun hc => h (contains_firstOutputs.1 hc), if_neg h,
      firstOutputs_concat_of_not_mem h]

/-- Outputs declared up to the first refusal are refused at the first key that occurs
earlier. -/
theorem foldlM_declared (refuse : String → ε) (pairs : List (String × ArtifactType)) :
    pairs.foldlM (declared refuse) .empty =
      match firstRepeat pairs with
      | none => .ok (firstOutputs pairs)
      | some key => .error (refuse key) := by
  -- the last output meets what those before it have left, or is not looked at
  induction pairs using List.reverseRecOn with
  | nil => rfl
  | append_singleton pairs p ih =>
    rw [List.foldlM_append, ih, firstRepeat_concat]
    cases firstRepeat pairs with
    | some key => rfl
    | none =>
      show (declared refuse (firstOutputs pairs) p >>= pure) = _
      rw [bind_pure, declared_firstOutputs, Option.none_or]
      split <;> rfl

end

/-- One more output is refused exactly if its key occurs earlier. Either way the first type of
each key is declared afterwards. -/
theorem declareOutput_firstOutputs (id : String) (pairs : List (String × ArtifactType))
    (p : String × ArtifactType) :
    declareOutput id (firstOutputs pairs) p.1 p.2 =
      (if p.1 ∈ pairs.map (·.1) then .error (.repeatedOutput id p.1) else .ok (),
        firstOutputs (pairs ++ [p])) := by
  rw [declareOutput]
  by_cases h : p.1 ∈ pairs.map (·.1)
  · rw [if_pos (contains_firstOutputs.2 h), if_pos h, firstOutputs_concat_of_mem h]
  · rw [if_neg fun hc => h (contains_firstOutputs.1 hc), if_neg h,
      firstOutputs_concat_of_not_mem h]

/-- What is wrong with an attempt. -/
def refusal? : Except Diagnostic Unit → Option Diagnostic
  | .ok () => none
  | .error problem => some problem

/-- Declares outputs in turn, going on with what each attempt leaves: what is wrong with each of
them, and what the last one leaves. -/
def inTurn {σ : Type} (add : σ → String → ArtifactType → Except Diagnostic Unit × σ) (start : σ)
    (pairs : List (String × ArtifactType)) : List (Option Diagnostic) × σ :=
  pairs.foldl (fun run p =>
    let (outcome, s) := add run.2 p.1 p.2
    (run.1 ++ [refusal? outcome], s)) ([], start)

/-- **Outputs declared in turn** are refused wherever their key occurs earlier. -/
theorem inTurn_eq {σ : Type} {add : σ → String → ArtifactType → Except Diagnostic Unit × σ}
    (id : String) (holding : KeyMap ArtifactType → σ)
    (hadd : ∀ outputs key t, add (holding outputs) key t =
      ((declareOutput id outputs key t).1, holding (declareOutput id outputs key t).2))
    (pairs : List (String × ArtifactType)) :
    inTurn add (holding .empty) pairs =
      ((repeats pairs).map (·.map (.repeatedOutput id)), holding (firstOutputs pairs)) := by
  induction pairs using List.reverseRecOn with
  | nil => rfl
  | append_singleton pairs p ih =>
    rw [inTurn, List.foldl_concat, ← inTurn, ih, repeats_concat, List.map_append,
      List.map_singleton, hadd, declareOutput_firstOutputs]
    by_cases h : p.1 ∈ pairs.map (·.1)
    · rw [if_pos h, if_pos h]
      rfl
    · rw [if_neg h, if_neg h]
      rfl

/-- An output that is refused leaves the others as they were. -/
theorem declareOutput_snd_of_error {id key : String} {outputs : KeyMap ArtifactType}
    {t : ArtifactType} {problem : Diagnostic}
    (h : (declareOutput id outputs key t).1 = .error problem) :
    (declareOutput id outputs key t).2 = outputs := by
  unfold declareOutput at h ⊢
  split
  · rfl
  · rename_i hc
    simp [hc] at h

theorem NodeDeclaration.addOutput_snd_of_error {n : NodeDeclaration} {key : String}
    {t : ArtifactType} {problem : Diagnostic} (h : (n.addOutput key t).1 = .error problem) :
    (n.addOutput key t).2 = n := by
  show { n with outputs := (declareOutput n.id n.outputs key t).2 } = n
  rw [declareOutput_snd_of_error h]

theorem Node.addOutput_snd_of_error {n : Node} {key : String} {t : ArtifactType}
    {problem : Diagnostic} (h : (n.addOutput key t).1 = .error problem) :
    (n.addOutput key t).2 = n := by
  show { n with outputs := (declareOutput n.id n.outputs key t).2 } = n
  rw [declareOutput_snd_of_error h]

/-! ## Reading outputs -/

section

variable {depth : Nat} {node : NodeDeclaration} {pairs : List (String × ArtifactType)}
  {members : List Member} {v : List Char}

theorem alone_readOutput {t : ArtifactType} (h : ReadsAs (ArtifactType.read depth) v t)
    (outputs : KeyMap ArtifactType) (key : String) :
    alone (fun cs => (ArtifactType.read depth cs).andThen fun t rest =>
      if outputs.contains key then .error (.repeatedOutput key)
      else .ok (outputs.insert key t, rest)) v = declared .repeatedOutput outputs (key, t) := by
  rw [h.alone_andThen, declared]
  cases outputs.contains key <;> rfl

/-- An object of outputs is read like the outputs are declared, up to the first refusal. -/
theorem alone_readOutputs (hv : IsObject members v)
    (hpairs : List.Forall₂ (fun m p => m.name = .ok p.1 ∧
      ReadsAs (ArtifactType.read depth) m.value p.2) members pairs) :
    alone (readOutputs (depth + 1)) v = pairs.foldlM (declared .repeatedOutput) .empty := by
  obtain ⟨text, rfl, htext, hms⟩ := hv
  refine (alone_eq fun rest _ =>
    fold_object _ (steady_readOutput depth) _ _ htext hms .nil rest).trans ?_
  refine foldlM_eq_of_forall₂ (hpairs.imp fun m p hmember outputs => ?_) KeyMap.empty
  obtain ⟨hname, hread⟩ := hmember
  rw [← Member.name, hname]
  exact alone_readOutput hread outputs p.1

/-- The text of an object whose outputs are these pairs in this order, and which holds a node
besides. The keys may be spelled in any way. -/
inductive ListsOutputs (depth : Nat) (node : NodeDeclaration)
    (pairs : List (String × ArtifactType)) (v : List Char) : Prop
  | intro {before after members : List Member} {outputs : Member} {others : List Char}
    (isObject : IsObject (before ++ outputs :: after) v)
    (named : outputs.name = .ok "outputs")
    (isMap : IsObject members outputs.value)
    (lists : List.Forall₂ (fun m p => m.name = .ok p.1 ∧
      ReadsAs (ArtifactType.read depth) m.value p.2) members pairs)
    (once : ∀ m ∈ before ++ after, m.name ≠ .ok "outputs")
    (isOthers : IsObject (before ++ after) others)
    (holds : ReadsAs (NodeDeclaration.read (depth + 2)) others node)

theorem finish_setOutputs {d : NodeDeclaration.Draft}
    (h : NodeDeclaration.record.finish d = .ok node) (outputs : KeyMap ArtifactType) :
    NodeDeclaration.record.finish { d with outputs := some outputs } =
      .ok { node with outputs := outputs } := by
  obtain ⟨id, contexts, declared, inputs⟩ := d
  cases id with
  | none => cases h
  | some id =>
    cases h
    rfl

/-- The node with the first type of each key for its outputs, if no key occurs earlier. -/
def listing (node : NodeDeclaration) (pairs : List (String × ArtifactType)) :
    Except Fault NodeDeclaration :=
  match firstRepeat pairs with
  | none => .ok { node with outputs := firstOutputs pairs }
  | some key => .error (.repeatedOutput key)

theorem ListsOutputs.isValue (h : ListsOutputs depth node pairs v) : IsValue v := by
  obtain ⟨isObject, -⟩ := h
  exact isObject.isValue

/-- **A node is read with the outputs that its text lists**, if no key occurs earlier. -/
theorem ListsOutputs.alone_read (h : ListsOutputs depth node pairs v) :
    alone (NodeDeclaration.read (depth + 2)) v = listing node pairs := by
  obtain ⟨isObject, named, isMap, lists, once, isOthers, holds⟩ := h
  obtain ⟨d, hd, hread⟩ := NodeDeclaration.lawful.alone_object_insert
    (s := NodeDeclaration.slots[2]) (List.getElem_mem _) named once isOthers holds.eq_ok isObject
  rw [NodeDeclaration.read, hread]
  show (alone (readOutputs (depth + 1)) _ >>= fun outputs =>
    NodeDeclaration.record.finish { d with outputs := some outputs }) = _
  rw [alone_readOutputs isMap lists, foldlM_declared, listing]
  cases firstRepeat pairs with
  | none => exact finish_setOutputs hd (firstOutputs pairs)
  | some key => rfl

end

/-! ## Texts that list outputs -/

/-- A node with an id and with outputs whose keys are spelled in some way. -/
def nodeText (id : String) (spelled : List (List Char × ArtifactType)) : List Char :=
  objectText [.of "id" (quoted id),
    .of "outputs" (objectText (spelled.map fun p => ⟨p.1 ++ ['"'], write .compact 0 p.2.toJson⟩))]

theorem ArtifactType.isValue_write (t : ArtifactType) (k : Nat) :
    IsValue (write .compact k t.toJson) := by
  have hstring (s : String) (k : Nat) : IsValue (write .compact k (.string s)) := isValue_quoted s
  have hschema : IsValue (write .compact (k + 1) (t.schema.toJson Kind.toJson)) :=
    (isObject_write (List.forall_mem_map.2 fun e _ => hstring e.2.name _)).isValue
  refine (isObject_write (List.forall_mem_cons.2 ⟨hstring t.name _, ?_⟩)).isValue
  split
  · exact fun _ h => absurd h List.not_mem_nil
  · simpa using hschema

theorem listsOutputs_nodeText (depth : Nat) (id : String)
    {spelled : List (List Char × ArtifactType)} {pairs : List (String × ArtifactType)}
    (hkeys : ∀ p ∈ spelled, IsString (p.1 ++ ['"']))
    (hpairs : List.Forall₂ (fun s p => alone Token.string (s.1 ++ ['"']) = .ok p.1 ∧ s.2 = p.2)
      spelled pairs) :
    ListsOutputs (depth + 2) (.ofId id) pairs (nodeText id spelled) := by
  have houtputs : IsObject _ (objectText (spelled.map fun p =>
      ⟨p.1 ++ ['"'], write .compact 0 p.2.toJson⟩)) :=
    isObject_objectText (List.forall_mem_map.2 hkeys)
      (List.forall_mem_map.2 fun p _ => p.2.isValue_write 0)
  have hid : IsObject ([.of "id" (quoted id)] ++ [])
      (write .compact 0 (.object [("id", .string id)])) :=
    isObject_write (List.forall_mem_singleton.2 (isValue_quoted id))
  have hnode : IsObject ([.of "id" (quoted id)] ++ .of "outputs" _ :: []) (nodeText id spelled) :=
    isObject_objectText (by simp [Member.isString_key_of])
      (by simp [isValue_quoted, houtputs.isValue])
  have hread : Recovers NodeDeclaration.read (.object [("id", .string id)]) (.ofId id) :=
    Record.recovers (.cons (Record.takes_field "id" rfl rfl rfl (text_recovers id)) (.nil _)) rfl
  refine .intro hnode (Member.name_of _ _) houtputs ?_ (by simp) hid
    (hread.readsAs (Nat.le_add_left 1 _) .compact 0)
  rw [List.forall₂_map_left_iff]
  refine hpairs.imp fun s p hsp => ⟨hsp.1, ?_⟩
  rw [hsp.2]
  exact p.2.recovers.readsAs (p.2.nesting_toJson_le.trans (Nat.le_add_left 2 depth)) .compact 0

/-- Every list of outputs has a text that lists it. -/
theorem exists_listsOutputs (depth : Nat) (id : String) (pairs : List (String × ArtifactType)) :
    ∃ v, ListsOutputs (depth + 2) (.ofId id) pairs v := by
  refine ⟨nodeText id (pairs.map fun p => (escapedAll p.1.toList, p.2)),
    listsOutputs_nodeText depth id (List.forall_mem_map.2 fun p _ => isString_escapedAll _) ?_⟩
  rw [List.forall₂_map_left_iff, List.forall₂_same]
  exact fun p _ => ⟨Member.name_of p.1 [], rfl⟩

/-! ## Three ways of declaring outputs -/

/-- **However outputs are declared, the first type of each key counts and every later one is
refused.** A node that is put together in a program is refused an output wherever its key occurs
earlier, goes on unchanged, and has the first type of each key in the end. A node that is read has
the same outputs if no key occurs earlier, and otherwise the fault is the first key that does. The
keys of a text are compared as they are read, not as they are spelled. -/
theorem outputs_declared_alike (id : String) (pairs : List (String × ArtifactType)) :
    inTurn NodeDeclaration.addOutput (.ofId id) pairs =
        ((repeats pairs).map (·.map (.repeatedOutput id)), ⟨id, [], firstOutputs pairs, .empty⟩) ∧
      inTurn Node.addOutput (.ofId id) pairs =
        ((repeats pairs).map (·.map (.repeatedOutput id)), ⟨id, [], firstOutputs pairs, .empty⟩) ∧
      (∀ (n : NodeDeclaration) key t problem,
        (n.addOutput key t).1 = .error problem → (n.addOutput key t).2 = n) ∧
      (∀ (n : Node) key t problem,
        (n.addOutput key t).1 = .error problem → (n.addOutput key t).2 = n) ∧
      (∀ key, (firstOutputs pairs).get? key = (pairs.find? fun p => p.1 = key).map (·.2)) ∧
      (firstRepeat pairs = none ↔ (pairs.map (·.1)).Nodup) ∧
      (∃ v, ListsOutputs (Reader.depthLimit - 2) (.ofId id) pairs v) ∧
      (∀ depth node v blank rest, ListsOutputs depth node pairs v → Token.Blank blank →
        Token.Ends rest → NodeDeclaration.read (depth + 2) (blank ++ (v ++ rest)) =
          (listing node pairs).map fun n => (n, rest)) ∧
      ∀ node v text, ListsOutputs (Reader.depthLimit - 2) node pairs v → IsDocument v text →
        Reader.document NodeDeclaration.read text = listing node pairs := by
  refine ⟨?_, ?_, fun _ _ _ _ => NodeDeclaration.addOutput_snd_of_error,
    fun _ _ _ _ => Node.addOutput_snd_of_error, get?_firstOutputs pairs,
    firstRepeat_eq_none_iff pairs, exists_listsOutputs 123 id pairs, ?_, ?_⟩
  · exact inTurn_eq id (NodeDeclaration.mk id [] · .empty) (fun _ _ _ => rfl) pairs
  · exact inTurn_eq id (Node.mk id [] · .empty) (fun _ _ _ => rfl) pairs
  · intro depth node v blank rest hv hblank hrest
    rw [NodeDeclaration.steady_read (depth + 2) v hv.isValue hblank hrest, hv.alone_read]
  · intro node v text hv htext
    rw [(NodeDeclaration.steady_read _ v hv.isValue).document_eq htext]
    exact hv.alone_read

/-- Two spellings of one key are one key, and the second output is refused however it comes. -/
theorem outputs_declared_alike_escaped :
    let x : ArtifactType := ⟨"X", .empty⟩
    let y : ArtifactType := ⟨"Y", .empty⟩
    let out := ['o', 'u', 't']
    let escaped := ['\\', 'u', '0', '0', '6', 'f', 'u', 't']
    inTurn NodeDeclaration.addOutput (.ofId "a") [("out", x), ("out", y)] =
        ([none, some (.repeatedOutput "a" "out")], ⟨"a", [], .ofList [("out", x)], .empty⟩) ∧
      Reader.document NodeDeclaration.read (.ofList (nodeText "a" [(out, x), (escaped, y)])) =
        .error (.repeatedOutput "out") := by
  intro x y out escaped
  have hplain : IsString (out ++ ['"']) := isString_escapedAll out
  have hescaped : IsString (escaped ++ ['"']) :=
    .unicode (.inl (by decide)) (.inl (by decide)) (.inl (by decide)) (.inr (.inl (by decide)))
      (isString_escapedAll ['u', 't'])
  have hlists : ListsOutputs 125 (.ofId "a") [("out", x), ("out", y)]
      (nodeText "a" [(out, x), (escaped, y)]) :=
    listsOutputs_nodeText 123 "a" (by simp [hplain, hescaped])
      (.cons ⟨by decide +kernel, rfl⟩ (.cons ⟨by decide +kernel, rfl⟩ .nil))
  obtain ⟨hturn, -, -, -, -, -, -, -, hread⟩ := outputs_declared_alike "a" [("out", x), ("out", y)]
  exact ⟨hturn.trans (by decide +kernel),
    (hread _ _ _ hlists (isDocument_ofList _)).trans (by decide +kernel)⟩

end Dataflow
