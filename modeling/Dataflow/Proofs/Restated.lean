import Dataflow.Proofs.Presentations
import Dataflow.Wire.Decode

/-!
# The records of a definition may be restated

The records of a definition are all read by the same rules, so each of them may be written as an
object with its members in any order and with members that are no fields, or as a list of its
fields. What remains to be said of a record is which fields it has, what the reader of each of them
does, and what an omitted one counts for.

* `Definition.slots` and its parts: the fields of the records and their defaults.
* `records_restatable`: every presentation of a record is read as the same.
-/

namespace Dataflow

open Json Json.Token Json.Reader

/-! ## Names and values -/

theorem Kind.steady_read (depth : Nat) : Steady (Kind.read depth) :=
  steady_unitTag _ depth

theorem Mode.steady_read (depth : Nat) : Steady (Mode.read depth) :=
  steady_unitTag _ depth

theorem steady_readText (depth : Nat) : Steady (readText depth) :=
  steady_text

theorem Value.steady_read (depth : Nat) : Steady (Value.read depth) := by
  refine steady_valueTag (fun p hp depth => ?_) depth
  simp only [List.mem_cons, List.not_mem_nil, or_false] at hp
  rcases hp with rfl | rfl | rfl
  · exact steady_int64.map Value.int
  · exact steady_text.map Value.string
  · exact steady_binary64.map Value.double

theorem FreeJson.steady_read (depth : Nat) : Steady (FreeJson.read depth) :=
  (steady_value depth).map FreeJson.ofJson

/-! ## Contexts and artifact types -/

/-- The fields of a context; both are required. -/
def Context.slots : List (Slot Context.Draft) := [
  ⟨String, "type", (·.type), fun d s => { d with type := some s }, readText, none⟩,
  ⟨Value, "name", (·.name), fun d v => { d with name := some v }, Value.read, none⟩]

theorem Context.lawful : Context.record.Lawful Context.slots where
  fields := rfl
  steady := by simp [slots, steady_readText, Value.steady_read]
  apart := by simp [slots, Slot.Apart]
  get?_set := by simp [slots]
  get?_blank := by simp [slots, record]
  finish d d' h := by
    simp [slots, Slot.filled] at h
    simp [record, h]

theorem Context.steady_read (depth : Nat) : Steady (Context.read depth) :=
  Record.steady Context.lawful.steady_fields depth

/-- The fields of an artifact type; the schema may be left out. -/
def ArtifactType.slots : List (Slot ArtifactType.Draft) := [
  ⟨String, "name", (·.name), fun d s => { d with name := some s }, readText, none⟩,
  ⟨Schema, "properties", (·.schema), fun d m => { d with schema := some m }, mapOf Kind.read,
    some .empty⟩]

theorem ArtifactType.lawful : ArtifactType.record.Lawful ArtifactType.slots where
  fields := rfl
  steady := by simp [slots, steady_readText, Steady.mapOf Kind.steady_read]
  apart := by simp [slots, Slot.Apart]
  get?_set := by simp [slots]
  get?_blank := by simp [slots, record]
  finish d d' h := by
    simp [slots, Slot.filled] at h
    simp [record, h]

theorem ArtifactType.steady_read (depth : Nat) : Steady (ArtifactType.read depth) :=
  Record.steady ArtifactType.lawful.steady_fields depth

/-! ## Queries and parameters -/

/-- The fields of a channel query. -/
def Query.slots : List (Slot Query.Draft) := [
  ⟨Option String, "producer_node_id", (·.producer), fun d p => { d with producer := some p },
    fun depth => optional (readText depth), some none⟩,
  ⟨List Context, "context_queries", (·.contexts), fun d cs => { d with contexts := some cs },
    listOf Context.read, some []⟩,
  ⟨String, "artifact_type", (·.type), fun d s => { d with type := some s }, readText, none⟩,
  ⟨String, "output_key", (·.output), fun d s => { d with output := some s }, readText, none⟩]

theorem Query.lawful : Query.record.Lawful Query.slots where
  fields := rfl
  steady := by
    simp [slots, steady_readText, Steady.optional, Steady.listOf Context.steady_read]
  apart := by simp [slots, Slot.Apart]
  get?_set := by simp [slots]
  get?_blank := by simp [slots, record]
  finish d d' h := by
    simp [slots, Slot.filled] at h
    simp [record, h]

theorem Query.steady_read (depth : Nat) : Steady (Query.read depth) :=
  Record.steady Query.lawful.steady_fields depth

/-- The fields of a runtime parameter; only the default may be left out. -/
def Parameter.slots : List (Slot Parameter.Draft) := [
  ⟨String, "name", (·.name), fun d s => { d with name := some s }, readText, none⟩,
  ⟨Kind, "kind", (·.kind), fun d k => { d with kind := some k }, Kind.read, none⟩,
  ⟨Option Value, "default", (·.default), fun d v => { d with default := some v },
    fun depth => optional (Value.read depth), some none⟩]

theorem Parameter.lawful : Parameter.record.Lawful Parameter.slots where
  fields := rfl
  steady := by simp [slots, steady_readText, Kind.steady_read, Value.steady_read, Steady.optional]
  apart := by simp [slots, Slot.Apart]
  get?_set := by simp [slots]
  get?_blank := by simp [slots, record]
  finish d d' h := by
    simp [slots, Slot.filled] at h
    simp [record, h]

theorem Parameter.steady_read (depth : Nat) : Steady (Parameter.read depth) :=
  Record.steady Parameter.lawful.steady_fields depth

/-! ## Nodes -/

theorem steady_readOutput (depth : Nat) (outputs : KeyMap ArtifactType) (key : String) :
    Steady fun cs => (ArtifactType.read depth cs).andThen fun t rest =>
      if outputs.contains key then .error (.repeatedOutput key)
      else .ok (outputs.insert key t, rest) := by
  refine (ArtifactType.steady_read depth).andThen (fun t =>
    if outputs.contains key then .error (.repeatedOutput key) else .ok (outputs.insert key t)) ?_
  intro t rest
  cases outputs.contains key <;> rfl

theorem steady_readOutputs (depth : Nat) : Steady (readOutputs depth) :=
  Steady.fold steady_readOutput _ KeyMap.empty depth

/-- The fields of a node; only its id is required. -/
def NodeDeclaration.slots : List (Slot NodeDeclaration.Draft) := [
  ⟨String, "id", (·.id), fun d s => { d with id := some s }, readText, none⟩,
  ⟨List Context, "contexts", (·.contexts), fun d cs => { d with contexts := some cs },
    listOf Context.read, some []⟩,
  ⟨KeyMap ArtifactType, "outputs", (·.outputs), fun d m => { d with outputs := some m },
    readOutputs, some .empty⟩,
  ⟨KeyMap (List Query), "inputs", (·.inputs), fun d m => { d with inputs := some m },
    mapOf (listOf Query.read), some .empty⟩]

theorem NodeDeclaration.lawful : NodeDeclaration.record.Lawful NodeDeclaration.slots where
  fields := rfl
  steady := by
    simp [slots, steady_readText, steady_readOutputs, Steady.listOf Context.steady_read,
      Steady.mapOf (Steady.listOf Query.steady_read)]
  apart := by simp [slots, Slot.Apart]
  get?_set := by simp [slots]
  get?_blank := by simp [slots, record]
  finish d d' h := by
    simp [slots, Slot.filled] at h
    simp [record, h]

theorem NodeDeclaration.steady_read (depth : Nat) : Steady (NodeDeclaration.read depth) :=
  Record.steady NodeDeclaration.lawful.steady_fields depth

/-! ## Definitions -/

/-- The fields of a definition; only its id is required, and it is SYNC unless it says otherwise. -/
def Definition.slots : List (Slot Definition.Draft) := [
  ⟨String, "id", (·.id), fun d s => { d with id := some s }, readText, none⟩,
  ⟨Mode, "execution_mode", (·.mode), fun d m => { d with mode := some m }, Mode.read, some .sync⟩,
  ⟨List Context, "contexts", (·.contexts), fun d cs => { d with contexts := some cs },
    listOf Context.read, some []⟩,
  ⟨List Parameter, "runtime_parameters", (·.parameters),
    fun d ps => { d with parameters := some ps }, listOf Parameter.read, some []⟩,
  ⟨List NodeDeclaration, "nodes", (·.nodes), fun d ns => { d with nodes := some ns },
    listOf NodeDeclaration.read, some []⟩,
  ⟨KeyMap FreeJson, "deployment_config", (·.deployment),
    fun d m => { d with deployment := some m }, mapOf FreeJson.read, some .empty⟩]

theorem Definition.lawful : Definition.record.Lawful Definition.slots where
  fields := rfl
  steady := by
    simp [slots, steady_readText, Mode.steady_read, Steady.listOf Context.steady_read,
      Steady.listOf Parameter.steady_read, Steady.listOf NodeDeclaration.steady_read,
      Steady.mapOf FreeJson.steady_read]
  apart := by simp [slots, Slot.Apart]
  get?_set := by simp [slots]
  get?_blank := by simp [slots, record]
  finish d d' h := by
    simp [slots, Slot.filled] at h
    simp [record, h]

/-! ## All records -/

/-- **Every record may be restated.** An object that is read as a record may list its members in any
order, along with members that are no fields, or give its fields as a list, with a default for each
field that it leaves out: it is read as the same record, at any depth and in any text. The names of
the members need not be assumed to differ, since a field that is given twice is a fault. -/
theorem records_restatable :
    Definition.record.Restatable Definition.slots ∧
    NodeDeclaration.record.Restatable NodeDeclaration.slots ∧
    Query.record.Restatable Query.slots ∧
    Parameter.record.Restatable Parameter.slots ∧
    Context.record.Restatable Context.slots ∧
    ArtifactType.record.Restatable ArtifactType.slots :=
  ⟨Definition.lawful.restatable, NodeDeclaration.lawful.restatable, Query.lawful.restatable,
    Parameter.lawful.restatable, Context.lawful.restatable, ArtifactType.lawful.restatable⟩

/-! ## A node in three presentations -/

/-- The members of a query, its two required ones in the other order. -/
def queryMembers : List Member :=
  [.of "output_key" (quoted "o"), .of "artifact_type" (quoted "a")]

/-- The query as a list of its four fields. -/
def queryList : List Char :=
  arrayText [['n', 'u', 'l', 'l'], arrayText [], quoted "a", quoted "o"]

/-- The inputs of a node, with one query. -/
def inputsText (query : List Char) : List Char :=
  objectText [.of "k" (arrayText [query])]

/-- The members of a node that has this query as its only channel. -/
def nodeMembers : List Member :=
  [.of "inputs" (inputsText (objectText queryMembers)), .of "id" (quoted "n")]

/-- The node with a member that is no field, in another order and with its query as a list. -/
def reorderedMembers : List Member :=
  [.of "id" (quoted "n"), .of "note" (arrayText [objectText []]),
    .of "inputs" (inputsText queryList)]

/-- The node as a list of its four fields, with its query as a list. -/
def nodeList : List Char :=
  arrayText [quoted "n", arrayText [], objectText [], inputsText queryList]

theorem isObject_queryMembers : IsObject queryMembers (objectText queryMembers) := by
  refine isObject_objectText ?_ ?_
  · simp [queryMembers, Member.isString_key_of]
  · simp [queryMembers, isValue_quoted]

theorem isArray_queryList : IsArray [['n', 'u', 'l', 'l'], arrayText [], quoted "a", quoted "o"]
    queryList := by
  refine isArray_arrayText ?_
  simp [isArray_nil.isValue, isValue_quoted, IsValue.nullWord]

theorem restates_queryList (depth : Nat) :
    Restates Query.slots (depth + 1) queryMembers queryList := by
  have hproducer : ∀ m ∈ queryMembers, m.name ≠ .ok "producer_node_id" := by
    simp [queryMembers]
  have hcontexts : ∀ m ∈ queryMembers, m.name ≠ .ok "context_queries" := by
    simp [queryMembers]
  refine .list (.cons (.inr ⟨hproducer, none, rfl, ?_⟩) (.cons (.inr ⟨hcontexts, [], rfl, ?_⟩)
    (.cons (.inl ⟨.of "artifact_type" (quoted "a"), ?_, Member.name_of _ _, .refl _ _⟩)
      (.cons (.inl ⟨.of "output_key" (quoted "o"), ?_, Member.name_of _ _, .refl _ _⟩) .nil))))
    isArray_queryList
  · exact ((steady_readText _).optional _ .nullWord).readsAs rfl
  · exact (Steady.listOf Context.steady_read (depth + 1) _ isArray_nil.isValue).readsAs rfl
  · simp [queryMembers]
  · simp [queryMembers]

theorem isObject_inputsText {query : List Char} (hquery : IsValue query) :
    IsObject [.of "k" (arrayText [query])] (inputsText query) := by
  have hlist : IsArray [query] (arrayText [query]) := isArray_arrayText (by simpa using hquery)
  refine isObject_objectText ?_ ?_
  · simp [Member.isString_key_of]
  · simpa using hlist.isValue

theorem alike_inputsText {depth : Nat} {query query' : List Char} (hquery : IsValue query)
    (hquery' : IsValue query') (h : Alike (Query.read depth) query query') :
    Alike (mapOf (listOf Query.read) (depth + 2)) (inputsText query) (inputsText query') := by
  have hlist : Alike (listOf Query.read (depth + 1)) (arrayText [query]) (arrayText [query']) :=
    .listOf Query.steady_read (isArray_arrayText (by simpa using hquery))
      (isArray_arrayText (by simpa using hquery')) (.cons h .nil)
  exact .mapOf (Steady.listOf Query.steady_read) (isObject_inputsText hquery)
    (isObject_inputsText hquery') (.cons ⟨by simp, hlist⟩ .nil)

theorem isObject_nodeMembers : IsObject nodeMembers (objectText nodeMembers) := by
  have hinputs := isObject_inputsText isObject_queryMembers.isValue
  refine isObject_objectText ?_ ?_
  · simp [nodeMembers, Member.isString_key_of]
  · simp [nodeMembers, isValue_quoted, hinputs.isValue]

theorem isObject_reorderedMembers : IsObject reorderedMembers (objectText reorderedMembers) := by
  have hinputs := isObject_inputsText isArray_queryList.isValue
  have hnote : IsValue (arrayText [objectText []]) :=
    (isArray_arrayText (by simpa using isObject_nil.isValue)).isValue
  refine isObject_objectText ?_ ?_
  · simp [reorderedMembers, Member.isString_key_of]
  · simp [reorderedMembers, isValue_quoted, hinputs.isValue, hnote]

theorem restates_reorderedMembers {depth : Nat}
    (h : Alike (mapOf (listOf Query.read) depth) (inputsText (objectText queryMembers))
      (inputsText queryList)) :
    Restates NodeDeclaration.slots depth nodeMembers (objectText reorderedMembers) := by
  have hinputs : Member.Rewritten NodeDeclaration.slots depth
      (.of "inputs" (inputsText (objectText queryMembers)))
      (.of "inputs" (inputsText queryList)) := by
    refine ⟨by simp, ?_⟩
    simpa [NodeDeclaration.slots] using h
  have hid : Member.Rewritten NodeDeclaration.slots depth (.of "id" (quoted "n"))
      (.of "id" (quoted "n")) := ⟨rfl, fun _ _ _ => .refl _ _⟩
  have hnote : (Member.of "note" (arrayText [objectText []])).Foreign NodeDeclaration.slots :=
    ⟨"note", Member.name_of _ _, by simp [NodeDeclaration.slots]⟩
  refine .object (.cons hinputs (.cons hid .nil)) (List.forall_mem_singleton.2 hnote) ?_
    isObject_reorderedMembers
  exact (List.Perm.cons _ (.swap _ _ _)).trans (.swap _ _ _)

theorem restates_nodeList {depth : Nat}
    (h : Alike (mapOf (listOf Query.read) (depth + 1)) (inputsText (objectText queryMembers))
      (inputsText queryList)) :
    Restates NodeDeclaration.slots (depth + 1) nodeMembers nodeList := by
  have hinputs := isObject_inputsText isArray_queryList.isValue
  have hcontexts : ∀ m ∈ nodeMembers, m.name ≠ .ok "contexts" := by simp [nodeMembers]
  have houtputs : ∀ m ∈ nodeMembers, m.name ≠ .ok "outputs" := by simp [nodeMembers]
  refine .list (.cons (.inl ⟨.of "id" (quoted "n"), ?_, Member.name_of _ _, .refl _ _⟩)
    (.cons (.inr ⟨hcontexts, [], rfl, ?_⟩) (.cons (.inr ⟨houtputs, .empty, rfl, ?_⟩)
      (.cons (.inl ⟨.of "inputs" (inputsText (objectText queryMembers)), ?_, Member.name_of _ _, h⟩)
        .nil)))) (isArray_arrayText ?_)
  · simp [nodeMembers]
  · exact (Steady.listOf Context.steady_read (depth + 1) _ isArray_nil.isValue).readsAs rfl
  · exact (steady_readOutputs (depth + 1) _ isObject_nil.isValue).readsAs rfl
  · simp [nodeMembers]
  · simp [isValue_quoted, isArray_nil.isValue, isObject_nil.isValue, hinputs.isValue]

theorem records_restatable_node :
    let node : NodeDeclaration :=
      ⟨"n", [], .empty, KeyMap.empty.insert "k" [⟨none, [], "a", "o"⟩]⟩
    document NodeDeclaration.read (.ofList (objectText nodeMembers)) = .ok node ∧
    document NodeDeclaration.read (.ofList (objectText reorderedMembers)) = .ok node ∧
    document NodeDeclaration.read (.ofList nodeList) = .ok node := by
  intro node
  have hread : document NodeDeclaration.read (.ofList (objectText nodeMembers)) = .ok node := by
    decide +kernel
  obtain ⟨-, hnode, hquery, -⟩ := records_restatable
  -- the node, its inputs and the list of queries take three of the 127 levels
  have hqueries : Alike (Query.read 124) (objectText queryMembers) queryList :=
    fun _ hq => hquery.anywhere isObject_queryMembers (restates_queryList 122) .nil .nil
      (hq .nil .nil)
  have hinputs := alike_inputsText isObject_queryMembers.isValue isArray_queryList.isValue hqueries
  refine ⟨hread, ?_, ?_⟩
  · exact hnode.document isObject_nodeMembers (restates_reorderedMembers hinputs)
      (isDocument_ofList _) (isDocument_ofList _) hread
  · exact hnode.document isObject_nodeMembers (restates_nodeList hinputs) (isDocument_ofList _)
      (isDocument_ofList _) hread

end Dataflow
