import Dataflow.Proofs.Records
import Dataflow.Wire.Decode

/-! # Definitions survive their documents

A definition that is written as a document and read again is the same definition, and so is every
record in it, provided that its doubles survive. Nothing else can go wrong: no string, no integer
and no combination of absent and empty fields is lost. Only the nesting of a document is bounded,
and of all parts of a definition only its deployment settings can be nested deeply.

* `Definition.doubles` and its parts: the doubles in a record.
* `Definition.recovers` and its parts: the reader of each record reads back what was written.
-/

namespace Dataflow

open Json Json.Reader

/-! ## The doubles in a record -/

/-- The double the value holds, if it holds one. -/
def Value.doubles : Value → List Binary64
  | .double x => [x]
  | _ => []

/-- The doubles in a context. -/
def Context.doubles (c : Context) : List Binary64 :=
  c.name.doubles

/-- The doubles a query asks for in its contexts. -/
def Query.doubles (q : Query) : List Binary64 :=
  q.contexts.flatMap Context.doubles

/-- The double a parameter defaults to, if it does. -/
def Parameter.doubles (p : Parameter) : List Binary64 :=
  p.default.toList.flatMap Value.doubles

/-- The doubles in a node: in its contexts and in those its channels ask for. -/
def NodeDeclaration.doubles (n : NodeDeclaration) : List Binary64 :=
  n.contexts.flatMap Context.doubles ++
    n.inputs.entries.flatMap fun (_, queries) => queries.flatMap Query.doubles

/-- The doubles in a definition, those in its deployment settings included. -/
def Definition.doubles (d : Definition) : List Binary64 :=
  d.contexts.flatMap Context.doubles ++ d.parameters.flatMap Parameter.doubles ++
    d.nodes.flatMap NodeDeclaration.doubles ++
    d.deployment.entries.flatMap fun (_, settings) => settings.tree.doubles

/-! ## Values and contexts -/

theorem Kind.recovers (k : Kind) : Recovers Kind.read k.toJson k :=
  unitTag_recovers (by cases k <;> rfl)

theorem Mode.recovers (m : Mode) : Recovers Mode.read m.toJson m :=
  unitTag_recovers (by cases m <;> rfl)

theorem Value.recovers {v : Value} (h : ∀ x ∈ v.doubles, x.RoundTrips) :
    Recovers Value.read v.toJson v := by
  cases v with
  | int n => exact valueTag_recovers rfl ((int64_recovers n).map Value.int)
  | string s => exact valueTag_recovers rfl ((text_recovers s).map Value.string)
  | double x =>
    have hx : x.RoundTrips := h x List.mem_cons_self
    exact valueTag_recovers rfl ((binary64_recovers hx).map Value.double)

theorem Context.recovers {c : Context} (h : ∀ x ∈ c.doubles, x.RoundTrips) :
    Recovers Context.read c.toJson c := by
  have hfields : Gathers Context.record.member {} _ ⟨c.type, c.name⟩ :=
    .cons (Record.takes_field "type" rfl rfl rfl (text_recovers c.type)) <|
    .cons (Record.takes_field "name" rfl rfl rfl (Value.recovers h)) (.nil _)
  exact Record.recovers hfields rfl

theorem contexts_recovers {cs : List Context} (h : ∀ x ∈ cs.flatMap Context.doubles, x.RoundTrips) :
    Recovers (listOf Context.read) (.array (cs.map Context.toJson)) cs :=
  listOf_recovers fun c hc => Context.recovers fun x hx => h x (List.mem_flatMap.2 ⟨c, hc, hx⟩)

/-! ## Artifact types -/

theorem ArtifactType.recovers (t : ArtifactType) : Recovers ArtifactType.read t.toJson t := by
  have hname : Takes ArtifactType.record.member {} "name" (.string t.name) ⟨t.name, none⟩ :=
    Record.takes_field "name" rfl rfl rfl (text_recovers t.name)
  unfold ArtifactType.toJson
  split
  · rename_i hempty
    have hschema : t.schema = .empty := by
      cases hs : t.schema with
      | mk entries ascending =>
        obtain rfl : entries = [] := by simpa [KeyMap.isEmpty, hs] using hempty
        rfl
    have hfinish : ArtifactType.record.finish ⟨t.name, none⟩ = .ok t := by
      show Except.ok (⟨t.name, .empty⟩ : ArtifactType) = _
      rw [← hschema]
    exact Record.recovers (.cons hname (.nil _)) hfinish
  · have hkinds : Recovers (mapOf Kind.read) (t.schema.toJson Kind.toJson) t.schema :=
      mapOf_recovers fun p _ => Kind.recovers p.2
    have hschema : Takes ArtifactType.record.member ⟨t.name, none⟩ "properties" _
        ⟨t.name, t.schema⟩ :=
      Record.takes_field "properties" rfl rfl rfl hkinds
    exact Record.recovers (.cons hname (.cons hschema (.nil _))) rfl

/-! ## Queries and parameters -/

theorem getD_map_some {α : Type} (o : Option α) : (o.map some).getD none = o := by
  cases o <;> rfl

theorem Query.recovers {q : Query} (h : ∀ x ∈ q.doubles, x.RoundTrips) :
    Recovers Query.read q.toJson q := by
  -- an absent producer and an empty list of contexts are not written, so they stay unset
  have hproducer : Gathers Query.record.member {}
      (optionalField "producer_node_id" .string q.producer)
      ⟨q.producer.map some, none, none, none⟩ := by
    cases q.producer with
    | none => exact .nil _
    | some id =>
      have hid := optional_recovers (text_recovers id) fun l k => by simp [write, quoted]
      exact .cons (Record.takes_field "producer_node_id" rfl rfl rfl hid) (.nil _)
  have hcontexts : Gathers Query.record.member ⟨q.producer.map some, none, none, none⟩
      (if q.contexts.isEmpty then []
        else [("context_queries", .array (q.contexts.map Context.toJson))])
      ⟨q.producer.map some, if q.contexts.isEmpty then none else some q.contexts, none, none⟩ := by
    split
    · exact .nil _
    · have hread := contexts_recovers h
      exact .cons (Record.takes_field "context_queries" rfl rfl rfl hread) (.nil _)
  have hothers : Gathers Query.record.member
      ⟨q.producer.map some, if q.contexts.isEmpty then none else some q.contexts, none, none⟩
      [("artifact_type", .string q.type), ("output_key", .string q.output)]
      ⟨q.producer.map some, if q.contexts.isEmpty then none else some q.contexts, q.type,
        q.output⟩ :=
    .cons (Record.takes_field "artifact_type" rfl rfl rfl (text_recovers q.type)) <|
    .cons (Record.takes_field "output_key" rfl rfl rfl (text_recovers q.output)) (.nil _)
  refine Record.recovers ((hproducer.append hcontexts).append hothers) ?_
  have hset : (if q.contexts.isEmpty then none else some q.contexts).getD [] = q.contexts := by
    cases q.contexts <;> rfl
  show Except.ok (⟨(q.producer.map some).getD none,
    (if q.contexts.isEmpty then none else some q.contexts).getD [], q.type, q.output⟩ : Query) = _
  rw [hset, getD_map_some]

theorem Parameter.recovers {p : Parameter} (h : ∀ x ∈ p.doubles, x.RoundTrips) :
    Recovers Parameter.read p.toJson p := by
  have hdefault : Gathers Parameter.record.member ⟨p.name, p.kind, none⟩
      (optionalField "default" Value.toJson p.default) ⟨p.name, p.kind, p.default.map some⟩ := by
    cases hp : p.default with
    | none => exact .nil _
    | some v =>
      have hv : Recovers Value.read v.toJson v :=
        Value.recovers fun x hx => h x (by simp [Parameter.doubles, hp, hx])
      have hnull (l : Layout) (k : Nat) : (write l k v.toJson).head? ≠ some 'n' := by
        cases v <;> simp [Value.toJson, write]
      exact .cons (Record.takes_field "default" rfl rfl rfl (optional_recovers hv hnull)) (.nil _)
  have hfields : Gathers Parameter.record.member {} _ ⟨p.name, p.kind, p.default.map some⟩ :=
    .cons (Record.takes_field "name" rfl rfl rfl (text_recovers p.name)) <|
    .cons (Record.takes_field "kind" rfl rfl rfl (Kind.recovers p.kind)) hdefault
  refine Record.recovers hfields ?_
  show Except.ok (⟨p.name, p.kind, (p.default.map some).getD none⟩ : Parameter) = _
  rw [getD_map_some]

/-! ## Nodes -/

theorem outputs_recovers (m : KeyMap ArtifactType) :
    Recovers readOutputs (m.toJson ArtifactType.toJson) m := by
  refine fold_recovers _ (gathers_entries m fun acc p _ hfresh => .afterColon ?_)
  intro depth cs rest hdepth hcs
  simp [ArtifactType.recovers p.2 hdepth hcs, hfresh]

theorem NodeDeclaration.recovers {n : NodeDeclaration} (h : ∀ x ∈ n.doubles, x.RoundTrips) :
    Recovers NodeDeclaration.read n.toJson n := by
  have hcontexts : Recovers (listOf Context.read) (.array (n.contexts.map Context.toJson))
      n.contexts :=
    contexts_recovers fun x hx => h x (List.mem_append_left _ hx)
  have hinputs : Recovers (mapOf (listOf Query.read))
      (n.inputs.toJson fun queries => .array (queries.map Query.toJson)) n.inputs :=
    mapOf_recovers fun p hp => listOf_recovers fun q hq => Query.recovers fun x hx =>
      h x (List.mem_append_right _ (List.mem_flatMap.2 ⟨p, hp, List.mem_flatMap.2 ⟨q, hq, hx⟩⟩))
  have hfields : Gathers NodeDeclaration.record.member {} _
      ⟨n.id, n.contexts, n.outputs, n.inputs⟩ :=
    .cons (Record.takes_field "id" rfl rfl rfl (text_recovers n.id)) <|
    .cons (Record.takes_field "contexts" rfl rfl rfl hcontexts) <|
    .cons (Record.takes_field "outputs" rfl rfl rfl (outputs_recovers n.outputs)) <|
    .cons (Record.takes_field "inputs" rfl rfl rfl hinputs) (.nil _)
  exact Record.recovers hfields rfl

/-! ## Definitions -/

theorem FreeJson.recovers {settings : FreeJson}
    (h : ∀ x ∈ settings.tree.doubles, x.RoundTrips) :
    Recovers FreeJson.read settings.tree settings := by
  have hself : FreeJson.ofJson settings.tree = settings := by
    cases settings with
    | mk tree canonical => simp [FreeJson.ofJson, canonical_eq_self canonical]
  have hread := (value_recovers settings.tree h).map FreeJson.ofJson
  rwa [hself] at hread

theorem Definition.recovers {d : Definition} (h : ∀ x ∈ d.doubles, x.RoundTrips) :
    Recovers Definition.read d.toJson d := by
  simp only [Definition.doubles, List.mem_append, List.mem_flatMap] at h
  have hcontexts : Recovers (listOf Context.read) (.array (d.contexts.map Context.toJson))
      d.contexts :=
    listOf_recovers fun c hc => Context.recovers fun x hx => h x (.inl (.inl (.inl ⟨c, hc, hx⟩)))
  have hparameters : Recovers (listOf Parameter.read) (.array (d.parameters.map Parameter.toJson))
      d.parameters :=
    listOf_recovers fun p hp => Parameter.recovers fun x hx => h x (.inl (.inl (.inr ⟨p, hp, hx⟩)))
  have hnodes : Recovers (listOf NodeDeclaration.read)
      (.array (d.nodes.map NodeDeclaration.toJson)) d.nodes :=
    listOf_recovers fun n hn => NodeDeclaration.recovers fun x hx => h x (.inl (.inr ⟨n, hn, hx⟩))
  have hdeployment : Recovers (mapOf FreeJson.read) (d.deployment.toJson FreeJson.tree)
      d.deployment :=
    mapOf_recovers fun p hp => FreeJson.recovers fun x hx => h x (.inr ⟨p, hp, hx⟩)
  have hfields : Gathers Definition.record.member {} _
      ⟨d.id, d.mode, d.contexts, d.parameters, d.nodes, d.deployment⟩ :=
    .cons (Record.takes_field "id" rfl rfl rfl (text_recovers d.id)) <|
    .cons (Record.takes_field "execution_mode" rfl rfl rfl (Mode.recovers d.mode)) <|
    .cons (Record.takes_field "contexts" rfl rfl rfl hcontexts) <|
    .cons (Record.takes_field "runtime_parameters" rfl rfl rfl hparameters) <|
    .cons (Record.takes_field "nodes" rfl rfl rfl hnodes) <|
    .cons (Record.takes_field "deployment_config" rfl rfl rfl hdeployment) (.nil _)
  exact Record.recovers hfields rfl

/-! ## Nesting -/

theorem nesting_array_map_le {α : Type} {as : List α} {f : α → Json} {k : Nat}
    (h : ∀ a ∈ as, (f a).nesting ≤ k) : (Json.array (as.map f)).nesting ≤ k + 1 := by
  have hitems : nestingItems (as.map f) ≤ k :=
    nestingItems_le.2 fun j hj => by
      obtain ⟨a, ha, rfl⟩ := List.mem_map.1 hj
      exact h a ha
  simp only [nesting]
  omega

theorem nesting_object_le {ps : List (String × Json)} {k : Nat}
    (h : ∀ p ∈ ps, p.2.nesting ≤ k) : (Json.object ps).nesting ≤ k + 1 :=
  Nat.succ_le_succ (nestingMembers_le.2 h)

theorem KeyMap.nesting_toJson_le {α : Type} {m : KeyMap α} {f : α → Json} {k : Nat}
    (h : ∀ p ∈ m.entries, (f p.2).nesting ≤ k) : (m.toJson f).nesting ≤ k + 1 :=
  nesting_object_le fun q hq => by
    obtain ⟨p, hp, rfl⟩ := List.mem_map.1 hq
    exact h p hp

theorem Value.nesting_toJson (v : Value) : v.toJson.nesting = 1 := by
  cases v with
  | int n => rfl
  | string s => rfl
  | double x =>
    simp only [Value.toJson, ofBinary64]
    split <;> rfl

theorem Context.nesting_toJson (c : Context) : c.toJson.nesting = 2 := by
  simp [Context.toJson, nesting, nestingMembers, Value.nesting_toJson]

theorem contexts_nesting_le (cs : List Context) :
    (Json.array (cs.map Context.toJson)).nesting ≤ 3 :=
  nesting_array_map_le fun c _ => Nat.le_of_eq c.nesting_toJson

theorem ArtifactType.nesting_toJson_le (t : ArtifactType) : t.toJson.nesting ≤ 2 := by
  have hschema : (t.schema.toJson Kind.toJson).nesting ≤ 1 :=
    KeyMap.nesting_toJson_le fun p _ => Nat.le_refl 0
  refine nesting_object_le (List.forall_mem_cons.2 ⟨Nat.zero_le 1, ?_⟩)
  split
  · exact fun _ h => absurd h List.not_mem_nil
  · simpa using hschema

theorem Query.nesting_toJson_le (q : Query) : q.toJson.nesting ≤ 4 := by
  have hcontexts := contexts_nesting_le q.contexts
  refine nesting_object_le (List.forall_mem_append.2 ⟨List.forall_mem_append.2 ⟨?_, ?_⟩, ?_⟩)
  · cases q.producer <;> simp [optionalField, nesting]
  · split
    · exact fun _ h => absurd h List.not_mem_nil
    · simpa using hcontexts
  · simp [nesting]

theorem Parameter.nesting_toJson_le (p : Parameter) : p.toJson.nesting ≤ 2 := by
  refine nesting_object_le (List.forall_mem_append.2 ⟨?_, ?_⟩)
  · simp [nesting, Kind.toJson]
  · cases p.default <;> simp [optionalField, Value.nesting_toJson]

theorem NodeDeclaration.nesting_toJson_le (n : NodeDeclaration) : n.toJson.nesting ≤ 7 := by
  have hcontexts := contexts_nesting_le n.contexts
  have houtputs : (n.outputs.toJson ArtifactType.toJson).nesting ≤ 3 :=
    KeyMap.nesting_toJson_le fun p _ => p.2.nesting_toJson_le
  have hinputs : (n.inputs.toJson fun queries => .array (queries.map Query.toJson)).nesting ≤ 6 :=
    KeyMap.nesting_toJson_le fun p _ => nesting_array_map_le fun q _ => q.nesting_toJson_le
  refine nesting_object_le (List.forall_mem_cons.2 ⟨Nat.zero_le 6, ?_⟩)
  simp only [List.forall_mem_cons]
  exact ⟨by omega, by omega, hinputs, fun _ h => absurd h List.not_mem_nil⟩

/-! ## Documents -/

/-- **Documents are read back.** A definition whose doubles survive and whose tree is not nested
deeper than a reader allows is the same after it has been written as a document and read. So is
every record of it, written on its own in one line. -/
theorem documents_read_back :
    (∀ d : Definition, (∀ x ∈ d.doubles, x.RoundTrips) → d.toJson.nesting < 128 →
      Definition.ofText d.toText = .ok d) ∧
    (∀ v : Value, (∀ x ∈ v.doubles, x.RoundTrips) →
      document Value.read v.toJson.compact = .ok v) ∧
    (∀ c : Context, (∀ x ∈ c.doubles, x.RoundTrips) →
      document Context.read c.toJson.compact = .ok c) ∧
    (∀ q : Query, (∀ x ∈ q.doubles, x.RoundTrips) →
      document Query.read q.toJson.compact = .ok q) ∧
    (∀ p : Parameter, (∀ x ∈ p.doubles, x.RoundTrips) →
      document Parameter.read p.toJson.compact = .ok p) ∧
    (∀ t : ArtifactType, document ArtifactType.read t.toJson.compact = .ok t) ∧
    (∀ n : NodeDeclaration, (∀ x ∈ n.doubles, x.RoundTrips) →
      document NodeDeclaration.read n.toJson.compact = .ok n) := by
  have room {k : Nat} (h : k ≤ 7) : k ≤ depthLimit := Nat.le_trans h (by decide)
  refine ⟨fun d hd hnesting => ?_, fun v hv => ?_, fun c hc => ?_, fun q hq => ?_, fun p hp => ?_,
    fun t => ?_, fun n hn => ?_⟩
  · have hread : document Definition.read d.toText = .ok d :=
      document_render (Definition.recovers hd) (Nat.le_of_lt_succ hnesting) .pretty
    rw [Definition.ofText, hread]
  · exact document_render (Value.recovers hv) (room (by simp [v.nesting_toJson])) .compact
  · exact document_render (Context.recovers hc) (room (by simp [c.nesting_toJson])) .compact
  · have hnesting := q.nesting_toJson_le
    exact document_render (Query.recovers hq) (room (by omega)) .compact
  · have hnesting := p.nesting_toJson_le
    exact document_render (Parameter.recovers hp) (room (by omega)) .compact
  · have hnesting := t.nesting_toJson_le
    exact document_render (ArtifactType.recovers t) (room (by omega)) .compact
  · exact document_render (NodeDeclaration.recovers hn) (room n.nesting_toJson_le) .compact

/-- A definition with characters of every kind in its strings, the least integer, a double, and
parts that are left out as well as parts that are not. -/
def everyPart : Definition where
  id := "a \"quoted\" \\ name\n\x01 é"
  mode := .async
  contexts := [⟨"run", .int (-9223372036854775808)⟩, ⟨"rate", .double ⟨0x4341c37937e08000⟩⟩]
  parameters := [⟨"first", .string, some (.string "\t")⟩, ⟨"second", .int, none⟩]
  nodes := [⟨"node", [], KeyMap.empty.insert "out" ⟨"Table", KeyMap.empty.insert "size" .int⟩,
    KeyMap.empty.insert "in" [⟨none, [], "Table", "out"⟩,
      ⟨some "node", [⟨"run", .string "x"⟩], "Table", "out"⟩]⟩]
  deployment := KeyMap.empty.insert "node" <| .ofJson <| .object
    [("limits", .array [.number (.double ⟨0x4341c37937e08000⟩), .null]), ("labels", .object [])]

/-- The one double in it, ten to the sixteenth, is printed as `1e+16`. -/
theorem roundTrips_everyPart : ∀ x ∈ everyPart.doubles, x.RoundTrips := by
  have hdouble : Binary64.RoundTrips ⟨0x4341c37937e08000⟩ := ⟨by decide, by decide +kernel⟩
  have hdoubles : everyPart.doubles = List.replicate 2 ⟨0x4341c37937e08000⟩ := by decide +kernel
  intro x hx
  rw [hdoubles] at hx
  rw [List.eq_of_mem_replicate hx]
  exact hdouble

theorem documents_read_back_everyPart :
    everyPart.toJson.nesting < 128 ∧ Definition.ofText everyPart.toText = .ok everyPart ∧
    (∀ c ∈ everyPart.contexts, document Value.read c.name.toJson.compact = .ok c.name ∧
      document Context.read c.toJson.compact = .ok c) ∧
    (∀ p ∈ everyPart.parameters, document Parameter.read p.toJson.compact = .ok p) ∧
    (∀ n ∈ everyPart.nodes, document NodeDeclaration.read n.toJson.compact = .ok n ∧
      ∀ p ∈ n.inputs.entries, ∀ q ∈ p.2, document Query.read q.toJson.compact = .ok q) := by
  have hnesting : everyPart.toJson.nesting < 128 := by decide
  obtain ⟨hdefinition, hvalue, hcontext, hquery, hparameter, _, hnode⟩ := documents_read_back
  have h := roundTrips_everyPart
  simp only [Definition.doubles, List.mem_append, List.mem_flatMap] at h
  refine ⟨hnesting, hdefinition everyPart roundTrips_everyPart hnesting, fun c hc => ?_,
    fun p hp => ?_, fun n hn => ?_⟩
  · have hc : ∀ x ∈ c.doubles, x.RoundTrips := fun x hx => h x (.inl (.inl (.inl ⟨c, hc, hx⟩)))
    exact ⟨hvalue c.name hc, hcontext c hc⟩
  · exact hparameter p fun x hx => h x (.inl (.inl (.inr ⟨p, hp, hx⟩)))
  · have hn : ∀ x ∈ n.doubles, x.RoundTrips := fun x hx => h x (.inl (.inr ⟨n, hn, hx⟩))
    refine ⟨hnode n hn, fun p hp q hq => hquery q fun x hx => hn x ?_⟩
    exact List.mem_append_right _ (List.mem_flatMap.2 ⟨p, hp, List.mem_flatMap.2 ⟨q, hq, hx⟩⟩)

end Dataflow
