import Dataflow.Proofs.Components
import Dataflow.Proofs.Valid

/-!
# What a failed build reports

`Definition.violations d r` lists what is wrong with a definition, stated without the passes of a
build: each parameter, each id that an earlier node has, and then of the nodes with new ids
(`Definition.accepted`) each output whose type conflicts, each query that has not exactly one other
node as its source, and each set of nodes that feed each other. A build reports exactly this list
(`build_reports_violations`): one section of lemmas below for every part of the list.
-/

namespace Dataflow

open Relation

/-! ## Members and those before them -/

/-- The members of a list, each with the members that come before it. -/
def withEarlier {α : Type} (l : List α) : List (List α × α) :=
  l.zipIdx.map fun (a, i) => (l.take i, a)

theorem withEarlier_cons {α : Type} (a : α) (l : List α) :
    withEarlier (a :: l) =
      ([], a) :: (withEarlier l).map fun (earlier, b) => (a :: earlier, b) := by
  unfold withEarlier
  rw [List.zipIdx_cons', List.map_cons, List.map_map, List.map_map]
  rfl

theorem seen_or_earlier_cons_iff {α : Type} {name : α → String} {seen : List String} {a : α}
    {earlier : List α} {x : String} :
    (x ∈ name a :: seen ∨ ∃ b ∈ earlier, name b = x) ↔
      x ∈ seen ∨ ∃ b ∈ a :: earlier, name b = x := by
  rw [List.mem_cons, List.exists_mem_cons_iff, or_assoc, or_left_comm, eq_comm]

/-! ## Violations -/

/-- What is wrong with a parameter by itself: a blank name, or else a default of another kind. -/
def Parameter.faults (p : Parameter) : List Diagnostic :=
  if Text.trimmed p.name = [] then [.badParameter p.name "name must not be empty"]
  else
    match p.default with
    | none => []
    | some value =>
      if value.kind ≠ p.kind then
        [.badParameter p.name
          s!"default value is {value.kind.name} but parameter is declared {p.kind.name}"]
      else []

namespace Definition

/-- What is wrong with the parameters of a definition, those with the name of an earlier one
included. -/
def parameterFaults (d : Definition) : List Diagnostic :=
  (withEarlier d.parameters).flatMap fun (earlier, p) =>
    p.faults ++
      if ∃ q ∈ earlier, q.name = p.name then [.badParameter p.name "declared more than once"]
      else []

/-- The nodes with an id that an earlier node has. -/
def repeatedIds (d : Definition) : List Diagnostic :=
  (withEarlier d.nodes).filterMap fun (earlier, n) =>
    if ∃ m ∈ earlier, m.id = n.id then some (.repeatedNode n.id) else none

/-- The definition with the first node of every id alone. -/
def accepted (d : Definition) : Definition :=
  { d with
    nodes := (withEarlier d.nodes).filterMap fun (earlier, n) =>
      if ∃ m ∈ earlier, m.id = n.id then none else some n }

/-- A name is registered, or a node of the definition declares it. -/
def Knows (d : Definition) (r : Registry) (name : String) : Prop :=
  (∃ t, r.get? name = some t) ∨ ∃ t ∈ declaredTypes d.nodes, t.name = name

open Classical in
/-- What is wrong with a query of a node: it names its own node, its type is not known, or there is
not exactly one node that answers it, which is another one. -/
noncomputable def queryFaults (d : Definition) (r : Registry) (n : NodeDeclaration)
    (input : String) (q : Query) : List Diagnostic :=
  let unknown := if d.Knows r q.type then [] else [Diagnostic.unknownType q.type]
  if q.producer = some n.id then .selfReference n.id input :: unknown
  else if ¬ d.Knows r q.type then unknown
  else
    match d.nodes.filter (d.Answers q) with
    | [] => [.noProducer q.text (some ⟨n.id, input⟩)]
    | [p] => if p.id = n.id then [.selfReference n.id input] else []
    | several => [.ambiguousProducer q.text (several.map (·.id)) (some ⟨n.id, input⟩)]

/-- What is wrong with the queries of a definition, the nodes as they are declared, the inputs of
each in ascending order and the queries of each input as they are declared. -/
noncomputable def channelFaults (d : Definition) (r : Registry) : List Diagnostic :=
  d.nodes.flatMap fun n => n.channels.flatMap fun (input, q) => d.queryFaults r n input q

/-- Paths of nodes that feed each other lead from either of two nodes to the other. -/
def Entangled (d : Definition) (m n : NodeDeclaration) : Prop :=
  ReflTransGen d.Feeds m n ∧ ReflTransGen d.Feeds n m

open Classical in
/-- The sets of two or more nodes that feed each other, unless the mode allows feedback. -/
noncomputable def cycles (d : Definition) : List Diagnostic :=
  match d.mode with
  | .sync => (classes d.Entangled d.nodes).map fun members => .cyclic (members.map (·.id))
  | .async => []

/-- Everything that is wrong with a definition over a registry, in the order of the report. -/
noncomputable def violations (d : Definition) (r : Registry) : List Diagnostic :=
  let types := declaredTypes d.accepted.nodes
  d.parameterFaults ++ d.repeatedIds ++ Staging.conflictsOf r types types ++
    d.accepted.channelFaults r ++ d.accepted.cycles

end Definition

/-! ## Parameters -/

namespace Parameter

theorem toList_problem? (p : Parameter) : p.problem?.toList = p.faults := by
  unfold problem? faults
  by_cases hb : Text.allBlank p.name = true
  · rw [if_pos hb, if_pos (Text.allBlank_iff.1 hb)]
    rfl
  · rw [if_neg hb, if_neg (mt Text.allBlank_iff.2 hb)]
    cases p.default with
    | none => rfl
    | some value => by_cases hk : value.kind = p.kind <;> simp [hk]

theorem problemsAfter_eq {seen : List String} {ps : List Parameter} :
    problemsAfter seen ps = (withEarlier ps).flatMap fun (earlier, p) =>
      p.faults ++ if p.name ∈ seen ∨ ∃ q ∈ earlier, q.name = p.name then [p.repeated] else [] := by
  induction ps generalizing seen with
  | nil => rfl
  | cons p ps ih =>
    rw [problemsAfter, ih, withEarlier_cons, List.flatMap_cons, List.flatMap_map, toList_problem?]
    congr 1
    · simp
    · refine List.flatMap_congr fun c _ => ?_
      simp only [@seen_or_earlier_cons_iff _ Parameter.name]

end Parameter

namespace Definition

theorem problems_eq (d : Definition) : Parameter.problems d.parameters = d.parameterFaults := by
  unfold Parameter.problems parameterFaults
  rw [Parameter.problemsAfter_eq]
  simp [Parameter.repeated]

end Definition

/-! ## Node ids -/

theorem acceptNodesAfter_eq {seen : List String} {nodes : List NodeDeclaration} :
    acceptNodesAfter seen nodes =
      ((withEarlier nodes).filterMap fun (earlier, n) =>
          if n.id ∈ seen ∨ ∃ m ∈ earlier, m.id = n.id then none else some n,
        (withEarlier nodes).filterMap fun (earlier, n) =>
          if n.id ∈ seen ∨ ∃ m ∈ earlier, m.id = n.id then some (.repeatedNode n.id)
          else none) := by
  induction nodes generalizing seen with
  | nil => rfl
  | cons n nodes ih =>
    unfold acceptNodesAfter
    rw [withEarlier_cons, List.filterMap_cons, List.filterMap_cons, List.filterMap_map,
      List.filterMap_map]
    by_cases hn : n.id ∈ seen
    · have hseen : ∀ (earlier : List NodeDeclaration) (x : String),
          (x ∈ seen ∨ ∃ m ∈ n :: earlier, m.id = x) ↔ x ∈ seen ∨ ∃ m ∈ earlier, m.id = x := by
        intro earlier x
        rw [← @seen_or_earlier_cons_iff _ NodeDeclaration.id, List.mem_cons]
        refine or_congr_left (or_iff_right_of_imp ?_)
        rintro rfl
        exact hn
      rw [if_pos (List.contains_iff_mem.2 hn), ih]
      simp only [hn, true_or, if_true, Function.comp_def, hseen]
    · rw [if_neg (mt List.contains_iff_mem.1 hn), ih]
      simp only [hn, List.not_mem_nil, false_and, exists_false, or_false, if_false,
        Function.comp_def, @seen_or_earlier_cons_iff _ NodeDeclaration.id]

theorem nodup_acceptNodesAfter {seen : List String} {nodes : List NodeDeclaration} :
    ((acceptNodesAfter seen nodes).1.map (·.id)).Nodup ∧
      ∀ n ∈ (acceptNodesAfter seen nodes).1, n.id ∉ seen := by
  induction nodes generalizing seen with
  | nil => simp [acceptNodesAfter]
  | cons n nodes ih =>
    unfold acceptNodesAfter
    by_cases hn : n.id ∈ seen
    · rw [if_pos (List.contains_iff_mem.2 hn)]
      exact ih
    · rw [if_neg (mt List.contains_iff_mem.1 hn)]
      exact nodup_unseen_cons_iff.2 ⟨hn, ih⟩

namespace Definition

theorem acceptNodes_eq (d : Definition) :
    acceptNodes d.nodes = (d.accepted.nodes, d.repeatedIds) := by
  unfold acceptNodes accepted repeatedIds
  rw [acceptNodesAfter_eq]
  simp only [List.not_mem_nil, false_or]

theorem nodup_accepted (d : Definition) : (d.accepted.nodes.map (·.id)).Nodup := by
  have h := @nodup_acceptNodesAfter [] d.nodes
  have heq : acceptNodesAfter [] d.nodes = (d.accepted.nodes, d.repeatedIds) := d.acceptNodes_eq
  rw [heq] at h
  exact h.1

end Definition

/-! ## Queries -/

/-- What is wrong with a query that does not become an edge. -/
def connectionFaults : Except (List Diagnostic) Edge → List Diagnostic
  | .ok _ => []
  | .error problems => problems

/-- The queries that become edges add these in turn, and the others what is wrong with them. -/
theorem foldl_connectChannel_eq {r : Resolver} {known : String → Bool}
    {l : List (Node × String × Query)} {edges : List Edge} {problems : List Diagnostic} :
    l.foldl (connectChannel r known) (edges, problems) =
      ((l.filterMap fun c =>
          (connectQuery r known c.1 c.2.1 c.2.2).toOption).foldl Edge.add edges,
        problems ++ l.flatMap fun c =>
          connectionFaults (connectQuery r known c.1 c.2.1 c.2.2)) := by
  induction l generalizing edges problems with
  | nil => simp
  | cons c l ih =>
    rw [List.foldl_cons, List.filterMap_cons, List.flatMap_cons]
    unfold connectChannel
    cases connectQuery r known c.1 c.2.1 c.2.2 with
    | ok e => exact ih
    | error faults => exact ih.trans (Prod.ext rfl (List.append_assoc _ _ _))

namespace Definition

section
variable {d : Definition} {r : Registry}

theorem knows_iff {name : String} :
    (d.binding r).staging.knows r name = true ↔ d.Knows r name := by
  rw [Staging.knows_iff (d.binding_staging r)]
  unfold Registry.binding Knows
  cases r.get? name with
  | some t => simp
  | none => simp [← Option.isSome_iff_exists]

open Classical in
theorem candidates_bound (q : Query) :
    ((Resolver.ofNodes d.bound).candidates q).map (·.2) =
      (d.nodes.filter (d.Answers q)).map d.bind := by
  have hplaced : (Resolver.placed d.bound).map (·.2) = d.bound := by
    unfold Resolver.placed
    rw [List.map_map]
    exact List.zipIdx_map_fst 0 d.bound
  have hsatisfies : (fun n : Node => n.satisfies q) ∘ d.bind =
      fun n : NodeDeclaration => decide (d.Answers q n) := by
    funext n
    exact Bool.eq_iff_iff.2 (satisfies_bound_iff.trans decide_eq_true_iff.symm)
  calc ((Resolver.ofNodes d.bound).candidates q).map (·.2)
      = ((Resolver.placed d.bound).filter fun p => p.2.satisfies q).map (·.2) := by
        rw [Resolver.candidates_eq]
    _ = d.bound.filter fun n => n.satisfies q := by
        rw [← hplaced, List.filter_map, hplaced]
        rfl
    _ = (d.nodes.filter (d.Answers q)).map d.bind := by
        unfold bound
        rw [List.filter_map, hsatisfies]

/-- What is wrong with a query is what keeps it from becoming an edge. -/
theorem connectionFaults_eq {n : NodeDeclaration} {input : String} {q : Query} :
    connectionFaults (connectQuery (.ofNodes d.bound) ((d.binding r).staging.knows r)
      (d.bind n) input q) = d.queryFaults r n input q := by
  classical
  have hid : (d.bind n).id = n.id := rfl
  unfold connectQuery queryFaults Resolver.resolve
  by_cases hk : d.Knows r q.type
  · simp only [knows_iff.2 hk, hk, if_true, hid]
    by_cases hself : q.producer = some n.id
    · rw [if_pos hself, if_pos hself]
      rfl
    · simp only [hself, if_false, ne_eq, not_true_eq_false]
      -- Only how many candidates there are matters, and their ids.
      have hids := congrArg (List.map Node.id) (d.candidates_bound q)
      rw [List.map_map, List.map_map] at hids
      generalize (Resolver.ofNodes d.bound).candidates q = found at hids ⊢
      generalize d.nodes.filter (d.Answers q) = answering at hids ⊢
      match found, answering, hids with
      | [], [], _ => rfl
      | [(i, m)], [p], h =>
        have hm : m.id = p.id := (List.cons.inj h).1
        by_cases hp : p.id = n.id <;> simp [hm, hp, connectionFaults]
      | _ :: _ :: _, _ :: _ :: _, h =>
        exact congrArg
          (fun ids => [Diagnostic.ambiguousProducer q.text ids (some ⟨n.id, input⟩)]) h
      | [_], _ :: _ :: _, h => simp at h
      | _ :: _ :: _, [_], h => simp at h
  · have hk' : (d.binding r).staging.knows r q.type = false :=
      Bool.eq_false_iff.2 (mt knows_iff.1 hk)
    simp only [hk', hk, if_false, hid, Bool.false_eq_true]
    by_cases hself : q.producer = some n.id
    · rw [if_pos hself, if_pos hself]
      rfl
    · rw [if_neg hself, if_neg hself]
      rfl

/-- **What is wrong with the queries** of a definition is found in the order of the walk. -/
theorem connected_snd_eq : (d.connected r).2 = d.channelFaults r := by
  unfold connected channelFaults
  rw [connect_eq_foldl, foldl_connectChannel_eq]
  unfold Node.walk bound
  rw [List.nil_append, List.flatMap_map, List.flatMap_assoc]
  refine List.flatMap_congr fun n _ => ?_
  rw [List.flatMap_map]
  refine List.flatMap_congr fun c _ => ?_
  exact connectionFaults_eq

/-! ## Cycles -/

/-- The node at a position. -/
def nodeAt (d : Definition) (i : Nat) : NodeDeclaration :=
  d.nodes[i]?.getD (.ofId "")

theorem getElem?_nodes {i : Nat} (hi : i < d.nodes.length) : d.nodes[i]? = some (d.nodeAt i) := by
  simp [nodeAt, List.getElem?_eq_getElem hi]

theorem map_nodeAt (d : Definition) : (List.range d.nodes.length).map d.nodeAt = d.nodes := by
  refine List.ext_getElem? fun i => ?_
  by_cases hi : i < d.nodes.length
  · rw [List.getElem?_map, List.getElem?_range hi, getElem?_nodes hi]
    rfl
  · simp [hi]

variable (hids : (d.nodes.map (·.id)).Nodup)
include hids

theorem nodeAt_inj {i j : Nat} (hi : i < d.nodes.length) (hj : j < d.nodes.length)
    (h : d.nodeAt i = d.nodeAt j) : i = j :=
  (List.getElem?_inj hi hids.of_map).1 (by rw [getElem?_nodes hi, getElem?_nodes hj, h])

theorem leads_connected_iff {a b : String} :
    Edge.Leads (d.connected r).1 a b ↔ ∃ p n, d.Feeds p n ∧ p ≠ n ∧ p.id = a ∧ n.id = b := by
  have hedges : (d.connected r).1 = Edge.firsts ((Node.walk d.bound).filterMap fun c =>
      (connectQuery (.ofNodes d.bound) ((d.binding r).staging.knows r)
        c.1 c.2.1 c.2.2).toOption) := by
    unfold connected
    rw [connect_eq_foldl, foldl_connectChannel_eq, Edge.foldl_add, List.nil_append]
    exact List.filter_eq_self.2 fun _ _ => rfl
  have hok : ∀ {x : Except (List Diagnostic) Edge} {e : Edge}, x.toOption = some e ↔ x = .ok e := by
    intro x e
    cases x <;> simp [Except.toOption]
  rw [hedges, Edge.leads_firsts]
  constructor
  · rintro ⟨e, he, rfl, rfl⟩
    obtain ⟨c, hc, hce⟩ := List.mem_filterMap.1 he
    obtain ⟨hn, hch⟩ := Node.mem_walk.1 hc
    obtain ⟨n, hn, hnb⟩ := List.mem_map.1 hn
    obtain ⟨-, m, hm, hne, rfl⟩ := (connectQuery_eq_ok_iff (ids_bound ▸ hids)).1 (hok.1 hce)
    obtain ⟨p, hp, rfl⟩ := exists_source_of_bound hids hm
    rw [← hnb] at hch hne ⊢
    refine ⟨p, n, ⟨hn, c.2, hch, hp⟩, ?_, rfl, rfl⟩
    rintro rfl
    exact hne rfl
  · rintro ⟨p, n, ⟨hn, c, hc, hp⟩, hne, rfl, rfl⟩
    refine ⟨⟨p.id, c.2.output, n.id, c.1, c.2⟩, List.mem_filterMap.2
      ⟨(d.bind n, c), Node.mem_walk.2 ⟨List.mem_map_of_mem hn, hc⟩, hok.2 ?_⟩, rfl, rfl⟩
    refine (connectQuery_eq_ok_iff (ids_bound ▸ hids)).2 ⟨knows_of_answers hp.mem hp.answers,
      d.bind p, hp.bound, fun hid => hne (eq_of_id_eq hids hp.mem hn hid), rfl⟩

theorem arc_connected_iff {i j : Nat} :
    (dependencyGraph d.bound (d.connected r).1).Arc i j ↔
      ∃ p n, d.Feeds p n ∧ p ≠ n ∧ d.nodes[i]? = some p ∧ d.nodes[j]? = some n := by
  have hpos : ∀ {n : NodeDeclaration} {k : Nat}, n ∈ d.nodes →
      (Node.position? n.id d.bound = some k ↔ d.nodes[k]? = some n) := by
    intro n k hn
    rw [Node.position?_eq_some_iff (ids_bound ▸ hids)]
    unfold bound
    simp only [List.getElem?_map, Option.map_eq_some_iff]
    constructor
    · rintro ⟨-, ⟨m, hm, rfl⟩, hid⟩
      rw [← eq_of_id_eq hids (List.mem_of_getElem? hm) hn hid]
      exact hm
    · exact fun hk => ⟨_, ⟨n, hk, rfl⟩, rfl⟩
  rw [arc_dependencyGraph]
  constructor
  · rintro ⟨e, he, hi, hj⟩
    obtain ⟨p, n, hf, hne, hp, hn⟩ := (leads_connected_iff hids).1 ⟨e, he, rfl, rfl⟩
    rw [← hp, hpos hf.mem.1] at hi
    rw [← hn, hpos hf.mem.2] at hj
    exact ⟨p, n, hf, hne, hi, hj⟩
  · rintro ⟨p, n, hf, hne, hi, hj⟩
    obtain ⟨e, he, hp, hn⟩ := (leads_connected_iff hids).2 ⟨p, n, hf, hne, rfl, rfl⟩
    refine ⟨e, he, ?_, ?_⟩
    · rw [hp, hpos hf.mem.1]
      exact hi
    · rw [hn, hpos hf.mem.2]
      exact hj

/-- Paths of nodes that feed each other are paths between their positions. -/
theorem path_connected_iff {i j : Nat} {m n : NodeDeclaration} (hi : d.nodes[i]? = some m)
    (hj : d.nodes[j]? = some n) :
    ReflTransGen (dependencyGraph d.bound (d.connected r).1).Arc i j ↔
      ReflTransGen d.Feeds m n := by
  constructor
  · intro hpath
    induction hpath generalizing n with
    | refl =>
      rw [hi] at hj
      cases hj
      exact .refl
    | tail _ harc ih =>
      obtain ⟨o, n', hf, -, ho, hn'⟩ := (arc_connected_iff hids).1 harc
      rw [hj] at hn'
      cases hn'
      exact (ih ho).tail hf
  · intro hpath
    induction hpath generalizing j with
    | refl =>
      have hlt := (List.getElem?_eq_some_iff.1 hi).1
      rw [(List.getElem?_inj hlt hids.of_map).1 (hi.trans hj.symm)]
    | @tail o n _ hf ih =>
      obtain ⟨k, hk⟩ := List.mem_iff_getElem?.1 hf.mem.1
      by_cases hon : o = n
      · exact ih (hon ▸ hj)
      · exact (ih hk).tail ((arc_connected_iff hids).2 ⟨o, n, hf, hon, hk, hj⟩)

theorem entangled_nodeAt_iff {i j : Nat} (hi : i < d.nodes.length) (hj : j < d.nodes.length) :
    d.Entangled (d.nodeAt i) (d.nodeAt j) ↔
      ReflTransGen (dependencyGraph d.bound (d.connected r).1).Arc i j ∧
        ReflTransGen (dependencyGraph d.bound (d.connected r).1).Arc j i := by
  rw [path_connected_iff hids (getElem?_nodes hi) (getElem?_nodes hj),
    path_connected_iff hids (getElem?_nodes hj) (getElem?_nodes hi)]
  rfl

open Classical in
/-- The components of the graph of a definition are the sets of nodes that feed each other. -/
theorem classes_entangled :
    classes d.Entangled d.nodes =
      (CyclePolicy.cyclic (dependencyGraph d.bound (d.connected r).1).components).map
        (List.map d.nodeAt) := by
  have hvertices : (dependencyGraph d.bound (d.connected r).1).vertices =
      List.range d.nodes.length := by
    simp [dependencyGraph, Digraph.ofArcs, Digraph.vertices, bound]
  have hinj : ∀ i ∈ List.range d.nodes.length, ∀ j ∈ List.range d.nodes.length,
      d.nodeAt i = d.nodeAt j → i = j := fun i hi j hj =>
    nodeAt_inj hids (List.mem_range.1 hi) (List.mem_range.1 hj)
  rw [CyclePolicy.cyclic_components within_dependencyGraph, hvertices]
  conv_lhs => rw [← d.map_nodeAt]
  exact classes_map hinj fun i hi j hj =>
    entangled_nodeAt_iff hids (List.mem_range.1 hi) (List.mem_range.1 hj)

/-- **The cycles that are found** are the sets of nodes that feed each other. -/
theorem check_connected_eq :
    (CyclePolicy.ofMode d.mode).check d.bound (d.connected r).1 = d.cycles := by
  unfold cycles CyclePolicy.check
  cases d.mode with
  | async => rfl
  | sync =>
    rw [@classes_entangled d r hids, List.map_map]
    refine List.map_congr_left fun members hm => congrArg _ ?_
    rw [List.map_map, ← List.filterMap_eq_map]
    refine List.filterMap_congr fun i hi => ?_
    have hlt : i < d.bound.length :=
      CyclePolicy.lt_size_of_mem_cyclic within_dependencyGraph hm hi
    have hlt' : i < d.nodes.length := by simpa [bound] using hlt
    simp [bound, getElem?_nodes hlt']

end

end Definition

/-! ## The report -/

/-- The passes of a build of any definition are those of its accepted nodes. -/
theorem build_eq (r : Registry) (d : Definition) :
    build r d =
      if (d.violations r).isEmpty then
        match r.registerAll (d.accepted.binding r).staging.toList with
        | (.ok (), r') => (.ok ⟨d.id, d.mode, (d.accepted.binding r).interner.instances,
            d.parameters, d.accepted.bound, (d.accepted.connected r).1, d.deployment⟩, r')
        | (.error problem, r') => (.error ⟨d.id, [problem]⟩, r')
      else (.error ⟨d.id, d.violations r⟩, r) := by
  have hproblems : (d.accepted.binding r).problems =
      Staging.conflictsOf r (declaredTypes d.accepted.nodes) (declaredTypes d.accepted.nodes) := by
    rw [(d.accepted.binding_spec r).problems, List.append_nil, List.nil_append]
  have hviolations : d.violations r =
      Parameter.problems d.parameters ++ d.repeatedIds ++ (d.accepted.binding r).problems ++
        (d.accepted.connected r).2 ++
        (CyclePolicy.ofMode d.mode).check d.accepted.bound (d.accepted.connected r).1 := by
    unfold Definition.violations
    rw [d.problems_eq, hproblems, Definition.connected_snd_eq,
      ← Definition.check_connected_eq d.nodup_accepted]
    rfl
  rw [hviolations]
  unfold build Definition.connected
  rw [d.acceptNodes_eq, ← d.accepted.binding_nodes r]
  rfl

/-- **A build fails exactly if the definition has violations, and it reports exactly these**, in
order: parameters, repeated ids, types, queries and cycles. -/
theorem build_reports_violations (r : Registry) (d : Definition) (report : Report) :
    (build r d).1 = .error report ↔
      d.violations r ≠ [] ∧ report = ⟨d.id, d.violations r⟩ := by
  obtain ⟨r', hr'⟩ := (d.accepted.binding_staging r).registerAll
  have hstaged : r.registerAll (d.accepted.binding r).staging.toList = (.ok (), r') := hr'
  rw [build_eq, hstaged]
  cases hv : d.violations r with
  | nil => simp
  | cons v vs => simp [eq_comm]

end Dataflow
