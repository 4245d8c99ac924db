import Dataflow.Proofs.Channels
import Dataflow.Proofs.Declarations

/-!
# What a valid definition is

`Definition.Valid d r` says, without the passes of a build and their order, what a definition has to
be over a registry: sound parameters, distinct ids, output types that agree, another node as the
only source of every query (`Definition.Source`), and without feedback no cycle of nodes that feed
each other (`Definition.Feeds`).

`build_eq_ok_iff` splits a build into its passes. Each of them reports nothing exactly if its part
of `Valid` holds (`Definition.connected_eq_nil_iff`, `Definition.check_eq_nil_iff` and those of
`Declarations`), so what is built is valid (`valid_of_build`), and what is valid is built
(`build_of_valid`).
-/

namespace Dataflow

open Relation

namespace Definition

/-! ## Validity -/

/-- A declared node has what a query asks for, with the contexts that every node carries. -/
structure Answers (d : Definition) (q : Query) (p : NodeDeclaration) : Prop where
  /-- It has the id that the query names, if the query names one. -/
  named : ∀ id, q.producer = some id → p.id = id
  contexts : ∀ c ∈ q.contexts, c ∈ d.contexts ∨ c ∈ p.contexts
  output : ∃ t, p.outputs.get? q.output = some t ∧ t.name = q.type

/-- `p` is the only declared node that answers a query. -/
structure Source (d : Definition) (q : Query) (p : NodeDeclaration) : Prop where
  mem : p ∈ d.nodes
  answers : d.Answers q p
  only : ∀ m ∈ d.nodes, d.Answers q m → m = p

/-- A query of `n` has the source `p`. -/
def Feeds (d : Definition) (p n : NodeDeclaration) : Prop :=
  n ∈ d.nodes ∧ ∃ c ∈ n.channels, d.Source c.2 p

/-- What a definition has to be. -/
structure Valid (d : Definition) (r : Registry) : Prop where
  parameters : ∀ p ∈ d.parameters, p.Sound
  parameterNames : (d.parameters.map (·.name)).Nodup
  ids : (d.nodes.map (·.id)).Nodup
  /-- Outputs whose types have one name have one schema. -/
  schemas : ∀ t ∈ declaredTypes d.nodes, ∀ u ∈ declaredTypes d.nodes,
    t.name = u.name → t.schema = u.schema
  /-- It is the registered one, if there is one. -/
  registered : ∀ t ∈ declaredTypes d.nodes, ∀ known, r.get? t.name = some known →
    known.schema = t.schema
  /-- Every query has another node as its source, and does not name its own. -/
  channels : ∀ n ∈ d.nodes, ∀ c ∈ n.channels,
    c.2.producer ≠ some n.id ∧ ∃ p, d.Source c.2 p ∧ p ≠ n
  acyclic : d.mode = .sync → ∀ n, ¬ TransGen d.Feeds n n

/-! ## Sources before and after binding -/

/-- The contexts of a definition and of its nodes, each once and in the order of first sight. -/
def allContexts (d : Definition) : List Context :=
  fresh [] (d.contexts ++ d.nodes.flatMap (·.contexts))

/-- The node that a declaration becomes. -/
def bind (d : Definition) (n : NodeDeclaration) : Node :=
  n.bound d.allContexts d.contexts

/-- The nodes that the declarations of a definition become. -/
def bound (d : Definition) : List Node :=
  d.nodes.map d.bind

section
variable {d : Definition} {q : Query}

theorem ids_bound : d.bound.map (·.id) = d.nodes.map (·.id) := by
  unfold bound
  rw [List.map_map]
  rfl

@[simp] theorem id_bind (n : NodeDeclaration) : (d.bind n).id = n.id :=
  rfl

theorem contexts_bind (n : NodeDeclaration) :
    (d.bind n).contexts = fresh [] (d.contexts ++ n.contexts) :=
  Context.map_value_storedIn _ _

/-- What a node is depends on its declaration and the shared contexts alone. -/
theorem content_bind (n : NodeDeclaration) :
    (d.bind n).content = { n with contexts := fresh [] (d.contexts ++ n.contexts) } := by
  rw [← contexts_bind]
  rfl

theorem mem_contexts_bound_iff {n : NodeDeclaration} {c : Context} :
    c ∈ (d.bind n).contexts ↔ c ∈ d.contexts ∨ c ∈ n.contexts := by
  rw [contexts_bind, mem_fresh, List.mem_append]
  exact ⟨And.left, fun h => ⟨h, List.not_mem_nil⟩⟩

theorem satisfies_bound_iff {n : NodeDeclaration} :
    (d.bind n).satisfies q = true ↔ d.Answers q n := by
  rw [Node.satisfies_iff]
  constructor
  · rintro ⟨hid, hcs, ho⟩
    exact ⟨hid, fun c hm => mem_contexts_bound_iff.1 (hcs c hm), ho⟩
  · rintro ⟨hid, hcs, ho⟩
    exact ⟨hid, fun c hm => mem_contexts_bound_iff.2 (hcs c hm), ho⟩

theorem Source.bound {p : NodeDeclaration} (h : d.Source q p) :
    Node.Source d.bound q (d.bind p) := by
  refine ⟨List.mem_map_of_mem h.mem, satisfies_bound_iff.2 h.answers, fun m hm hs => ?_⟩
  obtain ⟨n, hn, rfl⟩ := List.mem_map.1 hm
  rw [h.only n hn (satisfies_bound_iff.1 hs)]

theorem Feeds.mem {p n : NodeDeclaration} (h : d.Feeds p n) : p ∈ d.nodes ∧ n ∈ d.nodes := by
  obtain ⟨hn, _, -, hp⟩ := h
  exact ⟨hp.mem, hn⟩

theorem Source.unique {p p' : NodeDeclaration} (h : d.Source q p) (h' : d.Source q p') : p' = p :=
  h.only p' h'.mem h'.answers

variable (hids : (d.nodes.map (·.id)).Nodup)
include hids

theorem eq_of_id_eq {m n : NodeDeclaration} (hm : m ∈ d.nodes) (hn : n ∈ d.nodes)
    (hid : m.id = n.id) : m = n :=
  List.inj_on_of_nodup_map hids hm hn hid

theorem exists_source_of_bound {p : Node} (h : Node.Source d.bound q p) :
    ∃ n, d.Source q n ∧ p = d.bind n := by
  obtain ⟨n, hn, rfl⟩ := List.mem_map.1 h.mem
  refine ⟨n, ⟨hn, satisfies_bound_iff.1 h.satisfies, fun m hm hs => ?_⟩, rfl⟩
  have heq := h.only (d.bind m) (List.mem_map_of_mem hm) (satisfies_bound_iff.2 hs)
  exact eq_of_id_eq hids hm hn (congrArg Node.id heq)

end

/-! ## The passes of a build -/

/-- What binding the nodes of a definition leaves behind. -/
def binding (d : Definition) (r : Registry) : Binding :=
  bindNodes r d.contexts (Interner.empty.internAll d.contexts).2 .empty d.nodes

theorem binding_spec (d : Definition) (r : Registry) :
    (d.binding r).Of r d.contexts (Interner.empty.internAll d.contexts).2 [] d.nodes [] := by
  obtain ⟨-, hi, hctx⟩ := Interner.Sound.empty.internAll d.contexts
  refine bindNodes_spec hi (fun c hc => ?_) (.empty r) d.nodes []
  rw [hctx]
  exact List.mem_append_right _ (mem_fresh.2 ⟨hc, List.not_mem_nil⟩)

/-- The contexts that are stored in the end are those of the definition and its nodes. -/
theorem binding_contexts (d : Definition) (r : Registry) :
    (d.binding r).interner.contexts = d.allContexts := by
  obtain ⟨-, -, hctx⟩ := Interner.Sound.empty.internAll d.contexts
  refine (d.binding_spec r).contexts.trans ?_
  rw [hctx, Definition.allContexts, fresh_append]
  refine congrArg (fresh [] d.contexts ++ ·) (fresh_congr fun c => ?_)
  rw [Interner.contexts, Interner.empty, List.map_nil, List.nil_append, mem_fresh]
  simp

theorem binding_instances (d : Definition) (r : Registry) :
    (d.binding r).interner.instances = d.allContexts.map (·.storedIn d.allContexts) := by
  rw [(d.binding_spec r).interner.instances_eq, d.binding_contexts r]

theorem binding_nodes (d : Definition) (r : Registry) : (d.binding r).nodes = d.bound := by
  rw [(d.binding_spec r).nodes, d.binding_contexts r]
  rfl

theorem binding_problems_eq_nil_iff {d : Definition} {r : Registry} :
    (d.binding r).problems = [] ↔
      ∀ t ∈ declaredTypes d.nodes, r.conflicts (declaredTypes d.nodes) t = false := by
  rw [(d.binding_spec r).problems, Staging.conflictsOf_eq_nil_iff, List.append_nil, List.nil_append]

theorem binding_staging (d : Definition) (r : Registry) :
    Supplement r (declaredTypes d.nodes) (d.binding r).staging.types :=
  (d.binding_spec r).staging

/-- The edges of a definition, and what is wrong with its queries. -/
def connected (d : Definition) (r : Registry) : List Edge × List Diagnostic :=
  connect d.bound ((d.binding r).staging.knows r)

/-- The diagnostics of all passes of a build of a definition whose ids differ. -/
def reported (d : Definition) (r : Registry) : List Diagnostic :=
  Parameter.problems d.parameters ++ [] ++ (d.binding r).problems ++ (d.connected r).2 ++
    (CyclePolicy.ofMode d.mode).check d.bound (d.connected r).1

end Definition

section
variable {r : Registry} {d : Definition} {p : Pipeline}

theorem build_of_nodup (hids : (d.nodes.map (·.id)).Nodup) :
    build r d =
      if (d.reported r).isEmpty then
        match r.registerAll (d.binding r).staging.toList with
        | (.ok (), r') => (.ok ⟨d.id, d.mode, (d.binding r).interner.instances, d.parameters,
            d.bound, (d.connected r).1, d.deployment⟩, r')
        | (.error problem, r') => (.error ⟨d.id, [problem]⟩, r')
      else (.error ⟨d.id, d.reported r⟩, r) := by
  have hrep := acceptNodes_eq_nil_iff.2 hids
  have hacc : acceptNodes d.nodes = (d.nodes, []) := Prod.ext (acceptNodesAfter_fst hrep) hrep
  unfold build Definition.reported Definition.connected
  rw [hacc, ← d.binding_nodes r]
  rfl

/-- **A build succeeds** exactly if none of its passes reports anything; its pipeline is put
together from what they leave behind. -/
theorem build_eq_ok_iff :
    (build r d).1 = .ok p ↔
      Parameter.problems d.parameters = [] ∧ (d.nodes.map (·.id)).Nodup ∧
        (d.binding r).problems = [] ∧ (d.connected r).2 = [] ∧
          (CyclePolicy.ofMode d.mode).check d.bound (d.connected r).1 = [] ∧
            p = ⟨d.id, d.mode, (d.binding r).interner.instances, d.parameters, d.bound,
              (d.connected r).1, d.deployment⟩ := by
  by_cases hids : (d.nodes.map (·.id)).Nodup
  · obtain ⟨r', hr'⟩ := (d.binding_staging r).registerAll
    have hstaged : r.registerAll (d.binding r).staging.toList = (.ok (), r') := hr'
    rw [build_of_nodup hids, hstaged]
    have hnil : (d.reported r).isEmpty = true ↔ Parameter.problems d.parameters = [] ∧
        (d.binding r).problems = [] ∧ (d.connected r).2 = [] ∧
          (CyclePolicy.ofMode d.mode).check d.bound (d.connected r).1 = [] := by
      unfold Definition.reported
      simp only [List.isEmpty_iff, List.append_eq_nil_iff, and_true, and_assoc]
    by_cases h : (d.reported r).isEmpty = true
    · obtain ⟨hpar, hbind, hconn, hcyc⟩ := hnil.1 h
      rw [if_pos h]
      simp only [hpar, hids, hbind, hconn, hcyc, true_and, Except.ok.injEq]
      exact eq_comm
    · rw [if_neg h]
      refine iff_of_false (by simp) ?_
      rintro ⟨hpar, -, hbind, hconn, hcyc, -⟩
      exact h (hnil.2 ⟨hpar, hbind, hconn, hcyc⟩)
  · have hrep := mt acceptNodes_eq_nil_iff.1 hids
    refine iff_of_false (fun h => ?_) fun h => hids h.2.1
    unfold build at h
    simp [hrep] at h

end

/-! ## Channels and cycles -/

namespace Definition

section
variable {r : Registry} {d : Definition}

theorem knows_of_answers {q : Query} {p : NodeDeclaration} (hp : p ∈ d.nodes)
    (h : d.Answers q p) : (d.binding r).staging.knows r q.type = true := by
  obtain ⟨t, ht, hname⟩ := h.output
  have hmem : t ∈ declaredTypes d.nodes :=
    List.mem_flatMap.2 ⟨p, hp, List.mem_map_of_mem (KeyMap.get?_eq_some_iff.1 ht)⟩
  rw [Staging.knows_iff (d.binding_staging r), ← hname]
  exact r.binding_of_mem hmem

variable (hids : (d.nodes.map (·.id)).Nodup)
include hids

/-- Every query connects exactly if each has another node as its source. -/
theorem connected_eq_nil_iff :
    (d.connected r).2 = [] ↔
      ∀ n ∈ d.nodes, ∀ c ∈ n.channels,
        c.2.producer ≠ some n.id ∧ ∃ p, d.Source c.2 p ∧ p ≠ n := by
  unfold connected
  rw [connect_eq_nil_iff (ids_bound ▸ hids), bound, List.forall_mem_map]
  refine forall₂_congr fun n hn => forall₂_congr fun c _ => ?_
  constructor
  · rintro ⟨-, m, hm, hne⟩
    obtain ⟨p, hp, rfl⟩ := exists_source_of_bound hids hm
    refine ⟨fun hself => hne (hp.answers.named n.id hself), p, hp, ?_⟩
    rintro rfl
    exact hne rfl
  · rintro ⟨-, p, hp, hne⟩
    refine ⟨knows_of_answers hp.mem hp.answers, d.bind p, hp.bound, fun hid => ?_⟩
    exact hne (eq_of_id_eq hids hp.mem hn hid)

end

/-! ### The edges of a walk -/

/-- The edges of all queries in order: the nodes as they are declared, the inputs of each in
ascending order, and the queries of each input as they are declared. -/
def walk (d : Definition) (source : Query → NodeDeclaration) : List Edge :=
  d.nodes.flatMap fun n => n.channels.map fun (input, q) =>
    ⟨(source q).id, q.output, n.id, input, q⟩

/-- A function that gives every query of a definition its source. -/
def Sources (d : Definition) (source : Query → NodeDeclaration) : Prop :=
  ∀ n ∈ d.nodes, ∀ c ∈ n.channels, d.Source c.2 (source c.2)

theorem mem_walk {d : Definition} {source : Query → NodeDeclaration} {e : Edge} :
    e ∈ d.walk source ↔ ∃ n ∈ d.nodes, ∃ c ∈ n.channels,
      e = ⟨(source c.2).id, c.2.output, n.id, c.1, c.2⟩ := by
  unfold walk
  rw [List.mem_flatMap]
  refine exists_congr fun n => and_congr_right fun _ => ?_
  rw [List.mem_map]
  exact exists_congr fun c => and_congr_right fun _ => eq_comm

section
variable {r : Registry} {d : Definition} {source : Query → NodeDeclaration}

theorem exists_sources (h : ∀ n ∈ d.nodes, ∀ c ∈ n.channels, ∃ p, d.Source c.2 p) :
    ∃ source, d.Sources source := by
  have hsome : ∀ q : Query, ∃ p : NodeDeclaration,
      (∃ n ∈ d.nodes, ∃ c ∈ n.channels, c.2 = q) → d.Source q p := by
    intro q
    by_cases hq : ∃ n ∈ d.nodes, ∃ c ∈ n.channels, c.2 = q
    · obtain ⟨n, hn, c, hc, rfl⟩ := hq
      obtain ⟨p, hp⟩ := h n hn c hc
      exact ⟨p, fun _ => hp⟩
    · exact ⟨.ofId "", fun h => absurd h hq⟩
  choose source hsource using hsome
  exact ⟨source, fun n hn c hc => hsource c.2 ⟨n, hn, c, hc, rfl⟩⟩

variable (hs : d.Sources source)
include hs

theorem leads_walk_iff {a b : String} :
    Edge.Leads (d.walk source) a b ↔ ∃ p n, d.Feeds p n ∧ p.id = a ∧ n.id = b := by
  constructor
  · rintro ⟨e, he, rfl, rfl⟩
    obtain ⟨n, hn, c, hc, rfl⟩ := mem_walk.1 he
    exact ⟨source c.2, n, ⟨hn, c, hc, hs n hn c hc⟩, rfl, rfl⟩
  · rintro ⟨p, n, ⟨hn, c, hc, hp⟩, rfl, rfl⟩
    refine ⟨_, mem_walk.2 ⟨n, hn, c, hc, rfl⟩, ?_, rfl⟩
    show (source c.2).id = p.id
    rw [hp.unique (hs n hn c hc)]

variable (hids : (d.nodes.map (·.id)).Nodup)
include hids

theorem transGen_feeds_of_leads {a b : String} (h : TransGen (Edge.Leads (d.walk source)) a b) :
    ∃ p n, TransGen d.Feeds p n ∧ (p ∈ d.nodes ∧ n ∈ d.nodes) ∧ p.id = a ∧ n.id = b := by
  induction h with
  | single hab =>
    obtain ⟨p, n, hf, hp, hn⟩ := (leads_walk_iff hs).1 hab
    exact ⟨p, n, .single hf, hf.mem, hp, hn⟩
  | tail _ hbc ih =>
    obtain ⟨p, n, hpath, ⟨hmp, hmn⟩, hp, hn⟩ := ih
    obtain ⟨n', m, hf, hn', hm⟩ := (leads_walk_iff hs).1 hbc
    obtain rfl := eq_of_id_eq hids hf.mem.1 hmn (hn'.trans hn.symm)
    exact ⟨p, m, hpath.tail hf, ⟨hmp, hf.mem.2⟩, hp, hm⟩

theorem acyclic_walk_iff :
    (∀ id, ¬ TransGen (Edge.Leads (d.walk source)) id id) ↔ ∀ n, ¬ TransGen d.Feeds n n := by
  constructor
  · intro h n hn
    exact h n.id (hn.lift (·.id) fun p m hf => (leads_walk_iff hs).2 ⟨p, m, hf, rfl, rfl⟩)
  · intro h id hid
    obtain ⟨p, n, hpath, ⟨hmp, hmn⟩, hp, hn⟩ := transGen_feeds_of_leads hs hids hid
    obtain rfl := eq_of_id_eq hids hmp hmn (hp.trans hn.symm)
    exact h p hpath

/-- The edges of a definition whose queries all connect are the first ones of its walk. -/
theorem connected_edges (hc : (d.connected r).2 = []) :
    (d.connected r).1 = Edge.firsts (d.walk source) := by
  have hbound : ∀ n ∈ d.bound, ∀ c ∈ n.channels,
      Node.Source d.bound c.2 (d.bind (source c.2)) := by
    unfold bound
    rw [List.forall_mem_map]
    exact fun n hn c hm => (hs n hn c hm).bound
  unfold connected at hc ⊢
  rw [connect_edges (ids_bound ▸ hids) (fun q => d.bind (source q)) hc hbound]
  unfold Node.walk walk bound
  rw [List.map_flatMap, List.flatMap_map]
  refine congrArg _ (List.flatMap_congr fun n _ => ?_)
  rw [List.map_map]
  rfl

/-- The edges of a definition whose queries all connect join different nodes. -/
theorem joining_walk (hc : ∀ n ∈ d.nodes, ∀ c ∈ n.channels,
    c.2.producer ≠ some n.id ∧ ∃ p, d.Source c.2 p ∧ p ≠ n) :
    Edge.Joining d.bound (Edge.firsts (d.walk source)) := by
  have hwalk : ∀ e ∈ Edge.firsts (d.walk source), ∃ p n, (p ∈ d.nodes ∧ n ∈ d.nodes) ∧ p ≠ n ∧
      p.id = e.producer ∧ n.id = e.consumer := by
    intro e he
    obtain ⟨n, hn, c, hm, rfl⟩ := mem_walk.1 ((Edge.firsts_sublist _).subset he)
    obtain ⟨-, p, hp, hne⟩ := hc n hn c hm
    have hsrc := hs n hn c hm
    exact ⟨source c.2, n, ⟨hsrc.mem, hn⟩, hp.unique hsrc ▸ hne, rfl, rfl⟩
  refine ⟨fun e he => ?_, fun e he => ?_, fun e he => ?_⟩
  · obtain ⟨p, -, ⟨hp, -⟩, -, hid, -⟩ := hwalk e he
    exact ⟨d.bind p, List.mem_map_of_mem hp, hid⟩
  · obtain ⟨-, n, ⟨-, hn⟩, -, -, hid⟩ := hwalk e he
    exact ⟨d.bind n, List.mem_map_of_mem hn, hid⟩
  · obtain ⟨p, n, ⟨hp, hn⟩, hne, hpid, hnid⟩ := hwalk e he
    rw [← hpid, ← hnid]
    exact fun hid => hne (eq_of_id_eq hids hp hn hid)

/-- No cycle is found exactly if the mode allows feedback or no node feeds itself along a
path. -/
theorem check_eq_nil_iff (hc : (d.connected r).2 = []) :
    (CyclePolicy.ofMode d.mode).check d.bound (d.connected r).1 = [] ↔
      (d.mode = .sync → ∀ n, ¬ TransGen d.Feeds n n) := by
  have hmode : CyclePolicy.ofMode d.mode = .reject ↔ d.mode = .sync := by
    cases d.mode <;> decide
  rw [connected_edges hs hids hc,
    CyclePolicy.check_eq_nil_iff (joining_walk hs hids ((connected_eq_nil_iff hids).1 hc)), hmode,
    Edge.leads_firsts, acyclic_walk_iff hs hids]

end

/-! ## Building -/

/-- The pipeline of a valid definition whose queries have the given sources. -/
def pipeline (d : Definition) (source : Query → NodeDeclaration) : Pipeline where
  id := d.id
  mode := d.mode
  instances := d.allContexts.map (·.storedIn d.allContexts)
  parameters := d.parameters
  nodes := d.bound
  edges := Edge.firsts (d.walk source)
  deployment := d.deployment

end Definition

section
variable {r : Registry} {d : Definition} {p : Pipeline}

theorem Definition.Valid.exists_sources (h : d.Valid r) : ∃ source, d.Sources source :=
  Definition.exists_sources fun n hn c hc => (h.channels n hn c hc).2.imp fun _ hp => hp.1

theorem valid_of_build (h : (build r d).1 = .ok p) : d.Valid r := by
  obtain ⟨hpar, hids, hbind, hconn, hcyc, -⟩ := build_eq_ok_iff.1 h
  obtain ⟨hsound, hnames⟩ := Parameter.problems_eq_nil_iff.1 hpar
  obtain ⟨hschemas, hreg⟩ := Registry.agree_iff.1 (Definition.binding_problems_eq_nil_iff.1 hbind)
  have hchannels := (Definition.connected_eq_nil_iff hids).1 hconn
  obtain ⟨source, hs⟩ := Definition.exists_sources fun n hn c hc =>
    (hchannels n hn c hc).2.imp fun _ hp => hp.1
  have hacyclic := (Definition.check_eq_nil_iff hs hids hconn).1 hcyc
  exact ⟨hsound, hnames, hids, hschemas, hreg, hchannels, hacyclic⟩

/-- The pipeline of a valid definition is built. -/
theorem build_of_valid {source : Query → NodeDeclaration} (h : d.Valid r) (hs : d.Sources source) :
    (build r d).1 = .ok (d.pipeline source) := by
  have hconn : (d.connected r).2 = [] := (Definition.connected_eq_nil_iff h.ids).2 h.channels
  refine build_eq_ok_iff.2 ⟨?_, h.ids, ?_, hconn, ?_, ?_⟩
  · exact Parameter.problems_eq_nil_iff.2 ⟨h.parameters, h.parameterNames⟩
  · exact Definition.binding_problems_eq_nil_iff.2 (Registry.agree_iff.2 ⟨h.schemas, h.registered⟩)
  · exact (Definition.check_eq_nil_iff hs h.ids hconn).2 h.acyclic
  · rw [d.binding_instances r, Definition.connected_edges hs h.ids hconn]
    rfl

/-- **A build succeeds exactly on valid definitions.** -/
theorem build_succeeds_iff_valid (r : Registry) (d : Definition) :
    (∃ p, (build r d).1 = .ok p) ↔ d.Valid r := by
  constructor
  · rintro ⟨p, hp⟩
    exact valid_of_build hp
  · intro h
    obtain ⟨source, hs⟩ := h.exists_sources
    exact ⟨d.pipeline source, build_of_valid h hs⟩

/-- What is built is the pipeline of the definition, whose queries have sources. -/
theorem eq_pipeline_of_build (h : (build r d).1 = .ok p) :
    ∃ source, d.Sources source ∧ p = d.pipeline source := by
  have hv := valid_of_build h
  obtain ⟨source, hs⟩ := hv.exists_sources
  have hp := build_of_valid hv hs
  rw [h] at hp
  cases hp
  exact ⟨source, hs, rfl⟩

end

end Dataflow
