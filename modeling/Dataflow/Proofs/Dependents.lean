import Dataflow.Proofs.Blocked

/-!
# What depends on what

The closures of some ids are asked for in both directions along the edges, and their outcomes have
one shape (`Pipeline.Closes`): the first id that no node has is reported, and if there is none, the
nodes at the ends of paths are listed in order of declaration. As nodes differ, a list in this order
is known by its members, so the outcome depends on which ids are given, and not on how they are
listed (`Pipeline.Closes.eq_ok_iff`).
-/

namespace Dataflow

open Relation

namespace Pipeline

/-- The outcome of a closure of some ids, where `r` relates an id to those that paths join it to. -/
inductive Closes (p : Pipeline) (r : String → String → Prop) (ids : List String) :
    Except Diagnostic (List Node) → Prop
  /-- The first id that is not a node's is reported. -/
  | unknown {before after : List String} {id : String} (split : ids = before ++ id :: after)
      (known : ∀ other ∈ before, ∃ n ∈ p.nodes, n.id = other)
      (foreign : ¬ ∃ n ∈ p.nodes, n.id = id) :
      Closes p r ids (.error (.unknownNode id))
  /-- The nodes that paths join to some given id are listed, each once and as they are declared. -/
  | found {l : List Node} (known : ∀ id ∈ ids, ∃ n ∈ p.nodes, n.id = id)
      (declared : l.Sublist p.nodes) (once : (l.map (·.id)).Nodup)
      (joined : ∀ n, n ∈ l ↔ n ∈ p.nodes ∧ ∃ a ∈ ids, r a n.id) : Closes p r ids (.ok l)

section
variable {p : Pipeline} {r : String → String → Prop} {ids : List String}

theorem checkKnown_eq_error_iff {d : Diagnostic} :
    p.checkKnown ids = .error d ↔ ∃ before id after, ids = before ++ id :: after ∧
      (∀ other ∈ before, ∃ n ∈ p.nodes, n.id = other) ∧ (¬ ∃ n ∈ p.nodes, n.id = id) ∧
        d = .unknownNode id := by
  have hfound : p.checkKnown ids = .error d ↔
      ∃ id, (ids.find? fun id => !p.contains id) = some id ∧ d = .unknownNode id := by
    unfold checkKnown
    cases ids.find? fun id => !p.contains id <;> simp [eq_comm]
  have hforeign : ∀ id ∈ ids, (!p.contains id) = true ↔ ¬ ∃ n ∈ p.nodes, n.id = id := by
    intro id _
    rw [Bool.not_eq_true', ← Bool.not_eq_true, contains_iff]
  rw [hfound]
  simp only [find?_eq_some_iff_first hforeign]
  constructor
  · rintro ⟨id, ⟨before, after, hsplit, hbefore, hid⟩, rfl⟩
    exact ⟨before, id, after, hsplit, hbefore, hid, rfl⟩
  · rintro ⟨before, id, after, hsplit, hbefore, hid, rfl⟩
    exact ⟨id, ⟨before, after, hsplit, hbefore, hid⟩, rfl⟩

/-- A single given id is joined to the ids of the nodes that are listed. -/
theorem Closes.exists_mem_iff {a b : String} {outcome : Except Diagnostic (List Node)}
    (h : p.Closes r [a] outcome) :
    (∃ l, outcome = .ok l ∧ ∃ n ∈ l, n.id = b) ↔
      (∃ m ∈ p.nodes, m.id = a) ∧ (∃ n ∈ p.nodes, n.id = b) ∧ r a b := by
  cases h with
  | @unknown before after id split known foreign =>
    refine iff_of_false (by simp) ?_
    rintro ⟨⟨m, hm, rfl⟩, -⟩
    have hid : id ∈ [m.id] := split ▸ by simp
    exact foreign ⟨m, hm, (List.mem_singleton.1 hid).symm⟩
  | @found l known declared once joined =>
    have hknown := known a List.mem_cons_self
    simp only [Except.ok.injEq, exists_eq_left', joined, List.mem_singleton]
    constructor
    · rintro ⟨n, ⟨hn, _, rfl, hr⟩, rfl⟩
      exact ⟨hknown, ⟨n, hn, rfl⟩, hr⟩
    · rintro ⟨-, ⟨n, hn, rfl⟩, hr⟩
      exact ⟨n, ⟨hn, a, rfl, hr⟩, rfl⟩

variable (hp : p.Sound)
include hp

/-- What is closed along steps in one direction. -/
theorem closes_closed {step : String → List Node}
    (hstep : (∀ id ∈ ids, ∃ n ∈ p.nodes, n.id = id) →
      ∀ n, n ∈ p.closed step ids ↔ n ∈ p.nodes ∧ ∃ a ∈ ids, r a n.id) :
    p.Closes r ids ((p.checkKnown ids).map fun _ => p.closed step ids) := by
  cases hcheck : p.checkKnown ids with
  | error d =>
    obtain ⟨before, id, after, hsplit, hbefore, hid, rfl⟩ := checkKnown_eq_error_iff.1 hcheck
    exact .unknown hsplit hbefore hid
  | ok _ =>
    have hknown := checkKnown_eq_ok_iff.1 hcheck
    have hsub : (p.closed step ids).Sublist p.nodes := List.filter_sublist
    exact .found hknown hsub (hp.ids.sublist (hsub.map _)) (hstep hknown)

theorem closes_dependentClosure (ids : List String) :
    p.Closes (ReflTransGen (Edge.Leads p.edges)) ids (p.dependentClosure ids) :=
  closes_closed hp fun hi _ => mem_closed_consumers hp hi

theorem closes_dependencyClosure (ids : List String) :
    p.Closes (fun a id => ReflTransGen (Edge.Leads p.edges) id a) ids (p.dependencyClosure ids) :=
  closes_closed hp fun hi _ => mem_closed_producers hp hi

theorem eq_of_sublist_nodes {l m : List Node} (hl : l.Sublist p.nodes) (hm : m.Sublist p.nodes)
    (h : ∀ n, n ∈ l ↔ n ∈ m) : l = m := by
  have hn : p.nodes.Nodup := hp.ids.of_map
  exact (hn.perm_iff_eq_of_sublist hl hm).1
    ((List.perm_ext_iff_of_nodup (hl.nodup hn) (hm.nodup hn)).2 h)

theorem Closes.eq_ok_iff {outcome : Except Diagnostic (List Node)} (h : p.Closes r ids outcome)
    {l : List Node} :
    outcome = .ok l ↔ (∀ id ∈ ids, ∃ n ∈ p.nodes, n.id = id) ∧ l.Sublist p.nodes ∧
      ∀ n, n ∈ l ↔ n ∈ p.nodes ∧ ∃ a ∈ ids, r a n.id := by
  cases h with
  | @unknown before after id split known foreign =>
    refine iff_of_false (by simp) fun h => ?_
    exact foreign (h.1 id (split ▸ by simp))
  | @found m known declared once joined =>
    rw [Except.ok.injEq]
    constructor
    · rintro rfl
      exact ⟨known, declared, joined⟩
    · rintro ⟨-, hl, hjoined⟩
      exact eq_of_sublist_nodes hp declared hl fun n => (joined n).trans (hjoined n).symm

theorem Closes.eq_ok_congr {seeds : List String} {o o' : Except Diagnostic (List Node)}
    (h : p.Closes r ids o) (h' : p.Closes r seeds o') (hm : ∀ id, id ∈ seeds ↔ id ∈ ids)
    {l : List Node} : o' = .ok l ↔ o = .ok l := by
  simp only [h.eq_ok_iff hp, h'.eq_ok_iff hp, hm]

end

end Pipeline

/-- **Closures are what paths reach**, with feedback and without. They report the first id that no
node has. Otherwise the dependencies of some nodes are the nodes from which paths lead to them, and
their dependents those that paths from them lead to, in order of declaration. So one node is among
the dependents of another exactly if that one is among its dependencies, and the nodes that are
found depend only on which ids are given. -/
theorem closures_are_what_paths_reach {p : Pipeline} (hp : p.Obtained) (ids : List String) :
    p.Closes (fun a id => ReflTransGen (Edge.Leads p.edges) id a) ids (p.dependencyClosure ids) ∧
      p.Closes (fun a id => ReflTransGen (Edge.Leads p.edges) a id) ids (p.dependentClosure ids) ∧
      (∀ a b, (∃ l, p.dependentClosure [a] = .ok l ∧ ∃ n ∈ l, n.id = b) ↔
        ∃ l, p.dependencyClosure [b] = .ok l ∧ ∃ n ∈ l, n.id = a) ∧
      ∀ seeds : List String, (∀ id, id ∈ seeds ↔ id ∈ ids) → ∀ l,
        (p.dependencyClosure seeds = .ok l ↔ p.dependencyClosure ids = .ok l) ∧
          (p.dependentClosure seeds = .ok l ↔ p.dependentClosure ids = .ok l) := by
  have hs := hp.sound
  have hdependencies := Pipeline.closes_dependencyClosure hs
  have hdependents := Pipeline.closes_dependentClosure hs
  refine ⟨hdependencies ids, hdependents ids, fun a b => ?_, fun seeds hm l => ⟨?_, ?_⟩⟩
  · rw [(hdependents [a]).exists_mem_iff, (hdependencies [b]).exists_mem_iff]
    exact and_left_comm
  · exact (hdependencies ids).eq_ok_congr hs (hdependencies seeds) hm
  · exact (hdependents ids).eq_ok_congr hs (hdependents seeds) hm

/-- The node behind the cycle depends on both nodes of it, so it is among the dependents of each. -/
theorem closures_are_what_paths_reach_feedback : ∃ p, (build .empty feedback).1 = .ok p ∧
    (∃ l, p.dependencyClosure ["c"] = .ok l ∧ l.map (·.id) = ["c", "a", "b"]) ∧
      ∃ l, p.dependentClosure ["a"] = .ok l ∧ ∃ n ∈ l, n.id = "c" := by
  obtain ⟨p, hbuild, l, hl, hids⟩ : ∃ p, (build .empty feedback).1 = .ok p ∧
      ∃ l, p.dependencyClosure ["c"] = .ok l ∧ l.map (·.id) = ["c", "a", "b"] :=
    ⟨_, rfl, _, rfl, rfl⟩
  obtain ⟨-, -, hdual, -⟩ := closures_are_what_paths_reach (.built hbuild) ["c"]
  have ha : ∃ n ∈ l, n.id = "a" := List.mem_map.1 (hids ▸ by simp)
  exact ⟨p, hbuild, ⟨l, hl, hids⟩, (hdual "a" "c").2 ⟨l, hl, ha⟩⟩

end Dataflow
