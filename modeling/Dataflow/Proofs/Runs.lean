import Dataflow.Program
import Dataflow.Proofs.Built
import Dataflow.Proofs.RoundTrip

/-!
# What a run answers

A command that reads a definition takes one of four courses (`Command.Course`): the definition is
not read, it is not built, what is done with the pipeline fails, or there is a result. No result
fails to be shown (`Command.Result.exists_render`). Exit code, envelope and output of a run whose
log starts follow from its course (`Invocation.exitCode_iff`, `Invocation.output_json`). -/

namespace Dataflow

open Json Json.Reader

/-! ## Courses of a command -/

/-- A file holds a definition that can be decoded. -/
def Files.Holds (files : Files) (path : String) (d : Definition) : Prop :=
  ∃ text, files path = .text text ∧ Definition.ofText text = .ok d

theorem Files.Holds.unique {files : Files} {path : String} {d d' : Definition}
    (h : files.Holds path d) (h' : files.Holds path d') : d = d' := by
  obtain ⟨text, hfile, hd⟩ := h
  obtain ⟨text', hfile', hd'⟩ := h'
  rw [hfile] at hfile'
  cases hfile'
  rw [hd] at hd'
  exact Except.ok.inj hd'

namespace Command

variable {files : Files} {path : String} {c : Command}

/-- What a command does with a pipeline succeeds. -/
def Works : Command → Pipeline → Prop
  | .order _, p => (∃ nodes, p.topologicalOrder = .ok nodes) ∧ ∃ layers, p.layers = .ok layers
  | .filter _ start stop, p => ∃ cut, p.cutById start stop = .ok cut
  | _, _ => True

/-- What a command finds in a pipeline. -/
def found : Command → Pipeline → Except Failure Result
  | .validate _, p => .ok (.summary p)
  | .edges _, p => .ok (.edges p.edges)
  | .order _, p => do
    let nodes ← p.topologicalOrder.mapError .graph
    let layers ← p.layers.mapError .graph
    return .order nodes layers
  | .filter _ start stop, p => do
    let cut ← (p.cutById start stop).mapError .graph
    return .cut cut
  | .schema, _ => .ok .schema

theorem result_eq (h : c.file? = some path) :
    c.result files = (pipeline files path).bind c.found := by
  cases c with
  | schema => cases h
  | _ =>
    obtain rfl := Option.some.inj h
    simp only [result]
    cases pipeline files _ <;> rfl

/-- How the result of a command comes about. -/
inductive Course (files : Files) (path : String) (c : Command) : Except Failure Result → Prop
  /-- The file is not read or not decoded. -/
  | unread {f : Failure} :
    (∀ d, ¬ files.Holds path d) → f.exitCode = 2 → Course files path c (.error f)
  | unbuilt {d : Definition} {report : Report} :
    files.Holds path d → (build .empty d).1 = .error report →
      Course files path c (.error (.invalid report))
  | refused {d : Definition} {p : Pipeline} {cause : Diagnostic} :
    files.Holds path d → (build .empty d).1 = .ok p → ¬ c.Works p →
      Course files path c (.error (.graph cause))
  | done {d : Definition} {p : Pipeline} {found : Result} :
    files.Holds path d → (build .empty d).1 = .ok p → c.Works p → c.found p = .ok found →
      Course files path c (.ok found)

/-- A command finds something exactly if what it does succeeds; only the graph can refuse it. -/
theorem found_cases (c : Command) (p : Pipeline) :
    (c.Works p ∧ ∃ found, c.found p = .ok found) ∨
      ¬ c.Works p ∧ ∃ cause, c.found p = .error (.graph cause) := by
  cases c with
  | validate file => exact .inl ⟨trivial, _, rfl⟩
  | edges file => exact .inl ⟨trivial, _, rfl⟩
  | schema => exact .inl ⟨trivial, _, rfl⟩
  | order file =>
    simp only [Works, found]
    cases p.topologicalOrder with
    | error cause => exact .inr ⟨by simp, cause, rfl⟩
    | ok nodes =>
      cases p.layers with
      | error cause => exact .inr ⟨by simp, cause, rfl⟩
      | ok layers => exact .inl ⟨by simp, _, rfl⟩
  | filter file start stop =>
    simp only [Works, found]
    cases p.cutById start stop with
    | error cause => exact .inr ⟨by simp, cause, rfl⟩
    | ok cut => exact .inl ⟨by simp, _, rfl⟩

/-- A definition is found in a file exactly if the file holds it, and no other failure has exit
code 1. -/
theorem definition_cases (files : Files) (path : String) :
    (∃ d, files.Holds path d ∧ definition files path = .ok d) ∨
      (∀ d, ¬ files.Holds path d) ∧
        ∃ f : Failure, f.exitCode = 2 ∧ definition files path = .error f := by
  cases hfile : files path with
  | text content =>
    have hread : definition files path =
        (Definition.ofText content).mapError (.definition path) := by
      simp only [definition, Files.read, hfile]
      rfl
    cases hd : Definition.ofText content with
    | ok d => exact .inl ⟨d, ⟨content, hfile, hd⟩, by rw [hread, hd]; rfl⟩
    | error cause =>
      refine .inr ⟨?_, _, rfl, by rw [hread, hd]; rfl⟩
      rintro d ⟨text, hfile', hd'⟩
      rw [hfile] at hfile'
      cases hfile'
      rw [hd] at hd'
      cases hd'
  | _ =>
    refine .inr ⟨?_, .file .definition path, rfl, ?_⟩
    · rintro d ⟨text, hfile', -⟩
      rw [hfile] at hfile'
      cases hfile'
    · simp only [definition, Files.read, hfile]
      rfl

/-- **Every result comes about in one of the four ways.** -/
theorem course (h : c.file? = some path) : c.Course files path (c.result files) := by
  rw [result_eq h]
  rcases definition_cases files path with ⟨d, hd, hread⟩ | ⟨hnone, f, hf, hread⟩
  · have hbuild : pipeline files path = (build .empty d).1.mapError .invalid := by
      rw [pipeline, hread]
      rfl
    cases hb : (build .empty d).1 with
    | error report =>
      rw [hbuild, hb]
      exact .unbuilt hd hb
    | ok p =>
      rw [hbuild, hb]
      show c.Course files path (c.found p)
      rcases c.found_cases p with ⟨hw, found, hfound⟩ | ⟨hw, cause, hfound⟩
      · rw [hfound]
        exact .done hd hb hw hfound
      · rw [hfound]
        exact .refused hd hb hw
  · have hfail : pipeline files path = .error f := by
      rw [pipeline, hread]
      rfl
    rw [hfail]
    exact .unread hnone hf

theorem found_ne_schema (h : c.file? = some path) (p : Pipeline) : c.found p ≠ .ok .schema := by
  cases c with
  | schema => cases h
  | validate file => exact nofun
  | edges file => exact nofun
  | order file =>
    simp only [found]
    cases p.topologicalOrder <;> cases p.layers <;> exact nofun
  | filter file start stop =>
    simp only [found]
    cases p.cutById start stop <;> exact nofun

theorem ne_schema_of_result (h : c.file? = some path) {found : Result}
    (hr : c.result files = .ok found) : found ≠ .schema := by
  have hcourse : c.Course files path (c.result files) := course h
  rw [hr] at hcourse
  cases hcourse with
  | done _ _ _ hfound =>
    rintro rfl
    exact found_ne_schema h _ hfound

theorem result_of_unbuilt (h : c.file? = some path) {d : Definition} {report : Report}
    (hd : files.Holds path d) (hb : (build .empty d).1 = .error report) :
    c.result files = .error (.invalid report) := by
  have hcourse : c.Course files path (c.result files) := course h
  generalize c.result files = result at hcourse ⊢
  cases hcourse with
  | unread hnone _ => exact absurd hd (hnone d)
  | unbuilt hd' hb' =>
    obtain rfl := hd.unique hd'
    rw [hb] at hb'
    cases hb'
    rfl
  | refused hd' hb' _ =>
    obtain rfl := hd.unique hd'
    rw [hb] at hb'
    cases hb'
  | done hd' hb' _ _ =>
    obtain rfl := hd.unique hd'
    rw [hb] at hb'
    cases hb'

/-! ## Envelopes -/

namespace Result

/-- **Every result can be shown.** -/
theorem exists_render (found : Result) (r : Rendering) : ∃ text, found.render r = .ok text := by
  cases found <;> cases r <;> exact ⟨_, rfl⟩

theorem render_json {found : Result} (h : found ≠ .schema) :
    found.render .json = .ok found.envelope.pretty := by
  cases found with
  | schema => exact absurd rfl h
  | _ => rfl

theorem nesting_idArray (nodes : List Node) : (idArray nodes).nesting ≤ 1 :=
  nesting_array_map_le fun _ _ => Nat.le_refl 0

theorem nesting_edgeArray (es : List Edge) : (Json.array (es.map edgeObject)).nesting ≤ 2 :=
  nesting_array_map_le fun _ _ => Nat.le_refl 1

theorem nesting_data_le {found : Result} (h : found ≠ .schema) : found.data.nesting ≤ 7 := by
  have none {k : Nat} : ∀ p ∈ ([] : List (String × Json)), p.2.nesting ≤ k :=
    fun _ hp => absurd hp List.not_mem_nil
  cases found with
  | schema => exact absurd rfl h
  | summary p =>
    have hnodes := nesting_idArray p.nodes
    refine nesting_object_le ?_
    simp only [List.forall_mem_cons]
    exact ⟨Nat.zero_le 6, Nat.zero_le 6, by omega, Nat.zero_le 6, none⟩
  | edges es =>
    have hedges := nesting_edgeArray es
    simp only [data]
    omega
  | order nodes layers =>
    have hnodes := nesting_idArray nodes
    have hlayers : (Json.array (layers.map idArray)).nesting ≤ 2 :=
      nesting_array_map_le fun layer _ => nesting_idArray layer
    refine nesting_object_le ?_
    simp only [List.forall_mem_cons]
    exact ⟨by omega, by omega, none⟩
  | cut c =>
    have hnodes := nesting_idArray c.pipeline.nodes
    have hedges := nesting_edgeArray c.pipeline.edges
    have hremoved :
        (c.removed.toJson fun queries => .array (queries.map Query.toJson)).nesting ≤ 6 :=
      KeyMap.nesting_toJson_le fun p _ => nesting_array_map_le fun q _ => q.nesting_toJson_le
    refine nesting_object_le ?_
    simp only [List.forall_mem_cons]
    exact ⟨Nat.zero_le 6, by omega, by omega, hremoved, none⟩

end Result

end Command

theorem Failure.nesting_envelope_le (f : Failure) : f.envelope.nesting ≤ 2 := by
  have hrelated : (Json.array (f.related.map .string)).nesting ≤ 1 :=
    nesting_array_map_le fun _ _ => Nat.le_refl 0
  refine nesting_object_le ?_
  simp only [List.forall_mem_cons]
  exact ⟨Nat.zero_le 1, Nat.zero_le 1, Nat.zero_le 1, hrelated,
    fun _ hp => absurd hp List.not_mem_nil⟩

/-! ## Logging -/

/-- The log of a run starts if the filter for its level can be read and messages can be sent,
whatever the environment names. -/
theorem Settings.start_log {host : Log.Host} (s : Settings)
    (h : host.readFilter (Log.directive s.level) = .ok ()) :
    s.log.start host = host.attach s.layout := by
  have hread : s.log.readFilter host = .ok () := by
    simp only [Log.readFilter, Settings.log]
    split
    · rfl
    · exact h
  simp only [Log.start, hread]
  rfl

/-! ## Answers -/

namespace Invocation

variable {i : Invocation} {files : Files} {host : Log.Host} {s : Settings}
  (hs : i.settings files = .ok s)
include hs

/-- A log that does not start fails the run, and the command is not executed. -/
theorem run_of_unlogged {reason : String} (h : s.log.start host = .error reason) :
    i.run files host = (Failure.logging reason).answer s.rendering := by
  simp only [run, hs, h]

variable (hlog : s.log.start host = .ok ())
include hlog

theorem run_of_ok {found : Command.Result} (h : i.command.result files = .ok found) {text : String}
    (hr : found.render s.rendering = .ok text) : i.run files host = ⟨0, text ++ "\n", ""⟩ := by
  simp only [run, hs, hlog, Command.execute, h, Except.bind, hr]

theorem run_of_error {f : Failure} (h : i.command.result files = .error f) :
    i.run files host = f.answer s.rendering := by
  simp only [run, hs, hlog, Command.execute, h, Except.bind]

end Invocation

/-- An output is one envelope and nothing else: the line or lines of an object, which are read as
this object if the doubles in it are read as they were. -/
structure Shows (output : String) (members : List (String × Json)) : Prop where
  text : ∃ l, output = render l (.object members) ++ "\n"
  reads : (∀ x ∈ (Json.object members).doubles, x.RoundTrips) →
    document value output = .ok (.object members)

theorem shows_of_nesting {members : List (String × Json)}
    (h : (Json.object members).nesting ≤ depthLimit) (l : Layout) :
    Shows (render l (.object members) ++ "\n") members :=
  ⟨⟨l, rfl⟩, fun hx => document_line (value_recovers _ hx) h l⟩

theorem Failure.shows_answer {f : Failure} {members : List (String × Json)}
    (h : f.envelope = .object members) : Shows (f.answer .json).output members := by
  have hnesting : (Json.object members).nesting ≤ depthLimit := by
    have hle := f.nesting_envelope_le
    rw [h] at hle
    exact Nat.le_trans hle (by decide)
  show Shows (f.envelope.compact ++ "\n") members
  rw [h]
  exact shows_of_nesting hnesting .compact

theorem Command.Result.shows_envelope {found : Result} (h : found ≠ .schema) :
    Shows (found.envelope.pretty ++ "\n") [("status", .string "ok"), ("data", found.data)] := by
  have hdata := nesting_data_le h
  refine shows_of_nesting (Nat.le_trans (nesting_object_le ?_) (by decide : 8 ≤ depthLimit)) .pretty
  simp only [List.forall_mem_cons]
  exact ⟨Nat.zero_le 7, hdata, fun _ hp => absurd hp List.not_mem_nil⟩

section
variable {i : Invocation} {files : Files} {host : Log.Host} {s : Settings} {path : String}

theorem Failure.exitCode_answer (f : Failure) (r : Rendering) :
    (f.answer r).exitCode = f.exitCode := by
  cases r <;> rfl

/-- The exit code of a run, and what it says about the file, the build and the command. -/
theorem Invocation.exitCode_cases (hs : i.settings files = .ok s)
    (hlog : s.log.start host = .ok ()) (hpath : i.command.file? = some path) :
    ((i.run files host).exitCode = 0 ∧ ∃ d p, files.Holds path d ∧ (build .empty d).1 = .ok p ∧
        i.command.Works p) ∨
      ((i.run files host).exitCode = 1 ∧ ∃ d, files.Holds path d ∧
        ∀ p, (build .empty d).1 = .ok p → ¬ i.command.Works p) ∨
      ((i.run files host).exitCode = 2 ∧ ∀ d, ¬ files.Holds path d) := by
  have hcourse : i.command.Course files path (i.command.result files) := i.command.course hpath
  generalize hr : i.command.result files = result at hcourse
  cases hcourse with
  | @unread f hnone hf =>
    have hcode : (i.run files host).exitCode = 2 := by
      rw [run_of_error hs hlog hr, f.exitCode_answer, hf]
    exact .inr (.inr ⟨hcode, hnone⟩)
  | @unbuilt d report hd hb =>
    have hcode : (i.run files host).exitCode = 1 := by
      rw [run_of_error hs hlog hr, Failure.exitCode_answer]
      rfl
    exact .inr (.inl ⟨hcode, d, hd, fun p hp => by rw [hb] at hp; cases hp⟩)
  | @refused d p cause hd hb hw =>
    have hcode : (i.run files host).exitCode = 1 := by
      rw [run_of_error hs hlog hr, Failure.exitCode_answer]
      rfl
    refine .inr (.inl ⟨hcode, d, hd, fun p' hp' => ?_⟩)
    rw [hb] at hp'
    cases hp'
    exact hw
  | @done d p found hd hb hw _ =>
    obtain ⟨text, htext⟩ := found.exists_render s.rendering
    have hcode : (i.run files host).exitCode = 0 := by rw [run_of_ok hs hlog hr htext]
    exact .inl ⟨hcode, d, p, hd, hb, hw⟩

theorem Invocation.exitCode_iff (hs : i.settings files = .ok s)
    (hlog : s.log.start host = .ok ()) (hpath : i.command.file? = some path) :
    ((i.run files host).exitCode = 0 ↔ ∃ d p, files.Holds path d ∧ (build .empty d).1 = .ok p ∧
        i.command.Works p) ∧
      ((i.run files host).exitCode = 1 ↔ ∃ d, files.Holds path d ∧
        ∀ p, (build .empty d).1 = .ok p → ¬ i.command.Works p) ∧
      ((i.run files host).exitCode = 2 ↔ ∀ d, ¬ files.Holds path d) := by
  -- the three conditions exclude each other, as a file holds one definition at most
  rcases exitCode_cases hs hlog hpath with ⟨hcode, hok⟩ | ⟨hcode, hfails⟩ | ⟨hcode, hnone⟩
  · rw [hcode]
    refine ⟨iff_of_true rfl hok, iff_of_false (by decide) ?_, iff_of_false (by decide) ?_⟩ <;>
      obtain ⟨d, p, hd, hb, hw⟩ := hok
    · rintro ⟨d', hd', hnot⟩
      obtain rfl := hd.unique hd'
      exact hnot p hb hw
    · exact fun hnone => hnone d hd
  · rw [hcode]
    refine ⟨iff_of_false (by decide) ?_, iff_of_true rfl hfails, iff_of_false (by decide) ?_⟩ <;>
      obtain ⟨d, hd, hnot⟩ := hfails
    · rintro ⟨d', p, hd', hb, hw⟩
      obtain rfl := hd.unique hd'
      exact hnot p hb hw
    · exact fun hnone => hnone d hd
  · rw [hcode]
    refine ⟨iff_of_false (by decide) ?_, iff_of_false (by decide) ?_, iff_of_true rfl hnone⟩
    · rintro ⟨d, -, hd, -⟩
      exact hnone d hd
    · rintro ⟨d, hd, -⟩
      exact hnone d hd

theorem Invocation.output_json (hs : i.settings files = .ok s)
    (hlog : s.log.start host = .ok ()) (hpath : i.command.file? = some path)
    (hjson : s.rendering = .json) :
    ∃ members status, Shows (i.run files host).output members ∧
      members.lookup "status" = some (.string status) ∧
      (status = "ok" ↔ (i.run files host).exitCode = 0) ∧
      ∀ d report, files.Holds path d → (build .empty d).1 = .error report →
        members.lookup "errors" =
          some (.array (report.diagnostics.map fun x => .string x.message)) := by
  have hunbuilt : ∀ {d report}, files.Holds path d → (build .empty d).1 = .error report →
      i.command.result files = .error (.invalid report) := Command.result_of_unbuilt hpath
  cases hr : i.command.result files with
  | ok found =>
    have hne := Command.ne_schema_of_result hpath hr
    have htext : found.render s.rendering = .ok found.envelope.pretty :=
      hjson ▸ Command.Result.render_json hne
    have hshows := Command.Result.shows_envelope hne
    rw [run_of_ok hs hlog hr htext]
    refine ⟨_, "ok", hshows, rfl, by simp, fun d report hd hb => ?_⟩
    rw [hunbuilt hd hb] at hr
    cases hr
  | error f =>
    have hshows : Shows (f.answer .json).output _ := Failure.shows_answer rfl
    have hcode : f.exitCode ≠ 0 := by cases f <;> simp [Failure.exitCode]
    rw [run_of_error hs hlog hr, hjson]
    refine ⟨_, "error", hshows, rfl, ?_, fun d report hd hb => ?_⟩
    · simp [Failure.exitCode_answer, hcode]
    · rw [hunbuilt hd hb] at hr
      cases hr
      show some (Json.array ((report.diagnostics.map Diagnostic.message).map .string)) = _
      rw [List.map_map]
      rfl

/-- **Exit code, envelope and output agree.** A run that has its settings, whose log starts and
whose command reads a definition succeeds exactly if the file holds a definition that is built and
that the command works on; it has exit code 1 exactly if the build or the command fails, and 2
exactly if the file holds no definition. As JSON its output is one envelope, whose status is `ok`
exactly if the run succeeds and which lists what a report says in order. As text nothing is written
for a run that fails. -/
theorem exit_code_and_envelope_agree (hs : i.settings files = .ok s)
    (hlog : s.log.start host = .ok ()) (hpath : i.command.file? = some path) :
    ((i.run files host).exitCode = 0 ↔ ∃ d p, files.Holds path d ∧ (build .empty d).1 = .ok p ∧
        i.command.Works p) ∧
      ((i.run files host).exitCode = 1 ↔ ∃ d, files.Holds path d ∧
        ∀ p, (build .empty d).1 = .ok p → ¬ i.command.Works p) ∧
      ((i.run files host).exitCode = 2 ↔ ∀ d, ¬ files.Holds path d) ∧
      (s.rendering = .json → ∃ members status, Shows (i.run files host).output members ∧
        members.lookup "status" = some (.string status) ∧
        (status = "ok" ↔ (i.run files host).exitCode = 0) ∧
        ∀ d report, files.Holds path d → (build .empty d).1 = .error report →
          members.lookup "errors" =
            some (.array (report.diagnostics.map fun x => .string x.message))) ∧
      (s.rendering = .text → (i.run files host).exitCode ≠ 0 → (i.run files host).output = "") := by
  obtain ⟨hok, hfails, hunread⟩ := Invocation.exitCode_iff hs hlog hpath
  refine ⟨hok, hfails, hunread, Invocation.output_json hs hlog hpath, fun htext hcode => ?_⟩
  cases hr : i.command.result files with
  | ok found =>
    obtain ⟨text, hfound⟩ := found.exists_render s.rendering
    rw [Invocation.run_of_ok hs hlog hr hfound] at hcode
    exact absurd rfl hcode
  | error f =>
    rw [Invocation.run_of_error hs hlog hr, htext]
    rfl

end

/-- Files of which one holds a definition and no other is there. -/
def oneFile (path : String) (d : Definition) : Files :=
  fun other => if other = path then .text d.toText else .missing

/-- The layers of a pipeline are shown as JSON, and then a file is named that is not there. -/
theorem exit_code_and_envelope_agree_twoQueries :
    let files := oneFile "p.json" twoQueries
    let order : Invocation := ⟨.order "p.json", none, none, none, none, true⟩
    let cut : Invocation := ⟨.filter "q.json" ["a"] [], none, none, none, none, false⟩
    (order.run files .quiet).exitCode = 0 ∧
      (∃ members, Shows (order.run files .quiet).output members ∧
        members.lookup "status" = some (.string "ok")) ∧
      (cut.run files .quiet).exitCode = 2 ∧ (cut.run files .quiet).output = "" := by
  intro files order cut
  have hread : files.Holds "p.json" twoQueries := by
    have hdoubles : ∀ x ∈ twoQueries.doubles, x.RoundTrips := fun _ hx => absurd hx List.not_mem_nil
    have hdocument : document Definition.read twoQueries.toText = .ok twoQueries :=
      document_render (Definition.recovers hdoubles) (by decide) .pretty
    exact ⟨twoQueries.toText, rfl, by rw [Definition.ofText, hdocument]⟩
  have hworks : order.command.Works twoQueriesBuilt := ⟨⟨_, rfl⟩, _, rfl⟩
  have horder : order.settings files = .ok ⟨default, default, .json⟩ := rfl
  have hcut : cut.settings files = .ok ⟨default, default, .text⟩ := rfl
  have hlog : ∀ {s : Settings}, s.log.start .quiet = .ok () := rfl
  obtain ⟨hok, -, -, hjson, -⟩ := exit_code_and_envelope_agree horder hlog rfl
  obtain ⟨-, -, hunread, -, htext⟩ := exit_code_and_envelope_agree hcut hlog rfl
  have hzero : (order.run files .quiet).exitCode = 0 :=
    hok.2 ⟨_, _, hread, build_twoQueries, hworks⟩
  have htwo : (cut.run files .quiet).exitCode = 2 := by
    refine hunread.2 fun d hd => ?_
    obtain ⟨text, hfile, -⟩ := hd
    cases hfile
  obtain ⟨members, status, hshows, hstatus, hagree, -⟩ := hjson rfl
  refine ⟨hzero, ⟨members, hshows, ?_⟩, htwo, htext rfl ?_⟩
  · rw [hstatus, hagree.2 hzero]
  · rw [htwo]
    decide

end Dataflow
