/-! # Logging

How much is logged and in which layout. What is logged goes to a stream of its own and is no part
of any result.

* `Log.Level`, `Log.Layout`: the choices, by name.
* `Log.directive`: the filter that lets a level through for every part of the program.
* `Log.start`: starts logging on a host, or says why it cannot be started.
-/

namespace Dataflow

namespace Log

/-- The least weight of messages that are logged. -/
inductive Level
  | trace
  | debug
  | info
  | warn
  | error
deriving DecidableEq

instance : Inhabited Level := ⟨.warn⟩

namespace Level

/-- The name in options and settings files. -/
def name : Level → String
  | .trace => "trace"
  | .debug => "debug"
  | .info => "info"
  | .warn => "warn"
  | .error => "error"

/-- The name on a log line. -/
def label (l : Level) : String :=
  l.name.toUpper

/-- Every level, from the lightest weight up. -/
def all : List Level := [.trace, .debug, .info, .warn, .error]

/-- The level a word names. -/
def ofName? (name : String) : Option Level :=
  all.find? fun l => l.name = name

end Level

/-- The layout of logged messages. -/
inductive Layout
  | pretty
  | compact
  | json
deriving DecidableEq

instance : Inhabited Layout := ⟨.compact⟩

namespace Layout

/-- The name in options and settings files. -/
def name : Layout → String
  | .pretty => "pretty"
  | .compact => "compact"
  | .json => "json"

/-- Every layout, in the order the messages list them. -/
def all : List Layout := [.pretty, .compact, .json]

/-- The layout with a name, in letters of either case, or the message that there is none. The
names hold no letter that a character beyond ASCII becomes in lower case. -/
def ofText (text : String) : Except String Layout :=
  match all.find? fun l => l.name = text.toLower with
  | some l => .ok l
  | none => .error s!"Unknown tracing format: {text}"

end Layout

/-- The parts of the program whose messages a level applies to. -/
def parts : List String := ["pipeline_ir", "pipeline_ir_graph", "pipeline_ir_cli"]

/-- The filter that lets a level through for every part of the program. -/
def directive (l : Level) : String :=
  ",".intercalate (parts.map fun part => s!"{part}={l.name}")

end Log

/-- How messages are logged. -/
structure Log where
  layout : Log.Layout
  level : Log.Level
  /-- A filter that takes the place of the one for the level. -/
  filter : Option String
deriving DecidableEq

instance : Inhabited Log := ⟨⟨default, default, none⟩⟩

namespace Log

/-- What logging finds when it starts. -/
structure Host where
  /-- Reads a filter, or says why it is none. -/
  readFilter : String → Except String Unit
  /-- The filter that the environment names. -/
  named : Option String
  /-- Sends messages to their stream, or says why they cannot be sent. -/
  attach : Layout → Except String Unit

/-- A host that takes every filter and drops what is logged. -/
def Host.quiet : Host :=
  ⟨fun _ => .ok (), none, fun _ => .ok ()⟩

/-- Reads the filter of a log. If it has none, the environment may name one that can be read;
otherwise it is the one for the level. -/
def readFilter (h : Host) (l : Log) : Except String Unit :=
  match l.filter with
  | some filter => h.readFilter filter
  | none =>
    match h.named.map h.readFilter with
    | some (.ok ()) => .ok ()
    | _ => h.readFilter (directive l.level)

/-- Starts logging, or says why it cannot be started. -/
def start (h : Host) (l : Log) : Except String Unit :=
  match l.readFilter h with
  | .ok () => h.attach l.layout
  | .error reason => .error s!"Failed to create tracing filter: {reason}"

end Log

end Dataflow
