import Dataflow.Command
import Dataflow.Settings.Document

/-! # Invocations

What a command line asks for: a command, and choices that go before those of the settings file.

* `Invocation.requested`: the rendering that is asked for.
* `Invocation.settings`: the settings of a run, or the failure to load them.
* `Usage`: why a command line asks for nothing that can be run.
-/

namespace Dataflow

/-- What a command line asks for. -/
structure Invocation where
  command : Command
  config : Option String
  level : Option Log.Level
  layout : Option Log.Layout
  rendering : Option Rendering
  /-- Whether JSON is asked for, whatever `rendering` says. -/
  json : Bool
deriving DecidableEq

namespace Invocation

/-- The rendering the command line asks for: `--json` decides over `--output`. -/
def requested (i : Invocation) : Option Rendering :=
  if i.json then some .json else i.rendering

/-- Puts the choices of an invocation in the place of those of the settings. -/
def override (i : Invocation) (s : Settings) : Settings :=
  s.override i.level i.layout i.requested

end Invocation

/-! ## Loading settings -/

/-- The settings file that is used if it is there and no other is named. -/
def Settings.defaultPath : String := "pipeline-ir.toml"

/-- Reads and decodes a settings file. -/
def Settings.read (files : Files) (path : String) : Except Failure Settings := do
  let content ← files.read .settings path
  (Settings.ofText content).mapError (.settings path content)

/-- The settings in a file that is named, or in `fallback` if that is there. -/
def Settings.load (files : Files) (named : Option String) (fallback : String) :
    Except Failure Settings :=
  match named with
  | some path => read files path
  | none =>
    match files fallback with
    | .missing => .ok default
    | _ => read files fallback

/-- The file's settings, or the defaults, with the command line's choices on top. -/
def Invocation.settings (i : Invocation) (files : Files) : Except Failure Settings :=
  (Settings.load files i.config Settings.defaultPath).map i.override

/-! ## Usage -/

/-- Why a command line asks for nothing that can be run. -/
inductive Usage
  | help
  | version
  | nothing
  | missingCommand
  | unknownCommand
  /-- There is no option of a name, or no place for an operand. -/
  | unknownArgument
  /-- An option has no value, or one that it does not take. -/
  | badValue
  | repeated
  | unexpectedValue
  | missingFile
deriving DecidableEq

/-- The exit code of a command line that asks for nothing that can be run. -/
def Usage.exitCode : Usage → Nat
  | .help => 0
  | .version => 0
  | _ => 2

end Dataflow
