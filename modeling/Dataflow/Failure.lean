import Dataflow.Json.Printer
import Dataflow.Settings
import Dataflow.Diagnostic

/-! # Failures

Why a run of the program fails, with the exit code and the envelope that go with it.

* `Failure.message`, `Failure.code`, `Failure.help`, `Failure.related`: what is said about it.
* `Failure.exitCode`: 1 if a definition was read and is at fault, 2 otherwise.
* `Failure.envelope`: the failure as one JSON object.
-/

namespace Dataflow

/-- What a file is read for. -/
inductive Purpose
  | definition
  | settings
deriving DecidableEq

/-- What the program was about to do with the file. -/
def Purpose.text : Purpose → String
  | .definition => "read definition"
  | .settings => "read config file"

/-- Why a run fails. -/
inductive Failure
  | file (purpose : Purpose) (path : String)
  | settings (path document : String) (fault : Settings.Fault)
  | definition (path : String) (cause : Diagnostic)
  | invalid (report : Report)
  | graph (cause : Diagnostic)
  | output (reason : String)
  | logging (reason : String)

namespace Failure

/-- The wording of the failure; `related` has the wordings that belong under it. -/
def message : Failure → String
  | .file purpose path => s!"Failed to {purpose.text} '{path}'"
  | .settings path _ fault => s!"Invalid config file '{path}': {fault.message}"
  | .definition path _ => s!"Failed to decode pipeline definition '{path}'"
  | .invalid report => report.message
  | .graph cause => cause.message
  | .output reason => s!"Failed to render output: {reason}"
  | .logging reason => s!"Tracing initialization failed: {reason}"

/-- The code of the failure, which for a graph or a failed build is the one they have. -/
def code : Failure → String
  | .file .. => "pipeline_ir::cli::file"
  | .settings .. => "pipeline_ir::cli::config"
  | .definition .. => "pipeline_ir::cli::definition"
  | .invalid _ => Report.code
  | .graph cause => cause.code
  | .output _ => "pipeline_ir::cli::output"
  | .logging _ => "pipeline_ir::cli::tracing"

/-- The advice that some failures come with. -/
def help : Failure → Option String
  | .file .. => some "Check file permissions and ensure the path exists"
  | .definition .. =>
    some "Definitions are JSON documents; run `pipeline-ir schema` for the format"
  | .graph cause => cause.help
  | .logging _ => some "Check RUST_LOG and the configured log level"
  | _ => none

/-- The wordings of the diagnostics that a failure gathers. -/
def related : Failure → List String
  | .invalid report => report.diagnostics.map Diagnostic.message
  | _ => []

/-- One if a definition was read and its graph is at fault, two for every other failure. -/
def exitCode : Failure → Nat
  | .invalid _ => 1
  | .graph _ => 1
  | _ => 2

/-- The failure as the JSON rendering prints it. -/
def envelope (f : Failure) : Json :=
  .object [
    ("status", .string "error"),
    ("code", .string f.code),
    ("message", .string f.message),
    ("errors", .array (f.related.map .string))]

end Failure

end Dataflow
