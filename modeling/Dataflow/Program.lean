import Dataflow.Invocation.Reader

/-! # Runs of the program

A run reads its settings, starts logging, executes its command and answers with an exit code and
with what it writes to standard output. Results go there in either rendering; a failure goes there
only as an envelope, and otherwise it is left to the error stream.

* `Invocation.run`: the answer to an invocation.
* `run`: the answer to a command line.
-/

namespace Dataflow

/-- The answer of a run. -/
structure Answer where
  exitCode : Nat
  output : String
  notice : String
deriving DecidableEq

/-- A failure as it is told on the error stream. -/
def Failure.notice (f : Failure) : String :=
  let advice := match f.help with
    | some help => [s!"help: {help}"]
    | none => []
  "".intercalate <| ((s!"error: {f.message} [{f.code}]" :: f.related ++ advice).map (· ++ "\n"))

/-- The answer of a run that fails. -/
def Failure.answer (f : Failure) : Rendering → Answer
  | .json =>
    match f.envelope.print .compact with
    | .ok text => ⟨f.exitCode, text ++ "\n", ""⟩
    | .error _ => ⟨f.exitCode, "", "Error serializing error response\n"⟩
  | .text => ⟨f.exitCode, "", f.notice⟩

namespace Invocation

/-- What an invocation asks for is done. A failure to load the settings is shown in the rendering
that the command line asks for, every other one in that of the settings. -/
def run (i : Invocation) (files : Files) (host : Log.Host) : Answer :=
  match i.settings files with
  | .error f => f.answer (i.requested.getD .text)
  | .ok s =>
    match s.log.start host with
    | .error reason => (Failure.logging reason).answer s.rendering
    | .ok () =>
      match i.command.execute files s.rendering with
      | .error f => f.answer s.rendering
      | .ok text => ⟨0, text ++ "\n", ""⟩

end Invocation

/-- What `--version` prints. -/
def programVersion : String := "pipeline-ir 0.4.0"

/-- What `--help` prints. -/
def synopsis : String :=
  "Validate, resolve and inspect pipeline definitions\n\n" ++
  "Usage: pipeline-ir [OPTIONS] <COMMAND>\n\n" ++
  "Commands:\n" ++
  "  validate <FILE>  Report every validation error of a definition\n" ++
  "  edges <FILE>     Print the resolved edges\n" ++
  "  order <FILE>     Print the topological order and the layers\n" ++
  "  filter <FILE>    Cut the pipeline between --from and --to\n" ++
  "  schema           Print the JSON Schema of definitions\n\n" ++
  "Options:\n" ++
  "  --config <FILE>  -l, --level <LEVEL>  --log-format <FORMAT>\n" ++
  "  -o, --output <FORMAT>  --json  -h, --help  -V, --version\n"

/-- What is said about a command line that asks for nothing that can be run. -/
def Usage.message : Usage → String
  | .help => synopsis
  | .version => programVersion ++ "\n"
  | .nothing => synopsis
  | .missingCommand => "error: a command is required\n"
  | .unknownCommand => "error: there is no such command\n"
  | .unknownArgument => "error: unexpected argument\n"
  | .badValue => "error: a value is missing or invalid\n"
  | .repeated => "error: an option cannot be given more than once\n"
  | .unexpectedValue => "error: a flag takes no value\n"
  | .missingFile => "error: a definition file is required\n"

/-- The answer to a command line that asks for nothing that can be run. -/
def Usage.answer (u : Usage) : Answer :=
  if u.exitCode = 0 then ⟨0, u.message, ""⟩ else ⟨u.exitCode, "", u.message⟩

/-- The answer to a command line; `environment` is the settings file that the environment names. -/
def run (files : Files) (host : Log.Host) (environment : Option String) (tokens : List String) :
    Answer :=
  match Invocation.ofTokens environment tokens with
  | .ok i => i.run files host
  | .error u => u.answer

end Dataflow
