import Dataflow.Program

/-! # The program

Reads the files that a command line names, runs it on them and writes the answer. Nothing is logged.
-/

open Dataflow

/-- The file as the program sees it: text, absent, or there but not readable as text. -/
def fileState (path : String) : IO FileState := do
  try
    let bytes ← IO.FS.readBinFile path
    return (String.fromUTF8? bytes).elim .unreadable .text
  catch e =>
    match e with
    | .noFileOrDirectory .. => return .missing
    | .inappropriateType .. => return .missing
    | _ => return .unreadable

/-- The files that a command line can make a run look at. -/
def pathsOf (environment : Option String) (tokens : List String) : List String :=
  match Invocation.ofTokens environment tokens with
  | .error _ => []
  | .ok i => i.config.getD Settings.defaultPath :: i.command.file?.toList

/-- Reads the files the arguments name, runs the program on them and prints its answer. -/
def main (tokens : List String) : IO UInt32 := do
  let environment ← IO.getEnv "PIPELINE_IR_CONFIG"
  let seen ← (pathsOf environment tokens).mapM fun path => return (path, ← fileState path)
  let answer := run (fun path => (seen.lookup path).getD .missing) .quiet environment tokens
  IO.print answer.output
  IO.eprint answer.notice
  return answer.exitCode.toUInt32
