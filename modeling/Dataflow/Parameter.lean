import Dataflow.Diagnostic
import Dataflow.Text.Blank

/-! # Runtime parameters

A parameter has a name, a kind, and perhaps a default value, which must be of that kind.

* `Parameter.problem?`: what is wrong with one parameter.
* `Parameter.problems`: what is wrong with a list of them, repeated names included.
-/

namespace Dataflow

/-- A named, typed parameter that is bound at run time. -/
structure Parameter where
  name : String
  kind : Kind
  default : Option Value
deriving DecidableEq

namespace Parameter

/-- The diagnostic of a blank name, or else of a default of another kind. -/
def problem? (p : Parameter) : Option Diagnostic :=
  if Text.allBlank p.name then some (.badParameter p.name "name must not be empty")
  else
    match p.default with
    | some value =>
      if value.kind = p.kind then none
      else
        some <| .badParameter p.name
          s!"default value is {value.kind.name} but parameter is declared {p.kind.name}"
    | none => none

/-- The diagnostic of a name that an earlier parameter has. -/
def repeated (p : Parameter) : Diagnostic :=
  .badParameter p.name "declared more than once"

/-- The diagnostics of parameters after those with the names in `seen`. -/
def problemsAfter (seen : List String) : List Parameter → List Diagnostic
  | [] => []
  | p :: rest =>
    p.problem?.toList ++ (if seen.contains p.name then [p.repeated] else []) ++
      problemsAfter (p.name :: seen) rest

/-- The diagnostics of a list of declarations, in their order. -/
def problems (ps : List Parameter) : List Diagnostic :=
  problemsAfter [] ps

end Parameter

end Dataflow
