import Dataflow.Log
import Dataflow.Rendering
import Dataflow.Text.OneOf
import Dataflow.Toml

/-! # Settings

What a settings file and the command line can choose: how much is logged, in which layout, and how
results are shown.

* `Settings.override`: choices of the command line go before those of the file.
* `Settings.Fault`: why a settings file is refused.
-/

namespace Dataflow

/-- The settings of one run. -/
structure Settings where
  level : Log.Level
  layout : Log.Layout
  rendering : Rendering
deriving DecidableEq

instance : Inhabited Settings := ⟨⟨default, default, default⟩⟩

namespace Settings

/-- Puts choices that were made in the place of those of the settings. -/
def override (s : Settings) (level : Option Log.Level) (layout : Option Log.Layout)
    (rendering : Option Rendering) : Settings :=
  ⟨level.getD s.level, layout.getD s.layout, rendering.getD s.rendering⟩

/-- What the settings say about logging; they have no filter of their own. -/
def log (s : Settings) : Log :=
  ⟨s.layout, s.level, none⟩

/-- Why a settings file is refused. -/
inductive Fault
  | malformed
  | unknownKey (key : String) (known : List String) (span : Toml.Span)
  /-- A setting has a value that is not one of its names. -/
  | unknownName (name : String) (known : List String) (span : Toml.Span)
  /-- A setting has a value that is neither a string nor a table. -/
  | notName
  | emptyTable
  | crowdedTable
  /-- A setting has a table that holds something under its key. -/
  | filledTable
deriving DecidableEq

namespace Fault

/-- The text of the fault, which the reader puts behind the name of the file. -/
def message : Fault → String
  | .malformed => "malformed document"
  | .unknownKey key known _ => s!"unknown field `{key}`, expected {Text.oneOf known}"
  | .unknownName name known _ => s!"unknown variant `{name}`, expected {Text.oneOf known}"
  | .notName => "wanted string or table"
  | .emptyTable => "wanted exactly 1 element, found 0 elements"
  | .crowdedTable => "wanted exactly 1 element, more than 1 element"
  | .filledTable => "expected empty table"

/-- The text the fault points at, for the faults about a single name. -/
def span? : Fault → Option Toml.Span
  | .unknownKey _ _ span => some span
  | .unknownName _ _ span => some span
  | _ => none

end Fault

end Settings

end Dataflow
