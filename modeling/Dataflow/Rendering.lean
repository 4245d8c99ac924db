/-! # Renderings

How results and failures are shown: as lines of text, or as one JSON envelope.
-/

namespace Dataflow

/-- How results are shown. -/
inductive Rendering
  | text
  | json
deriving DecidableEq

instance : Inhabited Rendering := ⟨.text⟩

namespace Rendering

/-- The name in options and settings files. -/
def name : Rendering → String
  | .text => "text"
  | .json => "json"

/-- Every rendering, in the order the messages list them. -/
def all : List Rendering := [.text, .json]

end Rendering

end Dataflow
