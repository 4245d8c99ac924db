/-! # Lists of alternatives

The names that would have been accepted, as error messages list them.
-/

namespace Dataflow.Text

/-- A name as it stands in a message. -/
def ticked (name : String) : String :=
  s!"`{name}`"

/-- The alternatives: one alone, two with `or`, more as a list. -/
def oneOf : List String → String
  | [a] => ticked a
  | [a, b] => s!"{ticked a} or {ticked b}"
  | names => "one of " ++ ", ".intercalate (names.map ticked)

end Dataflow.Text
