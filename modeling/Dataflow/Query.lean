import Dataflow.Context

/-! # Queries

A query describes the producer of a channel: an output key with an artifact type, on a node that
carries certain contexts and perhaps has a certain id.
-/

namespace Dataflow

/-- What an input asks of its producer. -/
structure Query where
  producer : Option String
  contexts : List Context
  type : String
  output : String
deriving DecidableEq

/-- A query in messages, with a star for a producer that is not named. -/
def Query.text (q : Query) : String :=
  let producer := q.producer.getD "*"
  let contexts := match q.contexts with
    | [] => ""
    | cs => s!" with contexts [{Context.texts cs}]"
  s!"'{producer}.{q.output}' of type '{q.type}'{contexts}"

end Dataflow
