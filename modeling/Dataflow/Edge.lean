import Dataflow.Node

/-! # Edges

An edge joins an output of a producer to an input of a consumer; it stands for the query that
resolved to that producer.
-/

namespace Dataflow

/-- A resolved channel. -/
structure Edge where
  producer : String
  output : String
  consumer : String
  input : String
  channel : Query
deriving DecidableEq

namespace Edge

/-- The edge as the commands print it. -/
def text (e : Edge) : String :=
  s!"{e.producer}.{e.output} -> {e.consumer}.{e.input}"

/-- The four names that identify an edge: no two edges of a pipeline share them. -/
def ends (e : Edge) : String × String × String × String :=
  (e.producer, e.output, e.consumer, e.input)

/-- Appends an edge, unless one that joins the same ends is there. -/
def add (edges : List Edge) (e : Edge) : List Edge :=
  if edges.any fun other => other.ends = e.ends then edges else edges ++ [e]

end Edge

end Dataflow
