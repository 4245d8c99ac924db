import Dataflow.Value

/-! # Contexts

A context groups nodes: it has a type such as `pipeline` or `run`, and a name that is any value.

* `Context.text`: `type=name`.
* `Context.covers`: whether declared contexts include every context that is asked for.
* `Context.Instance`: a context that is stored once and shared by all who have it.
-/

namespace Dataflow

/-- A named grouping of nodes. -/
structure Context where
  type : String
  name : Value
deriving DecidableEq

namespace Context

/-- A stored context. Who has the context refers to it and does not copy it, so there can be several
instances of equal contexts. -/
structure Instance where
  /-- Where it is stored; two stored contexts never share a slot. -/
  slot : Nat
  value : Context
deriving DecidableEq

/-- Whether two references lead to one instance. What is stored there is not compared. -/
def Instance.same (a b : Instance) : Bool :=
  a.slot = b.slot

/-- A context as it is displayed. -/
def text (c : Context) : String :=
  c.type ++ "=" ++ c.name.text

/-- Whether every asked context is declared, by type and name. -/
def covers (declared asked : List Context) : Bool :=
  asked.all fun c => declared.contains c

/-- The texts of several contexts with a comma between them. -/
def texts (cs : List Context) : String :=
  ", ".intercalate (cs.map text)

theorem covers_iff {declared asked : List Context} :
    covers declared asked = true ↔ ∀ c ∈ asked, c ∈ declared := by
  simp [covers]

end Context

end Dataflow
