import Dataflow.Context

/-! # Interning contexts

An `Interner` keeps one instance of every context it has been shown, in the order of first sight,
with an index from each context to its slot in that list.

* `Interner.intern`: the stored instance of a context, stored now if it is new.
* `Interner.internAll`: the same for a list, whose repeats are dropped.
-/

namespace Dataflow

/-- Instances of distinct contexts in the order of first sight, with the slot of each. -/
structure Interner where
  instances : List Context.Instance
  index : List (Context × Nat)
deriving DecidableEq

namespace Interner

/-- The interner that has been shown nothing. -/
def empty : Interner := ⟨[], []⟩

instance : EmptyCollection Interner := ⟨empty⟩

/-- The contexts that are stored. -/
def contexts (i : Interner) : List Context :=
  i.instances.map (·.value)

/-- Where the index says that a context is stored. -/
def slot? (i : Interner) (c : Context) : Option Nat :=
  i.index.lookup c

/-- A new instance of a context, behind all that are stored. -/
def create (i : Interner) (c : Context) : Context.Instance :=
  ⟨i.instances.length, c⟩

/-- Stores a new instance of a context, whether or not there is one. -/
def push (i : Interner) (c : Context) : Interner :=
  ⟨i.instances ++ [i.create c], (c, i.instances.length) :: i.index⟩

/-- The stored instance of a context, which is stored now if the index has none. -/
def intern (i : Interner) (c : Context) : Context.Instance × Interner :=
  match i.slot? c with
  | some slot => (i.instances[slot]?.getD (i.create c), i)
  | none => (i.create c, i.push c)

/-- Interns the contexts that are not in `seen`, in order; `seen` grows as it goes. -/
def internUnseen (i : Interner) (seen : List Context) :
    List Context → List Context.Instance × Interner
  | [] => ([], i)
  | c :: rest =>
    if seen.contains c then i.internUnseen seen rest
    else
      let (stored, i) := i.intern c
      let (others, i) := i.internUnseen (c :: seen) rest
      (stored :: others, i)

/-- Interns a list in order, passing over the contexts it repeats. -/
def internAll (i : Interner) (cs : List Context) : List Context.Instance × Interner :=
  i.internUnseen [] cs

end Interner

end Dataflow
