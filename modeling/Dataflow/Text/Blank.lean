/-! # Blank text

White space as Unicode's property `White_Space` has it, and texts that hold nothing else.

* `Text.isBlank`: the characters with the property.
* `Text.allBlank`: whether trimming white space at both ends leaves nothing.
-/

namespace Dataflow.Text

/-- The characters with the Unicode property `White_Space`. -/
def isBlank (c : Char) : Bool :=
  let n := c.toNat
  (9 ≤ n ∧ n ≤ 13) ∨ n = 0x20 ∨ n = 0x85 ∨ n = 0xA0 ∨ n = 0x1680 ∨ (0x2000 ≤ n ∧ n ≤ 0x200A) ∨
    n = 0x2028 ∨ n = 0x2029 ∨ n = 0x202F ∨ n = 0x205F ∨ n = 0x3000

/-- Whether a text has nothing but white space, so that it names nothing. -/
def allBlank (text : String) : Bool :=
  text.toList.all isBlank

end Dataflow.Text
