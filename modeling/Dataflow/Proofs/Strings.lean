import Dataflow.Json.Printer
import Dataflow.Json.Token

/-! # Written strings are read back

Reading a string undoes writing it, whatever its characters: a quote, a backslash and the control
characters are escaped, and every escape stands for the character it was written for.

* `Token.dropBlank_append`: blank space before a token is passed over.
* `Token.stringTail_escaped`: one written character is read as that character.
* `Token.string_quoted`: a written string is read as that string.
-/

namespace Dataflow.Json

namespace Token

/-! ## Blank space -/

/-- A run of blank space. -/
def Blank (cs : List Char) : Prop := ∀ c ∈ cs, isBlank c = true

theorem Blank.nil : Blank [] := fun _ h => absurd h List.not_mem_nil

theorem dropBlank_append {blank : List Char} (hblank : Blank blank) {c : Char}
    (hc : isBlank c = false) (rest : List Char) :
    dropBlank (blank ++ c :: rest) = c :: rest := by
  unfold dropBlank
  rw [List.dropWhile_append_of_pos hblank, List.dropWhile_cons_of_neg (by simp [hc])]

theorem dropBlank_cons {c : Char} (hc : isBlank c = false) (rest : List Char) :
    dropBlank (c :: rest) = c :: rest :=
  dropBlank_append .nil hc rest

/-! ## Escapes -/

theorem hexValue?_digitChar {d : Nat} (h : d < 16) : hexValue? (Nat.digitChar d) = some d := by
  revert d
  decide

theorem unicodeEscape_control {c : Char} (h : c.toNat < 0x20) (rest : List Char) :
    unicodeEscape
      ('0' :: '0' :: Nat.digitChar (c.toNat / 16) :: Nat.digitChar (c.toNat % 16) :: rest) =
      .ok (c, rest) := by
  have high := hexValue?_digitChar (d := c.toNat / 16) (by omega)
  have low := hexValue?_digitChar (d := c.toNat % 16) (by omega)
  have zero : hexValue? '0' = some 0 := by decide
  have unit : hexEscape
      ('0' :: '0' :: Nat.digitChar (c.toNat / 16) :: Nat.digitChar (c.toNat % 16) :: rest) =
      .ok (c.toNat, rest) := by
    simp only [hexEscape, zero, high, low]
    congr 2
    omega
  have single : isTrailing c.toNat = false ∧ isLeading c.toNat = false := by
    simp only [isTrailing, isLeading, decide_eq_false_iff_not]
    omega
  simp [unicodeEscape, unit, single, Char.ofNat_toNat]

/-! ## Strings -/

theorem stringTail_slash (rest : List Char) :
    stringTail ('\\' :: rest) = (escape rest).andThen fun c after =>
      (stringTail after).andThen fun cs rest => .ok (c :: cs, rest) := by
  rw [stringTail]
  split
  · rename_i heq
    rw [heq]
    rfl
  · rename_i heq
    simp only [heq, Step.andThen_ok]

theorem stringTail_escape {rest after : List Char} {c : Char} (h : escape rest = .ok (c, after)) :
    stringTail ('\\' :: rest) = (stringTail after).andThen fun cs rest => .ok (c :: cs, rest) := by
  rw [stringTail_slash, h]
  rfl

theorem stringTail_plain {c : Char} (hquote : c ≠ '"') (hslash : c ≠ '\\')
    (hcontrol : ¬ c.toNat < 0x20) (rest : List Char) :
    stringTail (c :: rest) = (stringTail rest).andThen fun cs rest => .ok (c :: cs, rest) := by
  rw [stringTail]
  · exact if_neg hcontrol
  · exact hquote
  · exact hslash

/-- A written character is read as that character. -/
theorem stringTail_escaped (c : Char) (rest : List Char) :
    stringTail (escaped c ++ rest) =
      (stringTail rest).andThen fun cs rest => .ok (c :: cs, rest) := by
  unfold escaped
  -- the two-character escapes: quote, backslash and five control characters
  iterate 7
    split
    · subst c
      exact stringTail_escape rfl
  split
  · rename_i hcontrol
    exact stringTail_escape (unicodeEscape_control hcontrol rest)
  · rename_i hquote hslash _ _ _ _ _ hcontrol
    exact stringTail_plain hquote hslash hcontrol rest

theorem stringTail_escapedAll (cs rest : List Char) :
    stringTail (escapedAll cs ++ '"' :: rest) = .ok (cs, rest) := by
  induction cs with
  | nil => rw [escapedAll, List.nil_append, stringTail]
  | cons c cs ih =>
    rw [escapedAll, List.append_assoc, stringTail_escaped, ih]
    rfl

end Token

theorem quoted_append (s : String) (rest : List Char) :
    quoted s ++ rest = '"' :: (escapedAll s.toList ++ '"' :: rest) := by
  simp [quoted]

/-- **A written string**, read from behind its opening quote, is that string. -/
theorem Token.string_quoted (s : String) (rest : List Char) :
    Token.string (escapedAll s.toList ++ '"' :: rest) = .ok (s, rest) := by
  rw [Token.string, Token.stringTail_escapedAll]
  simp

end Dataflow.Json
