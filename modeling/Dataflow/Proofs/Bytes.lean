import Dataflow.KeyMap
import Mathlib.Algebra.Ring.Nat

/-!
# Strings are ordered like their bytes

Strings are compared by code points, character by character. As the code of a greater code point is
greater, whatever follows (`Precedes`), this is the order of their bytes in UTF-8
(`lt_iff_bytes_lt`).

* `bytes`: the bytes of a string.
* `code`: a code point as a leading byte and continuation bytes.
-/

namespace Dataflow.Text

/-! ## Bytes that decide an order -/

/-- The first bytes come before the second ones, whatever follows them. -/
def Precedes (u v : List UInt8) : Prop :=
  ∀ x y, u ++ x < v ++ y

theorem Precedes.of_head {a b : UInt8} (h : a < b) (u v : List UInt8) :
    Precedes (a :: u) (b :: v) :=
  fun _ _ => List.cons_lt_cons_iff.2 (.inl h)

theorem Precedes.concat {u v : List UInt8} (h : Precedes u v) (a b : UInt8) :
    Precedes (u ++ [a]) (v ++ [b]) := by
  intro x y
  rw [List.append_assoc, List.append_assoc]
  exact h _ _

theorem Precedes.of_last (u : List UInt8) {a b : UInt8} (h : a < b) :
    Precedes (u ++ [a]) (u ++ [b]) := by
  intro x y
  rw [List.append_assoc, List.append_assoc]
  exact List.append_left_lt (List.cons_lt_cons_iff.2 (.inl h))

/-! ## The code of a character -/

/-- The code of a code point: a leading byte, which a mark is added to, and continuation bytes. -/
def code (mark : Nat) : Nat → Nat → List UInt8
  | 0, v => [.ofNat (v + mark)]
  | k + 1, v => code mark k (v / 64) ++ [.ofNat (v % 64 + 128)]

theorem ofNat_lt_ofNat {a b : Nat} (h : a < b) (hb : b < 256) : UInt8.ofNat a < UInt8.ofNat b := by
  have ha : a < 256 := Nat.lt_trans h hb
  rwa [UInt8.lt_iff_toNat_lt, UInt8.toNat_ofNat_of_lt' ha, UInt8.toNat_ofNat_of_lt' hb]

theorem code_eq_cons (mark k v : Nat) :
    ∃ rest, code mark k v = UInt8.ofNat (v / 64 ^ k + mark) :: rest := by
  induction k generalizing v with
  | zero => exact ⟨[], by rw [code, Nat.pow_zero, Nat.div_one]⟩
  | succ k ih =>
    obtain ⟨rest, hrest⟩ := ih (v / 64)
    refine ⟨rest ++ [.ofNat (v % 64 + 128)], ?_⟩
    rw [code, hrest, Nat.div_div_eq_div_mul, ← Nat.pow_succ']
    rfl

theorem code_precedes {mark k m n : Nat} (h : m < n) (hn : n / 64 ^ k + mark < 256) :
    Precedes (code mark k m) (code mark k n) := by
  induction k generalizing m n with
  | zero =>
    rw [Nat.pow_zero, Nat.div_one] at hn
    exact .of_head (ofNat_lt_ofNat (Nat.add_lt_add_right h mark) hn) [] []
  | succ k ih =>
    rw [Nat.pow_succ', ← Nat.div_div_eq_div_mul] at hn
    rw [code, code]
    -- all but the last six bits decide the order, or else these do
    rcases Nat.lt_or_eq_of_le (Nat.div_le_div_right (c := 64) (Nat.le_of_lt h)) with hlt | heq
    · exact (ih hlt hn).concat _ _
    · rw [heq]
      exact .of_last _ (ofNat_lt_ofNat (by omega) (by omega))

/-- Of two codes of any length, the one with the greater leading byte is greater. -/
theorem code_precedes_of_lead {mark mark' k k' m n : Nat}
    (h : m / 64 ^ k + mark < n / 64 ^ k' + mark') (hn : n / 64 ^ k' + mark' < 256) :
    Precedes (code mark k m) (code mark' k' n) := by
  obtain ⟨rest, hrest⟩ := code_eq_cons mark k m
  obtain ⟨rest', hrest'⟩ := code_eq_cons mark' k' n
  rw [hrest, hrest']
  exact .of_head (ofNat_lt_ofNat h hn) rest rest'

/-- How many continuation bytes a code point takes. -/
def continuations (v : Nat) : Nat :=
  if v ≤ 127 then 0 else if v ≤ 2047 then 1 else if v ≤ 65535 then 2 else 3

/-- The mark of a leading byte that continuation bytes follow. -/
def markOf : Nat → Nat
  | 0 => 0
  | 1 => 192
  | 2 => 224
  | _ => 240

theorem continuations_cases (v : Nat) :
    v ≤ 127 ∧ continuations v = 0 ∨ (127 < v ∧ v ≤ 2047) ∧ continuations v = 1 ∨
      (2047 < v ∧ v ≤ 65535) ∧ continuations v = 2 ∨ 65535 < v ∧ continuations v = 3 := by
  unfold continuations
  split
  · omega
  · split
    · omega
    · split <;> omega

/-- The leading byte, mark included. -/
def lead (v : Nat) : Nat :=
  v / 64 ^ continuations v + markOf (continuations v)

theorem lead_lt_of_ne {m n : Nat} (h : m < n) (hne : continuations m ≠ continuations n) :
    lead m < lead n := by
  unfold lead
  rcases continuations_cases m with ⟨hm, hk⟩ | ⟨hm, hk⟩ | ⟨hm, hk⟩ | ⟨hm, hk⟩ <;>
    rcases continuations_cases n with ⟨hn, hk'⟩ | ⟨hn, hk'⟩ | ⟨hn, hk'⟩ | ⟨hn, hk'⟩ <;>
    simp only [hk, hk', markOf] at hne ⊢ <;> omega

theorem lead_lt {v : Nat} (h : v < 1114112) : lead v < 256 := by
  unfold lead
  rcases continuations_cases v with ⟨hv, hk⟩ | ⟨hv, hk⟩ | ⟨hv, hk⟩ | ⟨hv, hk⟩ <;>
    simp only [hk, markOf] <;> omega

theorem toNat_lt (c : Char) : c.toNat < 1114112 := by
  rcases c.valid with h | h
  · exact Nat.lt_trans h (by decide)
  · exact h.2

theorem utf8EncodeChar_eq (c : Char) : String.utf8EncodeChar c =
    code (markOf (continuations c.toNat)) (continuations c.toNat) c.toNat := by
  have hc := toNat_lt c
  simp only [String.utf8EncodeChar, Char.toNat] at hc ⊢
  generalize c.val.toNat = v at hc ⊢
  have htwo : v / 4096 = v / 64 / 64 := (Nat.div_div_eq_div_mul v 64 64).symm
  have hthree : v / 262144 = v / 64 / 64 / 64 := by
    rw [Nat.div_div_eq_div_mul, Nat.div_div_eq_div_mul]
  rcases continuations_cases v with ⟨hv, hk⟩ | ⟨hv, hk⟩ | ⟨hv, hk⟩ | ⟨hv, hk⟩
  · rw [hk, if_pos hv]
    rfl
  · have hlead : v / 64 % 32 = v / 64 := Nat.mod_eq_of_lt (by omega)
    rw [hk, if_neg (by omega), if_pos hv.2, hlead]
    rfl
  · have hlead : v / 4096 % 16 = v / 4096 := Nat.mod_eq_of_lt (by omega)
    rw [hk, if_neg (by omega), if_neg (by omega), if_pos hv.2, hlead, htwo]
    rfl
  · have hlead : v / 262144 % 8 = v / 262144 := Nat.mod_eq_of_lt (by omega)
    rw [hk, if_neg (by omega), if_neg (by omega), if_neg (by omega), hlead, hthree, htwo]
    rfl

/-- The code of a greater character is greater, whatever follows. -/
theorem encode_precedes {c d : Char} (h : c < d) :
    Precedes (String.utf8EncodeChar c) (String.utf8EncodeChar d) := by
  have hd := lead_lt (toNat_lt d)
  rw [utf8EncodeChar_eq, utf8EncodeChar_eq]
  by_cases hlength : continuations c.toNat = continuations d.toNat
  · rw [hlength]
    exact code_precedes h hd
  · exact code_precedes_of_lead (lead_lt_of_ne h hlength) hd

/-! ## Strings -/

/-- The bytes of a string in UTF-8. -/
def bytes (s : String) : List UInt8 :=
  s.toUTF8.data.toList

theorem bytes_eq (s : String) : bytes s = s.toList.flatMap String.utf8EncodeChar := by
  rw [bytes, String.toUTF8_eq_toByteArray, ← String.utf8Encode_toList, List.utf8Encode,
    List.data_toByteArray]

theorem flatMap_encode_lt {l l' : List Char} (h : l < l') :
    l.flatMap String.utf8EncodeChar < l'.flatMap String.utf8EncodeChar := by
  induction l generalizing l' with
  | nil =>
    cases l' with
    | nil => exact absurd h (List.lt_irrefl _)
    | cons d l' =>
      obtain ⟨rest, hrest⟩ := code_eq_cons (markOf (continuations d.toNat))
        (continuations d.toNat) d.toNat
      rw [List.flatMap_cons, utf8EncodeChar_eq, hrest]
      exact List.nil_lt_cons _ _
  | cons c l ih =>
    cases l' with
    | nil => exact absurd h (List.not_lt_nil _)
    | cons d l' =>
      rw [List.flatMap_cons, List.flatMap_cons]
      rcases List.cons_lt_cons_iff.1 h with hlt | ⟨rfl, hlt⟩
      · exact encode_precedes hlt _ _
      · exact List.append_left_lt (ih hlt)

theorem bytes_lt {s t : String} (h : s < t) : bytes s < bytes t := by
  rw [bytes_eq, bytes_eq]
  exact flatMap_encode_lt (String.lt_iff.1 h)

/-- **Strings are ordered like their bytes.** -/
theorem lt_iff_bytes_lt (s t : String) : s < t ↔ bytes s < bytes t := by
  refine ⟨bytes_lt, fun h => Decidable.byContradiction fun hn => ?_⟩
  by_cases hst : t = s
  · rw [hst] at h
    exact List.lt_irrefl _ h
  · exact List.lt_asymm h (bytes_lt (KeyMap.lt_of_not_lt hn hst))

end Dataflow.Text
