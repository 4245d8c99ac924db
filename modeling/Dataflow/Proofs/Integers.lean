import Dataflow.Proofs.Records
import Dataflow.Proofs.Restated

/-!
# The integers that are read are those that are written

The digits of a number without a leading zero are the digits of its value
(`IsInteger.digitChars_eq`). A number that is not read as a double has no point and no exponent, and
its significand has taken all of its digits, so it is written as it stands (`IsNumber.write_eq`). An
integer is therefore read from one number only, its own decimal text (`IsNumber.int64_iff`), and
nothing else is ever read as an integer, at no boundary of the 64 bits.
-/

namespace Dataflow.Json

open Token Reader

/-! ## Digits and their value -/

theorem digitChar_of_isDigit {c : Char} (hc : c.isDigit = true) :
    c.toNat - '0'.toNat < 10 ∧ (c.toNat - '0'.toNat).digitChar = c := by
  obtain ⟨hlow, hhigh⟩ := Char.isDigit_iff_toNat.1 hc
  have hzero : '0'.toNat = 48 := rfl
  have hnine : '9'.toNat = 57 := rfl
  have hlt : c.toNat - '0'.toNat < 10 := by omega
  refine ⟨hlt, Char.toNat_inj.1 ?_⟩
  rw [Nat.toNat_digitChar_of_lt_ten hlt]
  omega

/-- Digits behind those of a positive number are the digits of the number they continue. -/
theorem digitChars_ofDigitChars {ds : List Char} {n : Nat} (hn : 0 < n)
    (hds : ∀ d ∈ ds, d.isDigit = true) :
    Decimal.digitChars (Nat.ofDigitChars 10 ds n) = Decimal.digitChars n ++ ds := by
  induction ds generalizing n with
  | nil => simp
  | cons d ds ih =>
    obtain ⟨hlt, hd⟩ := digitChar_of_isDigit (hds d List.mem_cons_self)
    have hnext : Decimal.digitChars (10 * n + (d.toNat - '0'.toNat)) =
        Decimal.digitChars n ++ [d] := by
      unfold Decimal.digitChars
      rw [← Nat.toDigits_append_toDigits (by omega) hn hlt, Nat.toDigits_of_lt_base hlt, hd]
    rw [Nat.ofDigitChars_cons, ih (by omega) fun d h => hds d (List.mem_cons_of_mem _ h), hnext,
      List.append_assoc, List.singleton_append]

/-- Digits without a leading zero are the digits of their value. -/
theorem IsInteger.digitChars_eq {whole : List Char} (h : IsInteger whole) :
    Decimal.digitChars (Nat.ofDigitChars 10 whole 0) = whole := by
  cases h with
  | zero => rfl
  | @digits d ds hzero hds =>
    obtain ⟨hd, hds⟩ := List.forall_mem_cons.1 hds.2
    obtain ⟨hlt, hchar⟩ := digitChar_of_isDigit hd
    have hpos : 0 < d.toNat - '0'.toNat := by
      refine Nat.pos_of_ne_zero fun hnone => hzero ?_
      rw [← hchar, hnone]
      rfl
    rw [Nat.ofDigitChars_cons, Nat.mul_zero, Nat.zero_add, digitChars_ofDigitChars hpos hds,
      Decimal.digitChars, Nat.toDigits_of_lt_base hlt, hchar, List.singleton_append]

theorem isInteger_digitChars (n : Nat) : IsInteger (Decimal.digitChars n) := by
  rcases Nat.eq_zero_or_pos n with rfl | hpos
  · exact .zero
  · obtain ⟨d, ds, hds, -, hzero⟩ := digitChars_of_pos hpos
    have hdigits : ∀ d ∈ Decimal.digitChars n, d.isDigit = true :=
      fun _ => isDigit_of_mem_digitChars
    rw [hds] at hdigits ⊢
    exact .digits hzero ⟨List.cons_ne_nil _ _, hdigits⟩

/-! ## Numbers that are no doubles -/

variable {negative : Bool} {whole fraction exponent cs tail : List Char} {m : Number}

/-- An integer that is read exactly fits the significand. -/
theorem IsInteger.exists_of_unsignedNumber (h : IsInteger whole)
    (hread : unsignedNumber negative whole = .ok (m, tail)) (hm : ∀ x, m ≠ .double x) :
    ∃ n, n < Nat.pow 2 64 ∧ Decimal.digitChars n = whole ∧ m = integerNumber negative n := by
  have hvalue := h.digitChars_eq
  cases h with
  | zero =>
    cases hread
    exact ⟨0, by decide, rfl, rfl⟩
  | @digits d ds hzero hds =>
    have hd : d.isDigit = true := hds.2 d List.mem_cons_self
    rw [unsignedNumber, if_pos hd] at hread
    · simp only [dropWhile_accumulate hds, Ends.nil.afterInteger] at hread
      split at hread
      · rename_i hdropped
        -- no digit is left over, neither a further one nor anything else
        have hnone : (accumulate 0 (d :: ds)).2 = [] := by
          rw [← List.takeWhile_append_dropWhile (p := Char.isDigit)
            (l := (accumulate 0 (d :: ds)).2), dropWhile_accumulate hds, List.append_nil]
          exact List.eq_nil_of_length_eq_zero hdropped
        obtain ⟨hsum, hfits⟩ := accumulate_eq_of_nil (by decide) hds.2 hnone
        cases hread
        exact ⟨_, hfits, hvalue, by rw [hsum]⟩
      · obtain ⟨⟨x, hx⟩, -⟩ := scaled_makesDouble _ _ _ hread
        exact absurd hx (hm x)
    · exact hzero

theorem write_integerNumber {n : Nat} (hn : n < Nat.pow 2 64)
    (hm : ∀ x, integerNumber negative n ≠ .double x) :
    (integerNumber negative n).write =
      (if negative then ['-'] else []) ++ Decimal.digitChars n := by
  cases negative with
  | false =>
    have hround : n.toUInt64.toNat = n := Nat.mod_eq_of_lt hn
    show Decimal.digitChars n.toUInt64.toNat = _
    rw [hround]
    rfl
  | true =>
    unfold integerNumber at hm ⊢
    simp only [if_true] at hm ⊢
    split at hm
    · rename_i hrange
      rw [dif_pos hrange]
      show '-' :: Decimal.digitChars (n - 1 + 1) = _
      rw [Nat.sub_add_cancel hrange.1]
      rfl
    · exact absurd rfl (hm _)

theorem unsignedNumber_write (hwhole : IsInteger whole) (hfraction : IsFraction fraction)
    (hexponent : IsExponent exponent)
    (hread : unsignedNumber negative (whole ++ (fraction ++ exponent)) = .ok (m, []))
    (hm : ∀ x, m ≠ .double x) :
    m.write = (if negative then ['-'] else []) ++ (whole ++ (fraction ++ exponent)) := by
  have hdigits : ∀ c ∈ whole ++ (fraction ++ exponent), c.isDigit = true := by
    intro c hc
    obtain ⟨x, hx⟩ | hall := unsignedNumber_double_or hread
    · exact absurd hx (hm x)
    · simpa using hall c hc
  have hpoint : fraction = [] := by
    cases hfraction with
    | none => rfl
    | digits _ => exact absurd (hdigits '.' (by simp)) (by decide)
  have hmark : exponent = [] := by
    cases hexponent with
    | none => rfl
    | @digits mark sign ds hmark _ _ =>
      have := hdigits mark (by simp)
      simp only [List.mem_cons, List.not_mem_nil, or_false] at hmark
      rcases hmark with rfl | rfl <;> cases this
  subst hpoint hmark
  rw [List.append_nil, List.append_nil] at hread ⊢
  obtain ⟨n, hn, rfl, rfl⟩ := hwhole.exists_of_unsignedNumber hread hm
  exact write_integerNumber hn hm

/-- A number that is not read as a double is the text of the integer that it is read as. -/
theorem IsNumber.write_eq (h : IsNumber cs) (hread : alone Token.number cs = .ok m)
    (hm : ∀ x, m ≠ .double x) : m.write = cs := by
  have hend : Token.number cs = .ok (m, []) := by
    have hfixed := number_append_of_isNumber h Ends.nil
    rwa [List.append_nil, hread] at hfixed
  cases h with
  | @positive whole fraction exponent hwhole hfraction hexponent =>
    have hunsigned : unsignedNumber false (whole ++ (fraction ++ exponent)) = .ok (m, []) := by
      rw [← hwhole.number_append, hend]
    exact unsignedNumber_write hwhole hfraction hexponent hunsigned hm
  | negative hwhole hfraction hexponent =>
    exact unsignedNumber_write hwhole hfraction hexponent hend hm

/-! ## Integers of 64 bits -/

theorem toList_toString_ofNat (k : Nat) :
    (toString (Int.ofNat k)).toList = Decimal.digitChars k :=
  Nat.toList_repr

theorem toList_toString_negSucc (k : Nat) :
    (toString (Int.negSucc k)).toList = '-' :: Decimal.digitChars (k + 1) := by
  show ("-" ++ Nat.repr (k + 1)).toList = _
  rw [String.toList_append, Nat.toList_repr]
  rfl

theorem isNumber_toString (n : Int) : IsNumber (toString n).toList := by
  cases n with
  | ofNat k =>
    rw [toList_toString_ofNat]
    simpa using IsNumber.positive (isInteger_digitChars k) .none .none
  | negSucc k =>
    rw [toList_toString_negSucc]
    simpa using IsNumber.negative (isInteger_digitChars (k + 1)) .none .none

theorem sign_or_digit {n : Int} {c : Char} (hc : c ∈ (toString n).toList) :
    c = '-' ∨ c.isDigit = true := by
  cases n with
  | ofNat k =>
    rw [toList_toString_ofNat] at hc
    exact .inr (isDigit_of_mem_digitChars hc)
  | negSucc k =>
    rw [toList_toString_negSucc] at hc
    exact (List.mem_cons.1 hc).imp_right isDigit_of_mem_digitChars

theorem eq_of_toList_toString {n k : Int} (h : (toString n).toList = (toString k).toList) :
    n = k := by
  have hdigits {a b : Nat} (h : Decimal.digitChars a = Decimal.digitChars b) : a = b := by
    rw [← Nat.ofDigitChars_ten_toDigits (n := a), ← Nat.ofDigitChars_ten_toDigits (n := b)]
    exact congrArg (Nat.ofDigitChars 10 · 0) h
  have hsign {a : Nat} {cs : List Char} : Decimal.digitChars a ≠ '-' :: cs := by
    intro h
    have := isDigit_of_mem_digitChars (n := a) (h ▸ List.mem_cons_self)
    cases this
  cases n <;> cases k <;> simp only [toList_toString_ofNat, toList_toString_negSucc] at h
  · exact congrArg Int.ofNat (hdigits h)
  · exact absurd h hsign
  · exact absurd h.symm hsign
  · exact congrArg Int.negSucc (Nat.succ.inj (hdigits (List.cons.inj h).2))

theorem write_of_int64OfNumber {m : Number} {i : Int64} (h : int64OfNumber m = .ok i) :
    m.write = (toString i.toInt).toList := by
  cases m with
  | natural n =>
    rw [int64OfNumber] at h
    split at h
    · rename_i hfits
      cases h
      have hvalue : (Int64.ofNat n.toNat).toInt = Int.ofNat n.toNat :=
        Int64.toInt_ofNat_of_lt hfits
      rw [hvalue, toList_toString_ofNat]
      rfl
    · cases h
  | negative n =>
    cases h
    have hvalue : (Int64.ofInt (-1 - n.val)).toInt = Int.negSucc n.val := by
      have hn := n.isLt
      rw [Int64.toInt_ofInt_of_le (by simp; omega) (by simp; omega)]
      omega
    rw [hvalue, toList_toString_negSucc]
    rfl
  | double x => cases h

theorem alone_int64 {cs : List Char} (h : IsNumber cs) :
    alone int64 cs = alone Token.number cs >>= int64OfNumber := by
  obtain ⟨c, tail, rfl, hc⟩ := h.eq_cons
  have hdrop : dropBlank (c :: tail) = c :: tail := by
    simpa using (IsValue.number h).startsValue.dropBlank .nil []
  rw [alone, alone, int64, hdrop]
  simp only [if_pos hc]
  cases Token.number (c :: tail) with
  | error fault => rfl
  | ok read =>
    obtain ⟨m, rest⟩ := read
    show Except.map _ (Except.map _ (int64OfNumber m)) = int64OfNumber m
    cases int64OfNumber m <;> rfl

/-- **An integer is read from its own text** and from no other number. -/
theorem IsNumber.int64_iff {cs : List Char} (h : IsNumber cs) {i : Int64} :
    alone int64 cs = .ok i ↔ cs = (toString i.toInt).toList := by
  rw [alone_int64 h]
  constructor
  · intro hread
    cases hm : alone Token.number cs with
    | error fault =>
      rw [hm] at hread
      cases hread
    | ok m =>
      rw [hm] at hread
      have hinteger : ∀ x, m ≠ .double x := by
        rintro x rfl
        cases hread
      rw [← h.write_eq hm hinteger]
      exact write_of_int64OfNumber hread
  · intro htext
    have hi := int64OfNumber_ofInt64 i
    have hinteger : ∀ x, Number.ofInt64 i ≠ .double x := by
      intro x hx
      rw [hx] at hi
      cases hi
    have hread := number_write_integer hinteger Ends.nil
    rw [List.append_nil, write_of_int64OfNumber hi, ← htext] at hread
    rw [alone, hread]
    exact hi

/-! ## Tagged values -/

section Tagged

variable {α : Type} {variants : List (String × (Nat → List Char → Step α))} {depth : Nat}
  {m : Member} {v : List Char}

theorem alone_valueTag (hv : IsObject [m] v) {tag : String} {read : Nat → List Char → Step α}
    (hm : m.name = .ok tag) (htag : known variants tag = .ok read)
    (h : Settles (read depth) m.value) :
    alone (valueTag variants (depth + 1)) v = alone (read depth) m.value := by
  obtain ⟨text, rfl, htext, hms⟩ := hv
  have hkey : alone Token.string m.key = .ok tag := hm
  refine alone_eq fun rest _ => (tagged_object (.object htext hms) .nil rest).trans ?_
  rw [taggedObject_cons htext, hkey]
  · show Except.map _ (known variants tag >>= _) = _
    rw [htag]
    show Except.map _ (alone (read depth) m.value >>= Except.ok) = _
    cases alone (read depth) m.value <;> rfl
  · intro tag' read' htag' hread'
    cases hkey.symm.trans htag'
    cases htag.symm.trans hread'
    exact h

end Tagged

end Dataflow.Json

namespace Dataflow

open Json Json.Token Json.Reader

/-! ## Integer values -/

/-- A text of an object whose only member is an `int_value` with the given characters. -/
def IsIntText (number : List Char) (text : String) : Prop :=
  ∃ m v, IsObject [m] v ∧ m.name = .ok "int_value" ∧ m.value = number ∧ IsDocument v text

/-- The object with the member on one line. -/
def intText (number : List Char) : String :=
  "\x7b\"int_value\": " ++ String.ofList number ++ "\x7d"

theorem isIntText_intText {number : List Char} (h : IsNumber number) :
    IsIntText number (intText number) := by
  let m : Member := .of "int_value" number
  have hgap : Blank [' '] := by simp [Blank, isBlank]
  have hmembers : Members true [m] ('"' :: (m.key ++ (':' :: ' ' :: (number ++ ['}'])))) :=
    .first .nil (Member.isString_key_of "int_value" number) .nil hgap (.close .nil)
  have hvalue : ∀ m' ∈ [m], IsValue m'.value := List.forall_mem_singleton.2 (.number h)
  refine ⟨m, _, ⟨_, rfl, hmembers, hvalue⟩, Member.name_of _ _, rfl, [], [], .nil, .nil, ?_⟩
  show ("\x7b\"int_value\": " ++ String.ofList number ++ "\x7d").toList = _
  simp only [String.toList_append, String.toList_ofList, List.append_assoc, List.nil_append,
    List.append_nil]
  rfl

section
variable {number : List Char} {text : String} (hnumber : IsNumber number)
  (htext : IsIntText number text)
include hnumber htext

/-- A value that is read from an integer member is the integer that the member writes. -/
theorem IsIntText.eq_ok_iff {value : Value} : document Value.read text = .ok value ↔
    ∃ i : Int64, value = .int i ∧ number = (toString i.toInt).toList := by
  obtain ⟨m, v, hv, hm, rfl, hdocument⟩ := htext
  have hvalue : IsValue m.value := .number hnumber
  have hread : alone (Value.read depthLimit) v = (alone int64 m.value).map Value.int :=
    (alone_valueTag hv hm rfl (steady_int64.map Value.int _ hvalue)).trans (alone_map int64 _ _)
  rw [(Value.steady_read depthLimit v hv.isValue).document_eq hdocument, hread]
  simp only [← hnumber.int64_iff]
  cases alone int64 m.value with
  | error fault => simp [Except.map]
  | ok i => simp [Except.map, eq_comm]

theorem IsIntText.eq_error (h : ∀ i : Int64, number ≠ (toString i.toInt).toList) :
    ∃ fault, document Value.read text = .error fault := by
  cases hread : document Value.read text with
  | error fault => exact ⟨fault, rfl⟩
  | ok value =>
    obtain ⟨i, -, hi⟩ := (htext.eq_ok_iff hnumber).1 hread
    exact absurd hi (h i)

end

/-- **An integer is read exactly or not at all.** An `int_value` that is the decimal text of an
integer is read as this integer if it fits 64 bits with a sign, and is a fault otherwise. A number
with a fraction or an exponent is a fault, be it integral or not. So whatever is read from a number
is an integer with this number as its text, and every number can be tried. -/
theorem integers_read_exactly :
    (∀ (n : Int) (text : String), IsIntText (toString n).toList text →
      if -9223372036854775808 ≤ n ∧ n < 9223372036854775808 then
        document Value.read text = .ok (.int (.ofInt n)) ∧ (Int64.ofInt n).toInt = n
      else ∃ fault, document Value.read text = .error fault) ∧
    (∀ number text, IsNumber number → ('.' ∈ number ∨ 'e' ∈ number ∨ 'E' ∈ number) →
      IsIntText number text → ∃ fault, document Value.read text = .error fault) ∧
    (∀ number text value, IsNumber number → IsIntText number text →
      document Value.read text = .ok value →
        ∃ i : Int64, value = .int i ∧ number = (toString i.toInt).toList) ∧
    (∀ n : Int, IsNumber (toString n).toList) ∧
    ∀ number, IsNumber number → IsIntText number (intText number) := by
  refine ⟨fun n text htext => ?_, fun number text hnumber hmark htext => ?_,
    fun number text value hnumber htext => (htext.eq_ok_iff hnumber).1,
    isNumber_toString, fun number => isIntText_intText⟩
  · split
    · rename_i hrange
      have hvalue : (Int64.ofInt n).toInt = n :=
        Int64.toInt_ofInt_of_le (by simpa using hrange.1) (by simpa using hrange.2)
      refine ⟨(htext.eq_ok_iff (isNumber_toString n)).2 ⟨_, rfl, ?_⟩, hvalue⟩
      rw [hvalue]
    · rename_i hrange
      refine htext.eq_error (isNumber_toString n) fun i hi => hrange ?_
      rw [eq_of_toList_toString hi]
      exact ⟨i.le_toInt, i.toInt_lt⟩
  · refine htext.eq_error hnumber fun i hi => ?_
    rw [hi] at hmark
    rcases hmark with hmark | hmark | hmark <;> simpa using sign_or_digit hmark

/-- The greatest integer is read; the one after it is not, nor is a number with an exponent. -/
theorem integers_read_exactly_limits :
    document Value.read (intText (toString (9223372036854775807 : Int)).toList) =
        .ok (.int (.ofInt 9223372036854775807)) ∧
      (∃ fault, document Value.read (intText (toString (9223372036854775808 : Int)).toList) =
        .error fault) ∧
      ∃ fault, document Value.read (intText ['1', 'e', '0']) = .error fault := by
  obtain ⟨hexact, hmark, -, hnumber, htext⟩ := integers_read_exactly
  have hgreatest := hexact 9223372036854775807 _ (htext _ (hnumber _))
  have hnext := hexact 9223372036854775808 _ (htext _ (hnumber _))
  rw [if_pos (by decide)] at hgreatest
  rw [if_neg (by decide)] at hnext
  have hone : IsDigits ['1'] := ⟨by simp, List.forall_mem_singleton.2 rfl⟩
  have hzero : IsDigits ['0'] := ⟨by simp, List.forall_mem_singleton.2 rfl⟩
  have hexponent : IsNumber ['1', 'e', '0'] :=
    .positive (.digits (by decide) hone) .none (.digits (by decide) List.mem_cons_self hzero)
  exact ⟨hgreatest.1, hnext, hmark _ _ hexponent (by decide) (htext _ hexponent)⟩

end Dataflow
