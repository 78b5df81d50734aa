import QuackProtocol.DecimalDigits
import QuackProtocol.Values
import Mathlib.Algebra.Order.Floor.Semifield
import Mathlib.Data.List.TakeWhile
import Mathlib.Data.Rat.Floor

/-! Decimals in text (`values.rs` and `vector.rs`). There are two parsers of decimal texts: one checks that
both sides of the point are digits, the other leaves that to the integer parser of the language, which it
hands the text without the digits beyond the scale. -/

open Decoding DecimalDigits

namespace QuackProtocol

def parseDecimalValue (value : String) (scale : U64) : Outcome QuackError I128 := do
  let text := trim value.toList
  let (negative, unsigned) := splitSign text
  let (integer, fraction) := splitPoint unsigned
  if !integer.all Char.isDigit || !fraction.all Char.isDigit then
    .err (.protocol s!"invalid decimal value {value}")
  else do
    let padded ← truncate
      (fraction ++ List.replicate (scale.toNat - utf8Length fraction) '0') scale.toNat
    match parseI128 ((if integer = [] then ['0'] else integer) ++ padded) with
    | some unscaled => if negative then negateI128 unscaled else pure unscaled
    | none => .err (.protocol s!"invalid decimal value {value}")

/-- `decimal_value` of a text. -/
def decimalValue (value : String) (width scale : U64) : Outcome QuackError Value := do
  let unscaled ← parseDecimalValue value scale
  pure (.decimal ⟨unscaled, width, scale⟩)

/-- An optional sign, digits, and an optional point with more digits. -/
structure Numeral (text : List Char) (negative : Bool) (integer fraction : List Char) : Prop where
  shape : ∃ sign point, text = sign ++ (integer ++ (point ++ fraction)) ∧
    (sign = ['-'] ∧ negative = true ∨ (sign = ['+'] ∨ sign = []) ∧ negative = false) ∧
    (point = ['.'] ∨ point = [] ∧ fraction = [])
  integer : IsDigits integer
  fraction : IsDigits fraction

/-- The absolute value of the number that a numeral denotes. -/
def numeralValue (integer fraction : List Char) : ℚ :=
  value integer + value fraction / 10 ^ fraction.length

/-- The number at a scale, without the digits beyond it. -/
def magnitude (integer fraction : List Char) (scale : Nat) : Nat :=
  ⌊numeralValue integer fraction * 10 ^ scale⌋₊

theorem magnitude_eq (integer fraction : List Char) (scale : Nat) :
    magnitude integer fraction scale =
      value (integer ++ fraction) * 10 ^ scale / 10 ^ fraction.length := by
  have hpow : (10 : ℚ) ^ fraction.length ≠ 0 := by positivity
  have hrat : numeralValue integer fraction * 10 ^ scale =
      ((value (integer ++ fraction) * 10 ^ scale : Nat) : ℚ) / ((10 ^ fraction.length : Nat) : ℚ) := by
    rw [numeralValue, value_append]
    push_cast
    field_simp
  rw [magnitude, hrat, Nat.floor_div_eq_div]

section
variable {text integer fraction : List Char} {negative : Bool} {scale : Nat}

theorem digit_ne {c : Char} (h : c.isDigit = true) : c ≠ '.' ∧ c ≠ '-' ∧ c ≠ '+' := by
  refine ⟨?_, ?_, ?_⟩ <;> rintro rfl <;> cases h

theorem splitSign_digits (h : ∀ c ∈ text.head?, c ≠ '-' ∧ c ≠ '+') : splitSign text = (false, text) := by
  unfold splitSign
  split
  · exact absurd rfl (h '-' rfl).1
  · exact absurd rfl (h '+' rfl).2
  · rfl

theorem splitPoint_point (h : IsDigits integer) :
    splitPoint (integer ++ '.' :: fraction) = (integer, fraction) := by
  have hne : ∀ c ∈ integer, (c ≠ '.' : Bool) = true := fun c hc => by simp [(digit_ne (h c hc)).1]
  rw [splitPoint, List.takeWhile_append_of_pos hne, List.dropWhile_append_of_pos hne]
  simp

theorem splitPoint_integer (h : IsDigits integer) : splitPoint integer = (integer, []) := by
  have hne : ∀ c ∈ integer, (c ≠ '.' : Bool) = true := fun c hc => by simp [(digit_ne (h c hc)).1]
  rw [splitPoint, List.takeWhile_eq_self_iff.mpr hne, List.dropWhile_eq_nil_iff.mpr hne]
  rfl

/-- The parser takes a numeral apart as it was put together. -/
theorem Numeral.split (h : Numeral text negative integer fraction) :
    (splitSign text).1 = negative ∧ splitPoint (splitSign text).2 = (integer, fraction) := by
  obtain ⟨⟨sign, point, rfl, hsign, hpoint⟩, hinteger, hfraction⟩ := h
  have hunsigned : splitPoint (integer ++ (point ++ fraction)) = (integer, fraction) := by
    rcases hpoint with rfl | ⟨rfl, rfl⟩
    · exact splitPoint_point hinteger
    · rw [List.append_nil, List.append_nil]
      exact splitPoint_integer hinteger
  have hhead : ∀ c ∈ (integer ++ (point ++ fraction)).head?, c ≠ '-' ∧ c ≠ '+' := by
    intro c hc
    cases integer with
    | nil =>
        rcases hpoint with rfl | ⟨rfl, rfl⟩
        · cases hc
          decide
        · cases hc
    | cons digit digits =>
        cases hc
        exact (digit_ne (hinteger _ (List.mem_cons_self ..))).2
  rcases hsign with ⟨rfl, rfl⟩ | ⟨rfl | rfl, rfl⟩
  · exact ⟨rfl, hunsigned⟩
  · exact ⟨rfl, hunsigned⟩
  · rw [List.nil_append, splitSign_digits hhead]
    exact ⟨rfl, hunsigned⟩

theorem splitPoint_shape (text : List Char) :
    ∃ point, text = (splitPoint text).1 ++ (point ++ (splitPoint text).2) ∧
      (point = ['.'] ∨ point = [] ∧ (splitPoint text).2 = []) := by
  induction text with
  | nil => exact ⟨[], rfl, .inr ⟨rfl, rfl⟩⟩
  | cons c text ih =>
      by_cases hc : c = '.'
      · subst hc
        exact ⟨['.'], rfl, .inl rfl⟩
      · have hsplit : splitPoint (c :: text) = (c :: (splitPoint text).1, (splitPoint text).2) := by
          simp [splitPoint, hc]
        obtain ⟨point, htext, hpoint⟩ := ih
        rw [hsplit]
        exact ⟨point, congrArg (c :: ·) htext, hpoint⟩

/-- A text whose parts are digits is a numeral. -/
theorem numeral_of_split (hsplit : splitPoint (splitSign text).2 = (integer, fraction))
    (hinteger : IsDigits integer) (hfraction : IsDigits fraction) :
    Numeral text (splitSign text).1 integer fraction := by
  obtain ⟨point, hunsigned, hpoint⟩ := splitPoint_shape (splitSign text).2
  rw [hsplit] at hunsigned hpoint
  refine ⟨?_, hinteger, hfraction⟩
  have hsign : ∃ sign, text = sign ++ (splitSign text).2 ∧
      (sign = ['-'] ∧ (splitSign text).1 = true ∨
        (sign = ['+'] ∨ sign = []) ∧ (splitSign text).1 = false) := by
    unfold splitSign
    split
    · exact ⟨['-'], rfl, .inl ⟨rfl, rfl⟩⟩
    · exact ⟨['+'], rfl, .inr ⟨.inl rfl, rfl⟩⟩
    · exact ⟨[], rfl, .inr ⟨.inr rfl, rfl⟩⟩
  obtain ⟨sign, htext, hsign⟩ := hsign
  exact ⟨sign, point, by rw [← hunsigned]; exact htext, hsign, hpoint⟩

end

/-! ### Parsers on numerals -/

theorem digit_utf8Size {c : Char} (h : c.isDigit = true) : c.utf8Size = 1 := by
  simp only [Char.isDigit, Bool.and_eq_true, decide_eq_true_eq] at h
  have hle : c.val ≤ 0x7f := Nat.le_trans h.2 (by decide)
  exact if_pos hle

theorem utf8Length_digits {text : List Char} (h : IsDigits text) : utf8Length text = text.length := by
  induction text with
  | nil => rfl
  | cons c text ih =>
      obtain ⟨hc, htext⟩ := List.forall_mem_cons.mp h
      have hrest := ih htext
      rw [utf8Length] at hrest ⊢
      rw [List.map_cons, List.sum_cons, hrest, digit_utf8Size hc, List.length_cons, Nat.add_comm]

theorem truncate_digits {text : List Char} (h : IsDigits text) (n : Nat) :
    truncate text n = .ok (text.take n) := by
  induction text generalizing n with
  | nil =>
      rw [List.take_nil]
      rfl
  | cons c text ih =>
      obtain ⟨hc, htext⟩ := List.forall_mem_cons.mp h
      cases n with
      | zero => rfl
      | succ n =>
          rw [truncate, digit_utf8Size hc, Outcome.check, if_pos (by omega), Nat.add_sub_cancel, ih htext]
          · rfl
          · omega

/-- What the truncation of a padded fraction leaves. -/
theorem truncate_atScale {fraction : List Char} (h : IsDigits fraction) (scale : Nat) :
    truncate (fraction ++ List.replicate (scale - utf8Length fraction) '0') scale =
      .ok (atScale fraction scale) := by
  rw [utf8Length_digits h, truncate_digits (isDigits_append.mpr ⟨h, isDigits_zeros _⟩)]
  rfl

/-- A number with a sign. -/
def signed (negative : Bool) (n : Nat) : Int := if negative then -n else n

/-- The integer parser of the language: an optional sign and digits, of an `i128`. -/
theorem parseI128_eq_some_iff {text : List Char} {number : I128} :
    parseI128 text = some number ↔ (splitSign text).2 ≠ [] ∧ IsDigits (splitSign text).2 ∧
      InI128 (signed (splitSign text).1 (value (splitSign text).2)) ∧
      number = BitVec.ofInt 128 (signed (splitSign text).1 (value (splitSign text).2)) := by
  have hall : (splitSign text).2.all Char.isDigit = true ↔ IsDigits (splitSign text).2 :=
    List.all_eq_true
  unfold parseI128 parseDigits
  by_cases hdigits : (splitSign text).2 ≠ [] ∧ (splitSign text).2.all Char.isDigit
  · simp only [if_pos hdigits, Option.bind_eq_bind, Option.bind_some]
    show (if InI128 (signed (splitSign text).1 (value (splitSign text).2)) then
      some (BitVec.ofInt 128 (signed (splitSign text).1 (value (splitSign text).2))) else none) = _ ↔ _
    rw [hall] at hdigits
    by_cases hrange : InI128 (signed (splitSign text).1 (value (splitSign text).2))
    · rw [if_pos hrange, Option.some_inj]
      exact ⟨fun h => ⟨hdigits.1, hdigits.2, hrange, h.symm⟩, fun h => h.2.2.2.symm⟩
    · rw [if_neg hrange]
      exact ⟨nofun, fun h => absurd h.2.2.1 hrange⟩
  · simp only [if_neg hdigits, Option.bind_eq_bind, Option.bind_none]
    rw [hall] at hdigits
    exact ⟨nofun, fun h => absurd ⟨h.1, h.2.1⟩ hdigits⟩

theorem parseI128_digits {digits : List Char} (hne : digits ≠ []) (h : IsDigits digits) :
    parseI128 digits =
      if value digits < 2 ^ 127 then some (BitVec.ofInt 128 (value digits)) else none := by
  have hhead : ∀ c ∈ digits.head?, c ≠ '-' ∧ c ≠ '+' := fun c hc =>
    (digit_ne (h c (List.mem_of_mem_head? hc))).2
  have hiff := fun number => @parseI128_eq_some_iff digits number
  simp only [splitSign_digits hhead, signed, InI128, Bool.false_eq_true, if_false] at hiff
  by_cases hlt : value digits < 2 ^ 127
  · rw [if_pos hlt, hiff]
    exact ⟨hne, h, ⟨by omega, by omega⟩, rfl⟩
  · rw [if_neg hlt, Option.eq_none_iff_forall_ne_some]
    intro number hnumber
    obtain ⟨-, -, ⟨-, hrange⟩, -⟩ := (hiff number).mp hnumber
    omega

theorem toInt_signed {negative : Bool} {n : Nat} (h : n < 2 ^ 127) :
    (BitVec.ofInt 128 (signed negative n)).toInt = signed negative n := by
  refine BitVec.toInt_ofInt_eq_self (by decide) ?_ ?_ <;> cases negative <;> simp only [signed] <;> omega

theorem negateI128_signed {n : Nat} (h : n < 2 ^ 127) :
    negateI128 (BitVec.ofInt 128 n) = .ok (BitVec.ofInt 128 (signed true n)) := by
  have htoInt : (BitVec.ofInt 128 n).toInt = n := @toInt_signed false n h
  have hrange : InI128 (-(BitVec.ofInt 128 n).toInt) := by
    rw [htoInt]
    exact ⟨by omega, by omega⟩
  rw [negateI128, Outcome.check, if_pos hrange, ← BitVec.ofInt_neg]
  rfl

section
variable {text integer fraction : List Char} {negative : Bool}

/-- The text that both parsers hand to the integer parser, for a numeral. -/
theorem parseI128_scaled (hinteger : IsDigits integer) (hfraction : IsDigits fraction) (scale : Nat) :
    parseI128 ((if integer = [] then ['0'] else integer) ++ atScale fraction scale) =
      if magnitude integer fraction scale < 2 ^ 127 then
        some (BitVec.ofInt 128 (magnitude integer fraction scale)) else none := by
  have hcut := isDigits_atScale hfraction scale
  have hmagnitude : value ((if integer = [] then ['0'] else integer) ++ atScale fraction scale) =
      magnitude integer fraction scale := by
    rw [magnitude_eq, ← value_integer_atScale integer hfraction]
    split
    · rename_i hnil
      rw [hnil, List.singleton_append, value_zero_cons, List.nil_append]
    · rfl
  rw [parseI128_digits, hmagnitude]
  · split <;> simp_all
  · split
    · exact isDigits_append.mpr ⟨isDigits_zeros 1, hcut⟩
    · exact isDigits_append.mpr ⟨hinteger, hcut⟩

theorem unscaledOfText_numeral (h : Numeral (trim text) negative integer fraction) (scale : Nat) :
    unscaledOfText scale text =
      if magnitude integer fraction scale < 2 ^ 127 then
        .ok (some (BitVec.ofInt 128 (signed negative (magnitude integer fraction scale))))
      else .ok none := by
  obtain ⟨hnegative, hparts⟩ := h.split
  unfold unscaledOfText
  simp only [hparts, hnegative, truncate_atScale h.fraction, parseI128_scaled h.integer h.fraction,
    Outcome.ok_bind]
  show (match (if magnitude integer fraction scale < 2 ^ 127 then
    some (BitVec.ofInt 128 (magnitude integer fraction scale)) else none) with
    | some unscaled => if negative then some <$> negateI128 unscaled else pure (some unscaled)
    | none => pure none : Outcome QuackError (Option I128)) = _
  by_cases hlt : magnitude integer fraction scale < 2 ^ 127
  · rw [if_pos hlt, if_pos hlt]
    cases negative with
    | true =>
        simp only [if_true, negateI128_signed hlt]
        rfl
    | false => rfl
  · rw [if_neg hlt, if_neg hlt]
    rfl

theorem parseDecimalValue_numeral {s : String} (h : Numeral (trim s.toList) negative integer fraction)
    (scale : U64) :
    parseDecimalValue s scale =
      if magnitude integer fraction scale.toNat < 2 ^ 127 then
        .ok (BitVec.ofInt 128 (signed negative (magnitude integer fraction scale.toNat)))
      else .err (.protocol s!"invalid decimal value {s}") := by
  obtain ⟨hnegative, hparts⟩ := h.split
  have hinteger : integer.all Char.isDigit = true := List.all_eq_true.mpr h.integer
  have hfraction : fraction.all Char.isDigit = true := List.all_eq_true.mpr h.fraction
  unfold parseDecimalValue
  simp only [hparts, hnegative, hinteger, hfraction, truncate_atScale h.fraction,
    parseI128_scaled h.integer h.fraction, Outcome.ok_bind,
    Bool.not_true, Bool.or_self, Bool.false_eq_true, if_false]
  show (match (if magnitude integer fraction scale.toNat < 2 ^ 127 then
    some (BitVec.ofInt 128 (magnitude integer fraction scale.toNat)) else none) with
    | some unscaled => if negative then negateI128 unscaled else pure unscaled
    | none => .err (.protocol s!"invalid decimal value {s}") : Outcome QuackError I128) = _
  by_cases hlt : magnitude integer fraction scale.toNat < 2 ^ 127
  · rw [if_pos hlt, if_pos hlt]
    cases negative with
    | true =>
        simp only [if_true, negateI128_signed hlt]
    | false => rfl
  · rw [if_neg hlt, if_neg hlt]

/-- Where a part has another character, the checking parser refuses the text. -/
theorem parseDecimalValue_notNumeral {s : String}
    (h : ¬ (IsDigits (splitPoint (splitSign (trim s.toList)).2).1 ∧
      IsDigits (splitPoint (splitSign (trim s.toList)).2).2)) (scale : U64) :
    parseDecimalValue s scale = .err (.protocol s!"invalid decimal value {s}") := by
  have hcheck : (!(splitPoint (splitSign (trim s.toList)).2).1.all Char.isDigit ||
      !(splitPoint (splitSign (trim s.toList)).2).2.all Char.isDigit) = true := by
    by_contra hnot
    rw [Bool.not_eq_true, Bool.or_eq_false_iff, Bool.not_eq_false', Bool.not_eq_false',
      List.all_eq_true, List.all_eq_true] at hnot
    exact h hnot
  unfold parseDecimalValue
  simp only [hcheck, if_true]

end

end QuackProtocol
