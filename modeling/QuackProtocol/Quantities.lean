import QuackProtocol.CanonicalValues
import QuackProtocol.DecimalParsers
import QuackProtocol.IntegerColumns

/-! Numbers with a scale and times with a unit. A DECIMAL column has a scale and a TIME or TIMESTAMP column
a unit, and so have the values that it is given; the encoder stores the bare integer of a value, whatever
its own scale or unit is, and narrows it to the storage of the column. -/

open Decoding DecimalDigits Narrowing

namespace QuackProtocol

/-- A number, a time of day, or an instant, the last two in nanoseconds. -/
inductive Quantity where
  | number (q : ℚ)
  | timeOfDay (nanos : Int)
  | instant (nanos : Int)
  deriving DecidableEq

def TimeUnit.inNanos : TimeUnit → Int
  | .micros => 1000
  | .nanos => 1

def TimestampUnit.inNanos : TimestampUnit → Int
  | .seconds => 1000000000
  | .millis => 1000000
  | .micros => 1000
  | .nanos => 1

instance (s : String) : Decidable (PlainDigits s) :=
  inferInstanceAs (Decidable ((∀ c ∈ (decimalParts s).1, c.isDigit = true) ∧
    ∀ c ∈ (decimalParts s).2, c.isDigit = true))

def isNegative (s : String) : Bool := (splitSign (trim s.toList)).1

/-- The number that a decimal text denotes. -/
def textNumber (s : String) : ℚ :=
  let number := numeralValue (decimalParts s).1 (decimalParts s).2
  if isNegative s then -number else number

def Value.quantity : Value → Option Quantity
  | .decimal v => some (.number (v.value.toInt / 10 ^ v.scale.toNat))
  | .string s => if PlainDigits s then some (.number (textNumber s)) else none
  | .time v => some (.timeOfDay (v.value.toInt * v.unit.inNanos))
  | .timestamp v => some (.instant (v.value.toInt * v.unit.inNanos))
  | value => value.integer.map fun (a : Int) => .number a

/-- The number of a value without its scale, and the scale; a text with no more digits behind the point
than `scale` is taken at that scale. -/
def Value.unscaled (scale : Nat) : Value → Option (Int × Nat)
  | .decimal v => some (v.value.toInt, v.scale.toNat)
  | .string s =>
    if PlainDigits s ∧ (decimalParts s).2.length ≤ scale then
      some (signed (isNegative s) (magnitude (decimalParts s).1 (decimalParts s).2 scale), scale)
    else none
  | value => value.integer.map fun a => (a, 0)

/-- The columns whose values have a scale or a unit. -/
inductive QuantityColumn where
  | decimal (width scale : Nat)
  | time (unit : TimeUnit)
  | timestamp (unit : TimestampUnit)

def quantityColumn (T : LogicalType) : Option QuantityColumn :=
  match T.id with
  | .decimal =>
    match T.typeInfo with
    | some (.decimal _ width scale) => some (.decimal width.toNat scale.toNat)
    | _ => none
  | .time => some (.time .micros)
  | .timeNs => some (.time .nanos)
  | .timestampSec => some (.timestamp .seconds)
  | .timestampMs => some (.timestamp .millis)
  | .timestamp | .timestampTz => some (.timestamp .micros)
  | .timestampNs => some (.timestamp .nanos)
  | _ => none

namespace QuantityColumn

/-- The values that a column is given: NULLs, and numbers or times of any scale or unit. -/
def Takes : QuantityColumn → Value → Prop
  | _, .null => True
  | decimal _ scale, value => (value.unscaled scale).isSome
  | time _, .time _ | time _, .timestamp _ | timestamp _, .time _ | timestamp _, .timestamp _ => True
  | _, _ => False

/-- The integers of a column: those of `width` digits, or those of 64 bits. -/
def InRange : QuantityColumn → Int → Prop
  | decimal width _, n => n.natAbs < 10 ^ width
  | time _, n | timestamp _, n => SignedRange 64 n

/-- What an integer of the column stands for. -/
def quantity : QuantityColumn → Int → Quantity
  | decimal _ scale, n => .number (n / 10 ^ scale)
  | time unit, n => .timeOfDay (n * unit.inNanos)
  | timestamp unit, n => .instant (n * unit.inNanos)

def Represents (column : QuantityColumn) (q : Quantity) : Prop :=
  ∃ n, column.InRange n ∧ column.quantity n = q

/-- The number does not fit the 128 bits that every value goes through. -/
def TooLarge (scale : Nat) : Value → Prop
  | .decimal _ => False
  | .string s => 2 ^ 127 ≤ magnitude (decimalParts s).1 (decimalParts s).2 scale
  | value => ∃ a, value.integer = some a ∧ 2 ^ 127 ≤ a

/-- A column refuses the value: all of them if there is no storage for its width. -/
def Rejects : QuantityColumn → Value → Prop
  | decimal width scale, value => 38 < width ∨ TooLarge scale value
  | _, _ => False

/-- The value is zero, or of the column's own scale or unit and in its range. -/
def Keeps : QuantityColumn → Value → Prop
  | _, .null => True
  | decimal width scale, value => ∃ n own, value.unscaled scale = some (n, own) ∧
      (n = 0 ∨ own = scale ∧ n.natAbs < 10 ^ width)
  | time unit, .time v => v.value = 0 ∨ v.unit = unit
  | timestamp unit, .timestamp v => v.value = 0 ∨ v.unit = unit
  | _, _ => False

theorem keeps_decimal {value : Value} {width scale : Nat} (h : value.isNull = false) :
    (decimal width scale).Keeps value ↔ ∃ n own, value.unscaled scale = some (n, own) ∧
      (n = 0 ∨ own = scale ∧ n.natAbs < 10 ^ width) := by
  cases value with
  | null => cases h
  | _ => exact Iff.rfl

theorem takes_decimal {value : Value} {width scale : Nat} (h : value.isNull = false) :
    (decimal width scale).Takes value ↔ (value.unscaled scale).isSome := by
  cases value with
  | null => cases h
  | _ => exact Iff.rfl

end QuantityColumn

theorem TimeUnit.inNanos_mul_iff {v : I64} {unit own : TimeUnit} :
    v.toInt * unit.inNanos = v.toInt * own.inNanos ↔ v = 0 ∨ own = unit := by
  have hzero : v.toInt = 0 ↔ v = 0 := ⟨fun h => BitVec.toInt_inj.mp h, fun h => by rw [h]; rfl⟩
  rw [← hzero]
  cases unit <;> cases own <;> simp only [inNanos, reduceCtorEq, or_true, or_false] <;> omega

theorem TimestampUnit.inNanos_mul_iff {v : I64} {unit own : TimestampUnit} :
    v.toInt * unit.inNanos = v.toInt * own.inNanos ↔ v = 0 ∨ own = unit := by
  have hzero : v.toInt = 0 ↔ v = 0 := ⟨fun h => BitVec.toInt_inj.mp h, fun h => by rw [h]; rfl⟩
  rw [← hzero]
  cases unit <;> cases own <;> simp only [inNanos, reduceCtorEq, or_true, or_false] <;> omega

section
variable {prims : Primitives} {T : LogicalType} {physicalType : PhysicalType} {value : Value}
  {width scale : U64} {n : Int} {own : Nat}

theorem signed_cast (negative : Bool) (m : Nat) : ((signed negative m : Int) : ℚ) =
    if negative then -(m : ℚ) else m := by
  cases negative <;> simp [signed]

/-- A text with no more digits than the scale is its number at the scale. -/
theorem textNumber_eq {s : String} (hfraction : (decimalParts s).2.length ≤ own) : textNumber s =
    (signed (isNegative s) (magnitude (decimalParts s).1 (decimalParts s).2 own) : Int) / 10 ^ own := by
  have hmagnitude : numeralValue (decimalParts s).1 (decimalParts s).2 =
      (magnitude (decimalParts s).1 (decimalParts s).2 own : ℚ) / 10 ^ own := by
    obtain ⟨k, rfl⟩ : ∃ k, own = (decimalParts s).2.length + k :=
      ⟨own - (decimalParts s).2.length, by omega⟩
    have hpow : 0 < 10 ^ (decimalParts s).2.length := Nat.pow_pos (by decide)
    have hscaled : magnitude (decimalParts s).1 (decimalParts s).2 ((decimalParts s).2.length + k) =
        value ((decimalParts s).1 ++ (decimalParts s).2) * 10 ^ k := by
      rw [magnitude_eq, Nat.pow_add, ← Nat.mul_assoc, Nat.mul_right_comm, Nat.mul_div_cancel _ hpow]
    rw [hscaled, numeralValue, value_append]
    push_cast
    field_simp
    ring
  rw [textNumber, hmagnitude, signed_cast]
  split
  · rw [neg_div]
  · rfl

/-- A value is its number at its own scale. -/
theorem quantity_unscaled (h : value.unscaled scale.toNat = some (n, own)) :
    value.quantity = some (.number (n / 10 ^ own)) := by
  have hinteger (h : value.integer.map (fun a => (a, 0)) = some (n, own)) :
      value.integer.map (fun (a : Int) => Quantity.number a) = some (.number (n / 10 ^ own)) := by
    obtain ⟨a, ha, hpair⟩ := Option.map_eq_some_iff.mp h
    cases hpair
    rw [ha, pow_zero, div_one]
    rfl
  cases value with
  | decimal v =>
      cases h
      rfl
  | string s =>
      rw [Value.unscaled] at h
      split_ifs at h with hs
      cases h
      rw [Value.quantity, if_pos hs.1, textNumber_eq hs.2]
  | time | timestamp => cases h
  | _ => exact hinteger h

theorem unscaled_notNull (h : value.unscaled scale.toNat = some (n, own)) : value.isNull = false := by
  cases value <;> first | rfl | cases h

/-- The conversion to 128 bits gives the number of a value, or refuses a value that is too large. -/
theorem decimalToUnscaled_cases (hinfo : ∃ name, T.typeInfo = some (.decimal name width scale))
    (h : value.unscaled scale.toNat = some (n, own)) :
    (QuantityColumn.TooLarge scale.toNat value ∧ ∃ e, decimalToUnscaled prims T value = .err e) ∨
      (¬ QuantityColumn.TooLarge scale.toNat value ∧
        ∃ number, decimalToUnscaled prims T value = .ok number ∧ number.toInt = n) := by
  have hinteger (h : value.integer.map (fun a => (a, 0)) = some (n, own)) :
      ((∃ a, value.integer = some a ∧ 2 ^ 127 ≤ a) ∧
        ∃ e, (liftM (valueToI128 prims value) : Outcome QuackError I128) = .err e) ∨
      (¬ (∃ a, value.integer = some a ∧ 2 ^ 127 ≤ a) ∧ ∃ number,
        (liftM (valueToI128 prims value) : Outcome QuackError I128) = .ok number ∧ number.toInt = n) := by
    obtain ⟨a, ha, hpair⟩ := Option.map_eq_some_iff.mp h
    obtain ⟨rfl, rfl⟩ := Prod.mk.inj hpair
    rcases valueToI128_integer prims ha with ⟨hlarge, e, he⟩ | ⟨hsmall, number, hnumber, hvalue⟩
    · exact .inl ⟨⟨a, ha, hlarge⟩, e, by rw [he]; rfl⟩
    · refine .inr ⟨?_, number, by rw [hnumber]; rfl, hvalue⟩
      rintro ⟨b, hb, hlarge⟩
      cases ha.symm.trans hb
      exact absurd hlarge (not_le.mpr hsmall)
  cases value with
  | decimal v =>
      cases h
      exact .inr ⟨id, v.value, rfl, rfl⟩
  | string s =>
      rw [Value.unscaled] at h
      split_ifs at h with hs
      cases h
      obtain ⟨name, hinfo⟩ := hinfo
      have hnumeral : Numeral (trim s.toList) (isNegative s) (decimalParts s).1 (decimalParts s).2 :=
        numeral_iff.mpr ⟨rfl, rfl, hs.1⟩
      have hparse : decimalToUnscaled prims T (.string s) = parseDecimalString T s := rfl
      rw [hparse, parseDecimalString]
      simp only [hinfo, unscaledOfText_numeral hnumeral]
      by_cases hlt : magnitude (decimalParts s).1 (decimalParts s).2 scale.toNat < 2 ^ 127
      · rw [if_pos hlt]
        exact .inr ⟨not_le.mpr hlt, _, rfl, toInt_signed hlt⟩
      · rw [if_neg hlt]
        exact .inl ⟨not_lt.mp hlt, _, rfl⟩
  | _ => exact hinteger h

/-- The same number at two scales, of which one is narrowed. -/
theorem number_eq_iff {m : Int} {w : Nat} (hw : 0 < w) (hm : m = n.bmod (2 ^ w)) (other : Nat) :
    (Quantity.number (m / 10 ^ other) = .number (n / 10 ^ own)) ↔
      n = 0 ∨ (own = other ∧ SignedRange w n) := by
  have hpow (k : Nat) : (10 : ℚ) ^ k ≠ 0 := pow_ne_zero k (by norm_num)
  rw [Quantity.number.injEq, div_eq_div_iff (hpow other) (hpow own), hm]
  have hcast : ((n.bmod (2 ^ w) : Int) : ℚ) * 10 ^ own = (n : ℚ) * 10 ^ other ↔
      n.bmod (2 ^ w) * 10 ^ own = n * 10 ^ other := by
    rw [← Int.cast_inj (α := ℚ)]
    push_cast
    rfl
  rw [hcast]
  exact bmod_mul_pow_eq_iff (by decide) (by decide) hw other own

theorem number_same_iff {a b : Int} {k : Nat} :
    (Quantity.number (a / 10 ^ k) = .number (b / 10 ^ k)) ↔ a = b := by
  have hpow : (10 : ℚ) ^ k ≠ 0 := pow_ne_zero k (by norm_num)
  rw [Quantity.number.injEq, div_left_inj' hpow, Int.cast_inj]

/-- The storage of a DECIMAL column holds the numbers of its width. -/
theorem decimalPhysicalType_ok (hscale : getDecimalWidthAndScale T = .ok (width, scale))
    (hwidth : width.toNat ≤ 38) : ∃ physicalType size, decimalPhysicalType T = .ok physicalType ∧
      constantSize physicalType = some size ∧ 10 ^ width.toNat ≤ 2 ^ (8 * size - 1) := by
  have hdigits {digits bits : Nat} (hle : width.toNat ≤ digits) (h : 10 ^ digits ≤ 2 ^ bits) :
      10 ^ width.toNat ≤ 2 ^ bits := (Nat.pow_le_pow_right (by decide) hle).trans h
  have htype : decimalPhysicalType T = if width.toNat ≤ 4 then .ok .int16
      else if width.toNat ≤ 9 then .ok .int32 else if width.toNat ≤ 18 then .ok .int64
      else if width.toNat ≤ 38 then .ok .int128
      else .error (.protocol s!"unsupported DECIMAL width {width.toNat}") := by
    rw [decimalPhysicalType, hscale]
    rfl
  rw [htype]
  split_ifs with h4 h9 h18
  · exact ⟨_, 2, rfl, rfl, hdigits h4 (by norm_num)⟩
  · exact ⟨_, 4, rfl, rfl, hdigits h9 (by norm_num)⟩
  · exact ⟨_, 8, rfl, rfl, hdigits h18 (by norm_num)⟩
  · exact ⟨_, 16, rfl, rfl, hdigits hwidth (by norm_num)⟩

end

/-! ### One value -/

/-- The column gives back a value that measures the same, and it can represent what the value measures. -/
def SameQuantity (prims : Primitives) (T : LogicalType) (column : QuantityColumn) (value : Value) : Prop :=
  (stored prims T value).quantity = value.quantity ∧ ∀ q ∈ value.quantity, column.Represents q

/-- What a column makes of a value. -/
inductive Measures (prims : Primitives) (T : LogicalType) (physicalType : PhysicalType)
    (column : QuantityColumn) (value : Value) : Prop where
  | rejected (h : column.Rejects value) {e : QuackError}
      (encode : encodeFixedValue prims T physicalType value = .err e)
  | kept (h : ¬ column.Rejects value) (returns : (encodeFixedValue prims T physicalType value).Returns)
      (storable : Storable prims T value) (iff : SameQuantity prims T column value ↔ column.Keeps value)

section
variable {prims : Primitives} {T : LogicalType} {physicalType : PhysicalType} {column : QuantityColumn}
  {value w : Value} {width scale : U64}

/-- A value whose word is read back. -/
theorem Measures.of_word (physical : getPhysicalType T = .ok physicalType)
    (size : isConstantSizePhysicalType physicalType = true) (hnull : value.isNull = false)
    (hrejects : ¬ column.Rejects value) (word : storedFixed prims T physicalType value = .ok w)
    (iff : (w.quantity = value.quantity ∧ ∀ q ∈ value.quantity, column.Represents q) ↔
      column.Keeps value) : Measures prims T physicalType column value := by
  have hvalue : value ≠ .null := fun heq => by
    rw [heq] at hnull
    cases hnull
  refine .kept hrejects (storedFixed_notNull hnull word) (.fixed physical size hvalue word) ?_
  rw [SameQuantity, stored_fixed physical size hvalue word]
  exact iff

theorem measures_null (size : isConstantSizePhysicalType physicalType = true)
    (hrejects : ¬ column.Rejects .null) : Measures prims T physicalType column .null := by
  refine .kept hrejects (.inl ?_) (.null T) ⟨fun _ => ?_, fun _ => ?_⟩
  · obtain ⟨width, hwidth⟩ := Option.isSome_iff_exists.mp size
    unfold encodeFixedValue
    rw [if_pos (show Value.null.isNull = true from rfl), physicalTypeSize, hwidth]
    exact ⟨_, rfl⟩
  · cases column <;> trivial
  · rw [SameQuantity, stored_null]
    exact ⟨rfl, fun _ hq => by cases hq⟩

theorem encodeFixedValue_unscaled_err {e : QuackError} (hid : T.id = .decimal)
    (physical : decimalPhysicalType T = .ok physicalType) (hnull : value.isNull = false)
    (h : decimalToUnscaled prims T value = .err e) :
    encodeFixedValue prims T physicalType value = .err e := by
  have hconverts : encodeDecimalOrInteger prims T value = .err e := by
    rw [encodeDecimalOrInteger, if_pos hid, h]
  rcases decimalPhysicalType_cases physical with rfl | rfl | rfl | rfl
  · rw [encodeFixedValue, hnull, hconverts]
    rfl
  · have hdate : encodeDateDecimalOrInteger prims T value = .err e := by
      unfold encodeDateDecimalOrInteger
      rw [if_neg (by rw [hid]; decide), hconverts]
    rw [encodeFixedValue, hnull, hdate]
    rfl
  · have hword : encodeInt64LogicalValue prims T value = .err e := by
      unfold encodeInt64LogicalValue
      rw [if_pos hid, h]
      rfl
    rw [encodeFixedValue, hnull, hword]
    rfl
  · have hparts : encodeInt128Parts prims T value = .err e := by
      unfold encodeInt128Parts
      rw [if_neg (by rw [hid]; decide), hconverts]
      rfl
    rw [encodeFixedValue, hnull, hparts]
    rfl

/-- A number is kept in a DECIMAL column if it is zero, or has the scale of the column and no more digits
than its width. -/
theorem decimal_keeps_iff {m n : Int} {own bits : Nat} (hbits : 0 < bits) (hm : m = n.bmod (2 ^ bits))
    (hstorage : 10 ^ width.toNat ≤ 2 ^ (bits - 1)) :
    (Quantity.number (m / 10 ^ scale.toNat) = .number (n / 10 ^ own) ∧
      (QuantityColumn.decimal width.toNat scale.toNat).Represents (.number (n / 10 ^ own))) ↔
      n = 0 ∨ own = scale.toNat ∧ n.natAbs < 10 ^ width.toNat := by
  rw [number_eq_iff hbits hm]
  have hcast : ((10 ^ width.toNat : Nat) : Int) ≤ 2 ^ (bits - 1) := by exact_mod_cast hstorage
  constructor
  · rintro ⟨rfl | ⟨rfl, -⟩, k, hk, hsame⟩
    · exact .inl rfl
    · rw [number_same_iff.mp hsame] at hk
      exact .inr ⟨rfl, hk⟩
  · rintro (rfl | ⟨rfl, hn⟩)
    · refine ⟨.inl rfl, 0, Nat.pow_pos (by decide), ?_⟩
      rw [QuantityColumn.quantity, Int.cast_zero, zero_div, zero_div]
    · exact ⟨.inr ⟨rfl, by omega, by omega⟩, n, hn, rfl⟩

theorem measures_decimal {name : Option String} {size : Nat} (hid : T.id = .decimal)
    (hinfo : T.typeInfo = some (.decimal name width scale)) (hwidth : width.toNat ≤ 38)
    (physical : decimalPhysicalType T = .ok physicalType) (hsize : constantSize physicalType = some size)
    (hstorage : 10 ^ width.toNat ≤ 2 ^ (8 * size - 1)) {n : Int} {own : Nat}
    (h : value.unscaled scale.toNat = some (n, own)) :
    Measures prims T physicalType (.decimal width.toNat scale.toNat) value := by
  have hscale : getDecimalWidthAndScale T = .ok (width, scale) := by rw [getDecimalWidthAndScale, hinfo]
  have hphysical : getPhysicalType T = .ok physicalType := by rwa [getPhysicalType, hid]
  have hconstant : isConstantSizePhysicalType physicalType = true := Option.isSome_iff_exists.mpr ⟨_, hsize⟩
  have hrejects : (QuantityColumn.decimal width.toNat scale.toNat).Rejects value ↔
      QuantityColumn.TooLarge scale.toNat value := or_iff_right (not_lt.mpr hwidth)
  have hkeeps : (QuantityColumn.decimal width.toNat scale.toNat).Keeps value ↔
      n = 0 ∨ own = scale.toNat ∧ n.natAbs < 10 ^ width.toNat := by
    rw [QuantityColumn.keeps_decimal (unscaled_notNull h), h]
    simp
  rcases @decimalToUnscaled_cases prims T value width scale n own ⟨name, hinfo⟩ h with
    ⟨hlarge, e, he⟩ | ⟨hsmall, number, hnumber, rfl⟩
  · exact .rejected (hrejects.mpr hlarge) (encodeFixedValue_unscaled_err hid physical (unscaled_notNull h) he)
  · obtain ⟨hpos, m, hword, hm⟩ := storedFixed_unscaled hid hscale hphysical hsize hnumber
    refine .of_word hphysical hconstant (unscaled_notNull h) (mt hrejects.mp hsmall) hword ?_
    rw [quantity_unscaled h, hkeeps, Value.quantity, Option.some_inj]
    simp only [Option.mem_some_iff, forall_eq']
    exact decimal_keeps_iff (by omega) hm hstorage

/-- A column of 64 bits can represent what it gives back. -/
theorem same_and_represents_iff {n : Int} (hrange : column.InRange n)
    (hw : w.quantity = some (column.quantity n)) :
    (w.quantity = value.quantity ∧ ∀ q ∈ value.quantity, column.Represents q) ↔
      w.quantity = value.quantity := by
  refine and_iff_left_of_imp fun hsame q hq => ⟨n, hrange, ?_⟩
  rw [← hsame, hw] at hq
  exact Option.some.inj hq

/-- A TIME or TIMESTAMP column stores the count of units of a value. -/
theorem measures_count {count : I64} (physical : getPhysicalType T = .ok .int64)
    (hencode : encodeInt64LogicalValue prims T value = .ok count)
    (hdecode : decodeInt64LogicalValue T count = .ok w) (hnull : value.isNull = false)
    (hrejects : ¬ column.Rejects value) (hrange : column.InRange count.toInt)
    (hw : w.quantity = some (column.quantity count.toInt))
    (iff : w.quantity = value.quantity ↔ column.Keeps value) : Measures prims T .int64 column value := by
  refine .of_word physical rfl hnull hrejects ?_ ((same_and_represents_iff hrange hw).trans iff)
  rw [storedFixed, hencode]
  show liftM (decodeInt64LogicalValue T count) = _
  rw [hdecode]
  rfl

theorem encodeInt64_time (hid : T.id ≠ .decimal) (v : TimeValue) :
    encodeInt64LogicalValue prims T (.time v) = .ok v.value := by
  unfold encodeInt64LogicalValue
  rw [if_neg hid]
  rfl

theorem encodeInt64_timestamp (hid : T.id ≠ .decimal) (v : TimestampValue) :
    encodeInt64LogicalValue prims T (.timestamp v) = .ok v.value := by
  unfold encodeInt64LogicalValue
  rw [if_neg hid]
  rfl

theorem measures_time {unit : TimeUnit} (hid : T.id ≠ .decimal) (physical : getPhysicalType T = .ok .int64)
    (hdecode : ∀ count, decodeInt64LogicalValue T count = .ok (.time ⟨unit, count⟩))
    (h : (QuantityColumn.time unit).Takes value) : Measures prims T .int64 (.time unit) value := by
  cases value with
  | null => exact measures_null rfl id
  | time v =>
      refine measures_count physical (encodeInt64_time hid v) (hdecode _) rfl id
        (signedRange_toInt _ (by decide)) rfl ?_
      rw [Value.quantity, Value.quantity, Option.some_inj, Quantity.timeOfDay.injEq]
      exact TimeUnit.inNanos_mul_iff
  | timestamp v =>
      refine measures_count physical (encodeInt64_timestamp hid v) (hdecode _) rfl id
        (signedRange_toInt _ (by decide)) rfl ⟨fun h => ?_, False.elim⟩
      cases h
  | _ => exact absurd h id

theorem measures_timestamp {unit : TimestampUnit} (utc : Bool) (hid : T.id ≠ .decimal)
    (physical : getPhysicalType T = .ok .int64)
    (hdecode : ∀ count, decodeInt64LogicalValue T count = .ok (.timestamp ⟨unit, count, utc⟩))
    (h : (QuantityColumn.timestamp unit).Takes value) :
    Measures prims T .int64 (.timestamp unit) value := by
  cases value with
  | null => exact measures_null rfl id
  | time v =>
      refine measures_count physical (encodeInt64_time hid v) (hdecode _) rfl id
        (signedRange_toInt _ (by decide)) rfl ⟨fun h => ?_, False.elim⟩
      cases h
  | timestamp v =>
      refine measures_count physical (encodeInt64_timestamp hid v) (hdecode _) rfl id
        (signedRange_toInt _ (by decide)) rfl ?_
      rw [Value.quantity, Value.quantity, Option.some_inj, Quantity.instant.injEq]
      exact TimestampUnit.inNanos_mul_iff
  | _ => exact absurd h id

/-- A column refuses all values, or it has a storage and does with each value what it should. -/
theorem quantityColumn_measures (prims : Primitives) (hcolumn : quantityColumn T = some column) :
    ((∃ e, getPhysicalType T = .error e) ∧ ∀ value, column.Rejects value) ∨
      ∃ physicalType, getPhysicalType T = .ok physicalType ∧
        isConstantSizePhysicalType physicalType = true ∧
        ∀ value, column.Takes value → Measures prims T physicalType column value := by
  cases hid : T.id <;> rw [quantityColumn, hid] at hcolumn
  case decimal =>
    simp only at hcolumn
    split at hcolumn
    · rename_i name width scale hinfo
      cases hcolumn
      have hscale : getDecimalWidthAndScale T = .ok (width, scale) := by
        rw [getDecimalWidthAndScale, hinfo]
      by_cases hwidth : width.toNat ≤ 38
      · obtain ⟨physicalType, size, physical, hsize, hstorage⟩ := decimalPhysicalType_ok hscale hwidth
        have hconstant : isConstantSizePhysicalType physicalType = true :=
          Option.isSome_iff_exists.mpr ⟨_, hsize⟩
        refine .inr ⟨physicalType, by rwa [getPhysicalType, hid], hconstant, fun value h => ?_⟩
        by_cases hvalue : value = .null
        · subst hvalue
          apply measures_null hconstant
          intro h
          rcases h with h | ⟨_, h, -⟩
          · exact absurd hwidth (not_le.mpr h)
          · cases h
        · rw [QuantityColumn.takes_decimal (Value.isNull_eq_false hvalue)] at h
          obtain ⟨⟨n, own⟩, hunscaled⟩ := Option.isSome_iff_exists.mp h
          exact measures_decimal hid hinfo hwidth physical hsize hstorage hunscaled
      · refine .inl ⟨?_, fun _ => .inl (not_le.mp hwidth)⟩
        rw [getPhysicalType, hid]
        show ∃ e, decimalPhysicalType T = .error e
        rw [decimalPhysicalType, hscale]
        refine ⟨.protocol s!"unsupported DECIMAL width {width.toNat}", ?_⟩
        show (if _ then _ else _) = _
        rw [if_neg (by omega), if_neg (by omega), if_neg (by omega), if_neg hwidth]
        rfl
    · cases hcolumn
  case time | timeNs =>
    cases hcolumn
    have hdecimal : T.id ≠ .decimal := by
      rw [hid]
      decide
    have physical : getPhysicalType T = .ok .int64 := by rw [getPhysicalType, hid]
    refine .inr ⟨.int64, physical, rfl, fun value h => measures_time hdecimal physical ?_ h⟩
    intro count
    rw [decodeInt64LogicalValue, hid]
  case timestampTz =>
    cases hcolumn
    have hdecimal : T.id ≠ .decimal := by
      rw [hid]
      decide
    have physical : getPhysicalType T = .ok .int64 := by rw [getPhysicalType, hid]
    refine .inr ⟨.int64, physical, rfl, fun value h => measures_timestamp true hdecimal physical ?_ h⟩
    intro count
    rw [decodeInt64LogicalValue, hid]
  case timestampSec | timestampMs | timestamp | timestampNs =>
    cases hcolumn
    have hdecimal : T.id ≠ .decimal := by
      rw [hid]
      decide
    have physical : getPhysicalType T = .ok .int64 := by rw [getPhysicalType, hid]
    refine .inr ⟨.int64, physical, rfl, fun value h => measures_timestamp false hdecimal physical ?_ h⟩
    intro count
    rw [decodeInt64LogicalValue, hid]
  all_goals cases hcolumn

end

/-- Whatever the encoder accepts is read back as the same quantities, and a quantity that the column cannot
represent is refused. -/
structure KeepsQuantities (layout : Layout) (prims : Primitives) (T : LogicalType)
    (column : QuantityColumn) (values : List Value) : Prop where
  same : ∀ bytes, encodeVector layout prims T values values.length = .ok bytes →
    ∃ vector c', (decodeVector T values.length).run layout ⟨bytes, 0⟩ = .ok (vector, c') ∧
      vector.values.map Value.quantity = values.map Value.quantity
  refuses : ∀ value ∈ values, ∀ q ∈ value.quantity, ¬ column.Represents q →
    ∃ e, encodeVector layout prims T values values.length = .err e

section
variable {layout : Layout} {prims : Primitives} {T : LogicalType} {physicalType : PhysicalType}
  {column : QuantityColumn} {values : List Value}

theorem KeepsQuantities.of_err {e : QuackError}
    (h : encodeVector layout prims T values values.length = .err e) :
    KeepsQuantities layout prims T column values := by
  refine ⟨fun bytes hok => ?_, fun _ _ _ _ _ => ⟨e, h⟩⟩
  cases h.symm.trans hok

/-- A column without a storage, or with one value that is rejected, is refused. -/
theorem keepsQuantities_of_rejected (hcolumn : quantityColumn T = some column)
    (hfits : layout.Fits .value values.length) (htakes : ∀ value ∈ values, column.Takes value)
    (hrejects : ∃ value ∈ values, column.Rejects value) :
    KeepsQuantities layout prims T column values := by
  rcases quantityColumn_measures prims hcolumn with ⟨⟨e, he⟩, -⟩ |
    ⟨physicalType, physical, size, hmeasures⟩
  · apply KeepsQuantities.of_err
    apply encodeVector_flat_err
    rw [encodeFlatData, he]
    rfl
  · obtain ⟨e, he⟩ : ∃ e, encodeVector layout prims T values values.length = .err e := by
      refine encodeVector_fixed_err physical size hfits (fun value hmem => ?_) ?_
      · cases hmeasures value (htakes value hmem) with
        | rejected _ encode => exact .inr ⟨_, encode⟩
        | kept _ returns => exact returns
      · obtain ⟨value, hmem, hreject⟩ := hrejects
        cases hmeasures value (htakes value hmem) with
        | rejected _ encode => exact ⟨value, hmem, _, encode⟩
        | kept hkept => exact absurd hreject hkept
    exact .of_err he

/-- Where no value is rejected the column is encoded, and keeps what it keeps of each value. -/
theorem keepsQuantities_of_kept (hcolumn : quantityColumn T = some column)
    (hheld : T.Everywhere (LogicalType.InMemory layout)) (hfits : layout.Fits .value values.length)
    (htakes : ∀ value ∈ values, column.Takes value)
    (hbytes : ∀ bytes, encodeVector layout prims T values values.length = .ok bytes →
      bytes.length ≤ isizeMax)
    (hrejects : ¬ ∃ value ∈ values, column.Rejects value) :
    KeepsQuantities layout prims T column values ↔ ∀ value ∈ values, column.Keeps value := by
  rcases quantityColumn_measures prims hcolumn with ⟨⟨e, he⟩, hall⟩ |
    ⟨physicalType, physical, size, hmeasures⟩
  · have hnone (value : Value) : value ∉ values := fun hmem => hrejects ⟨value, hmem, hall value⟩
    refine iff_of_true ?_ fun value hmem => absurd hmem (hnone value)
    apply KeepsQuantities.of_err
    apply encodeVector_flat_err
    rw [encodeFlatData, he]
    rfl
  · have hvalue : ∀ value ∈ values, Storable prims T value ∧
        (SameQuantity prims T column value ↔ column.Keeps value) := by
      intro value hmem
      cases hmeasures value (htakes value hmem) with
      | rejected h => exact absurd ⟨value, hmem, h⟩ hrejects
      | kept _ _ storable iff => exact ⟨storable, iff⟩
    have hlabels : T.id = .enum → getEnumValues T ≠ .ok [] := fun h => by
      rw [quantityColumn, h] at hcolumn
      cases hcolumn
    have htrip := roundTrips_vector .refl (.fixed physical size hlabels) hheld
      (fitsMemory_fixed physical size hfits) fun value hmem => (hvalue value hmem).1
    obtain ⟨bytes, hok, -⟩ := id htrip
    have hrun := htrip.run_eq hok (hbytes bytes hok)
    have hsame : (values.map (stored prims T)).map Value.quantity = values.map Value.quantity ↔
        ∀ value ∈ values, (stored prims T value).quantity = value.quantity := by
      rw [List.map_map, List.map_inj_left]
      rfl
    constructor
    · intro hkeeps value hmem
      obtain ⟨vector, c', hdecoded, hquantities⟩ := hkeeps.same bytes hok
      cases hrun.symm.trans hdecoded
      refine (hvalue value hmem).2.mp ⟨hsame.mp hquantities value hmem, fun q hq => ?_⟩
      by_contra hnot
      obtain ⟨e, he⟩ := hkeeps.refuses value hmem q hq hnot
      cases hok.symm.trans he
    · intro hkeep
      have hboth (value : Value) (hmem : value ∈ values) : SameQuantity prims T column value :=
        (hvalue value hmem).2.mpr (hkeep value hmem)
      refine ⟨fun bytes' hok' => ?_, fun value hmem q hq hnot => absurd ((hboth value hmem).2 q hq) hnot⟩
      cases hok.symm.trans hok'
      exact ⟨_, _, hrun, hsame.mpr fun value hmem => (hboth value hmem).1⟩

/-- Quantities survive exactly if a value of the column is rejected, or if each is zero or of the scale or
unit of the column. -/
theorem keepsQuantities_iff (hcolumn : quantityColumn T = some column)
    (hheld : T.Everywhere (LogicalType.InMemory layout)) (hfits : layout.Fits .value values.length)
    (htakes : ∀ value ∈ values, column.Takes value)
    (hbytes : ∀ bytes, encodeVector layout prims T values values.length = .ok bytes →
      bytes.length ≤ isizeMax) :
    KeepsQuantities layout prims T column values ↔
      (∃ value ∈ values, column.Rejects value) ∨ ∀ value ∈ values, column.Keeps value := by
  by_cases hrejects : ∃ value ∈ values, column.Rejects value
  · exact iff_of_true (keepsQuantities_of_rejected hcolumn hfits htakes hrejects) (.inl hrejects)
  · rw [keepsQuantities_of_kept hcolumn hheld hfits htakes hbytes hrejects, or_iff_right hrejects]

end

theorem everywhere_inMemory_price : price.Everywhere (LogicalType.InMemory .words) := by
  refine .intro (fun info hinfo => ?_) fun child hchild => ?_
  · cases hinfo
    exact ⟨fun _ htext => (by cases htext), fun _ hlength => (by cases hlength)⟩
  · cases hchild

theorem fits_prices {values : List Value} (h : values.length ≤ 2) : Layout.words.Fits .value values.length :=
  ⟨h.trans_lt (by decide), (Nat.mul_le_mul_right _ h).trans (by decide)⟩

theorem encodeVector_prices {values : List Value} (h : values.length ≤ 2) (bytes : Bytes)
    (hok : encodeVector .words .floatless price values values.length = .ok bytes) :
    bytes.length ≤ isizeMax := by
  have hmost : (encodeVector .words .floatless price values values.length).AtMost 100 :=
    (atMost_fixedVector rfl rfl (by decide) (by omega)).mono (by omega)
  exact (hmost bytes hok).trans (by decide)

theorem keepsQuantities_prices :
    KeepsQuantities .words .floatless price (.decimal 4 2) [.decimal ⟨150, 4, 2⟩, .int 0] := by
  refine (keepsQuantities_iff rfl everywhere_inMemory_price (fits_prices le_rfl) ?_
    (encodeVector_prices le_rfl)).mpr (.inr ?_)
  · simp [QuantityColumn.Takes, Value.unscaled, Value.integer]
  · rw [List.forall_mem_cons, List.forall_mem_singleton]
    exact ⟨⟨150, 2, rfl, .inr ⟨rfl, by decide⟩⟩, 0, 0, rfl, .inl rfl⟩

/-- The integer 5 is stored as 0.05. -/
theorem not_keepsQuantities_integer : ¬ KeepsQuantities .words .floatless price (.decimal 4 2) [.int 5] := by
  have hrejects : ¬ ∃ value ∈ [Value.int 5], (QuantityColumn.decimal 4 2).Rejects value := by
    rintro ⟨value, hmem, hlarge⟩
    cases List.mem_singleton.mp hmem
    rcases hlarge with hwidth | ⟨a, ha, hlarge⟩
    · exact absurd hwidth (by decide)
    · cases ha
      exact absurd hlarge (by decide)
  intro hkeeps
  have hkept := (keepsQuantities_of_kept rfl everywhere_inMemory_price (fits_prices (by decide))
    (by simp [QuantityColumn.Takes, Value.unscaled, Value.integer])
    (encodeVector_prices (by decide)) hrejects).mp hkeeps
  obtain ⟨n, own, hunscaled, hcases⟩ := hkept _ (List.mem_singleton_self _)
  cases hunscaled
  rcases hcases with h | ⟨h, -⟩
  · exact absurd h (by decide)
  · cases h

end QuackProtocol
