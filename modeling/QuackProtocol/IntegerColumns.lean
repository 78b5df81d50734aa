import QuackProtocol.ChunkRoundTrip
import QuackProtocol.FixedColumns
import QuackProtocol.Narrowing

/-! Integers in integer columns. The encoder converts a value to 128 bits, which rejects some numbers,
and narrows the result to the column's storage without a check. -/

open Decoding Narrowing

namespace QuackProtocol

variable {layout : Layout} {prims : Primitives}

/-- The integer that a value denotes, a truth value as 0 or 1. -/
def Value.integer : Value → Option Int
  | .bool b => some (if b then 1 else 0)
  | .int v => some v.toInt
  | .uint v => some v.toNat
  | .hugeInt v => some v.toInt
  | .uhugeInt v => some v.toNat
  | _ => none

/-- The storage of the integer-like columns. -/
inductive IntegerColumn where
  | boolean
  | signed (width : Nat)
  | unsigned (width : Nat)

def integerColumn : LogicalTypeId → Option IntegerColumn
  | .boolean => some .boolean
  | .tinyInt => some (.signed 8)
  | .smallInt => some (.signed 16)
  | .integer => some (.signed 32)
  | .bigInt => some (.signed 64)
  | .hugeInt => some (.signed 128)
  | .uTinyInt => some (.unsigned 8)
  | .uSmallInt => some (.unsigned 16)
  | .uInteger => some (.unsigned 32)
  | .uBigInt => some (.unsigned 64)
  | .uHugeInt => some (.unsigned 128)
  | _ => none

namespace IntegerColumn

/-- The numbers of a column. -/
def InRange : IntegerColumn → Int → Prop
  | boolean, a => 0 ≤ a ∧ a ≤ 1
  | signed width, a => SignedRange width a
  | unsigned width, a => 0 ≤ a ∧ a < 2 ^ width

/-- The conversion in front of the storage fails. -/
def Rejects : IntegerColumn → Int → Prop
  | boolean, _ => False
  | signed _, a => 2 ^ 127 ≤ a
  | unsigned _, a => a < 0

/-- The storage keeps the number; a truth value that is not given as one is stored as false. -/
def Keeps : IntegerColumn → Value → Int → Prop
  | boolean, value, a => (∃ b, value = .bool b) ∨ a = 0
  | signed width, _, a => SignedRange width a
  | unsigned width, _, a => 0 ≤ a ∧ a < 2 ^ width

theorem Keeps.inRange {column : IntegerColumn} {value : Value} {a : Int}
    (h : column.Keeps value a) (ha : value.integer = some a) : column.InRange a := by
  cases column with
  | boolean =>
      rcases h with ⟨b, rfl⟩ | rfl
      · cases ha
        cases b <;> simp [InRange]
      · simp [InRange]
  | signed width => exact h
  | unsigned width => exact h

end IntegerColumn

theorem valueToI128_integer (prims : Primitives) {value : Value} {a : Int} (h : value.integer = some a) :
    (2 ^ 127 ≤ a ∧ ∃ e, valueToI128 prims value = .error e) ∨
      (a < 2 ^ 127 ∧ ∃ number, valueToI128 prims value = .ok number ∧ number.toInt = a) := by
  cases value <;> simp only [Value.integer, Option.some.injEq, reduceCtorEq] at h <;> subst h
  case bool b =>
    refine .inr ⟨by cases b <;> decide, _, rfl, ?_⟩
    cases b <;> decide
  case int v =>
    have hrange := signedRange_toInt v (by decide)
    refine .inr ⟨?_, _, rfl, toInt_signExtend v (by decide)⟩
    simp only [SignedRange] at hrange
    omega
  case uint v =>
    have hlt := v.isLt
    refine .inr ⟨by omega, _, rfl, ?_⟩
    rw [BitVec.toInt_setWidth, Int.bmod_eq_of_le] <;> omega
  case hugeInt v =>
    have hrange := signedRange_toInt v (by decide)
    refine .inr ⟨?_, _, rfl, rfl⟩
    simp only [SignedRange] at hrange
    omega
  case uhugeInt v =>
    by_cases hlt : v.toNat < 2 ^ 127
    · refine .inr ⟨by omega, v, if_pos hlt, ?_⟩
      rw [BitVec.toInt_eq_toNat_of_lt (by omega)]
    · exact .inl ⟨by omega, _, if_neg hlt⟩

theorem valueToU128_integer (prims : Primitives) {value : Value} {a : Int} (h : value.integer = some a) :
    (a < 0 ∧ ∃ e, valueToU128 prims value = .error e) ∨
      (0 ≤ a ∧ ∃ number, valueToU128 prims value = .ok number ∧ (number.toNat : Int) = a) := by
  cases value <;> simp only [Value.integer, Option.some.injEq, reduceCtorEq] at h <;> subst h
  case bool b =>
    refine .inr ⟨by cases b <;> decide, _, rfl, ?_⟩
    cases b <;> decide
  case int v =>
    by_cases hle : 0 ≤ v.toInt
    · refine .inr ⟨hle, v.setWidth 128, if_pos hle, ?_⟩
      have hnat := BitVec.toInt_eq_toNat_cond v
      have hlt := v.isLt
      rw [BitVec.toNat_setWidth, Nat.mod_eq_of_lt (by omega)]
      split at hnat <;> omega
    · exact .inl ⟨by omega, _, if_neg hle⟩
  case uint v =>
    have hlt := v.isLt
    refine .inr ⟨by omega, _, rfl, ?_⟩
    rw [BitVec.toNat_setWidth, Nat.mod_eq_of_lt (by omega)]
  case hugeInt v =>
    by_cases hle : 0 ≤ v.toInt
    · refine .inr ⟨hle, v, if_pos hle, ?_⟩
      have hnat := BitVec.toInt_eq_toNat_cond v
      have hlt := v.isLt
      split at hnat <;> omega
    · exact .inl ⟨by omega, _, if_neg hle⟩
  case uhugeInt v => exact .inr ⟨by omega, _, rfl, rfl⟩

theorem integer_notNull {value : Value} {a : Int} (h : value.integer = some a) :
    value.isNull = false := by
  cases value <;> first | rfl | cases h

/-- What a column makes of an integer. -/
inductive Stores (prims : Primitives) (T : LogicalType) (physicalType : PhysicalType)
    (column : IntegerColumn) (value : Value) (a : Int) : Prop where
  | rejected (h : column.Rejects a) {e : QuackError}
      (encode : encodeFixedValue prims T physicalType value = .err e)
  | kept (h : ¬ column.Rejects a) {w : Value} {b : Int}
      (word : storedFixed prims T physicalType value = .ok w) (number : w.integer = some b)
      (iff : b = a ↔ column.Keeps value a)

theorem storedFixed_notNull {T : LogicalType} {physicalType : PhysicalType} {value w : Value}
    (hnull : value.isNull = false) (h : storedFixed prims T physicalType value = .ok w) :
    (encodeFixedValue prims T physicalType value).Returns := by
  have hvalue : value ≠ .null := fun heq => by
    rw [heq] at hnull
    cases hnull
  obtain ⟨bytes, hbytes, -⟩ := fixedWords_of_stored hvalue h
  exact .inl ⟨bytes, hbytes⟩

section
variable {T : LogicalType} {physicalType : PhysicalType} {value : Value} {a : Int} {width : Nat}

/-- A signed column whose words are the low bits of the converted number. -/
theorem stores_signed (ha : value.integer = some a) (hwidth : 0 < width ∧ width ≤ 128)
    (hencode : ∀ e, valueToI128 prims value = .error e →
      encodeFixedValue prims T physicalType value = .err e)
    (hword : ∀ number, valueToI128 prims value = .ok number → ∃ w,
      storedFixed prims T physicalType value = .ok w ∧
        w.integer = some ((number.setWidth width).toInt)) :
    Stores prims T physicalType (.signed width) value a := by
  rcases valueToI128_integer prims ha with ⟨hlarge, e, he⟩ | ⟨hsmall, number, hnumber, rfl⟩
  · exact .rejected hlarge (hencode e he)
  · obtain ⟨w, hw, hinteger⟩ := hword number hnumber
    refine .kept (not_le.mpr hsmall) hw hinteger ?_
    exact toInt_setWidth_eq_iff number hwidth.1 hwidth.2

/-- An unsigned column whose words are the low bits of the converted number. -/
theorem stores_unsigned (ha : value.integer = some a)
    (hencode : ∀ e, valueToU128 prims value = .error e →
      encodeFixedValue prims T physicalType value = .err e)
    (hword : ∀ number, valueToU128 prims value = .ok number → ∃ w,
      storedFixed prims T physicalType value = .ok w ∧
        w.integer = some ((number.toNat % 2 ^ width : Nat) : Int)) :
    Stores prims T physicalType (.unsigned width) value a := by
  rcases valueToU128_integer prims ha with ⟨hneg, e, he⟩ | ⟨hpos, number, hnumber, rfl⟩
  · exact .rejected hneg (hencode e he)
  · obtain ⟨w, hw, hinteger⟩ := hword number hnumber
    refine .kept (not_lt.mpr hpos) hw hinteger ?_
    rw [Nat.cast_inj, ← BitVec.toNat_setWidth, toNat_setWidth_eq_iff]
    exact ⟨fun h => ⟨hpos, by exact_mod_cast h⟩, fun h => by exact_mod_cast h.2⟩

end

/-- The words of a column narrower than a value. -/
theorem integer_signed {width : Nat} (v : BitVec width) (h : width ≤ 64) :
    (Value.int (v.signExtend 64)).integer = some v.toInt :=
  congrArg some (toInt_signExtend v h)

theorem integer_unsigned {width : Nat} (v : BitVec width) (h : width ≤ 64) :
    (Value.uint (v.setWidth 64)).integer = some (v.toNat : Int) := by
  have hlt : v.toNat < 2 ^ 64 := v.isLt.trans_le (Nat.pow_le_pow_right (by decide) h)
  rw [Value.integer, BitVec.toNat_setWidth, Nat.mod_eq_of_lt hlt]

/-- The unsigned columns that share their physical type with an ENUM. -/
theorem stores_narrow {T : LogicalType} {physicalType : PhysicalType} {value : Value} {a : Int}
    {width : Nat} (henum : T.id ≠ .enum) (ha : value.integer = some a) (hwidth : width ≤ 64)
    (hencode : value.isNull = false → encodeFixedValue prims T physicalType value = (do
      let number ← encodeEnumOrNumber prims T value
      .ok (Varint.toLe (width / 8) (number.setWidth width).toNat)))
    (hword : storedFixed prims T physicalType value = (do
      let number ← encodeEnumOrNumber prims T value
      decodeEnumOrNumber T ((number.setWidth width).setWidth 64))) :
    Stores prims T physicalType (.unsigned width) value a := by
  have hconverts : encodeEnumOrNumber prims T value = (do
      let number ← valueToU128 prims value
      pure (number.setWidth 64)) := by
    unfold encodeEnumOrNumber
    rw [if_pos henum]
  refine stores_unsigned ha (fun e he => ?_) fun number hnumber =>
    ⟨.uint (((number.setWidth 64).setWidth width).setWidth 64), ?_, ?_⟩
  · rw [hencode (integer_notNull ha), hconverts, he]
    rfl
  · rw [hword, hconverts, hnumber]
    exact congrArg liftM (if_pos henum : decodeEnumOrNumber T _ = _)
  · rw [integer_unsigned _ hwidth, BitVec.setWidth_setWidth_of_le _ hwidth, BitVec.toNat_setWidth]

section
variable {T : LogicalType} {value : Value} {a : Int}

theorem stores_boolean (ha : value.integer = some a) :
    Stores prims T .bool .boolean value a := by
  refine .kept id (w := .bool value.isTrue) rfl rfl ?_
  cases value with
  | bool b =>
      cases ha
      exact iff_of_true (by cases b <;> rfl) (.inl ⟨b, rfl⟩)
  | int v | uint v | hugeInt v | uhugeInt v =>
      exact ⟨fun h => .inr h.symm, fun h => h.elim (fun ⟨_, hbool⟩ => by cases hbool) Eq.symm⟩
  | _ => cases ha

theorem stores_int8 (ha : value.integer = some a) :
    Stores prims T .int8 (.signed 8) value a := by
  refine stores_signed ha (by decide) (fun e he => ?_) fun number hnumber =>
    ⟨.int ((number.setWidth 8).signExtend 64), ?_, integer_signed _ (by decide)⟩
  · rw [encodeFixedValue, integer_notNull ha, he]
    rfl
  · rw [storedFixed, hnumber]
    rfl

theorem stores_int16 (hdecimal : T.id ≠ .decimal) (ha : value.integer = some a) :
    Stores prims T .int16 (.signed 16) value a := by
  refine stores_signed ha (by decide) (fun e he => ?_) fun number hnumber =>
    ⟨.int (((number.setWidth 16).signExtend 128).setWidth 64), ?_, ?_⟩
  · rw [encodeFixedValue, integer_notNull ha, encodeDecimalOrInteger, if_neg hdecimal, he]
    rfl
  · rw [storedFixed, encodeDecimalOrInteger, if_neg hdecimal, hnumber]
    exact congrArg liftM (if_neg hdecimal : decodeDecimalOrInt T _ = _)
  · exact congrArg some (signExtend_setWidth _ (by decide) (by decide) (by decide)
      ((signedRange_toInt _ (by decide)).mono (by decide)))

theorem stores_int32 (hdecimal : T.id ≠ .decimal) (hdate : T.id ≠ .date) (ha : value.integer = some a) :
    Stores prims T .int32 (.signed 32) value a := by
  have hconverts : encodeDateDecimalOrInteger prims T value = liftM (valueToI128 prims value) := by
    unfold encodeDateDecimalOrInteger encodeDecimalOrInteger
    rw [if_neg hdate, if_neg hdecimal]
  refine stores_signed ha (by decide) (fun e he => ?_) fun number hnumber =>
    ⟨.int (((number.setWidth 32).signExtend 128).setWidth 64), ?_, ?_⟩
  · rw [encodeFixedValue, integer_notNull ha, hconverts, he]
    rfl
  · rw [storedFixed, hconverts, hnumber]
    show liftM (decodeDateDecimalOrInt T _) = _
    rw [decodeDateDecimalOrInt, if_neg hdate, decodeDecimalOrInt, if_neg hdecimal]
    rfl
  · exact congrArg some (signExtend_setWidth _ (by decide) (by decide) (by decide)
      ((signedRange_toInt _ (by decide)).mono (by decide)))

theorem stores_int64 (hid : T.id = .bigInt) (ha : value.integer = some a) :
    Stores prims T .int64 (.signed 64) value a := by
  have hdecimal : T.id ≠ .decimal := fun h => by cases hid.symm.trans h
  have hconverts : encodeInt64LogicalValue prims T value = (do
      let number ← valueToI128 prims value
      pure (number.setWidth 64)) := by
    unfold encodeInt64LogicalValue
    rw [if_neg hdecimal]
    cases value <;> first | rfl | cases ha
  refine stores_signed ha (by decide) (fun e he => ?_) fun number hnumber =>
    ⟨.int (number.setWidth 64), ?_, rfl⟩
  · rw [encodeFixedValue, integer_notNull ha, hconverts, he]
    rfl
  · rw [storedFixed, hconverts, hnumber]
    show liftM (decodeInt64LogicalValue T _) = _
    rw [decodeInt64LogicalValue, hid]
    rfl

theorem stores_int128 (hdecimal : T.id ≠ .decimal) (huuid : T.id ≠ .uuid) (ha : value.integer = some a) :
    Stores prims T .int128 (.signed 128) value a := by
  have hconverts : encodeInt128Parts prims T value = (do
      let number ← valueToI128 prims value
      pure (splitSignedHugeInt number)) := by
    unfold encodeInt128Parts encodeDecimalOrInteger
    rw [if_neg huuid, if_neg hdecimal]
  refine stores_signed ha (by decide) (fun e he => ?_) fun number hnumber =>
    ⟨.hugeInt number, ?_, ?_⟩
  · rw [encodeFixedValue, integer_notNull ha, hconverts, he]
    rfl
  · rw [storedFixed, hconverts, hnumber]
    show liftM (decodeInt128Parts T (splitSignedHugeInt number)) = _
    rw [decodeInt128Parts, if_neg huuid, if_neg hdecimal, combineSignedHugeInt_split]
    rfl
  · rw [BitVec.setWidth_eq]
    rfl

theorem stores_uint64 (ha : value.integer = some a) :
    Stores prims T .uint64 (.unsigned 64) value a := by
  refine stores_unsigned ha (fun e he => ?_) fun number hnumber =>
    ⟨.uint (number.setWidth 64), ?_, ?_⟩
  · rw [encodeFixedValue, integer_notNull ha, he]
    rfl
  · rw [storedFixed, hnumber]
    rfl
  · rw [Value.integer, BitVec.toNat_setWidth]

theorem stores_uint128 (ha : value.integer = some a) :
    Stores prims T .uint128 (.unsigned 128) value a := by
  refine stores_unsigned ha (fun e he => ?_) fun number hnumber => ⟨.uhugeInt number, ?_, ?_⟩
  · rw [encodeFixedValue, integer_notNull ha, he]
    rfl
  · rw [storedFixed, hnumber]
    rfl
  · rw [Value.integer, Nat.mod_eq_of_lt number.isLt]

end

/-- Each integer-like column, by its physical type. -/
theorem stores_integer (prims : Primitives) {T : LogicalType} {column : IntegerColumn}
    (hcolumn : integerColumn T.id = some column) :
    ∃ physicalType, getPhysicalType T = .ok physicalType ∧
      isConstantSizePhysicalType physicalType = true ∧
      ∀ value a, value.integer = some a → Stores prims T physicalType column value a := by
  have hother : ∀ id, integerColumn id = none → T.id ≠ id := by
    rintro _ hnone rfl
    cases hcolumn.symm.trans hnone
  have hdecimal : T.id ≠ .decimal := hother _ rfl
  have henum : T.id ≠ .enum := hother _ rfl
  have hdate : T.id ≠ .date := hother _ rfl
  have huuid : T.id ≠ .uuid := hother _ rfl
  cases hid : T.id <;> rw [hid] at hcolumn <;> cases hcolumn
  case boolean =>
    exact ⟨.bool, by rw [getPhysicalType, hid], rfl, fun value a ha => stores_boolean ha⟩
  case tinyInt =>
    exact ⟨.int8, by rw [getPhysicalType, hid], rfl, fun value a ha => stores_int8 ha⟩
  case smallInt =>
    exact ⟨.int16, by rw [getPhysicalType, hid], rfl, fun value a ha => stores_int16 hdecimal ha⟩
  case integer =>
    exact ⟨.int32, by rw [getPhysicalType, hid], rfl, fun value a ha => stores_int32 hdecimal hdate ha⟩
  case bigInt =>
    exact ⟨.int64, by rw [getPhysicalType, hid], rfl, fun value a ha => stores_int64 hid ha⟩
  case hugeInt =>
    exact ⟨.int128, by rw [getPhysicalType, hid], rfl, fun value a ha => stores_int128 hdecimal huuid ha⟩
  case uTinyInt =>
    refine ⟨.uint8, by rw [getPhysicalType, hid], rfl, fun value a ha => ?_⟩
    exact stores_narrow henum ha (by decide) (fun h => by rw [encodeFixedValue, h]; rfl) rfl
  case uSmallInt =>
    refine ⟨.uint16, by rw [getPhysicalType, hid], rfl, fun value a ha => ?_⟩
    exact stores_narrow henum ha (by decide) (fun h => by rw [encodeFixedValue, h]; rfl) rfl
  case uInteger =>
    refine ⟨.uint32, by rw [getPhysicalType, hid], rfl, fun value a ha => ?_⟩
    exact stores_narrow henum ha (by decide) (fun h => by rw [encodeFixedValue, h]; rfl) rfl
  case uBigInt =>
    exact ⟨.uint64, by rw [getPhysicalType, hid], rfl, fun value a ha => stores_uint64 ha⟩
  case uHugeInt =>
    exact ⟨.uint128, by rw [getPhysicalType, hid], rfl, fun value a ha => stores_uint128 ha⟩

/-! ### Columns -/

/-- Whatever the encoder accepts is read back as the same integers, and a value outside the range of
the column is refused. -/
structure KeepsIntegers (layout : Layout) (prims : Primitives) (T : LogicalType)
    (column : IntegerColumn) (values : List Value) : Prop where
  same : ∀ bytes, encodeVector layout prims T values values.length = .ok bytes →
    ∃ vector c', (decodeVector T values.length).run layout ⟨bytes, 0⟩ = .ok (vector, c') ∧
      vector.values.map Value.integer = values.map Value.integer
  refuses : ∀ value ∈ values, ∀ a, value.integer = some a → ¬ column.InRange a →
    ∃ e, encodeVector layout prims T values values.length = .err e

section
variable {T : LogicalType} {physicalType : PhysicalType} {column : IntegerColumn}
  {values : List Value} (physical : getPhysicalType T = .ok physicalType)
  (size : isConstantSizePhysicalType physicalType = true)
  (hstores : ∀ value a, value.integer = some a → Stores prims T physicalType column value a)
include physical size hstores

/-- One rejected value is enough to refuse the column. -/
theorem encodeVector_rejected (hfits : layout.Fits .value values.length)
    (hintegers : ∀ value ∈ values, value.integer.isSome)
    (hrejects : ∃ value ∈ values, ∃ a ∈ value.integer, column.Rejects a) :
    ∃ e, encodeVector layout prims T values values.length = .err e := by
  refine encodeVector_fixed_err physical size hfits (fun value hmem => ?_) ?_
  · obtain ⟨a, ha⟩ := Option.isSome_iff_exists.mp (hintegers value hmem)
    cases hstores value a ha with
    | rejected _ encode => exact .inr ⟨_, encode⟩
    | kept _ word => exact storedFixed_notNull (integer_notNull ha) word
  · obtain ⟨value, hmem, a, ha, hreject⟩ := hrejects
    cases hstores value a ha with
    | rejected _ encode => exact ⟨value, hmem, _, encode⟩
    | kept hkept => exact absurd hreject hkept

/-- A value that is not rejected is stored as an integer, the same one if the storage keeps it. -/
theorem stored_integer {value : Value} {a : Int} (ha : value.integer = some a)
    (hrejects : ¬ column.Rejects a) : Storable prims T value ∧
      ∃ b, (stored prims T value).integer = some b ∧ (b = a ↔ column.Keeps value a) := by
  have hnull : value ≠ .null := fun h => by
    rw [h] at ha
    cases ha
  cases hstores value a ha with
  | rejected h => exact absurd h hrejects
  | kept _ word number iff =>
      rw [stored_fixed physical size hnull word]
      exact ⟨.fixed physical size hnull word, _, number, iff⟩

end

/-- Integers survive exactly if the conversion rejects one of them or the storage keeps them all. -/
theorem keepsIntegers_iff {T : LogicalType} {column : IntegerColumn} {values : List Value}
    (hcolumn : integerColumn T.id = some column)
    (hheld : T.Everywhere (LogicalType.InMemory layout))
    (hfits : layout.Fits .value values.length)
    (hintegers : ∀ value ∈ values, value.integer.isSome)
    (hbytes : ∀ bytes, encodeVector layout prims T values values.length = .ok bytes →
      bytes.length ≤ isizeMax) :
    KeepsIntegers layout prims T column values ↔
      (∃ value ∈ values, ∃ a ∈ value.integer, column.Rejects a) ∨
        ∀ value ∈ values, ∀ a ∈ value.integer, column.Keeps value a := by
  obtain ⟨physicalType, physical, size, hstores⟩ := stores_integer prims hcolumn
  by_cases hrejects : ∃ value ∈ values, ∃ a ∈ value.integer, column.Rejects a
  · obtain ⟨e, he⟩ := encodeVector_rejected physical size hstores hfits hintegers hrejects
    refine iff_of_true ⟨fun bytes hok => ?_, fun _ _ _ _ _ => ⟨e, he⟩⟩ (.inl hrejects)
    cases he.symm.trans hok
  have hvalue : ∀ value ∈ values, ∀ a, value.integer = some a → Storable prims T value ∧
      ∃ b, (stored prims T value).integer = some b ∧ (b = a ↔ column.Keeps value a) :=
    fun value hmem a ha => stored_integer physical size hstores ha
      fun h => hrejects ⟨value, hmem, a, ha, h⟩
  have hlabels : T.id = .enum → getEnumValues T ≠ .ok [] := fun h => by
    rw [h] at hcolumn
    cases hcolumn
  have htrip := roundTrips_vector .refl (.fixed physical size hlabels) hheld
    (fitsMemory_fixed physical size hfits) fun value hmem => by
      obtain ⟨a, ha⟩ := Option.isSome_iff_exists.mp (hintegers value hmem)
      exact (hvalue value hmem a ha).1
  obtain ⟨bytes, hok, -⟩ := id htrip
  have hrun := htrip.run_eq hok (hbytes bytes hok)
  have hsame : (values.map (stored prims T)).map Value.integer = values.map Value.integer ↔
      ∀ value ∈ values, ∀ a ∈ value.integer, column.Keeps value a := by
    rw [List.map_map, List.map_inj_left]
    apply forall₂_congr
    intro value hmem
    obtain ⟨a, ha⟩ := Option.isSome_iff_exists.mp (hintegers value hmem)
    obtain ⟨-, b, hb, hiff⟩ := hvalue value hmem a ha
    rw [Function.comp_apply, hb, ha, Option.some_inj, hiff]
    simp
  constructor
  · intro hkeeps
    obtain ⟨vector, c', hdecoded, hinteger⟩ := hkeeps.same bytes hok
    cases hrun.symm.trans hdecoded
    exact .inr (hsame.mp hinteger)
  · rintro (h | hkeep)
    · exact absurd h hrejects
    refine ⟨fun bytes' hok' => ?_, fun value hmem a ha hrange => ?_⟩
    · cases hok.symm.trans hok'
      exact ⟨_, _, hrun, hsame.mpr hkeep⟩
    · exact absurd ((hkeep value hmem a ha).inRange ha) hrange

theorem everywhere_inMemory_scalar {id : LogicalTypeId} :
    LogicalType.Everywhere (LogicalType.InMemory layout) ⟨id, none⟩ := by
  refine .intro (fun info hinfo => ?_) fun child hchild => ?_
  · cases hinfo
  · cases hchild

def tinyIntType : LogicalType := ⟨.tinyInt, none⟩

theorem atMost_tinyInts (values : List Value) (h : values.length ≤ 2) :
    (encodeVector .words .floatless tinyIntType values values.length).AtMost 100 :=
  (atMost_fixedVector rfl rfl (by decide) (by omega)).mono (by omega)

theorem keepsIntegers_tinyInts :
    KeepsIntegers .words .floatless tinyIntType (.signed 8) [.int 5, .bool true] := by
  have hbytes (bytes : Bytes) (hok : encodeVector .words .floatless tinyIntType
      [.int 5, .bool true] 2 = .ok bytes) : bytes.length ≤ isizeMax :=
    (atMost_tinyInts [.int 5, .bool true] le_rfl bytes hok).trans (by decide)
  refine (keepsIntegers_iff rfl everywhere_inMemory_scalar ⟨by decide, by decide⟩ ?_ hbytes).mpr
    (.inr ?_)
  · simp [Value.integer]
  · simp [Value.integer, IntegerColumn.Keeps, SignedRange]

/-- A TINYINT column takes 300 and stores 44. -/
theorem not_keepsIntegers_tinyInt :
    ¬ KeepsIntegers .words .floatless tinyIntType (.signed 8) [.int 300] := by
  intro hkeeps
  have hword : storedFixed .floatless tinyIntType .int8 (.int 300) = .ok (.int 44) := rfl
  have hfits : FitsMemory .words tinyIntType [.int 300] :=
    fitsMemory_fixed rfl rfl ⟨by decide, by decide⟩
  have hstorable : ∀ value ∈ [Value.int 300], Storable .floatless tinyIntType value :=
    fun value hmem => List.mem_singleton.mp hmem ▸ .fixed rfl rfl (fun h => by cases h) hword
  have htrip := roundTrips_vector .refl (.fixed rfl rfl fun h => by cases h)
    everywhere_inMemory_scalar hfits hstorable
  obtain ⟨bytes, hok, -⟩ := htrip
  obtain ⟨e, he⟩ := hkeeps.refuses (.int 300) (List.mem_singleton_self _) 300 rfl
    (by simp [IntegerColumn.InRange, SignedRange])
  cases hok.symm.trans he

end QuackProtocol
