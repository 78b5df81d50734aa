import QuackProtocol.StoredValues

/-! A vector is read back as the stored values of its rows: the masks, the scalars of fixed size and
the strings first, then the nested vectors, given that their children are read back. -/

open Decoding Decode Varint

namespace QuackProtocol

variable {layout : Layout} {prims : Primitives}

theorem and_bit_ne_zero (byte : UInt8) {i : Nat} (h : i < 8) :
    (byte &&& (1 <<< UInt8.ofNat i) ≠ 0) ↔ byte.toNat.testBit i = true := by
  have hbits : ∀ (n : Fin 256) (i : Fin 8), (UInt8.ofNat n &&& (1 <<< UInt8.ofNat i) ≠ 0) ↔
      n.val.testBit i = true := by decide +kernel
  have := hbits ⟨byte.toNat, byte.toNat_lt⟩ ⟨i, h⟩
  rwa [UInt8.ofNat_toNat] at this

theorem testBit_set (byte : UInt8) {i j : Nat} (hi : i < 8) (hj : j < 8) :
    (byte ||| (1 <<< UInt8.ofNat i)).toNat.testBit j = (byte.toNat.testBit j || decide (i = j)) := by
  have hbit : ∀ i j : Fin 8, ((1 : UInt8) <<< UInt8.ofNat i).toNat.testBit j = decide (i = j) := by
    decide +kernel
  have := hbit ⟨i, hi⟩ ⟨j, hj⟩
  simp only [Fin.mk.injEq] at this
  rw [UInt8.toNat_or, Nat.testBit_or, this]

theorem maskBit_eq (bytes : Bytes) (row : Nat) :
    maskBit bytes row = (bytes.getD (row / 8) 0).toNat.testBit (row % 8) := by
  have hbit := and_bit_ne_zero (bytes.getD (row / 8) 0) (Nat.mod_lt row (by decide : 0 < 8))
  rw [maskBit, Bool.eq_iff_iff, decide_eq_true_eq]
  exact hbit

theorem length_markRow (bytes : Bytes) (row : Bool × Nat) :
    (markRow bytes row).length = bytes.length := by
  rw [markRow]
  split <;> simp

theorem maskBit_markRow {bytes : Bytes} {entry : Bool × Nat} (h : entry.2 / 8 < bytes.length)
    (row : Nat) :
    maskBit (markRow bytes entry) row = (maskBit bytes row || (entry.1 && entry.2 = row)) := by
  obtain ⟨valid, set⟩ := entry
  cases valid with
  | false => simp [markRow]
  | true =>
      rw [markRow, if_pos rfl, maskBit_eq, maskBit_eq, List.getD_eq_getElem?_getD,
        List.getD_eq_getElem?_getD, List.getElem?_modify]
      by_cases hbyte : set / 8 = row / 8
      · rw [← hbyte, List.getElem?_eq_getElem h]
        simp only [if_true, Option.map_eq_map, Option.map_some, Option.getD_some, Bool.true_and]
        rw [testBit_set _ (Nat.mod_lt _ (by decide)) (Nat.mod_lt _ (by decide))]
        congr 1
        exact decide_eq_decide.mpr (by omega)
      · rw [decide_eq_false (by omega : ¬ set = row)]
        simp [hbyte]

/-- The bits of the valid rows are set one after the other. -/
theorem maskBit_foldl {rows : List (Bool × Nat)} {bytes : Bytes} (row : Nat)
    (h : ∀ entry ∈ rows, entry.2 / 8 < bytes.length) :
    maskBit (rows.foldl markRow bytes) row =
      (maskBit bytes row || rows.any fun entry => entry.1 && entry.2 = row) := by
  induction rows generalizing bytes with
  | nil => simp
  | cons entry rows ih =>
      rw [List.foldl_cons, List.any_cons, ih fun other hmem => ?_,
        maskBit_markRow (h _ List.mem_cons_self), Bool.or_assoc]
      rw [length_markRow]
      exact h other (List.mem_cons_of_mem _ hmem)

theorem maskBit_zeros (size row : Nat) : maskBit (List.replicate size 0) row = false := by
  rw [maskBit_eq, List.getD_eq_getElem?_getD, List.getElem?_replicate]
  split <;> simp

theorem maskBit_writeValidityMask {validity : List Bool} {row : Nat} (h : row < validity.length) :
    maskBit (writeValidityMask validity) row = validity[row] := by
  have hsize : ∀ entry ∈ validity.zipIdx, entry.2 / 8 <
      (List.replicate (validityMaskSize validity.length) (0 : UInt8)).length := fun entry hmem => by
    have hlt := (List.mem_zipIdx hmem).2.1
    rw [List.length_replicate, validityMaskSize]
    omega
  rw [writeValidityMask, maskBit_foldl row hsize, maskBit_zeros, Bool.false_or, Bool.eq_iff_iff,
    List.any_eq_true]
  simp only [Bool.and_eq_true, decide_eq_true_eq]
  constructor
  · rintro ⟨⟨valid, index⟩, hmem, hvalid, rfl⟩
    have hget := List.mem_zipIdx_iff_getElem?.mp hmem
    rw [List.getElem?_eq_getElem h, Option.some.injEq] at hget
    exact hget.trans hvalid
  · intro hvalid
    refine ⟨(true, row), ?_, rfl, rfl⟩
    rw [List.mem_zipIdx_iff_getElem?, List.getElem?_eq_getElem h, hvalid]

theorem length_writeValidityMask (validity : List Bool) :
    (writeValidityMask validity).length = validityMaskSize validity.length := by
  have hlen : ∀ (rows : List (Bool × Nat)) (bytes : Bytes),
      (rows.foldl markRow bytes).length = bytes.length := by
    intro rows
    induction rows with
    | nil => exact fun _ => rfl
    | cons entry rows ih => exact fun bytes => (ih _).trans (length_markRow bytes entry)
  rw [writeValidityMask, hlen, List.length_replicate]

/-- The words on the wire, and the value they are read as. -/
inductive FixedWords (T : LogicalType) : PhysicalType → Bytes → Value → Prop where
  | bool (v : BitVec 8) : FixedWords T .bool (toLe 1 v.toNat) (.bool (v ≠ 0))
  | int8 (v : I8) : FixedWords T .int8 (toLe 1 v.toNat) (.int (v.signExtend 64))
  | uint8 (v : BitVec 8) {w : Value} (h : decodeEnumOrNumber T (v.setWidth 64) = .ok w) :
      FixedWords T .uint8 (toLe 1 v.toNat) w
  | int16 (v : I16) {w : Value} (h : decodeDecimalOrInt T (v.signExtend 128) = .ok w) :
      FixedWords T .int16 (toLe 2 v.toNat) w
  | uint16 (v : U16) {w : Value} (h : decodeEnumOrNumber T (v.setWidth 64) = .ok w) :
      FixedWords T .uint16 (toLe 2 v.toNat) w
  | int32 (v : I32) {w : Value} (h : decodeDateDecimalOrInt T v = .ok w) :
      FixedWords T .int32 (toLe 4 v.toNat) w
  | uint32 (v : U32) {w : Value} (h : decodeEnumOrNumber T (v.setWidth 64) = .ok w) :
      FixedWords T .uint32 (toLe 4 v.toNat) w
  | int64 (v : I64) {w : Value} (h : decodeInt64LogicalValue T v = .ok w) :
      FixedWords T .int64 (toLe 8 v.toNat) w
  | uint64 (v : U64) : FixedWords T .uint64 (toLe 8 v.toNat) (.uint v)
  | float (v : F32) : FixedWords T .float (toLe 4 v.toNat) (.float v)
  | double (v : F64) : FixedWords T .double (toLe 8 v.toNat) (.double v)
  | int128 (parts : HugeIntParts) {w : Value} (h : decodeInt128Parts T parts = .ok w) :
      FixedWords T .int128 (toLe 8 parts.lower.toNat ++ toLe 8 parts.upper.toNat) w
  | uint128 (parts : HugeIntParts) :
      FixedWords T .uint128 (toLe 8 parts.lower.toNat ++ toLe 8 parts.upper.toNat)
        (.uhugeInt (combineUnsignedHugeInt parts))
  | interval (v : IntervalValue) :
      FixedWords T .interval (toLe 4 v.months.toNat ++ toLe 4 v.days.toNat ++ toLe 8 v.micros.toNat)
        (.interval v)

theorem reads_fixedResult (size : Nat) (v : BitVec (8 * size)) {f : BitVec (8 * size) → Result Value}
    {w : Value} (h : f v = .ok w) :
    Reads layout (readFixed size >>= fun x => ofResult (f x)) (toLe size v.toNat) w :=
  (reads_readFixed size v).thenPure (by rw [h]; rfl)

theorem FixedWords.reads {T : LogicalType} {physicalType : PhysicalType} {bytes : Bytes}
    {value : Value} (h : FixedWords T physicalType bytes value) :
    Reads layout (decodeFixedValue T physicalType) bytes value := by
  cases h with
  | bool v => exact (reads_readFixed 1 v).thenPure rfl
  | int8 v => exact (reads_readFixed 1 v).thenPure rfl
  | uint8 v h => exact reads_fixedResult 1 v h
  | int16 v h | uint16 v h => exact reads_fixedResult 2 v h
  | int32 v h | uint32 v h => exact reads_fixedResult 4 v h
  | int64 v h => exact reads_fixedResult 8 v h
  | float v => exact (reads_readFixed 4 v).thenPure rfl
  | uint64 v | double v => exact (reads_readFixed 8 v).thenPure rfl
  | int128 parts h =>
      exact (reads_readFixed 8 parts.lower).bind
        ((reads_readFixed 8 parts.upper).thenPure (by rw [h]; rfl))
  | uint128 parts =>
      exact (reads_readFixed 8 parts.lower).bind ((reads_readFixed 8 parts.upper).thenPure rfl)
  | interval v =>
      rw [List.append_assoc]
      exact (reads_readFixed 4 v.months).bind
        ((reads_readFixed 4 v.days).bind ((reads_readFixed 8 v.micros).thenPure rfl))

theorem FixedWords.length {T : LogicalType} {physicalType : PhysicalType} {bytes : Bytes}
    {value : Value} (h : FixedWords T physicalType bytes value) :
    constantSize physicalType = some bytes.length := by
  cases h <;> simp [constantSize]

/-- A 128-bit number, from its halves. -/
theorem combineUnsignedHugeInt_split (v : U128) :
    combineUnsignedHugeInt ⟨(v >>> 64).setWidth 64, v.setWidth 64⟩ = v := by
  apply BitVec.eq_of_getLsbD_eq
  intro i hi
  simp only [combineUnsignedHugeInt, BitVec.getLsbD_or, BitVec.getLsbD_shiftLeft,
    BitVec.getLsbD_setWidth, BitVec.getLsbD_ushiftRight]
  by_cases h : i < 64
  · simp [h, hi]
  · have : 64 + (i - 64) = i := by omega
    have h' : i - 64 < 64 := by omega
    simp [h, hi, this, h', show i - 64 < 128 by omega]

theorem combineSignedHugeInt_split (v : I128) :
    combineSignedHugeInt (splitSignedHugeInt v) = v := by
  apply BitVec.eq_of_getLsbD_eq
  intro i hi
  simp only [combineSignedHugeInt, splitSignedHugeInt, BitVec.getLsbD_or, BitVec.getLsbD_shiftLeft,
    BitVec.getLsbD_setWidth, BitVec.getLsbD_signExtend, BitVec.getLsbD_sshiftRight]
  by_cases h : i < 64
  · simp [h, hi]
  · have : 64 + (i - 64) = i := by omega
    have h' : i - 64 < 64 := by omega
    simp [h, hi, this, h', show i - 64 < 128 by omega]

theorem fixedWords_of_stored {prims : Primitives} {T : LogicalType} {physicalType : PhysicalType}
    {value stored : Value} (hnull : value ≠ .null)
    (h : storedFixed prims T physicalType value = .ok stored) :
    ∃ bytes, encodeFixedValue prims T physicalType value = .ok bytes ∧
      FixedWords T physicalType bytes stored := by
  have hvalue := Value.isNull_eq_false hnull
  have hword : ∀ b : Bool, FixedWords T .bool (toLe 1 (if b then (1 : BitVec 8) else 0).toNat)
      (.bool b) := fun b => by
    cases b
    · exact .bool 0
    · exact .bool 1
  unfold storedFixed at h
  unfold encodeFixedValue
  rw [hvalue, if_neg Bool.false_ne_true]
  cases physicalType with
  | bool =>
      cases h
      refine ⟨_, rfl, ?_⟩
      exact hword value.isTrue
  | int8 =>
      obtain ⟨number, hnumber, h⟩ := Outcome.bind_eq_ok h
      cases h
      exact ⟨_, by rw [hnumber]; rfl, .int8 _⟩
  | uint8 =>
      obtain ⟨number, hnumber, h⟩ := Outcome.bind_eq_ok h
      exact ⟨_, by rw [hnumber]; rfl, .uint8 _ (Outcome.lift_eq_ok h)⟩
  | int16 =>
      obtain ⟨number, hnumber, h⟩ := Outcome.bind_eq_ok h
      exact ⟨_, by rw [hnumber]; rfl, .int16 _ (Outcome.lift_eq_ok h)⟩
  | uint16 =>
      obtain ⟨number, hnumber, h⟩ := Outcome.bind_eq_ok h
      exact ⟨_, by rw [hnumber]; rfl, .uint16 _ (Outcome.lift_eq_ok h)⟩
  | int32 =>
      obtain ⟨number, hnumber, h⟩ := Outcome.bind_eq_ok h
      exact ⟨_, by rw [hnumber]; rfl, .int32 _ (Outcome.lift_eq_ok h)⟩
  | uint32 =>
      obtain ⟨number, hnumber, h⟩ := Outcome.bind_eq_ok h
      exact ⟨_, by rw [hnumber]; rfl, .uint32 _ (Outcome.lift_eq_ok h)⟩
  | int64 =>
      obtain ⟨number, hnumber, h⟩ := Outcome.bind_eq_ok h
      exact ⟨_, by rw [hnumber]; rfl, .int64 _ (Outcome.lift_eq_ok h)⟩
  | uint64 =>
      obtain ⟨number, hnumber, h⟩ := Outcome.bind_eq_ok h
      cases h
      exact ⟨_, by rw [hnumber]; rfl, .uint64 _⟩
  | float =>
      obtain ⟨number, hnumber, h⟩ := Outcome.bind_eq_ok h
      cases h
      exact ⟨_, by rw [hnumber]; rfl, .float _⟩
  | double =>
      obtain ⟨number, hnumber, h⟩ := Outcome.bind_eq_ok h
      cases h
      exact ⟨_, by rw [hnumber]; rfl, .double _⟩
  | int128 =>
      obtain ⟨parts, hparts, h⟩ := Outcome.bind_eq_ok h
      exact ⟨_, by rw [hparts]; rfl, .int128 _ (Outcome.lift_eq_ok h)⟩
  | uint128 =>
      obtain ⟨number, hnumber, h⟩ := Outcome.bind_eq_ok h
      cases h
      refine ⟨_, by rw [hnumber]; rfl, ?_⟩
      have hwords := FixedWords.uint128 (T := T) ⟨(number >>> 64).setWidth 64, number.setWidth 64⟩
      rwa [combineUnsignedHugeInt_split] at hwords
  | interval =>
      cases value <;> cases h
      exact ⟨_, rfl, .interval _⟩
  | list | struct | array | varchar | bit | invalid => cases h

/-- A DECIMAL column that has a physical type carries its width and scale. -/
theorem decimalFromUnscaled_of_physical {T : LogicalType} {physicalType : PhysicalType}
    (physical : getPhysicalType T = .ok physicalType) (hid : T.id = .decimal) (v : I128) :
    ∃ decimal, decimalFromUnscaled T v = .ok decimal ∧ decimal.value = v := by
  rw [getPhysicalType, hid] at physical
  simp only [decimalPhysicalType, getDecimalWidthAndScale] at physical
  rw [decimalFromUnscaled]
  cases hinfo : T.typeInfo with
  | none =>
      rw [hinfo] at physical
      cases physical
  | some info =>
      rw [hinfo] at physical
      cases info with
      | decimal a width scale => exact ⟨⟨v, width, scale⟩, rfl, rfl⟩
      | _ => cases physical

/-- An ENUM column that has a physical type carries its labels. -/
theorem enumValues_of_physical {T : LogicalType} {physicalType : PhysicalType}
    (physical : getPhysicalType T = .ok physicalType) (hid : T.id = .enum) :
    ∃ labels, getEnumValues T = .ok labels := by
  rw [getPhysicalType, hid] at physical
  simp only [enumPhysicalType] at physical
  cases hlabels : getEnumValues T with
  | ok labels => exact ⟨labels, rfl⟩
  | error e =>
      rw [hlabels] at physical
      cases physical

/-- The words of a column that has a physical type are values, ENUM indices apart. -/
theorem decodeDecimalOrInt_ok {T : LogicalType} {physicalType : PhysicalType}
    (physical : getPhysicalType T = .ok physicalType) (v : I128) :
    ∃ w, decodeDecimalOrInt T v = .ok w := by
  rw [decodeDecimalOrInt]
  by_cases hid : T.id = .decimal
  · obtain ⟨decimal, hd, -⟩ := decimalFromUnscaled_of_physical physical hid v
    exact ⟨.decimal decimal, by rw [if_pos hid, hd]; rfl⟩
  · exact ⟨_, if_neg hid⟩

theorem decodeInt64LogicalValue_ok {T : LogicalType} {physicalType : PhysicalType}
    (physical : getPhysicalType T = .ok physicalType) (v : I64) :
    ∃ w, decodeInt64LogicalValue T v = .ok w := by
  rw [decodeInt64LogicalValue]
  split
  case h_9 hid =>
    obtain ⟨decimal, hd, -⟩ := decimalFromUnscaled_of_physical physical hid (v.signExtend 128)
    exact ⟨.decimal decimal, by rw [hd]; rfl⟩
  all_goals exact ⟨_, rfl⟩

theorem decodeInt128Parts_ok {T : LogicalType} {physicalType : PhysicalType}
    (physical : getPhysicalType T = .ok physicalType) (parts : HugeIntParts) :
    ∃ w, decodeInt128Parts T parts = .ok w := by
  rw [decodeInt128Parts]
  by_cases huuid : T.id = .uuid
  · exact ⟨_, if_pos huuid⟩
  · rw [if_neg huuid]
    by_cases hid : T.id = .decimal
    · obtain ⟨decimal, hd, -⟩ := decimalFromUnscaled_of_physical physical hid (combineSignedHugeInt parts)
      exact ⟨.decimal decimal, by rw [if_pos hid, hd]; rfl⟩
    · exact ⟨_, if_neg hid⟩

/-- The word that a NULL row leaves in the data can be read as some value. -/
theorem fixedWords_zero {T : LogicalType} {physicalType : PhysicalType}
    (physical : getPhysicalType T = .ok physicalType)
    (size : isConstantSizePhysicalType physicalType = true)
    (labels : T.id = .enum → getEnumValues T ≠ .ok []) :
    ∃ bytes w, encodeFixedValue prims T physicalType .null = .ok bytes ∧
      FixedWords T physicalType bytes w := by
  have henum : ∃ w, decodeEnumOrNumber T 0 = .ok w := by
    rw [decodeEnumOrNumber]
    by_cases hid : T.id = .enum
    · obtain ⟨values, hvalues⟩ := enumValues_of_physical physical hid
      rw [if_neg (not_not.mpr hid), hvalues]
      cases values with
      | nil => exact absurd hvalues (labels hid)
      | cons label values => exact ⟨.string label, rfl⟩
    · exact ⟨_, if_pos hid⟩
  have hnumber : ∃ w, decodeDecimalOrInt T 0 = .ok w := decodeDecimalOrInt_ok physical 0
  cases physicalType with
  | bool => exact ⟨_, _, rfl, .bool 0⟩
  | int8 => exact ⟨_, _, rfl, .int8 0⟩
  | uint64 => exact ⟨_, _, rfl, .uint64 0⟩
  | float => exact ⟨_, _, rfl, .float 0⟩
  | double => exact ⟨_, _, rfl, .double 0⟩
  | uint128 => exact ⟨_, _, rfl, .uint128 ⟨0, 0⟩⟩
  | interval => exact ⟨_, _, rfl, .interval ⟨0, 0, 0⟩⟩
  | uint8 => exact henum.elim fun w h => ⟨_, w, rfl, .uint8 0 h⟩
  | uint16 => exact henum.elim fun w h => ⟨_, w, rfl, .uint16 0 h⟩
  | uint32 => exact henum.elim fun w h => ⟨_, w, rfl, .uint32 0 h⟩
  | int16 => exact hnumber.elim fun w h => ⟨_, w, rfl, .int16 0 h⟩
  | int32 =>
      have hdate : ∃ w, decodeDateDecimalOrInt T 0 = .ok w := by
        rw [decodeDateDecimalOrInt]
        split
        · exact ⟨_, rfl⟩
        · exact hnumber
      exact hdate.elim fun w h => ⟨_, w, rfl, .int32 0 h⟩
  | int64 =>
      exact (decodeInt64LogicalValue_ok physical 0).elim fun w h => ⟨_, w, rfl, .int64 0 h⟩
  | int128 =>
      exact (decodeInt128Parts_ok physical ⟨0, 0⟩).elim fun w h => ⟨_, w, rfl, .int128 ⟨0, 0⟩ h⟩
  | list | struct | array | varchar | bit | invalid => cases size

theorem Layout.Fits.sixteen_mul_le {count : Nat} (h : layout.Fits .value count) :
    16 * count ≤ isizeMax := by
  have hmul := Nat.mul_le_mul_left count layout.sixteen_le_value
  have := h.size_le
  omega

theorem Layout.Fits.of_value {count : Nat} (h : layout.Fits .value count) {element : Element}
    (helement : element ∈ [Element.bool, .usize, .blob, .listEntry]) :
    layout.Fits element count :=
  ⟨h.count_lt, (Nat.mul_le_mul_left count (layout.le_value element helement)).trans h.size_le⟩

theorem Layout.Fits.mono {count fewer : Nat} {element : Element} (h : layout.Fits element count)
    (hle : fewer ≤ count) : layout.Fits element fewer :=
  ⟨hle.trans_lt h.count_lt, (Nat.mul_le_mul_right _ hle).trans h.size_le⟩

/-- The validity mask of a column, where it needs one. -/
def maskOf (values : List Value) : Option (List Bool) :=
  if values.any Value.isNull then some (values.map fun value => !value.isNull) else none

theorem reads_isValid {values : List Value} {row : Nat} (h : row < values.length) :
    Reads layout (isValid (maskOf values) row) [] (!values[row].isNull) := by
  rw [maskOf]
  by_cases hany : values.any Value.isNull = true
  · rw [if_pos hany]
    exact Reads.index (by rw [List.getElem?_map, List.getElem?_eq_getElem h]; rfl)
  · rw [if_neg hany]
    have hvalid : values[row].isNull = false := by
      rw [Bool.not_eq_true, List.any_eq_false] at hany
      simpa using hany values[row] (List.getElem_mem h)
    rw [hvalid]
    exact ReadsBefore.pure true

theorem reads_maskedRow {values : List Value} {row : Nat} (h : row < values.length)
    {read : Decoder Value} {w : Value} (hnull : values[row] = .null → w = .null)
    (hread : values[row] ≠ .null → Reads layout read [] w) :
    Reads layout (maskedRow (maskOf values) row read) [] w := by
  refine (reads_isValid h).bind_nil ?_
  by_cases hvalue : values[row] = .null
  · rw [hvalue, hnull hvalue]
    exact ReadsBefore.pure Value.null
  · rw [Value.isNull_eq_false hvalue]
    exact hread hvalue

theorem roundTrips_validityMask {validity : List Bool} (hfits : layout.Fits .value validity.length) :
    RoundTrips layout (writeBlob (writeValidityMask validity))
      (readValidityMask validity.length) validity := by
  have hsize := hfits.sixteen_mul_le
  have hlen : (writeValidityMask validity).length = (validity.length + 63) / 64 * 8 :=
    length_writeValidityMask validity
  have hblob : Held (writeValidityMask validity) := by
    rw [Held, hlen]
    simp only [isizeMax] at *
    omega
  have hmul : (validity.length + 63) / 64 * 8 < usizeLimit := by
    simp only [isizeMax, usizeLimit] at *
    omega
  refine .of_reads ((Reads.usizeMul hmul).bind_nil ((reads_readBlob hblob).thenReads ?_))
  rw [if_neg (not_not.mpr hlen)]
  refine (reads_withCapacity (hfits.of_value (by simp))).bind_nil (ReadsBefore.of_nil (.pure _) ?_)
  congr 1
  apply List.ext_getElem (by simp)
  intro row hrow hrow'
  rw [List.getElem_map, List.getElem_range, maskBit_writeValidityMask]

theorem fieldTrip_mask {values : List Value} (hfits : layout.Fits .value values.length) :
    FieldTrip layout 100 102 (writeMask values) (readMask values.length) (maskOf values) := by
  have hany : ((values.map fun value => !value.isNull).any fun valid => !valid) =
      values.any Value.isNull := by
    simp [List.any_map, Function.comp_def]
  rw [writeMask, hany, maskOf]
  refine .cons 101 (.required (.bool _) (by decide)) ?_
  cases values.any Value.isNull with
  | true =>
      have hmask : RoundTrips layout (writeBlob (writeValidityMask (values.map fun value => !value.isNull)))
          (readValidityMask values.length) (values.map fun value => !value.isNull) := by
        have hlen : (values.map fun value => !value.isNull).length = values.length := by simp
        rw [← hlen]
        exact roundTrips_validityMask (by rwa [hlen])
      exact .cons _ (.required hmask (by decide)) (.nil _)
  | false => exact .cons 102 (.weaken (.nil none) (by decide)) (.nil _)

theorem fieldTrip_geometry {T T' : LogicalType} (h : T'.id = T.id) :
    FieldTrip layout 99 100 (writeGeometryField T) (skipGeometryField T') () := by
  rw [writeGeometryField, skipGeometryField, h]
  by_cases hgeo : T.id = .geometry
  · rw [if_pos hgeo, if_pos hgeo]
    have hfield : FieldTrip layout 99 100 (writeField 99 (writeUleb 1))
        (readRequiredField 99 readUlebU64 >>= fun _ => pure ()) () :=
      (FieldTrip.required (.uleb64 1) (by decide)).thenReads (ReadsBefore.pure ())
    obtain ⟨bytes, hwrite, hhead, hread⟩ := hfield
    cases hwrite
    refine ⟨_, rfl, hhead, fun c hc rest hrest hunread => ?_⟩
    have hpeek : peekFieldId.run layout c = .ok (99, c) :=
      peeks_fieldId (by decide) hc (by rw [hunread, List.append_assoc])
    rw [run_bind_ok hpeek, if_pos rfl]
    exact hread c hc rest hrest hunread
  · rw [if_neg hgeo, if_neg hgeo]
    exact ⟨[], rfl, fun _ h => h.mono (by decide), ReadsBefore.pure ()⟩

section
variable {φ : LogicalType → LogicalType} {T : LogicalType} {physicalType : PhysicalType}
  {decodeVector : LogicalType → Nat → Decoder DecodedVector} {values : List Value}

/-- The word of a row, whether NULL or not. -/
theorem fixedWords_row {value : Value} (physical : getPhysicalType T = .ok physicalType)
    (size : isConstantSizePhysicalType physicalType = true)
    (labels : T.id = .enum → getEnumValues T ≠ .ok []) (hvalue : Storable prims T value) :
    ∃ bytes w, encodeFixedValue prims T physicalType value = .ok bytes ∧
      FixedWords T physicalType bytes w ∧ (value ≠ .null → stored prims T value = w) := by
  by_cases hnull : value = .null
  · obtain ⟨bytes, w, hwrite, hwords⟩ := fixedWords_zero physical size labels
    exact ⟨bytes, w, hnull ▸ hwrite, hwords, absurd hnull⟩
  · obtain ⟨w, hw⟩ := hvalue.word physical size hnull
    obtain ⟨bytes, hwrite, hwords⟩ := fixedWords_of_stored hnull hw
    exact ⟨bytes, w, hwrite, hwords, fun _ => stored_fixed physical size hnull hw⟩

theorem roundTrips_fixedRow {row : Nat} (hrow : row < values.length)
    (physical : getPhysicalType T = .ok physicalType)
    (size : isConstantSizePhysicalType physicalType = true)
    (labels : T.id = .enum → getEnumValues T ≠ .ok [])
    (hvalue : Storable prims T values[row]) :
    RoundTrips layout (encodeFixedValue prims T physicalType values[row])
      (do
        let value ← decodeFixedValue T physicalType
        let valid ← isValid (maskOf values) row
        pure (if valid then value else .null))
      (stored prims T values[row]) := by
  obtain ⟨bytes, w, hwrite, hwords, hw⟩ := fixedWords_row physical size labels hvalue
  refine ⟨bytes, hwrite, hwords.reads.thenReads ((reads_isValid hrow).thenPure ?_)⟩
  by_cases hnull : values[row] = .null
  · rw [hnull, stored_null]
    rfl
  · rw [Value.isNull_eq_false hnull, hw hnull]
    rfl

theorem fieldTrip_fixed (hφ : SameVectors φ) (hfits : layout.Fits .value values.length)
    (physical : getPhysicalType T = .ok physicalType)
    (size : isConstantSizePhysicalType physicalType = true)
    (labels : T.id = .enum → getEnumValues T ≠ .ok [])
    (hvalues : ∀ value ∈ values, Storable prims T value) :
    FieldTrip layout 102 fieldEnd (encodeFlatData layout prims T values values.length)
      (decodeFlatData decodeVector (φ T) physicalType values.length (maskOf values))
      (values.map (stored prims T)) := by
  obtain ⟨width, hwidth⟩ := Option.isSome_iff_exists.mp size
  have hbytes : width * values.length ≤ isizeMax :=
    (Nat.mul_le_mul_right _ (constantSize_le hwidth)).trans hfits.sixteen_mul_le
  have hlimit : width * values.length < usizeLimit := by
    simp only [isizeMax, usizeLimit] at *
    omega
  have hsize : physicalTypeSize physicalType = .ok width := by
    rw [physicalTypeSize, hwidth]
  obtain ⟨data, hdata, hread⟩ : RoundTrips layout
      (Encode.all (values.map (encodeFixedValue prims T physicalType)))
      (collect (fun row => do
        let value ← decodeFixedValue T physicalType
        let valid ← isValid (maskOf values) row
        pure (if valid then value else .null)) 0 (values.map (stored prims T)).length)
      (values.map (stored prims T)) := by
    apply RoundTrips.all 0 (by simp)
    intro row hrow hrow'
    rw [List.length_map] at hrow
    rw [List.getElem_map, List.getElem_map, Nat.zero_add]
    exact roundTrips_fixedRow hrow physical size labels (hvalues _ (List.getElem_mem hrow))
  have hlen : data.length = width * values.length := by
    refine (Encode.length_all (fun action hmem => ?_) hdata).trans (by rw [List.length_map])
    obtain ⟨value, hvalue, rfl⟩ := List.mem_map.mp hmem
    obtain ⟨bytes, w, hwrite, hwords, -⟩ :=
      fixedWords_row physical size labels (hvalues value hvalue)
    refine ⟨bytes, hwrite, ?_⟩
    exact Option.some.inj (hwords.length.symm.trans hwidth)
  have hheld : Held data := by rwa [Held, hlen]
  have hdecode : Reads layout
      (decodeFixedValues T physicalType data values.length (maskOf values)) []
      (values.map (stored prims T)) := by
    rw [List.length_map] at hread
    have hend : ∀ ws : List Value, ReadsBefore layout (fun rest => rest = [])
        (assertEof >>= fun _ => (pure ws : Decoder (List Value))) [] ws := fun ws =>
      reads_assertEof.bind (.pure ws) fun _ h => h
    refine (reads_withCapacity hfits).bind_nil (Reads.onBytes ?_ hheld)
    rw [← List.append_nil data]
    exact ReadsBefore.bind hread (hend _) fun _ _ => trivial
  have hencode : encodeFlatData layout prims T values values.length =
      writeField 102 (writeBlob data) := by
    rw [encodeFlatData, physical]
    show (if _ then _ else _) = _
    rw [if_pos size, encodeFixedVectorBody, hsize]
    show (do Outcome.check _ _; Outcome.check _ _; _) = _
    rw [Outcome.check, if_pos hlimit, Outcome.check, if_pos hbytes, hdata]
    rfl
  rw [hencode, decodeFlatData.eq_def, if_pos size, decodeFixedVector]
  refine .ofResult hsize ?_
  have hblob : FieldTrip layout 102 fieldEnd (writeField 102 (writeBlob data))
      (readRequiredField 102 readBlob) data := .required (.blob hheld) (by decide)
  have hproduct : Reads layout (audit (.product width values.length)
      (usizeMul width values.length) : Decoder Nat) [] (width * values.length) :=
    (Reads.usizeMul hlimit).audit _
  refine .afterReads hproduct (hblob.thenReads ?_)
  rw [if_neg (not_not.mpr hlen)]
  rw [decodeFixedValues, hφ.decodeFixed]
  exact hdecode

theorem roundTrips_string {value : Value} (hvalue : Storable prims T value)
    (physical : getPhysicalType T = .ok .varchar) :
    ∃ raw, RoundTrips layout (do
        let bytes ← encodeStringLikeValue prims value
        writeStringBytes bytes) readStringBytes raw ∧
      (value ≠ .null → decodeStringLikeValue T raw = .ok (stored prims T value)) := by
  by_cases hnull : value = .null
  · subst hnull
    exact ⟨[], .stringBytes (Nat.zero_le _), absurd rfl⟩
  · obtain ⟨raw, htext, hheld, hback⟩ := hvalue.text physical hnull
    rw [htext]
    exact ⟨raw, .stringBytes hheld, fun _ => hback⟩

theorem fieldTrip_varchar (hφ : SameVectors φ) (hfits : layout.Fits .value values.length)
    (physical : getPhysicalType T = .ok .varchar)
    (hvalues : ∀ value ∈ values, Storable prims T value) :
    FieldTrip layout 102 fieldEnd (encodeFlatData layout prims T values values.length)
      (decodeFlatData decodeVector (φ T) .varchar values.length (maskOf values))
      (values.map (stored prims T)) := by
  have htrips : ∀ value ∈ values, ∃ raw, RoundTrips layout (do
        let bytes ← encodeStringLikeValue prims value
        writeStringBytes bytes) readStringBytes raw ∧
      (value ≠ .null → decodeStringLikeValue T raw = .ok (stored prims T value)) := by
    intro value hmem
    exact roundTrips_string (hvalues value hmem) physical
  choose! raw hraw using htrips
  have hencode : encodeFlatData layout prims T values values.length =
      encodeVarcharVectorBody prims values := by
    rw [encodeFlatData, physical]
    rfl
  have hlist : RoundTrips layout (writeList (values.map fun value => do
      let bytes ← encodeStringLikeValue prims value
      writeStringBytes bytes)) (readList .blob fun _ => readStringBytes) (values.map raw) :=
    .listMap (hfits.of_value (by simp)) fun value hmem => (hraw value hmem).1
  rw [hencode]
  apply FieldTrip.thenReads (.required hlist (by decide))
  refine (Reads.record _).bind_nil ?_
  rw [List.length_map, ← List.length_map (stored prims T)]
  apply Reads.collect_nil
  intro row hrow
  rw [List.length_map] at hrow
  rw [List.getElem_map]
  refine ((reads_isValid hrow).audit _).bind_nil ?_
  by_cases hnull : values[row] = .null
  · rw [hnull, stored_null]
    exact ReadsBefore.pure Value.null
  · rw [Value.isNull_eq_false hnull]
    have hindex : (values.map raw)[row]? = some (raw values[row]) := by
      rw [List.getElem?_map, List.getElem?_eq_getElem hrow]
      rfl
    refine (Reads.index hindex).bind_nil (.ofResult ?_)
    rw [hφ.decodeStringLike]
    exact (hraw _ (List.getElem_mem hrow)).2 hnull

end

theorem gatherLists_cons {offset : Nat} {value : Value} {values childValues : List Value}
    {entries : List ListEntry} (h : gatherLists offset (value :: values) = .ok (entries, childValues)) :
    (value = .null ∧ ∃ rest, gatherLists offset values = .ok (rest, childValues) ∧
      entries = ⟨0, 0⟩ :: rest) ∨
    ∃ items rest others, value = .list items ∧
      gatherLists (offset + items.length) values = .ok (rest, others) ∧
      entries = ⟨offset, items.length⟩ :: rest ∧ childValues = items ++ others := by
  cases value with
  | null =>
      cases htail : gatherLists offset values with
      | error e =>
          rw [gatherLists, htail] at h
          cases h
      | ok out =>
          rw [gatherLists, htail] at h
          cases h
          exact .inl ⟨rfl, _, rfl, rfl⟩
  | list items =>
      cases htail : gatherLists (offset + items.length) values with
      | error e =>
          rw [gatherLists, htail] at h
          cases h
      | ok out =>
          rw [gatherLists, htail] at h
          cases h
          exact .inr ⟨items, _, _, rfl, htail, rfl, rfl⟩
  | _ => cases h

/-- Each entry of a list column points at the items of its row. -/
theorem gatherLists_entry {offset : Nat} {values childValues : List Value} {entries : List ListEntry}
    (h : gatherLists offset values = .ok (entries, childValues)) :
    entries.length = values.length ∧
      ∀ row (hrow : row < values.length) (hrow' : row < entries.length),
        (values[row] = .null ∧ entries[row] = ⟨0, 0⟩) ∨
        ∃ items before, values[row] = .list items ∧
          entries[row] = ⟨offset + before, items.length⟩ ∧
          before + items.length ≤ childValues.length ∧
          (childValues.drop before).take items.length = items := by
  induction values generalizing offset entries childValues with
  | nil =>
      cases h
      exact ⟨rfl, fun row hrow => absurd hrow (Nat.not_lt_zero row)⟩
  | cons value values ih =>
      rcases gatherLists_cons h with ⟨rfl, rest, htail, rfl⟩ | ⟨items, rest, others, rfl, htail, rfl, rfl⟩
      · obtain ⟨hlen, hrows⟩ := ih htail
        refine ⟨congrArg (· + 1) hlen, fun row hrow hrow' => ?_⟩
        cases row with
        | zero => exact .inl ⟨rfl, rfl⟩
        | succ row => exact hrows row (by simpa using hrow) (by simpa using hrow')
      · obtain ⟨hlen, hrows⟩ := ih htail
        refine ⟨congrArg (· + 1) hlen, fun row hrow hrow' => ?_⟩
        cases row with
        | zero => exact .inr ⟨items, 0, rfl, rfl, by simp, by simp⟩
        | succ row =>
            rcases hrows row (by simpa using hrow) (by simpa using hrow') with hnull | hlist
            · exact .inl hnull
            · obtain ⟨inner, before, hvalue, hentry, hle, htake⟩ := hlist
              refine .inr ⟨inner, items.length + before, hvalue, ?_, ?_, ?_⟩
              · exact hentry.trans (by rw [Nat.add_assoc])
              · rw [List.length_append]
                omega
              · rw [List.drop_length_add_append, htake]

theorem gatherLists_ok {values : List Value} (offset : Nat)
    (h : ∀ value ∈ values, value ≠ .null → ∃ items, value = .list items) :
    ∃ entries childValues, gatherLists offset values = .ok (entries, childValues) := by
  induction values generalizing offset with
  | nil => exact ⟨[], [], rfl⟩
  | cons value values ih =>
      obtain ⟨hvalue, hvalues⟩ := List.forall_mem_cons.mp h
      by_cases hnull : value = .null
      · obtain ⟨entries, childValues, htail⟩ := ih offset hvalues
        exact ⟨_, _, by rw [hnull, gatherLists, htail]; rfl⟩
      · obtain ⟨items, rfl⟩ := hvalue hnull
        obtain ⟨entries, childValues, htail⟩ := ih (offset + items.length) hvalues
        exact ⟨_, _, by rw [gatherLists, htail]; rfl⟩

theorem mem_gatherLists {offset : Nat} {values childValues : List Value} {entries : List ListEntry}
    (h : gatherLists offset values = .ok (entries, childValues)) {item : Value}
    (hitem : item ∈ childValues) : ∃ items, .list items ∈ values ∧ item ∈ items := by
  induction values generalizing offset entries childValues with
  | nil =>
      cases h
      cases hitem
  | cons value values ih =>
      rcases gatherLists_cons h with ⟨rfl, rest, htail, rfl⟩ | ⟨items, rest, others, rfl, htail, rfl, rfl⟩
      · obtain ⟨items, hmem, hin⟩ := ih htail hitem
        exact ⟨items, List.mem_cons_of_mem _ hmem, hin⟩
      · rcases List.mem_append.mp hitem with hin | hin
        · exact ⟨items, List.mem_cons_self, hin⟩
        · obtain ⟨items, hmem, hin⟩ := ih htail hin
          exact ⟨items, List.mem_cons_of_mem _ hmem, hin⟩

theorem gatherArrays_cons {arraySize : Nat} {value : Value} {values childValues : List Value}
    (h : gatherArrays arraySize (value :: values) = .ok childValues) :
    ∃ items others, (value = .null ∧ items = List.replicate arraySize .null ∨ value = .list items) ∧
      items.length = arraySize ∧ gatherArrays arraySize values = .ok others ∧
      childValues = items ++ others := by
  cases value with
  | null =>
      cases htail : gatherArrays arraySize values with
      | error e =>
          rw [gatherArrays, htail] at h
          cases h
      | ok others =>
          rw [gatherArrays, htail] at h
          cases h
          exact ⟨_, others, .inl ⟨rfl, rfl⟩, List.length_replicate, rfl, rfl⟩
  | list items =>
      rw [gatherArrays] at h
      by_cases hlen : items.length = arraySize
      · rw [if_pos hlen] at h
        cases htail : gatherArrays arraySize values with
        | error e =>
            rw [htail] at h
            cases h
        | ok others =>
            rw [htail] at h
            cases h
            exact ⟨items, others, .inr rfl, hlen, rfl, rfl⟩
      · rw [if_neg hlen] at h
        cases h
  | _ => cases h

/-- The rows of an array column lie one after the other. -/
theorem gatherArrays_row {arraySize : Nat} {values childValues : List Value}
    (h : gatherArrays arraySize values = .ok childValues) :
    childValues.length = values.length * arraySize ∧
      ∀ row (hrow : row < values.length) items, values[row] = .list items →
        (childValues.drop (row * arraySize)).take arraySize = items := by
  induction values generalizing childValues with
  | nil =>
      cases h
      exact ⟨by simp, fun row hrow => absurd hrow (Nat.not_lt_zero row)⟩
  | cons value values ih =>
      obtain ⟨items, others, hvalue, hlen, htail, rfl⟩ := gatherArrays_cons h
      obtain ⟨hothers, hrows⟩ := ih htail
      refine ⟨?_, fun row hrow inner hinner => ?_⟩
      · rw [List.length_append, hlen, hothers, List.length_cons, Nat.succ_mul, Nat.add_comm]
      · cases row with
        | zero =>
            rcases hvalue with ⟨rfl, -⟩ | rfl
            · cases hinner
            · cases hinner
              rw [Nat.zero_mul, List.drop_zero, ← hlen, List.take_left]
        | succ row =>
            have hdrop : (items ++ others).drop (items.length + row * arraySize) =
                others.drop (row * arraySize) := List.drop_length_add_append _
            rw [hlen] at hdrop
            rw [Nat.succ_mul, Nat.add_comm, hdrop]
            exact hrows row (by simpa using hrow) inner hinner

theorem gatherArrays_ok {arraySize : Nat} {values : List Value}
    (h : ∀ value ∈ values, value ≠ .null → ∃ items, value = .list items ∧ items.length = arraySize) :
    ∃ childValues, gatherArrays arraySize values = .ok childValues := by
  induction values with
  | nil => exact ⟨[], rfl⟩
  | cons value values ih =>
      obtain ⟨hvalue, hvalues⟩ := List.forall_mem_cons.mp h
      obtain ⟨childValues, htail⟩ := ih hvalues
      by_cases hnull : value = .null
      · exact ⟨_, by rw [hnull, gatherArrays, htail]; rfl⟩
      · obtain ⟨items, rfl, hlen⟩ := hvalue hnull
        exact ⟨_, by rw [gatherArrays, if_pos hlen, htail]; rfl⟩

theorem mem_gatherArrays {arraySize : Nat} {values childValues : List Value}
    (h : gatherArrays arraySize values = .ok childValues) {item : Value}
    (hitem : item ∈ childValues) : item = .null ∨ ∃ items, .list items ∈ values ∧ item ∈ items := by
  induction values generalizing childValues with
  | nil =>
      cases h
      cases hitem
  | cons value values ih =>
      obtain ⟨items, others, hvalue, -, htail, rfl⟩ := gatherArrays_cons h
      rcases List.mem_append.mp hitem with hin | hin
      · rcases hvalue with ⟨rfl, rfl⟩ | rfl
        · exact .inl (List.eq_of_mem_replicate hin)
        · exact .inr ⟨items, List.mem_cons_self, hin⟩
      · rcases ih htail hin with hnull | ⟨items, hmem, hin⟩
        · exact .inl hnull
        · exact .inr ⟨items, List.mem_cons_of_mem _ hmem, hin⟩

/-- The fields of a row, once every child has a vector. -/
theorem structRow_eq {γ : Type} {items : List γ} {child : γ → ChildType}
    {vectors : List DecodedVector} {row : Nat} {field : γ → Value}
    (h : ∀ i (hi : i < items.length), ∃ vector, vectors[i]? = some vector ∧
      (vector.values[row]?).getD .null = field items[i]) :
    structRow (items.map child) vectors row =
      .ok (Row.ofFields (items.map fun item => ((child item).name, field item))) := by
  have hfold : ∀ (items : List γ) (start : Nat) (fields : Row),
      (∀ i (hi : i < items.length), ∃ vector, vectors[start + i]? = some vector ∧
        (vector.values[row]?).getD .null = field items[i]) →
      ((items.map child).zipIdx start).foldlM (insertChild vectors row) fields =
      .ok ((items.map fun item => ((child item).name, field item)).foldl
        (fun row field => Row.insert row field.1 field.2) fields) := by
    intro items
    induction items with
    | nil => exact fun _ _ _ => rfl
    | cons item items ih =>
        intro start fields hitems
        obtain ⟨vector, hvector, hfield⟩ := hitems 0 (by simp)
        rw [Nat.add_zero] at hvector
        rw [List.map_cons, List.zipIdx_cons, List.foldlM_cons, insertChild]
        simp only [hvector, hfield]
        refine (ih (start + 1) _ fun i hi => ?_).trans rfl
        obtain ⟨vector, hvector, hfield⟩ := hitems (i + 1) (by simpa using hi)
        exact ⟨vector, by rw [← hvector, Nat.add_assoc, Nat.add_comm 1], hfield⟩
  exact hfold items 0 [] fun i hi => by
    rw [Nat.zero_add]
    exact h i hi

theorem encodeStructVectorBody_eq {T : LogicalType} {children : List ChildType}
    (h : getStructChildren T = .ok children) (values : List Value) (count : Nat) :
    encodeStructVectorBody layout prims T values count =
      writeField 103 (writeList (children.map fun child =>
        encodeVector layout prims child.logicalType (structColumn child.name values) count)) := by
  rw [encodeStructVectorBody]
  split
  · rename_i cs hcs
    cases h.symm.trans hcs
    rw [List.attach_map_val (f := fun (child : ChildType) =>
      encodeVector layout prims child.logicalType (structColumn child.name values) count)]
  · rename_i e he
    cases h.symm.trans he

theorem childVectors_struct {T : LogicalType} {children : List ChildType} (values : List Value)
    (physical : getPhysicalType T = .ok .struct) (h : getStructChildren T = .ok children) :
    childVectors T values =
      children.map fun child => (child.logicalType, structColumn child.name values) := by
  rw [childVectors, physical]
  simp only [h]

theorem structChildren_holds {T : LogicalType} {children : List ChildType}
    (hheld : T.InMemory layout) (h : getStructChildren T = .ok children) :
    layout.Holds children.length := by
  unfold getStructChildren at h
  split at h
  · rename_i _ _ hinfo
    cases h
    exact (hheld _ hinfo).lengths _ (by simp [ExtraTypeInfo.lengths])
  · split at h
    · cases h
      exact fun element => ⟨by decide, by simp⟩
    · cases h

section
variable {φ : LogicalType → LogicalType} {T childType : LogicalType} {values : List Value}
  {decodeVector : LogicalType → Nat → Decoder DecodedVector}

/-- The children of a vector are read back as the stored values of what was gathered for them. -/
def ChildrenTrip (layout : Layout) (prims : Primitives) (φ : LogicalType → LogicalType)
    (decodeVector : LogicalType → Nat → Decoder DecodedVector) (T : LogicalType)
    (values : List Value) : Prop :=
  ∀ part ∈ childVectors T values,
    RoundTrips layout (encodeVector layout prims part.1 part.2 part.2.length)
      (decodeVector (φ part.1) part.2.length)
      ⟨φ part.1, .flat, part.2.map (stored prims part.1)⟩

/-- The vector that is read back for a field of a struct column. -/
def fieldVector (prims : Primitives) (φ : LogicalType → LogicalType) (values : List Value)
    (child : ChildType) : DecodedVector :=
  ⟨φ child.logicalType, .flat, (structColumn child.name values).map (stored prims child.logicalType)⟩

theorem structRow_fieldVectors (children : List ChildType) {row : Nat} (hrow : row < values.length) :
    structRow (children.map (ChildType.under φ)) (children.map (fieldVector prims φ values)) row =
      .ok (Row.ofFields (children.map fun child =>
        (child.name, stored prims child.logicalType (structField child.name values[row])))) := by
  refine structRow_eq fun i hi => ⟨fieldVector prims φ values children[i], ?_, ?_⟩
  · rw [List.getElem?_map, List.getElem?_eq_getElem hi]
    rfl
  · simp [fieldVector, structColumn, List.getElem?_eq_getElem hrow]

theorem fieldTrip_struct {children : List ChildType} (hφ : SameVectors φ)
    (hfits : layout.Fits .value values.length) (hheld : T.InMemory layout)
    (physical : getPhysicalType T = .ok .struct) (hchildren : getStructChildren T = .ok children)
    (hchild : ChildrenTrip layout prims φ decodeVector T values) :
    FieldTrip layout 102 fieldEnd (encodeFlatData layout prims T values values.length)
      (decodeFlatData decodeVector (φ T) .struct values.length (maskOf values))
      (values.map (stored prims T)) := by
  have hencode : encodeFlatData layout prims T values values.length =
      encodeStructVectorBody layout prims T values values.length := by
    rw [encodeFlatData, physical]
    rfl
  have hsee : getStructChildren (φ T) = .ok (children.map (ChildType.under φ)) := by
    rw [hφ.sameChildren, hchildren]
    rfl
  have hlist {read : Nat → Decoder DecodedVector} (hread : ∀ (i : Nat) (child : ChildType),
      (children.map (ChildType.under φ))[i]? = some child →
        read i = decodeVector child.logicalType values.length) :
      RoundTrips layout (writeList (children.map fun child =>
        encodeVector layout prims child.logicalType (structColumn child.name values) values.length))
      (readList .decodedVector read) (children.map (fieldVector prims φ values)) := by
    refine RoundTrips.list (by simp) ?_ fun i hi hi' => ?_
    · rw [List.length_map]
      exact structChildren_holds hheld hchildren _
    · rw [List.length_map] at hi
      have hpart := hchild (children[i].logicalType, structColumn children[i].name values) (by
        rw [childVectors_struct values physical hchildren]
        exact List.mem_map_of_mem (List.getElem_mem hi))
      have hlen : (structColumn children[i].name values).length = values.length := by
        simp [structColumn]
      have hunder : (children.map (ChildType.under φ))[i]? = some (children[i].under φ) := by
        rw [List.getElem?_map, List.getElem?_eq_getElem hi, Option.map_some]
      rw [hlen] at hpart
      rw [hread i _ hunder, List.getElem_map, List.getElem_map]
      exact hpart
  rw [hencode, encodeStructVectorBody_eq hchildren]
  refine FieldTrip.weaken (.ofResult hsee (.thenReads
    (.required (hlist fun i child h => by simp only [h]) (by decide)) ?_)) (by decide : 102 ≤ 103)
  refine (reads_withCapacity hfits).bind_nil ?_
  rw [← List.length_map (stored prims T)]
  apply Reads.collect_nil
  intro row hrow
  rw [List.length_map] at hrow
  rw [List.getElem_map]
  apply reads_maskedRow hrow (fun hnull => by rw [hnull, stored_null])
  intro hnull
  rw [stored_struct physical hchildren hnull]
  exact Reads.bind_nil (.ofResult (structRow_fieldVectors children hrow)) (ReadsBefore.pure _)

theorem roundTrips_listEntries {entries : List ListEntry}
    (hfits : layout.Fits .listEntry entries.length)
    (hentries : ∀ entry ∈ entries, entry.offset + entry.length < usizeLimit) :
    RoundTrips layout (writeListEntries entries) (readListEntries entries.length) entries := by
  have hlist : RoundTrips layout (writeListEntries entries)
      (readList .listEntry fun _ => readObject do
        let offset ← readRequiredField 100 readUlebUsize
        let length ← readRequiredField 101 readUlebUsize
        pure ⟨offset, length⟩) (entries.map id) := by
    refine RoundTrips.listMap hfits fun entry hmem => FieldTrip.object 100 ?_
    have hlt := hentries entry hmem
    exact .cons _ (.required (.uleb (by omega)) (by decide))
      (.cons _ (.required (.uleb (by omega)) (by decide)) (.nil _))
  rw [List.map_id] at hlist
  exact hlist.thenPure (if_neg (by simp))

theorem childVectors_list {entries : List ListEntry} {childValues : List Value}
    (physical : getPhysicalType T = .ok .list) (hchild : getChildType T = .ok childType)
    (h : gatherLists 0 values = .ok (entries, childValues)) :
    childVectors T values = [(childType, childValues)] := by
  rw [childVectors, physical]
  simp only [hchild, h]

theorem encodeListVectorBody_eq {entries : List ListEntry} {childValues : List Value}
    (hchild : getChildType T = .ok childType)
    (hgather : gatherLists 0 values = .ok (entries, childValues)) :
    encodeListVectorBody layout prims T values = (do
      allocate layout .listEntry values.length
      allocate layout .value childValues.length
      Encode.all [
        writeField 104 (writeUleb childValues.length),
        writeField 105 (writeListEntries entries),
        writeField 106 (encodeVector layout prims childType childValues childValues.length)]) := by
  rw [encodeListVectorBody]
  split
  · rename_i _ h
    cases hchild.symm.trans h
    rw [hgather]
    rfl
  · rename_i _ h
    cases hchild.symm.trans h

theorem allocate_ok {element : Element} {count : Nat} (h : layout.Fits element count) :
    allocate layout element count = .ok () := if_pos h.size_le

/-- The data of a list column, where there is memory for them. -/
theorem encodeFlatData_list {entries : List ListEntry} {childValues : List Value}
    (hown : layout.Fits .value values.length) (hfits : layout.Fits .value childValues.length)
    (physical : getPhysicalType T = .ok .list) (hchild : getChildType T = .ok childType)
    (hgather : gatherLists 0 values = .ok (entries, childValues)) :
    encodeFlatData layout prims T values values.length = Encode.all [
      writeField 104 (writeUleb childValues.length),
      writeField 105 (writeListEntries entries),
      writeField 106 (encodeVector layout prims childType childValues childValues.length)] := by
  have hdata : encodeFlatData layout prims T values values.length =
      encodeListVectorBody layout prims T values := by
    rw [encodeFlatData, physical]
    rfl
  rw [hdata, encodeListVectorBody_eq hchild hgather, allocate_ok (hown.of_value (by simp)),
    allocate_ok hfits]
  rfl

/-- No entry of a list column ends behind the values that were gathered. -/
theorem gatherLists_ends {entries : List ListEntry} {childValues : List Value}
    (hgather : gatherLists 0 values = .ok (entries, childValues)) :
    ∀ entry ∈ entries, entry.offset + entry.length ≤ childValues.length := by
  obtain ⟨hlen, hrows⟩ := gatherLists_entry hgather
  intro entry hentry
  obtain ⟨row, hrow, rfl⟩ := List.getElem_of_mem hentry
  rcases hrows row (hlen ▸ hrow) hrow with ⟨-, h⟩ | ⟨items, before, -, h, hle, -⟩
  · rw [h]
    exact Nat.zero_le _
  · rw [h]
    simpa using hle

theorem roundTrips_gathered {entries : List ListEntry} {childValues : List Value}
    (hown : layout.Fits .value values.length) (hfits : layout.Fits .value childValues.length)
    (hgather : gatherLists 0 values = .ok (entries, childValues)) :
    RoundTrips layout (writeListEntries entries) (readListEntries values.length) entries := by
  have hlen := (gatherLists_entry hgather).1
  have hentries : layout.Fits .listEntry entries.length := by
    rw [hlen]
    exact hown.of_value (by simp)
  rw [← hlen]
  exact roundTrips_listEntries hentries fun entry hentry =>
    (gatherLists_ends hgather entry hentry).trans_lt hfits.count_lt

theorem fieldTrip_list (hφ : SameVectors φ)
    (hfits : FitsMemory layout T values) (physical : getPhysicalType T = .ok .list)
    (hchildType : getChildType T = .ok childType)
    (hvalues : ∀ value ∈ values, Storable prims T value)
    (hchild : ChildrenTrip layout prims φ decodeVector T values) :
    FieldTrip layout 102 fieldEnd (encodeFlatData layout prims T values values.length)
      (decodeFlatData decodeVector (φ T) .list values.length (maskOf values))
      (values.map (stored prims T)) := by
  obtain ⟨entries, childValues, hgather⟩ := gatherLists_ok 0 fun value hmem hnull => by
    obtain ⟨items, hitems, -⟩ := (hvalues value hmem).items physical hchildType hnull
    exact ⟨items, hitems⟩
  obtain ⟨hlen, hrows⟩ := gatherLists_entry hgather
  have hmem : (childType, childValues) ∈ childVectors T values := by
    rw [childVectors_list physical hchildType hgather]
    exact List.mem_singleton.mpr rfl
  obtain ⟨hown, hinside⟩ := hfits
  obtain ⟨hchildFits, -⟩ := hinside _ hmem
  have hends := gatherLists_ends hgather
  have hsee : getChildType (φ T) = .ok (φ childType) := by
    rw [hφ.sameChild, hchildType]
    rfl
  rw [encodeFlatData_list hown hchildFits physical hchildType hgather]
  refine FieldTrip.weaken ?_ (by decide : 102 ≤ 104)
  refine .cons 105 (.required (.uleb hchildFits.count_lt) (by decide)) ?_
  refine .cons 106 (.required (roundTrips_gathered hown hchildFits hgather) (by decide))
    (.ofResult hsee ?_)
  refine .cons fieldEnd (.required (hchild _ hmem) (by decide)) (.ofReads ?_)
  refine (reads_withCapacity (hlen ▸ hown)).bind_nil ?_
  have hcount : entries.length = (values.map (stored prims T)).length := by
    rw [hlen, List.length_map]
  rw [hcount]
  apply Reads.collect_nil
  intro row hrow
  rw [List.length_map] at hrow
  have hrow' : row < entries.length := hlen ▸ hrow
  rw [List.getElem_map]
  refine (Reads.index (List.getElem?_eq_getElem hrow')).bind_nil ?_
  apply reads_maskedRow hrow (fun hnull => by rw [hnull, stored_null])
  intro hnull
  rcases hrows row hrow hrow' with ⟨h, -⟩ | ⟨items, before, hitems, hentry, hle, htake⟩
  · exact absurd h hnull
  · have hstop := hends entries[row] (List.getElem_mem hrow')
    rw [hentry] at hstop ⊢
    simp only [Nat.zero_add] at hstop ⊢
    have hitemsStored : ((childValues.map (stored prims childType)).drop before).take
        (before + items.length - before) = items.map (stored prims childType) := by
      rw [Nat.add_sub_cancel_left, ← List.map_drop, ← List.map_take, htake]
    have hslice : Reads layout (slice (childValues.map (stored prims childType)) before
        (before + items.length) : Decoder (List Value)) [] (items.map (stored prims childType)) := by
      rw [← hitemsStored]
      exact Reads.slice (Nat.le_add_right _ _) (by rwa [List.length_map])
    rw [hitems, stored_list (.inl physical) hchildType]
    apply Reads.bind_nil ((Reads.usizeAdd (hstop.trans_lt hchildFits.count_lt)).audit _)
    exact (hslice.audit _).bind_nil (ReadsBefore.pure _)

theorem childVectors_array {arraySize : U64} {childValues : List Value}
    (physical : getPhysicalType T = .ok .array) (hchild : getChildType T = .ok childType)
    (hsize : getArraySize T = .ok arraySize)
    (h : gatherArrays arraySize.toNat values = .ok childValues) :
    childVectors T values = [(childType, childValues)] := by
  rw [childVectors, physical]
  simp only [hchild, hsize, h]

theorem encodeArrayVectorBody_eq {arraySize : U64} {childValues : List Value}
    (hchild : getChildType T = .ok childType) (hsize : getArraySize T = .ok arraySize)
    (hgather : gatherArrays arraySize.toNat values = .ok childValues) :
    encodeArrayVectorBody layout prims T values = (do
      Outcome.check (values.length * arraySize.toNat < usizeLimit) .overflow
      allocate layout .value (values.length * arraySize.toNat)
      Encode.all [
        writeField 103 (writeUleb arraySize.toNat),
        writeField 104 (encodeVector layout prims childType childValues childValues.length)]) := by
  rw [encodeArrayVectorBody]
  split
  · rename_i _ h
    cases hchild.symm.trans h
    rw [hsize]
    show (do
      Outcome.check _ _
      allocate layout .value _
      let childValues ← liftM (gatherArrays arraySize.toNat values)
      _) = _
    rw [hgather]
    rfl
  · rename_i _ h
    cases hchild.symm.trans h

/-- The data of an array column, where there is memory for them. -/
theorem encodeFlatData_array {arraySize : U64} {childValues : List Value}
    (physical : getPhysicalType T = .ok .array) (hchild : getChildType T = .ok childType)
    (hsize : getArraySize T = .ok arraySize)
    (hgather : gatherArrays arraySize.toNat values = .ok childValues)
    (hfits : layout.Fits .value childValues.length) :
    encodeFlatData layout prims T values values.length = Encode.all [
      writeField 103 (writeUleb arraySize.toNat),
      writeField 104 (encodeVector layout prims childType childValues childValues.length)] := by
  have hdata : encodeFlatData layout prims T values values.length =
      encodeArrayVectorBody layout prims T values := by
    rw [encodeFlatData, physical]
    rfl
  rw [(gatherArrays_row hgather).1] at hfits
  rw [hdata, encodeArrayVectorBody_eq hchild hsize hgather, allocate_ok hfits, Outcome.check,
    if_pos hfits.count_lt]
  rfl

theorem fieldTrip_array {arraySize : U64} (hφ : SameVectors φ)
    (hfits : FitsMemory layout T values) (physical : getPhysicalType T = .ok .array)
    (hchildType : getChildType T = .ok childType) (hsize : getArraySize T = .ok arraySize)
    (hvalues : ∀ value ∈ values, Storable prims T value)
    (hchild : ChildrenTrip layout prims φ decodeVector T values) :
    FieldTrip layout 102 fieldEnd (encodeFlatData layout prims T values values.length)
      (decodeFlatData decodeVector (φ T) .array values.length (maskOf values))
      (values.map (stored prims T)) := by
  have hrowItems : ∀ value ∈ values, value ≠ .null →
      ∃ items, value = .list items ∧ items.length = arraySize.toNat := fun value hmem hnull => by
    obtain ⟨items, hitems, hlen, -⟩ :=
      (hvalues value hmem).arrayItems physical hchildType hsize hnull
    exact ⟨items, hitems, hlen⟩
  obtain ⟨childValues, hgather⟩ := gatherArrays_ok hrowItems
  obtain ⟨hlen, hrows⟩ := gatherArrays_row hgather
  have hmem : (childType, childValues) ∈ childVectors T values := by
    rw [childVectors_array physical hchildType hsize hgather]
    exact List.mem_singleton.mpr rfl
  obtain ⟨hown, hinside⟩ := hfits
  obtain ⟨hchildFits, -⟩ := hinside _ hmem
  simp only [hlen] at hchildFits
  have hseeSize : getArraySize (φ T) = .ok arraySize := (hφ.sameSize T).trans hsize
  have hsee : getChildType (φ T) = .ok (φ childType) := by
    rw [hφ.sameChild, hchildType]
    rfl
  have hcount : arraySize.toNat * values.length < usizeLimit := by
    rw [Nat.mul_comm]
    exact hchildFits.count_lt
  have hvector : RoundTrips layout
      (encodeVector layout prims childType childValues childValues.length)
      (do
        let childCount ← audit (.product arraySize.toNat values.length)
          (usizeMul arraySize.toNat values.length)
        decodeVector (φ childType) childCount)
      ⟨φ childType, .flat, childValues.map (stored prims childType)⟩ := by
    obtain ⟨bytes, hwrite, hread⟩ := hchild _ hmem
    refine ⟨bytes, hwrite, Reads.bind_nil ((Reads.usizeMul hcount).audit _) ?_⟩
    rwa [Nat.mul_comm, ← hlen]
  rw [encodeFlatData_array physical hchildType hsize hgather (hlen ▸ hchildFits)]
  refine FieldTrip.weaken ?_ (by decide : 102 ≤ 103)
  refine .cons 104 (.required (.uleb arraySize.isLt) (by decide)) (.ofResult hseeSize ?_)
  rw [if_neg (not_not.mpr rfl)]
  refine .ofResult hsee (.cons fieldEnd (.required hvector (by decide)) (.ofReads ?_))
  refine (reads_withCapacity hown).bind_nil ?_
  have hrowCount : values.length = (values.map (stored prims T)).length := by rw [List.length_map]
  rw [hrowCount]
  apply Reads.collect_nil
  intro row hrow
  rw [List.length_map] at hrow
  rw [List.getElem_map]
  apply reads_maskedRow hrow (fun hnull => by rw [hnull, stored_null])
  intro hnull
  obtain ⟨items, hitems, -, -⟩ :=
    (hvalues _ (List.getElem_mem hrow)).arrayItems physical hchildType hsize hnull
  have hend : row * arraySize.toNat + arraySize.toNat ≤ values.length * arraySize.toNat := by
    rw [← Nat.succ_mul]
    exact Nat.mul_le_mul_right _ hrow
  have hstop := hend.trans_lt hchildFits.count_lt
  have hitemsStored : ((childValues.map (stored prims childType)).drop (row * arraySize.toNat)).take
      (row * arraySize.toNat + arraySize.toNat - row * arraySize.toNat) =
      items.map (stored prims childType) := by
    rw [Nat.add_sub_cancel_left, ← List.map_drop, ← List.map_take, hrows row hrow items hitems]
  have hslice : Reads layout (slice (childValues.map (stored prims childType))
      (row * arraySize.toNat) (row * arraySize.toNat + arraySize.toNat) : Decoder (List Value)) []
      (items.map (stored prims childType)) := by
    rw [← hitemsStored]
    exact Reads.slice (Nat.le_add_right _ _) (by rwa [List.length_map, hlen])
  rw [hitems, stored_list (.inr physical) hchildType]
  refine (Reads.usizeMul (by omega)).bind_nil ((Reads.usizeAdd hstop).bind_nil ?_)
  exact (hslice.audit _).bind_nil (ReadsBefore.pure _)

end

/-! ### Vectors of any nesting -/

section
variable {φ : LogicalType → LogicalType} {T : LogicalType} {values : List Value}

theorem fieldTrip_data {decodeVector : LogicalType → Nat → Decoder DecodedVector}
    (hφ : SameVectors φ) (hT : Encodable T) (hheld : T.InMemory layout)
    (hfits : FitsMemory layout T values) (hvalues : ∀ value ∈ values, Storable prims T value)
    (hchild : ChildrenTrip layout prims φ decodeVector T values) :
    ∃ physicalType, getPhysicalType T = .ok physicalType ∧
      FieldTrip layout 102 fieldEnd (encodeFlatData layout prims T values values.length)
        (decodeFlatData decodeVector (φ T) physicalType values.length (maskOf values))
        (values.map (stored prims T)) := by
  have hown : layout.Fits .value values.length := by
    cases hfits
    assumption
  cases hT with
  | fixed physical size labels =>
      exact ⟨_, physical, fieldTrip_fixed hφ hown physical size labels hvalues⟩
  | varchar physical => exact ⟨_, physical, fieldTrip_varchar hφ hown physical hvalues⟩
  | struct physical hchildren =>
      exact ⟨_, physical, fieldTrip_struct hφ hown hheld physical hchildren hchild⟩
  | list physical hchildType =>
      exact ⟨_, physical, fieldTrip_list hφ hfits physical hchildType hvalues hchild⟩
  | array physical hchildType hsize =>
      exact ⟨_, physical, fieldTrip_array hφ hfits physical hchildType hsize hvalues hchild⟩

theorem encodeVector_eq (T : LogicalType) (values : List Value) :
    encodeVector layout prims T values values.length = writeObject (Encode.all [
      writeGeometryField T, writeMask values,
      encodeFlatData layout prims T values values.length]) := by
  rw [encodeVector, if_neg (not_not.mpr rfl)]

/-- The body of a flat vector, whose fields stand in the object that is being read. -/
theorem fieldTrip_flatBody {budget : Nat} (hφ : SameVectors φ) (hT : Encodable T)
    (hheld : T.InMemory layout) (hfits : FitsMemory layout T values)
    (hvalues : ∀ value ∈ values, Storable prims T value)
    (hchild : ChildrenTrip layout prims φ (decodeVectorWithin budget) T values) :
    FieldTrip layout 99 fieldEnd (Encode.all [writeGeometryField T, writeMask values,
        encodeFlatData layout prims T values values.length])
      (decodeVectorBody (budget + 1) (φ T) values.length)
      ⟨φ T, .flat, values.map (stored prims T)⟩ := by
  have hown : layout.Fits .value values.length := by
    cases hfits
    assumption
  obtain ⟨physicalType, physical, hdata⟩ := fieldTrip_data hφ hT hheld hfits hvalues hchild
  have hsee : getPhysicalType (φ T) = .ok physicalType := (hφ.samePhysical T).trans physical
  have hflat : FieldTrip layout 99 fieldEnd (Encode.all [writeGeometryField T, writeMask values,
        encodeFlatData layout prims T values values.length])
      (decodeFlatVectorBody (decodeVectorWithin budget) (φ T) values.length .flat)
      ⟨φ T, .flat, values.map (stored prims T)⟩ :=
    .cons 100 (fieldTrip_geometry (hφ.sameId T)) <|
      .cons 102 (fieldTrip_mask hown) <| .ofResult hsee <| .cons _ hdata (.nil _)
  refine .recursive ?_ .vector
  refine .skip (.ofResult rfl (hflat.thenReads ?_)) (by decide)
  exact (Reads.record _).bind_nil (ReadsBefore.pure _)

/-- One level of a vector, given that its children are read back. -/
theorem roundTrips_vector_step {budget : Nat} (hφ : SameVectors φ) (hT : Encodable T)
    (hheld : T.InMemory layout) (hfits : FitsMemory layout T values)
    (hvalues : ∀ value ∈ values, Storable prims T value)
    (hchild : ChildrenTrip layout prims φ (decodeVectorWithin budget) T values) :
    RoundTrips layout (encodeVector layout prims T values values.length)
      (decodeVectorWithin (budget + 1) (φ T) values.length)
      ⟨φ T, .flat, values.map (stored prims T)⟩ := by
  rw [encodeVector_eq]
  exact FieldTrip.object 99 (fieldTrip_flatBody hφ hT hheld hfits hvalues hchild)

/-- A vector that the encoder gathers under a column, by the kind of the column. -/
inductive ChildVector (T : LogicalType) (values : List Value) : LogicalType × List Value → Prop where
  | struct {children : List ChildType} {child : ChildType}
      (physical : getPhysicalType T = .ok .struct)
      (structChildren : getStructChildren T = .ok children) (member : child ∈ children) :
      ChildVector T values (child.logicalType, structColumn child.name values)
  | list {childType : LogicalType} {entries : List ListEntry} {childValues : List Value}
      (physical : getPhysicalType T = .ok .list) (child : getChildType T = .ok childType)
      (gathered : gatherLists 0 values = .ok (entries, childValues)) :
      ChildVector T values (childType, childValues)
  | array {childType : LogicalType} {arraySize : U64} {childValues : List Value}
      (physical : getPhysicalType T = .ok .array) (child : getChildType T = .ok childType)
      (size : getArraySize T = .ok arraySize)
      (gathered : gatherArrays arraySize.toNat values = .ok childValues) :
      ChildVector T values (childType, childValues)

theorem childVector_of_mem {part : LogicalType × List Value} (h : part ∈ childVectors T values) :
    ChildVector T values part := by
  unfold childVectors at h
  split at h
  · rename_i physical
    split at h
    · rename_i children hchildren
      obtain ⟨child, hmem, rfl⟩ := List.mem_map.mp h
      exact .struct physical hchildren hmem
    · cases h
  · rename_i physical
    split at h
    · rename_i hchild hgather
      obtain rfl := List.mem_singleton.mp h
      exact .list physical hchild hgather
    · cases h
  · rename_i physical
    split at h
    · rename_i hchild hsize
      split at h
      · rename_i hgather
        obtain rfl := List.mem_singleton.mp h
        exact .array physical hchild hsize hgather
      · cases h
    · cases h
  · cases h

theorem ChildVector.mem_children {part : LogicalType × List Value} (h : ChildVector T values part) :
    part.1 ∈ T.children := by
  cases h with
  | struct _ structChildren member => exact getStructChildren_mem structChildren member
  | list _ child | array _ child => exact getChildType_mem child

/-- A column of a nested type is written by the body of its kind. -/
theorem encodeFlatData_nested {physicalType : PhysicalType}
    (physical : getPhysicalType T = .ok physicalType) :
    (physicalType = .struct → encodeFlatData layout prims T values values.length =
        encodeStructVectorBody layout prims T values values.length) ∧
      (physicalType = .list → encodeFlatData layout prims T values values.length =
        encodeListVectorBody layout prims T values) ∧
      (physicalType = .array → encodeFlatData layout prims T values values.length =
        encodeArrayVectorBody layout prims T values) := by
  rw [encodeFlatData, physical]
  refine ⟨?_, ?_, ?_⟩ <;> rintro rfl <;> rfl

theorem ChildVector.within {part : LogicalType × List Value} (h : ChildVector T values part) :
    Encode.Within (encodeVector layout prims part.1 part.2 part.2.length)
      (encodeFlatData layout prims T values values.length) 0 := by
  cases h with
  | struct physical hchildren hmem =>
      rename_i children child
      have hlen : (structColumn child.name values).length = values.length := by simp [structColumn]
      rw [(encodeFlatData_nested physical).1 rfl, encodeStructVectorBody_eq hchildren, hlen]
      exact .field (.list (.refl _) (List.mem_map_of_mem hmem)) 103
  | list physical hchild hgather =>
      rw [(encodeFlatData_nested physical).2.1 rfl, encodeListVectorBody_eq hchild hgather]
      exact .after fun _ => .after fun _ => .all (.field (.refl _) 106) (by simp)
  | array physical hchild hsize hgather =>
      rw [(encodeFlatData_nested physical).2.2 rfl, encodeArrayVectorBody_eq hchild hsize hgather]
      exact .after fun _ => .after fun _ => .all (.field (.refl _) 104) (by simp)

theorem childVectors_within {part : LogicalType × List Value} (h : part ∈ childVectors T values) :
    Encode.Within (encodeVector layout prims part.1 part.2 part.2.length)
      (encodeVector layout prims T values values.length) 1 := by
  rw [encodeVector_eq T]
  exact .object (childVector_of_mem h).within (by simp)

/-- The children of a column of storable values are columns of storable values. -/
theorem childVectors_storable {part : LogicalType × List Value} (hT : Encodable T)
    (hheld : T.Everywhere (LogicalType.InMemory layout))
    (hvalues : ∀ value ∈ values, Storable prims T value) (h : part ∈ childVectors T values) :
    Encodable part.1 ∧ part.1.Everywhere (LogicalType.InMemory layout) ∧
      ∀ value ∈ part.2, Storable prims part.1 value := by
  have hpart := childVector_of_mem h
  have hinside := hheld.inside hpart.mem_children
  cases hpart with
  | struct physical hchildren hmem =>
      refine ⟨(hT.fields physical hchildren).2 _ hmem, hinside, fun value hvalue => ?_⟩
      obtain ⟨row, hrow, rfl⟩ := List.mem_map.mp hvalue
      by_cases hnull : row = .null
      · rw [hnull]
        exact .null _
      · exact (hvalues row hrow).fields physical hchildren hnull _ hmem
  | list physical hchild hgather =>
      refine ⟨hT.items (.inl physical) hchild, hinside, fun item hitem => ?_⟩
      obtain ⟨items, hmem, hin⟩ := mem_gatherLists hgather hitem
      obtain ⟨_, heq, hall⟩ := (hvalues _ hmem).items physical hchild (fun h => by cases h)
      cases heq
      exact hall item hin
  | array physical hchild hsize hgather =>
      refine ⟨hT.items (.inr physical) hchild, hinside, fun item hitem => ?_⟩
      rcases mem_gatherArrays hgather hitem with rfl | ⟨items, hmem, hin⟩
      · exact .null _
      · obtain ⟨_, heq, -, hall⟩ :=
          (hvalues _ hmem).arrayItems physical hchild hsize (fun h => by cases h)
        cases heq
        exact hall item hin

/-- A column of storable values that fits in memory is read back as its stored values. -/
theorem roundTripsWithin_vector (hφ : SameVectors φ) (hT : Encodable T)
    (hheld : T.Everywhere (LogicalType.InMemory layout)) (hfits : FitsMemory layout T values)
    (hvalues : ∀ value ∈ values, Storable prims T value) :
    RoundTripsWithin layout (encodeVector layout prims T values values.length)
      (fun budget => decodeVectorWithin budget (φ T) values.length)
      ⟨φ T, .flat, values.map (stored prims T)⟩ := by
  induction hfits with
  | @intro T values own inside ih =>
      have hparts : ∀ part ∈ childVectors T values, RoundTripsWithin layout
          (encodeVector layout prims part.1 part.2 part.2.length)
          (fun budget => decodeVectorWithin budget (φ part.1) part.2.length)
          ⟨φ part.1, .flat, part.2.map (stored prims part.1)⟩ := fun part hmem => by
        obtain ⟨hencodable, hinside, hstorable⟩ := childVectors_storable hT hheld hvalues hmem
        exact ih part hmem hencodable hinside hstorable
      refine .step hparts (fun part hmem => childVectors_within hmem) ?_ fun budget hchild =>
        roundTrips_vector_step hφ hT hheld.node (.intro own inside) hvalues hchild
      rw [encodeVector_eq]
      exact .nil_object _

theorem roundTrips_vector (hφ : SameVectors φ) (hT : Encodable T)
    (hheld : T.Everywhere (LogicalType.InMemory layout)) (hfits : FitsMemory layout T values)
    (hvalues : ∀ value ∈ values, Storable prims T value) :
    RoundTrips layout (encodeVector layout prims T values values.length)
      (decodeVector (φ T) values.length) ⟨φ T, .flat, values.map (stored prims T)⟩ :=
  (roundTripsWithin_vector hφ hT hheld hfits hvalues).withBudget

end

end QuackProtocol
