import QuackProtocol.Values

/-! Vectors and data chunks on the wire (`vector.rs`). The encoder always writes flat vectors; the
decoder also reads constant, dictionary and sequence vectors, which nest. -/

open Decoding Decode Varint

namespace QuackProtocol

inductive VectorType where
  | flat
  | fsst
  | constant
  | dictionary
  | sequence
  deriving DecidableEq

def VectorType.tryFrom (value : U64) : Result VectorType :=
  match value.toNat with
  | 0 => .ok .flat
  | 1 => .ok .fsst
  | 2 => .ok .constant
  | 3 => .ok .dictionary
  | 4 => .ok .sequence
  | _ => .error (.protocol s!"unknown vector type {value.toNat}")

structure DecodedVector where
  logicalType : LogicalType
  vectorType : VectorType
  values : List Value

structure DataChunk where
  rowCount : Nat
  types : List LogicalType
  columns : List DecodedVector
  columnNames : Option (List String)

structure ListEntry where
  offset : Nat
  length : Nat
  deriving DecidableEq

def validityMaskSize (count : Nat) : Nat := (count + 63) / 64 * 8

/-- Sets the bit of a valid row. -/
def markRow (bytes : Bytes) (row : Bool × Nat) : Bytes :=
  if row.1 then
    bytes.modify (row.2 / 8) fun byte => byte ||| (1 <<< UInt8.ofNat (row.2 % 8))
  else
    bytes

def writeValidityMask (validity : List Bool) : Bytes :=
  validity.zipIdx.foldl markRow (List.replicate (validityMaskSize validity.length) 0)

/-- The bit of a row, `0` outside the mask. -/
def maskBit (bytes : Bytes) (index : Nat) : Bool :=
  (bytes.getD (index / 8) 0) &&& (1 <<< UInt8.ofNat (index % 8)) ≠ 0

def readValidityMask (count : Nat) : Decoder (List Bool) := do
  let expectedBytes ← usizeMul ((count + 63) / 64) 8
  let bytes ← readBlob
  if bytes.length ≠ expectedBytes then
    protocolError s!"validity mask has {bytes.length} bytes, expected {expectedBytes}"
  else do
    withCapacity .bool count
    pure ((List.range count).map (maskBit bytes))

def isValid (validity : Option (List Bool)) (row : Nat) : Decoder Bool :=
  match validity with
  | some mask => index mask row
  | none => pure true

def decodeEnumOrNumber (T : LogicalType) (index : U64) : Result Value :=
  if T.id ≠ .enum then .ok (.uint index)
  else do
    let labels ← getEnumValues T
    match labels[index.toNat]? with
    | some label => pure (.string label)
    | none => throw (.protocol s!"ENUM index {index.toNat} is out of range")

def decodeInt64LogicalValue (T : LogicalType) (value : I64) : Result Value :=
  match T.id with
  | .time => .ok (.time ⟨.micros, value⟩)
  | .timeNs => .ok (.time ⟨.nanos, value⟩)
  | .timeTz => .ok (.timeTz ⟨value⟩)
  | .timestampSec => .ok (.timestamp ⟨.seconds, value, false⟩)
  | .timestampMs => .ok (.timestamp ⟨.millis, value, false⟩)
  | .timestamp => .ok (.timestamp ⟨.micros, value, false⟩)
  | .timestampNs => .ok (.timestamp ⟨.nanos, value, false⟩)
  | .timestampTz => .ok (.timestamp ⟨.micros, value, true⟩)
  | .decimal => do
    let decimal ← decimalFromUnscaled T (value.signExtend 128)
    pure (.decimal decimal)
  | _ => .ok (.int value)

/-- A signed integer of a decimal or a plain integer column. -/
def decodeDecimalOrInt (T : LogicalType) (value : I128) : Result Value :=
  if T.id = .decimal then do
    let decimal ← decimalFromUnscaled T value
    pure (.decimal decimal)
  else
    .ok (.int (value.setWidth 64))

def decodeDateDecimalOrInt (T : LogicalType) (value : I32) : Result Value :=
  if T.id = .date then .ok (.date ⟨value⟩) else decodeDecimalOrInt T (value.signExtend 128)

def decodeInt128Parts (T : LogicalType) (parts : HugeIntParts) : Result Value :=
  if T.id = .uuid then
    .ok (.string parts.display)
  else if T.id = .decimal then do
    let decimal ← decimalFromUnscaled T (combineSignedHugeInt parts)
    pure (.decimal decimal)
  else
    .ok (.hugeInt (combineSignedHugeInt parts))

def decodeFixedValue (T : LogicalType) : PhysicalType → Decoder Value
  | .bool => do
    let value ← readFixedU8
    pure (.bool (value ≠ 0))
  | .int8 => do
    let value ← readFixedI8
    pure (.int (value.signExtend 64))
  | .uint8 => do
    let value ← readFixedU8
    ofResult (decodeEnumOrNumber T (value.setWidth 64))
  | .int16 => do
    let value ← readFixedI16
    ofResult (decodeDecimalOrInt T (value.signExtend 128))
  | .uint16 => do
    let value ← readFixedU16
    ofResult (decodeEnumOrNumber T (value.setWidth 64))
  | .int32 => do
    let value ← readFixedI32
    ofResult (decodeDateDecimalOrInt T value)
  | .uint32 => do
    let value ← readFixedU32
    ofResult (decodeEnumOrNumber T (value.setWidth 64))
  | .int64 => do
    let value ← readFixedI64
    ofResult (decodeInt64LogicalValue T value)
  | .uint64 => do
    let value ← readFixedU64
    pure (.uint value)
  | .float => do
    let value ← readFixedF32
    pure (.float value)
  | .double => do
    let value ← readFixedF64
    pure (.double value)
  | .int128 => do
    let lower ← readFixedU64
    let upper ← readFixedI64
    ofResult (decodeInt128Parts T ⟨upper, lower⟩)
  | .uint128 => do
    let lower ← readFixedU64
    let upper ← readFixedU64
    pure (.uhugeInt (combineUnsignedHugeInt ⟨upper, lower⟩))
  | .interval => do
    let months ← readFixedI32
    let days ← readFixedI32
    let micros ← readFixedI64
    pure (.interval ⟨months, days, micros⟩)
  | other =>
    throw (.unsupportedType s!"cannot decode fixed physical type {other.debug}")

def decodeFixedValues (T : LogicalType) (physicalType : PhysicalType) (bytes : Bytes)
    (count : Nat) (validity : Option (List Bool)) : Decoder (List Value) := do
  withCapacity .value count
  onBytes bytes do
    let values ← collect (fun row => do
      let value ← decodeFixedValue T physicalType
      let valid ← isValid validity row
      pure (if valid then value else .null)) 0 count
    assertEof
    pure values

section
variable (prims : Primitives)

def encodeEnumOrNumber (T : LogicalType) (value : Value) : Result U64 :=
  if T.id ≠ .enum then do
    let number ← valueToU128 prims value
    pure (number.setWidth 64)
  else
    match value with
    | .uint v => .ok v
    | .int v => if 0 ≤ v.toInt then .ok v else notLabel
    | .string v => do
      let labels ← getEnumValues T
      match labels.findIdx? fun label => label = v with
      | some index => pure (BitVec.ofNat 64 index)
      | none => throw (.protocol s!"unknown ENUM value {v}")
    | _ => notLabel
where
  notLabel : Result U64 := .error (.protocol "ENUM values must be strings or integers")

def encodeInt64LogicalValue (T : LogicalType) (value : Value) : Outcome QuackError I64 := do
  if T.id = .decimal then
    let unscaled ← decimalToUnscaled prims T value
    pure (unscaled.setWidth 64)
  else
    match value with
    | .time v => pure v.value
    | .timeTz v => pure v.bits
    | .timestamp v => pure v.value
    | _ =>
      let number ← valueToI128 prims value
      pure (number.setWidth 64)

/-- `encode_decimal_or_integer`, and the same function for the widest column,
`encode_int128_logical_value`. -/
def encodeDecimalOrInteger (T : LogicalType) (value : Value) : Outcome QuackError I128 :=
  if T.id = .decimal then decimalToUnscaled prims T value else liftM (valueToI128 prims value)

def encodeDateDecimalOrInteger (T : LogicalType) (value : Value) : Outcome QuackError I128 :=
  if T.id = .date then
    match value with
    | .date v => pure (v.days.signExtend 128)
    | _ => liftM (valueToI128 prims value)
  else
    encodeDecimalOrInteger prims T value

/-- The two halves that a 128-bit column stores for a value. -/
def encodeInt128Parts (T : LogicalType) (value : Value) : Outcome QuackError HugeIntParts := do
  if T.id = .uuid then
    match value with
    | .string uuid => liftM (uuidToHugeIntParts uuid)
    | _ => .err (.protocol "UUID values must be strings")
  else
    let number ← encodeDecimalOrInteger prims T value
    pure (splitSignedHugeInt number)

def encodeFixedValue (T : LogicalType) (physicalType : PhysicalType) (value : Value) : Encode := do
  if value.isNull then
    let size ← physicalTypeSize physicalType
    writeBytes (List.replicate size 0)
  else
    match physicalType with
    | .bool => writeFixedU8 (if value.isTrue then 1 else 0)
    | .int8 =>
      let number ← valueToI128 prims value
      writeFixedI8 (number.setWidth 8)
    | .uint8 =>
      let number ← encodeEnumOrNumber prims T value
      writeFixedU8 (number.setWidth 8)
    | .int16 =>
      let number ← encodeDecimalOrInteger prims T value
      writeFixedI16 (number.setWidth 16)
    | .uint16 =>
      let number ← encodeEnumOrNumber prims T value
      writeFixedU16 (number.setWidth 16)
    | .int32 =>
      let number ← encodeDateDecimalOrInteger prims T value
      writeFixedI32 (number.setWidth 32)
    | .uint32 =>
      let number ← encodeEnumOrNumber prims T value
      writeFixedU32 (number.setWidth 32)
    | .int64 =>
      let number ← encodeInt64LogicalValue prims T value
      writeFixedI64 number
    | .uint64 =>
      let number ← valueToU128 prims value
      writeFixedU64 (number.setWidth 64)
    | .float =>
      let number ← valueToF64 prims value
      writeFixedF32 (prims.f64ToF32 number)
    | .double =>
      let number ← valueToF64 prims value
      writeFixedF64 number
    | .int128 =>
      let parts ← encodeInt128Parts prims T value
      writeFixedU64 parts.lower ++ writeFixedI64 parts.upper
    | .uint128 =>
      let number ← valueToU128 prims value
      writeFixedU64 (number.setWidth 64) ++ writeFixedU64 ((number >>> 64).setWidth 64)
    | .interval =>
      match value with
      | .interval v => writeFixedI32 v.months ++ writeFixedI32 v.days ++ writeFixedI64 v.micros
      | _ => .err (.protocol "INTERVAL values must be tagged intervals")
    | other => .err (.unsupportedType s!"cannot encode fixed physical type {other.debug}")

def encodeStringLikeValue (value : Value) : Outcome QuackError Bytes :=
  match value with
  | .null => pure []
  | .bytes v => pure v
  | .string v => pure (utf8Bytes v)
  | other => do
    let text ← valueToStringLossy prims other
    pure (utf8Bytes text)

end

def decodeStringLikeValue (T : LogicalType) (raw : Bytes) : Result Value :=
  match T.id with
  | .blob | .geometry | .bit => .ok (.bytes raw)
  | _ => do
    let text ← fromUtf8 raw
    pure (.string text)

/-- The field of a row of a struct column, NULL where there is none. -/
def structField (name : String) : Value → Value
  | .struct row => (Row.get row name).getD .null
  | _ => .null

def structColumn (name : String) (values : List Value) : List Value :=
  values.map (structField name)

/-- The entries of a list column and the values they point to; `offset` is the number of values
gathered before. -/
def gatherLists (offset : Nat) : List Value → Result (List ListEntry × List Value)
  | [] => .ok ([], [])
  | .null :: values => do
    let (entries, childValues) ← gatherLists offset values
    pure (⟨0, 0⟩ :: entries, childValues)
  | .list items :: values => do
    let (entries, childValues) ← gatherLists (offset + items.length) values
    pure (⟨offset, items.length⟩ :: entries, items ++ childValues)
  | _ => .error (.protocol "LIST/MAP values must be lists")

/-- The values of the rows of an array column, a NULL row padded to the size of the array. -/
def gatherArrays (arraySize : Nat) : List Value → Result (List Value)
  | [] => .ok []
  | .null :: values => do
    let childValues ← gatherArrays arraySize values
    pure (List.replicate arraySize .null ++ childValues)
  | .list items :: values =>
    if items.length = arraySize then do
      let childValues ← gatherArrays arraySize values
      pure (items ++ childValues)
    else
      .error (.protocol s!"ARRAY values must be lists of length {arraySize}")
  | _ => .error (.protocol "ARRAY values must be lists")

def writeListEntries (entries : List ListEntry) : Encode :=
  writeList (entries.map fun entry => writeObject (Encode.all [
    writeField 100 (writeUleb entry.offset),
    writeField 101 (writeUleb entry.length)]))

def readListEntries (count : Nat) : Decoder (List ListEntry) := do
  let entries ← readList .listEntry fun _ => readObject do
    let offset ← readRequiredField 100 readUlebUsize
    let length ← readRequiredField 101 readUlebUsize
    pure ⟨offset, length⟩
  if entries.length ≠ count then
    protocolError s!"LIST vector serialized {entries.length} entries for {count} rows"
  else
    pure entries

section
variable (layout : Layout) (prims : Primitives)

/-- A vector of `count` elements. -/
def allocate (element : Element) (count : Nat) : Outcome QuackError Unit :=
  Outcome.check (count * layout.sizeOf element ≤ isizeMax) .capacity

def encodeFixedVectorBody (T : LogicalType) (physicalType : PhysicalType) (values : List Value)
    (count : Nat) : Encode := do
  let size ← physicalTypeSize physicalType
  Outcome.check (size * count < usizeLimit) .overflow
  Outcome.check (size * count ≤ isizeMax) .capacity
  let data ← Encode.all (values.map (encodeFixedValue prims T physicalType))
  writeField 102 (writeBlob data)

def encodeVarcharVectorBody (values : List Value) : Encode :=
  writeField 102 (writeList (values.map fun value => do
    let bytes ← encodeStringLikeValue prims value
    writeStringBytes bytes))

def writeGeometryField (T : LogicalType) : Encode :=
  if T.id = .geometry then writeField 99 (writeUleb 1) else .ok []

def writeMask (values : List Value) : Encode :=
  let validity := values.map fun value => !value.isNull
  let hasValidityMask := validity.any fun valid => !valid
  Encode.all [
    writeField 100 (writeBool hasValidityMask),
    if hasValidityMask then writeField 101 (writeBlob (writeValidityMask validity)) else .ok []]

theorem getStructChildren_mem {T : LogicalType} {children : List ChildType} {child : ChildType}
    (h : getStructChildren T = .ok children) (hmem : child ∈ children) :
    child.logicalType ∈ T.children := by
  unfold getStructChildren at h
  split at h
  · rename_i _ _ hinfo
    cases h
    simp only [LogicalType.children, hinfo, ExtraTypeInfo.children]
    exact List.mem_map_of_mem hmem
  · split at h
    · cases h
      cases hmem
    · cases h

theorem getChildType_mem {T child : LogicalType} (h : getChildType T = .ok child) :
    child ∈ T.children := by
  unfold getChildType at h
  split at h
  · rename_i _ _ hinfo
    cases h
    simp [LogicalType.children, hinfo, ExtraTypeInfo.children]
  · rename_i _ _ _ hinfo
    cases h
    simp [LogicalType.children, hinfo, ExtraTypeInfo.children]
  · cases h

mutual

def encodeVector (T : LogicalType) (values : List Value) (count : Nat) : Encode :=
  if values.length ≠ count then
    .err (.protocol
      s!"vector value count {values.length} does not match row count {count}")
  else
    writeObject (Encode.all [
      writeGeometryField T, writeMask values, encodeFlatData T values count])
termination_by (sizeOf T, 2)

/-- The data of a flat vector. -/
def encodeFlatData (T : LogicalType) (values : List Value) (count : Nat) : Encode := do
  let physicalType ← getPhysicalType T
  if isConstantSizePhysicalType physicalType then
    encodeFixedVectorBody prims T physicalType values count
  else
    match physicalType with
    | .varchar => encodeVarcharVectorBody prims values
    | .struct => encodeStructVectorBody T values count
    | .list => encodeListVectorBody T values
    | .array => encodeArrayVectorBody T values
    | other => .err (.unsupportedType s!"cannot encode physical type {other.debug}")
termination_by (sizeOf T, 1)

def encodeStructVectorBody (T : LogicalType) (values : List Value) (count : Nat) : Encode :=
  match _h : getStructChildren T with
  | .ok children => writeField 103 (writeList (children.attach.map fun child =>
      encodeVector child.val.logicalType (structColumn child.val.name values) count))
  | .error e => .err e
termination_by (sizeOf T, 0)
decreasing_by
  exact .left _ _
    (LogicalType.sizeOf_lt_of_mem_children (getStructChildren_mem _h child.property))

def encodeListVectorBody (T : LogicalType) (values : List Value) : Encode :=
  match _h : getChildType T with
  | .ok childType => do
    allocate layout .listEntry values.length
    let (entries, childValues) ← gatherLists 0 values
    allocate layout .value childValues.length
    Encode.all [
      writeField 104 (writeUleb childValues.length),
      writeField 105 (writeListEntries entries),
      writeField 106 (encodeVector childType childValues childValues.length)]
  | .error e => .err e
termination_by (sizeOf T, 0)
decreasing_by
  exact .left _ _ (LogicalType.sizeOf_lt_of_mem_children (getChildType_mem _h))

def encodeArrayVectorBody (T : LogicalType) (values : List Value) : Encode :=
  match _h : getChildType T with
  | .ok childType => do
    let arraySize ← getArraySize T
    Outcome.check (values.length * arraySize.toNat < usizeLimit) .overflow
    allocate layout .value (values.length * arraySize.toNat)
    let childValues ← gatherArrays arraySize.toNat values
    Encode.all [
      writeField 103 (writeUleb arraySize.toNat),
      writeField 104 (encodeVector childType childValues childValues.length)]
  | .error e => .err e
termination_by (sizeOf T, 0)
decreasing_by
  exact .left _ _ (LogicalType.sizeOf_lt_of_mem_children (getChildType_mem _h))

end

/-- The column at `index`, which must have one value for each row. -/
def encodeColumn (chunk : DataChunk) (column : DecodedVector) (index : Nat) : Encode :=
  match chunk.types[index]? with
  | some T =>
    if column.values.length ≠ chunk.rowCount then
      .err (.protocol
        s!"column {index} has {column.values.length} values, expected {chunk.rowCount}")
    else
      encodeVector layout prims T column.values chunk.rowCount
  | none => .err (.protocol s!"column {index} has no logical type")

def encodeDataChunk (chunk : DataChunk) : Encode :=
  if chunk.types.length ≠ chunk.columns.length then
    .err (.protocol "DataChunk type count must match column count")
  else
    writeObject (Encode.all [
      writeField 100 (writeUleb chunk.rowCount),
      writeField 101 (writeList (chunk.types.map encodeLogicalType)),
      writeField 102 (writeList (chunk.columns.zipIdx.map fun (column, index) =>
        encodeColumn layout prims chunk column index))])

def encodeDataChunkWrapper (chunk : DataChunk) : Encode :=
  writeObject (Encode.all [writeField 300 (encodeDataChunk layout prims chunk)])

end

/-! ### Decoding -/

/-- The numbers in consecutive groups of four bytes. -/
def fourByteWords : Bytes → List Nat
  | a :: b :: c :: d :: bytes => ofLe [a, b, c, d] :: fourByteWords bytes
  | _ => []

def readSelectionVector (count : Nat) : Decoder (List Nat) := do
  let expectedBytes ← audit (.product count 4) (usizeMul count 4)
  let bytes ← readBlob
  if bytes.length ≠ expectedBytes then
    protocolError s!"selection vector has {bytes.length} bytes, expected {expectedBytes}"
  else do
    withCapacity .usize (bytes.length / 4)
    pure (fourByteWords bytes)

def decodeSequenceValue (T : LogicalType) (value : I128) : Result Value :=
  match T.id with
  | .integer => .ok (.int (value.setWidth 64))
  | .date => .ok (.date ⟨value.setWidth 32⟩)
  | .bigInt => .ok (.int (value.setWidth 64))
  | _ => decodeInt64LogicalValue T (value.setWidth 64)

/-- `start + increment * index`. -/
def sequenceNumber (start increment : I128) (index : Nat) : Decoder I128 :=
  audit (.sequence start increment index) do
    let product := increment.toInt * index
    check (InI128 product ∧ InI128 (start.toInt + product)) .overflow
    pure (BitVec.ofInt 128 (start.toInt + product))

def readMask (count : Nat) : Decoder (Option (List Bool)) := do
  let hasValidityMask ← readRequiredField 100 readBool
  if hasValidityMask then do
    let mask ← readRequiredField 101 (readValidityMask count)
    pure (some mask)
  else
    pure none

/-- A row of a nested vector, NULL where the mask says so. -/
def maskedRow (validity : Option (List Bool)) (row : Nat) (value : Decoder Value) :
    Decoder Value := do
  let valid ← isValid validity row
  if valid then value else pure .null

def decodeVarcharValues (T : LogicalType) (count : Nat) (validity : Option (List Bool)) :
    Decoder (List Value) := do
  let rawValues ← readRequiredField 102 (readList .blob fun _ => readStringBytes)
  record (.strings count rawValues.length)
  collect (fun row => do
    let valid ← audit (.stringRow (validity.map List.length) row) (isValid validity row)
    if valid then do
      let raw ← index rawValues row
      ofResult (decodeStringLikeValue T raw)
    else
      pure .null) 0 rawValues.length

def insertChild (childVectors : List DecodedVector) (row : Nat) (fields : Row)
    (child : ChildType × Nat) : Result Row :=
  match childVectors[child.2]? with
  | some vector => .ok (Row.insert fields child.1.name ((vector.values[row]?).getD .null))
  | none => .error (.protocol s!"STRUCT child {child.2} is incomplete")

/-- The children are inserted one by one, so that of two children with one name the later wins. -/
def structRow (children : List ChildType) (childVectors : List DecodedVector) (row : Nat) :
    Result Row :=
  children.zipIdx.foldlM (insertChild childVectors row) []

section
variable (decodeVector : LogicalType → Nat → Decoder DecodedVector)

def decodeStructValues (T : LogicalType) (count : Nat) (validity : Option (List Bool)) :
    Decoder (List Value) := do
  let children ← ofResult (getStructChildren T)
  let childVectors ← readRequiredField 103 (readList .decodedVector fun childIndex =>
    match children[childIndex]? with
    | some child => decodeVector child.logicalType count
    | none =>
      protocolError s!"STRUCT child vector {childIndex} has no matching type metadata")
  withCapacity .value count
  collect (fun row => maskedRow validity row do
    let fields ← ofResult (structRow children childVectors row)
    pure (.struct fields)) 0 count

def decodeListValues (T : LogicalType) (count : Nat) (validity : Option (List Bool)) :
    Decoder (List Value) := do
  let listSize ← readRequiredField 104 readUlebUsize
  let entries ← readRequiredField 105 (readListEntries count)
  let childType ← ofResult (getChildType T)
  let childVector ← readRequiredField 106 (decodeVector childType listSize)
  withCapacity .value entries.length
  collect (fun row => do
    let entry ← index entries row
    maskedRow validity row do
      let stop ← audit (.entryEnd entry.offset entry.length) (usizeAdd entry.offset entry.length)
      let items ← audit (.entry childVector.values.length entry.offset entry.length)
        (slice childVector.values entry.offset stop)
      pure (.list items)) 0 entries.length

def decodeArrayValues (T : LogicalType) (count : Nat) (validity : Option (List Bool)) :
    Decoder (List Value) := do
  let arraySize ← readRequiredField 103 readUlebUsize
  let expected ← ofResult (getArraySize T)
  if arraySize ≠ expected.toNat then
    protocolError s!"ARRAY vector serialized size {arraySize}, expected {expected.toNat}"
  else do
    let childType ← ofResult (getChildType T)
    let childVector ← readRequiredField 104 do
      let childCount ← audit (.product arraySize count) (usizeMul arraySize count)
      decodeVector childType childCount
    withCapacity .value count
    collect (fun row => maskedRow validity row do
      let offset ← usizeMul row arraySize
      let stop ← usizeAdd offset arraySize
      let items ← audit (.arrayRow childVector.values.length arraySize row)
        (slice childVector.values offset stop)
      pure (.list items)) 0 count

def decodeFixedVector (T : LogicalType) (physicalType : PhysicalType) (count : Nat)
    (validity : Option (List Bool)) : Decoder (List Value) := do
  let size ← ofResult (physicalTypeSize physicalType)
  let byteLength ← audit (.product size count) (usizeMul size count)
  let bytes ← readRequiredField 102 readBlob
  if bytes.length ≠ byteLength then
    protocolError s!"fixed-size vector data has {bytes.length} bytes, expected {byteLength}"
  else
    decodeFixedValues T physicalType bytes count validity

def skipGeometryField (T : LogicalType) : Decoder Unit := do
  if T.id = .geometry then
    let next ← peekFieldId
    if next = 99 then
      let _ ← readRequiredField 99 readUlebU64
      pure ()
    else
      pure ()
  else
    pure ()

/-- The data of a flat vector. -/
def decodeFlatData (T : LogicalType) (physicalType : PhysicalType) (count : Nat)
    (validity : Option (List Bool)) : Decoder (List Value) :=
  if isConstantSizePhysicalType physicalType then
    decodeFixedVector T physicalType count validity
  else
    match physicalType with
    | .varchar => decodeVarcharValues T count validity
    | .struct => decodeStructValues decodeVector T count validity
    | .list => decodeListValues decodeVector T count validity
    | .array => decodeArrayValues decodeVector T count validity
    | other =>
      throw (.unsupportedType s!"variable-width physical type {other.debug} is not supported")

def decodeFlatVectorBody (T : LogicalType) (count : Nat) (vectorType : VectorType) :
    Decoder DecodedVector := do
  skipGeometryField T
  let validity ← readMask count
  let physicalType ← ofResult (getPhysicalType T)
  let values ← decodeFlatData decodeVector T physicalType count validity
  pure ⟨T, vectorType, values⟩

end

section
variable (decodeVectorBody : LogicalType → Nat → Decoder DecodedVector)

def decodeConstantVector (T : LogicalType) (count : Nat) : Decoder DecodedVector := do
  let decoded ← decodeVectorBody T (if 0 < count then 1 else 0)
  let value := decoded.values.head?.getD .null
  withCapacity .value count
  pure ⟨T, .constant, List.replicate count value⟩

def decodeDictionaryVector (T : LogicalType) (count : Nat) : Decoder DecodedVector := do
  let selection ← readRequiredField 91 (readSelectionVector count)
  let dictionaryCount ← readRequiredField 92 readUlebUsize
  let dictionary ← decodeVectorBody T dictionaryCount
  withCapacity .value count
  let values ← ofResult (selection.mapM fun position =>
    match dictionary.values[position]? with
    | some value => .ok value
    | none => .error (.protocol s!"dictionary selection {position} is out of range"))
  pure ⟨T, .dictionary, values⟩

end

def decodeSequenceVector (T : LogicalType) (count : Nat) : Decoder DecodedVector := do
  let start ← readRequiredField 91 readSlebI128
  let increment ← readRequiredField 92 readSlebI128
  -- The vector that is collected grows with each value.
  let values ← collect (fun position => do
    let number ← sequenceNumber start increment position
    let value ← ofResult (decodeSequenceValue T number)
    withCapacity .value (position + 1)
    pure value) 0 count
  pure ⟨T, .sequence, values⟩

/-- A vector whose nesting the budget covers. -/
def decodeVectorBody : Nat → LogicalType → Nat → Decoder DecodedVector
  | 0, _, _ => panic .recursion
  | budget + 1, T, count => recursive .vector do
    let code ← readOptionalField 90 readUlebU64 0
    let vectorType ← ofResult (VectorType.tryFrom code)
    let vector ← match vectorType with
      | .flat =>
        decodeFlatVectorBody (fun child length => readObject (decodeVectorBody budget child length))
          T count .flat
      | .fsst => throw (.unsupportedType "FSST-compressed vectors are not supported")
      | .constant => decodeConstantVector (decodeVectorBody budget) T count
      | .dictionary => decodeDictionaryVector (decodeVectorBody budget) T count
      | .sequence => decodeSequenceVector T count
    record (.vector count vector.values.length)
    pure vector

def decodeVectorWithin (budget : Nat) (T : LogicalType) (count : Nat) : Decoder DecodedVector :=
  readObject (decodeVectorBody budget T count)

def decodeVector (T : LogicalType) (count : Nat) : Decoder DecodedVector :=
  withBudget fun budget => decodeVectorWithin budget T count

def decodeDataChunk : Decoder DataChunk := readObject do
  let rowCount ← readRequiredField 100 readUlebUsize
  let types ← readRequiredField 101 (readList .logicalType fun _ => decodeLogicalType)
  let columns ← readRequiredField 102 (readList .decodedVector fun index =>
    match types[index]? with
    | some T => decodeVector T rowCount
    | none => protocolError s!"column vector {index} has no matching logical type")
  if columns.length ≠ types.length then
    protocolError
      s!"DataChunk declared {types.length} types but serialized {columns.length} columns"
  else
    pure ⟨rowCount, types, columns, none⟩

def decodeDataChunkWrapper : Decoder DataChunk :=
  readObject (readRequiredField 300 decodeDataChunk)

end QuackProtocol
