import QuackProtocol.DecodingOutlines
import QuackProtocol.FixedData
import QuackProtocol.Messages
import QuackProtocol.StructRows

/-! What the bytes of a message declare: lengths of byte strings and lists, products of sizes, signed numbers,
list entries, rows, and how types and vectors nest. The reader is one without limits. Numbers have any size, nothing is allocated and nothing
can be out of bounds; of a vector only the number of its values is kept. -/

open Decoding Varint

namespace QuackProtocol

abbrev Wire (α : Type) := Outline Event α

namespace Wire

open Outline

variable {α : Type}

def recursive (callee : Recursive) (read : Wire α) : Wire α := nested (.enter callee) .leave read

def ensure (length : Nat) : Wire Unit := do
  let reader ← cursor
  if reader.bytes.length < reader.offset + length then fail else pure ()

def endOfInput : Wire Unit := do
  let reader ← cursor
  if reader.remaining = 0 then pure () else fail

def nextFieldId : Wire Nat := do
  ensure 2
  let reader ← cursor
  let low ← ofOption reader.bytes[reader.offset]?
  let high ← ofOption reader.bytes[reader.offset + 1]?
  pure (ofLe [low, high])

def fieldId : Wire Nat := do
  let value ← nextFieldId
  let reader ← cursor
  setOffset (reader.offset + 2)
  pure value

def endObject : Wire Unit := do
  let id ← fieldId
  if id = fieldEnd then pure () else fail

def object (read : Wire α) : Wire α := do
  let result ← read
  endObject
  pure result

def required (id : Nat) (read : Wire α) : Wire α := do
  let actual ← fieldId
  if actual = id then read else fail

def optional (id : Nat) (read : Wire α) (default : α) : Wire α := do
  let actual ← nextFieldId
  if actual = id then do
    let _ ← fieldId
    read
  else
    pure default

def byte : Wire UInt8 := do
  ensure 1
  let reader ← cursor
  let value ← ofOption reader.bytes[reader.offset]?
  setOffset (reader.offset + 1)
  pure value

def bytes (length : Nat) : Wire Bytes := do
  let reader ← cursor
  declare (.bytes reader.offset length)
  ensure length
  setOffset (reader.offset + length)
  pure ((reader.bytes.drop reader.offset).take length)

def word (size : Nat) : Wire (BitVec (8 * size)) := do
  ensure size
  let reader ← cursor
  setOffset (reader.offset + size)
  pure (BitVec.ofNat (8 * size) (ofLe ((reader.bytes.drop reader.offset).take size)))

def bool : Wire Bool := do
  let value ← byte
  if value = 0 then pure false else if value = 1 then pure true else fail

def ulebGroups : Nat → U128 → Nat → Wire U128
  | 0, _, _ => fail
  | passes + 1, result, shift => do
    let byte ← byte
    let group := BitVec.ofNat 128 (byte &&& 0x7f).toNat <<< shift
    if byte &&& 0x80 = 0 then pure (result ||| group) else ulebGroups passes (result ||| group) (shift + 7)

def uleb128 : Wire U128 := ulebGroups 19 0 0

def uleb64 : Wire U64 := do
  let value ← uleb128
  if value.toNat < 2 ^ 64 then pure (BitVec.ofNat 64 value.toNat) else fail

def size : Wire Nat := do
  let value ← uleb128
  if value.toNat < usizeLimit then pure value.toNat else fail

/-- A negative number declares the bit from which its sign is extended. -/
def slebGroups : Nat → I128 → Nat → Wire I128
  | 0, _, _ => fail
  | passes + 1, result, shift => do
    let byte ← byte
    let group := BitVec.ofNat 128 (byte &&& 0x7f).toNat <<< shift
    if byte &&& 0x80 = 0 then
      if byte &&& 0x40 = 0 then
        pure (result ||| group)
      else do
        declare (.signExtension (shift + 7))
        pure (result ||| group ||| (BitVec.allOnes 128 <<< (shift + 7)))
    else
      slebGroups passes (result ||| group) (shift + 7)

def sleb128 : Wire I128 := slebGroups 19 0 0

def hugeInt : Wire Unit := do
  let upper ← sleb128
  if -2 ^ 63 ≤ upper.toInt ∧ upper.toInt < 2 ^ 63 then do
    let _ ← uleb64
    pure ()
  else
    fail

def blob : Wire Bytes := do
  let length ← size
  bytes length

def text : Wire String := do
  let raw ← blob
  ofResult (fromUtf8 raw)

def list (element : Element) (read : Nat → Wire α) : Wire (List α) := do
  let length ← size
  declare (.reserve element length)
  collect read 0 length

def nullable (read : Wire α) : Wire (Option α) := do
  let present ← bool
  if present then do
    let value ← read
    pure (some value)
  else
    pure none

def optionalText (id : Nat) : Wire (Option String) :=
  optional id (do
    let value ← text
    pure (some value)) none

def reject (id : Nat) : Wire Unit := do
  let next ← nextFieldId
  if next = id then fail else pure ()

def coordinateReferenceSystem : Wire CoordinateReferenceSystem := object do
  let definition ← optionalText 100
  pure ⟨definition⟩

def childTypes (logicalType : Wire LogicalType) : Wire (List ChildType) :=
  list .childType fun _ => object do
    let name ← required 0 text
    let childType ← required 1 logicalType
    pure ⟨name, childType⟩

def enumInfo (typeAlias : Option String) : Wire ExtraTypeInfo := do
  let count ← required 200 size
  let values ← required 201 (list .string fun _ => text)
  if values.length ≠ count then fail else pure (.enum typeAlias values)

def infoBody (logicalType : Wire LogicalType) (typeAlias : Option String) : ExtraTypeInfoType → Wire ExtraTypeInfo
  | .invalid => pure (.invalid typeAlias)
  | .generic => pure (.generic typeAlias)
  | .decimal => do
    let width ← optional 200 uleb64 0
    let scale ← optional 201 uleb64 0
    pure (.decimal typeAlias width scale)
  | .string => do
    let collation ← optional 200 text ""
    pure (.string typeAlias collation)
  | .list => do
    let childType ← required 200 logicalType
    pure (.list typeAlias childType)
  | .struct => do
    let children ← optional 200 (childTypes logicalType) []
    pure (.struct typeAlias children)
  | .enum => enumInfo typeAlias
  | .aggregateState => do
    let functionName ← required 200 text
    let returnType ← required 201 logicalType
    let boundArgumentTypes ← required 202 (list .logicalType fun _ => logicalType)
    pure (.aggregateState typeAlias functionName returnType boundArgumentTypes)
  | .array => do
    let childType ← required 200 logicalType
    let size ← required 201 uleb64
    pure (.array typeAlias childType size)
  | .any => do
    let targetType ← required 200 logicalType
    let castScore ← required 201 uleb64
    pure (.any typeAlias targetType castScore)
  | .integerLiteral => do
    reject 200
    pure (.integerLiteral typeAlias)
  | .template => do
    let name ← optional 200 text ""
    pure (.template typeAlias name)
  | .geo => do
    let crs ← optional 200 coordinateReferenceSystem ⟨none⟩
    pure (.geo typeAlias crs)
  | .unbound => do
    reject 204
    let name ← optionalText 200
    let catalog ← optionalText 201
    let schema ← optionalText 202
    pure (.unbound typeAlias name catalog schema)

def extraTypeInfo (logicalType : Wire LogicalType) : Wire ExtraTypeInfo := object do
  let code ← required 100 uleb64
  let typeId ← ofResult (ExtraTypeInfoType.tryFrom code)
  let typeAlias ← optionalText 101
  reject 103
  infoBody logicalType typeAlias typeId

def logicalTypeWithin : Nat → Wire LogicalType
  | 0 => fail
  | budget + 1 => recursive .logicalType <| object do
    let code ← required 100 uleb64
    let id ← ofResult (LogicalTypeId.tryFrom code)
    let typeInfo ← optional 101 (nullable (extraTypeInfo (logicalTypeWithin budget))) none
    pure ⟨id, typeInfo⟩

def logicalType : Wire LogicalType := withBudget logicalTypeWithin

/-! ### Vectors -/

def validityMask (count : Nat) : Wire (List Bool) := do
  let bytes ← blob
  if bytes.length ≠ (count + 63) / 64 * 8 then
    fail
  else do
    declare (.reserve .bool count)
    pure ((List.range count).map (maskBit bytes))

def mask (count : Nat) : Wire (Option (List Bool)) := do
  let present ← required 100 bool
  if present then do
    let bits ← required 101 (validityMask count)
    pure (some bits)
  else
    pure none

/-- One element of a fixed-size column, with a label where it needs one. -/
def fixedElement (T : LogicalType) : PhysicalType → Wire Unit
  | .bool | .int8 => do
    let _ ← word 1
    pure ()
  | .uint8 => do
    let index ← word 1
    let _ ← ofResult (decodeEnumOrNumber T (index.setWidth 64))
    pure ()
  | .int16 => do
    let number ← word 2
    let _ ← ofResult (decodeDecimalOrInt T (number.signExtend 128))
    pure ()
  | .uint16 => do
    let index ← word 2
    let _ ← ofResult (decodeEnumOrNumber T (index.setWidth 64))
    pure ()
  | .int32 => do
    let number ← word 4
    let _ ← ofResult (decodeDateDecimalOrInt T number)
    pure ()
  | .uint32 => do
    let index ← word 4
    let _ ← ofResult (decodeEnumOrNumber T (index.setWidth 64))
    pure ()
  | .int64 => do
    let number ← word 8
    let _ ← ofResult (decodeInt64LogicalValue T number)
    pure ()
  | .float => do
    let _ ← word 4
    pure ()
  | .uint64 | .double => do
    let _ ← word 8
    pure ()
  | .int128 => do
    let lower ← word 8
    let upper ← word 8
    let _ ← ofResult (decodeInt128Parts T ⟨upper, lower⟩)
    pure ()
  | .uint128 => do
    let _ ← word 8
    let _ ← word 8
    pure ()
  | .interval => do
    let _ ← word 4
    let _ ← word 4
    let _ ← word 8
    pure ()
  | _ => fail

def fixedVector (T : LogicalType) (physicalType : PhysicalType) (count : Nat) : Wire Nat := do
  let size ← ofResult (physicalTypeSize physicalType)
  declare (.product size count)
  let bytes ← required 102 blob
  if bytes.length ≠ size * count then
    fail
  else do
    declare (.reserve .value count)
    onBytes bytes do
      let _ ← collect (fun _ => fixedElement T physicalType) 0 count
      endOfInput
    pure count

def texts (T : LogicalType) (count : Nat) (validity : Option (List Bool)) : Wire Nat := do
  let raw ← required 102 (list .blob fun _ => blob)
  declare (.strings count raw.length)
  let _ ← collect (fun row => do
    declare (.stringRow (validity.map List.length) row)
    if rowValid validity row then do
      let _ ← ofResult (decodeStringLikeValue T (raw.getD row []))
      pure ()
    else
      pure ()) 0 raw.length
  pure raw.length

section
variable (vector : LogicalType → Nat → Wire Nat)

def structVector (T : LogicalType) (count : Nat) (validity : Option (List Bool)) : Wire Nat := do
  let children ← ofResult (getStructChildren T)
  let columns ← required 103 (list .decodedVector fun index =>
    match children[index]? with
    | some child => vector child.logicalType count
    | none => fail)
  declare (.reserve .value count)
  let _ ← collect (fun row =>
    if rowValid validity row then
      if children.length ≤ columns.length then pure () else fail
    else
      pure ()) 0 count
  pure count

def listEntries (count : Nat) : Wire (List ListEntry) := do
  let entries ← list .listEntry fun _ => object do
    let offset ← required 100 size
    let length ← required 101 size
    pure ⟨offset, length⟩
  if entries.length ≠ count then fail else pure entries

/-- An entry of a valid row lies over the values of the child. -/
def listVector (T : LogicalType) (count : Nat) (validity : Option (List Bool)) : Wire Nat := do
  let listSize ← required 104 size
  let entries ← required 105 (listEntries count)
  let childType ← ofResult (getChildType T)
  let values ← required 106 (vector childType listSize)
  declare (.reserve .value entries.length)
  let _ ← collect (fun row => do
    let entry ← ofOption entries[row]?
    if rowValid validity row then do
      declare (.entryEnd entry.offset entry.length)
      declare (.entry values entry.offset entry.length)
      pure ()
    else
      pure ()) 0 entries.length
  pure entries.length

def arrayVector (T : LogicalType) (count : Nat) (validity : Option (List Bool)) : Wire Nat := do
  let arraySize ← required 103 size
  let expected ← ofResult (getArraySize T)
  if arraySize ≠ expected.toNat then
    fail
  else do
    let childType ← ofResult (getChildType T)
    let values ← required 104 do
      declare (.product arraySize count)
      vector childType (arraySize * count)
    declare (.reserve .value count)
    let _ ← collect (fun row =>
      if rowValid validity row then do
        declare (.arrayRow values arraySize row)
        pure ()
      else
        pure ()) 0 count
    pure count

def flatData (T : LogicalType) (physicalType : PhysicalType) (count : Nat) (validity : Option (List Bool)) :
    Wire Nat :=
  if isConstantSizePhysicalType physicalType then
    fixedVector T physicalType count
  else
    match physicalType with
    | .varchar => texts T count validity
    | .struct => structVector vector T count validity
    | .list => listVector vector T count validity
    | .array => arrayVector vector T count validity
    | _ => fail

def skipGeometry (T : LogicalType) : Wire Unit :=
  if T.id = .geometry then do
    let next ← nextFieldId
    if next = 99 then do
      let _ ← required 99 uleb64
      pure ()
    else
      pure ()
  else
    pure ()

def flatVector (T : LogicalType) (count : Nat) : Wire Nat := do
  skipGeometry T
  let validity ← mask count
  let physicalType ← ofResult (getPhysicalType T)
  flatData vector T physicalType count validity

end

def selection (count : Nat) : Wire (List Nat) := do
  declare (.product count 4)
  let bytes ← blob
  if bytes.length ≠ count * 4 then
    fail
  else do
    declare (.reserve .usize (bytes.length / 4))
    pure (fourByteWords bytes)

section
variable (vector : LogicalType → Nat → Wire Nat)

def constantVector (T : LogicalType) (count : Nat) : Wire Nat := do
  let _ ← vector T (if 0 < count then 1 else 0)
  declare (.reserve .value count)
  pure count

def dictionaryVector (T : LogicalType) (count : Nat) : Wire Nat := do
  let positions ← required 91 (selection count)
  let dictionaryCount ← required 92 size
  let values ← vector T dictionaryCount
  declare (.reserve .value count)
  if ∀ position ∈ positions, position < values then pure positions.length else fail

end

def sequenceVector (T : LogicalType) (count : Nat) : Wire Nat := do
  let start ← required 91 sleb128
  let increment ← required 92 sleb128
  let _ ← collect (fun position => do
    declare (.sequence start increment position)
    let _ ← ofResult (decodeSequenceValue T (BitVec.ofInt 128 (start.toInt + increment.toInt * position)))
    declare (.reserve .value (position + 1))
    pure ()) 0 count
  pure count

/-- The number of values of a vector. -/
def vectorWithin : Nat → LogicalType → Nat → Wire Nat
  | 0, _, _ => fail
  | budget + 1, T, count => recursive .vector do
    let code ← optional 90 uleb64 0
    let vectorType ← ofResult (VectorType.tryFrom code)
    let values ← match vectorType with
      | .flat => flatVector (fun child length => object (vectorWithin budget child length)) T count
      | .fsst => fail
      | .constant => constantVector (vectorWithin budget) T count
      | .dictionary => dictionaryVector (vectorWithin budget) T count
      | .sequence => sequenceVector T count
    declare (.vector count values)
    pure values

def vector (T : LogicalType) (count : Nat) : Wire Nat :=
  withBudget fun budget => object (vectorWithin budget T count)

def dataChunk : Wire Unit := object do
  let rowCount ← required 100 size
  let types ← required 101 (list .logicalType fun _ => logicalType)
  let columns ← required 102 (list .decodedVector fun index =>
    match types[index]? with
    | some T => vector T rowCount
    | none => fail)
  if columns.length ≠ types.length then fail else pure ()

def wrappedChunk : Wire Unit := object (required 300 dataChunk)

def header : Wire MessageType := object do
  let code ← required 1 uleb64
  let messageType ← ofResult (MessageType.tryFrom code)
  let _ ← optionalText 2
  let _ ← required 3 uleb64
  pure messageType

def someChunk (read : Wire (Option Unit)) : Wire Unit := do
  let chunk ← read
  if chunk.isSome then pure () else fail

def chunkList : Wire (List Unit) := list .dataChunk fun _ => someChunk (nullable wrappedChunk)

/-- A number of the given field, which nothing depends on. -/
def number (id : Nat) : Wire Unit := do
  let _ ← optional id uleb64 0
  pure ()

def prepareResponse : Wire Unit := object do
  let _ ← optional 1 (list .logicalType fun _ => logicalType) []
  let _ ← optional 2 (list .string fun _ => text) []
  let _ ← optional 3 bool false
  let _ ← optional 4 chunkList []
  required 5 hugeInt

def errorResponse : Wire Unit := object do
  let _ ← optional 1 text ""
  pure ()

def bodyV1 : MessageType → Wire Unit
  | .connectionRequest => object do
    let _ ← optionalText 1
    let _ ← optionalText 2
    let _ ← optionalText 3
    number 4
    number 5
  | .connectionResponse => object do
    let _ ← optionalText 1
    let _ ← optionalText 2
    number 3
  | .prepareRequest | .errorResponse => errorResponse
  | .prepareResponse => prepareResponse
  | .fetchRequest => object (required 1 hugeInt)
  | .fetchResponse => object do
    let _ ← optional 1 chunkList []
    let _ ← required 2 uleb64
    pure ()
  | .sendDataRequest => object do
    let _ ← optionalText 1
    let _ ← optional 2 text ""
    someChunk (optional 3 (nullable wrappedChunk) none)
  | .successResponse | .disconnectMessage => object (pure ())
  | _ => fail

def bodyV3 : MessageType → Wire Unit
  | .connectionRequest => object do
    let _ ← optionalText 1
    let _ ← optionalText 2
    let _ ← optionalText 3
    number 4
    number 5
    let _ ← optionalText 6
    number 7
  | .connectionResponse => object do
    let _ ← optionalText 1
    let _ ← optionalText 2
    number 3
    number 4
  | .prepareRequest => object do
    let _ ← optional 1 text ""
    required 2 hugeInt
    number 3
  | .prepareResponse => prepareResponse
  | .fetchRequest => object do
    required 1 hugeInt
    number 2
    number 3
  | .fetchResponse => do
    let chunkCount ← object do
      let chunkCount ← optional 1 uleb64 0
      number 2
      number 3
      pure chunkCount
    declare (.reserve .dataChunk (min chunkCount.toNat 1024))
    let _ ← collect (fun _ => dataChunk) 0 chunkCount.toNat
    pure ()
  | .successResponse | .disconnectMessage | .heartbeatRequest => object (pure ())
  | .errorResponse => errorResponse
  | _ => fail

def body (quackVersion : U64) (messageType : MessageType) : Wire Unit :=
  if quackVersion = quackV1 then bodyV1 messageType
  else if quackVersion = quackV3 then bodyV3 messageType
  else fail

def message (quackVersion : U64) : Wire Unit := do
  let messageType ← header
  body quackVersion messageType
  endOfInput

end Wire

/-- What the bytes of a message declare, in the order in which they declare it. -/
def declaredBy (bytes : Bytes) (quackVersion : U64) : List Event :=
  (Wire.message quackVersion).declared ⟨bytes, 0⟩

end QuackProtocol
