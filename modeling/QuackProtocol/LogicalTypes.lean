import QuackProtocol.Binary

/-! Logical types and their codec (`logical_types.rs`). A type is a tree whose nodes are met again in
every recursive function of the protocol, so the tree comes with its children and one induction
principle. -/

open Decoding Decode

namespace QuackProtocol

inductive PhysicalType where
  | bool | uint8 | int8 | uint16 | int16 | uint32 | int32 | uint64 | int64 | float | double
  | interval | list | struct | array | varchar | uint128 | int128 | bit | invalid
  deriving DecidableEq

/-- `{:?}`. -/
def PhysicalType.debug : PhysicalType → String
  | .bool => "Bool" | .uint8 => "UInt8" | .int8 => "Int8" | .uint16 => "UInt16"
  | .int16 => "Int16" | .uint32 => "UInt32" | .int32 => "Int32" | .uint64 => "UInt64"
  | .int64 => "Int64" | .float => "Float" | .double => "Double" | .interval => "Interval"
  | .list => "List" | .struct => "Struct" | .array => "Array" | .varchar => "Varchar"
  | .uint128 => "UInt128" | .int128 => "Int128" | .bit => "Bit" | .invalid => "Invalid"

inductive LogicalTypeId where
  | invalid | sqlNull | unknown | any | unbound | template | type | boolean | tinyInt
  | smallInt | integer | bigInt | date | time | timestampSec | timestampMs | timestamp
  | timestampNs | decimal | float | double | char | varchar | blob | interval | uTinyInt
  | uSmallInt | uInteger | uBigInt | timestampTz | timeTz | timeNs | bit | stringLiteral
  | integerLiteral | bigNum | uHugeInt | hugeInt | pointer | validity | uuid | geometry
  | struct | list | map | table | enum | aggregateState | lambda | union | array | variant
  deriving DecidableEq

namespace LogicalTypeId

def code : LogicalTypeId → Nat
  | .invalid => 0 | .sqlNull => 1 | .unknown => 2 | .any => 3 | .unbound => 4 | .template => 5
  | .type => 6 | .boolean => 10 | .tinyInt => 11 | .smallInt => 12 | .integer => 13
  | .bigInt => 14 | .date => 15 | .time => 16 | .timestampSec => 17 | .timestampMs => 18
  | .timestamp => 19 | .timestampNs => 20 | .decimal => 21 | .float => 22 | .double => 23
  | .char => 24 | .varchar => 25 | .blob => 26 | .interval => 27 | .uTinyInt => 28
  | .uSmallInt => 29 | .uInteger => 30 | .uBigInt => 31 | .timestampTz => 32 | .timeTz => 34
  | .timeNs => 35 | .bit => 36 | .stringLiteral => 37 | .integerLiteral => 38 | .bigNum => 39
  | .uHugeInt => 49 | .hugeInt => 50 | .pointer => 51 | .validity => 53 | .uuid => 54
  | .geometry => 60 | .struct => 100 | .list => 101 | .map => 102 | .table => 103
  | .enum => 104 | .aggregateState => 105 | .lambda => 106 | .union => 107 | .array => 108
  | .variant => 109

def tryFrom (value : U64) : Result LogicalTypeId :=
  match value.toNat with
  | 0 => .ok .invalid | 1 => .ok .sqlNull | 2 => .ok .unknown | 3 => .ok .any
  | 4 => .ok .unbound | 5 => .ok .template | 6 => .ok .type | 10 => .ok .boolean
  | 11 => .ok .tinyInt | 12 => .ok .smallInt | 13 => .ok .integer | 14 => .ok .bigInt
  | 15 => .ok .date | 16 => .ok .time | 17 => .ok .timestampSec | 18 => .ok .timestampMs
  | 19 => .ok .timestamp | 20 => .ok .timestampNs | 21 => .ok .decimal | 22 => .ok .float
  | 23 => .ok .double | 24 => .ok .char | 25 => .ok .varchar | 26 => .ok .blob
  | 27 => .ok .interval | 28 => .ok .uTinyInt | 29 => .ok .uSmallInt | 30 => .ok .uInteger
  | 31 => .ok .uBigInt | 32 => .ok .timestampTz | 34 => .ok .timeTz | 35 => .ok .timeNs
  | 36 => .ok .bit | 37 => .ok .stringLiteral | 38 => .ok .integerLiteral | 39 => .ok .bigNum
  | 49 => .ok .uHugeInt | 50 => .ok .hugeInt | 51 => .ok .pointer | 53 => .ok .validity
  | 54 => .ok .uuid | 60 => .ok .geometry | 100 => .ok .struct | 101 => .ok .list
  | 102 => .ok .map | 103 => .ok .table | 104 => .ok .enum | 105 => .ok .aggregateState
  | 106 => .ok .lambda | 107 => .ok .union | 108 => .ok .array | 109 => .ok .variant
  | _ => .error (.protocol s!"unknown LogicalTypeId {value.toNat}")

/-- `{:?}`. -/
def debug : LogicalTypeId → String
  | .invalid => "Invalid" | .sqlNull => "SqlNull" | .unknown => "Unknown" | .any => "Any"
  | .unbound => "Unbound" | .template => "Template" | .type => "Type" | .boolean => "Boolean"
  | .tinyInt => "TinyInt" | .smallInt => "SmallInt" | .integer => "Integer"
  | .bigInt => "BigInt" | .date => "Date" | .time => "Time" | .timestampSec => "TimestampSec"
  | .timestampMs => "TimestampMs" | .timestamp => "Timestamp" | .timestampNs => "TimestampNs"
  | .decimal => "Decimal" | .float => "Float" | .double => "Double" | .char => "Char"
  | .varchar => "Varchar" | .blob => "Blob" | .interval => "Interval" | .uTinyInt => "UTinyInt"
  | .uSmallInt => "USmallInt" | .uInteger => "UInteger" | .uBigInt => "UBigInt"
  | .timestampTz => "TimestampTz" | .timeTz => "TimeTz" | .timeNs => "TimeNs" | .bit => "Bit"
  | .stringLiteral => "StringLiteral" | .integerLiteral => "IntegerLiteral"
  | .bigNum => "BigNum" | .uHugeInt => "UHugeInt" | .hugeInt => "HugeInt"
  | .pointer => "Pointer" | .validity => "Validity" | .uuid => "Uuid" | .geometry => "Geometry"
  | .struct => "Struct" | .list => "List" | .map => "Map" | .table => "Table" | .enum => "Enum"
  | .aggregateState => "AggregateState" | .lambda => "Lambda" | .union => "Union"
  | .array => "Array" | .variant => "Variant"

end LogicalTypeId

inductive ExtraTypeInfoType where
  | invalid | generic | decimal | string | list | struct | enum | unbound | aggregateState
  | array | any | integerLiteral | template | geo
  deriving DecidableEq

namespace ExtraTypeInfoType

def code : ExtraTypeInfoType → Nat
  | .invalid => 0 | .generic => 1 | .decimal => 2 | .string => 3 | .list => 4 | .struct => 5
  | .enum => 6 | .unbound => 7 | .aggregateState => 8 | .array => 9 | .any => 10
  | .integerLiteral => 11 | .template => 12 | .geo => 13

def tryFrom (value : U64) : Result ExtraTypeInfoType :=
  match value.toNat with
  | 0 => .ok .invalid | 1 => .ok .generic | 2 => .ok .decimal | 3 => .ok .string
  | 4 => .ok .list | 5 => .ok .struct | 6 => .ok .enum | 7 => .ok .unbound
  | 8 => .ok .aggregateState | 9 => .ok .array | 10 => .ok .any | 11 => .ok .integerLiteral
  | 12 => .ok .template | 13 => .ok .geo
  | _ => .error (.protocol s!"unknown ExtraTypeInfoType {value.toNat}")

end ExtraTypeInfoType

structure CoordinateReferenceSystem where
  definition : Option String

mutual

structure LogicalType where
  id : LogicalTypeId
  typeInfo : Option ExtraTypeInfo

structure ChildType where
  name : String
  logicalType : LogicalType

inductive ExtraTypeInfo where
  | invalid (typeAlias : Option String)
  | generic (typeAlias : Option String)
  | decimal (typeAlias : Option String) (width scale : U64)
  | string (typeAlias : Option String) (collation : String)
  | list (typeAlias : Option String) (childType : LogicalType)
  | struct (typeAlias : Option String) (childTypes : List ChildType)
  | enum (typeAlias : Option String) (values : List String)
  | aggregateState (typeAlias : Option String) (functionName : String) (returnType : LogicalType)
      (boundArgumentTypes : List LogicalType)
  | array (typeAlias : Option String) (childType : LogicalType) (size : U64)
  | any (typeAlias : Option String) (targetType : LogicalType) (castScore : U64)
  | template (typeAlias : Option String) (name : String)
  | integerLiteral (typeAlias : Option String)
  | geo (typeAlias : Option String) (crs : CoordinateReferenceSystem)
  | unbound (typeAlias name catalog schema : Option String)

end

namespace ExtraTypeInfo

def typeId : ExtraTypeInfo → ExtraTypeInfoType
  | invalid .. => .invalid
  | generic .. => .generic
  | decimal .. => .decimal
  | string .. => .string
  | list .. => .list
  | struct .. => .struct
  | enum .. => .enum
  | aggregateState .. => .aggregateState
  | array .. => .array
  | any .. => .any
  | template .. => .template
  | integerLiteral .. => .integerLiteral
  | geo .. => .geo
  | unbound .. => .unbound

/-- `alias`. -/
def typeAlias : ExtraTypeInfo → Option String
  | invalid a | generic a | decimal a .. | string a .. | list a .. | struct a .. | enum a ..
  | aggregateState a .. | array a .. | any a .. | template a .. | integerLiteral a | geo a ..
  | unbound a .. => a

def children : ExtraTypeInfo → List LogicalType
  | list _ childType | array _ childType _ | any _ childType _ => [childType]
  | struct _ childTypes => childTypes.map fun child => child.logicalType
  | aggregateState _ _ returnType boundArgumentTypes => returnType :: boundArgumentTypes
  | _ => []

end ExtraTypeInfo

namespace LogicalType

def children (T : LogicalType) : List LogicalType :=
  match T.typeInfo with
  | some info => info.children
  | none => []

theorem sizeOf_lt_of_mem_children {T child : LogicalType} (h : child ∈ T.children) :
    sizeOf child < sizeOf T := by
  obtain ⟨id, _ | info⟩ := T
  · cases h
  · cases info <;> simp only [children, ExtraTypeInfo.children, List.not_mem_nil, List.mem_cons,
      List.mem_map, or_false] at h
    case list | array | any =>
      subst h
      simp only [mk.sizeOf_spec, Option.some.sizeOf_spec, ExtraTypeInfo.list.sizeOf_spec,
        ExtraTypeInfo.array.sizeOf_spec, ExtraTypeInfo.any.sizeOf_spec]
      omega
    case struct =>
      obtain ⟨⟨name, T⟩, hmem, rfl⟩ := h
      have hlt := List.sizeOf_lt_of_mem hmem
      simp only [mk.sizeOf_spec, Option.some.sizeOf_spec, ExtraTypeInfo.struct.sizeOf_spec,
        ChildType.mk.sizeOf_spec] at hlt ⊢
      omega
    case aggregateState =>
      rcases h with rfl | hmem
      · simp only [mk.sizeOf_spec, Option.some.sizeOf_spec,
          ExtraTypeInfo.aggregateState.sizeOf_spec]
        omega
      · have hlt := List.sizeOf_lt_of_mem hmem
        simp only [mk.sizeOf_spec, Option.some.sizeOf_spec,
          ExtraTypeInfo.aggregateState.sizeOf_spec]
        omega

/-- What holds of a type once it holds of its children, holds of every type. -/
theorem childInduction {motive : LogicalType → Prop}
    (step : ∀ T, (∀ child ∈ T.children, motive child) → motive T) (T : LogicalType) : motive T :=
  step T fun child _ => childInduction step child
termination_by sizeOf T
decreasing_by exact sizeOf_lt_of_mem_children ‹_›

end LogicalType

/-! ### Encoding -/

/-- `if let Some(text) = text`. -/
def writeSomeString (fieldId : Nat) : Option String → Encode
  | some text => writeField fieldId (writeString text)
  | none => .ok []

def encodeCoordinateReferenceSystem (crs : CoordinateReferenceSystem) : Encode :=
  writeObject (Encode.all [writeSomeString 100 crs.definition])

/-- `write_optional_string`: nothing for an empty text. -/
def writeOptionalString (fieldId : Nat) (value : Option String) : Encode :=
  writeSomeString fieldId (value.filter fun text => text ≠ "")

def writeAlias (typeAlias : Option String) : Encode := writeOptionalString 101 typeAlias

mutual

def encodeLogicalType : LogicalType → Encode
  | ⟨id, typeInfo⟩ => writeObject (Encode.all [
      writeField 100 (writeUleb id.code),
      match typeInfo with
      | some info => writeField 101 (writeNullable (some (encodeExtraTypeInfo info)))
      | none => .ok []])
termination_by T => (sizeOf T, 0)

def encodeExtraTypeInfo (info : ExtraTypeInfo) : Encode :=
  writeObject (Encode.all [
    writeField 100 (writeUleb info.typeId.code),
    writeAlias info.typeAlias,
    encodeInfoBody info])
termination_by (sizeOf info, 1)

/-- The fields that depend on the kind of information. -/
def encodeInfoBody (info : ExtraTypeInfo) : Encode :=
  match info with
  | .invalid _ | .generic _ => Encode.all []
  | .decimal _ width scale => Encode.all [
      writeField 200 (writeUleb width.toNat),
      writeField 201 (writeUleb scale.toNat)]
  | .string _ collation => Encode.all [writeField 200 (writeString collation)]
  | .list _ childType => Encode.all [writeField 200 (encodeLogicalType childType)]
  | .struct _ childTypes => Encode.all [writeField 200 (encodeChildTypes childTypes)]
  | .enum _ values => Encode.all [
      writeField 200 (writeUleb values.length),
      writeField 201 (writeList (values.map writeString))]
  | .aggregateState _ functionName returnType boundArgumentTypes => Encode.all [
      writeField 200 (writeString functionName),
      writeField 201 (encodeLogicalType returnType),
      writeField 202 (writeList (boundArgumentTypes.map fun T => encodeLogicalType T))]
  | .array _ childType size => Encode.all [
      writeField 200 (encodeLogicalType childType),
      writeField 201 (writeUleb size.toNat)]
  | .any _ targetType castScore => Encode.all [
      writeField 200 (encodeLogicalType targetType),
      writeField 201 (writeUleb castScore.toNat)]
  | .template _ name => Encode.all [writeField 200 (writeString name)]
  | .integerLiteral _ =>
      .err (.unsupportedType "encoding INTEGER_LITERAL type metadata is not supported")
  | .geo _ crs => Encode.all [writeField 200 (encodeCoordinateReferenceSystem crs)]
  | .unbound _ name catalog schema => Encode.all [
      writeSomeString 200 name,
      writeSomeString 201 catalog,
      writeSomeString 202 schema]
termination_by (sizeOf info, 0)

def encodeChildTypes (children : List ChildType) : Encode :=
  writeList (children.map fun child => writeObject (Encode.all [
    writeField 0 (writeString child.name),
    writeField 1 (encodeLogicalType child.logicalType)]))
termination_by (sizeOf children, 0)
decreasing_by
  apply Prod.Lex.left
  have hlt := List.sizeOf_lt_of_mem ‹child ∈ children›
  obtain ⟨name, T⟩ := child
  simp only [ChildType.mk.sizeOf_spec] at hlt
  show sizeOf T < sizeOf children
  omega

end

def readSomeString : Decoder (Option String) := do
  let text ← readString
  pure (some text)

def readOptionalString (fieldId : Nat) : Decoder (Option String) :=
  readOptionalField fieldId readSomeString none

/-- A field that the protocol has and this client does not support. -/
def rejectField (fieldId : Nat) (message : String) : Decoder Unit := do
  let next ← peekFieldId
  if next = fieldId then throw (.unsupportedType message) else pure ()

def decodeCoordinateReferenceSystem : Decoder CoordinateReferenceSystem := readObject do
  let definition ← readOptionalString 100
  pure ⟨definition⟩

def decodeChildTypes (decodeLogicalType : Decoder LogicalType) : Decoder (List ChildType) :=
  readList .childType fun _ => readObject do
    let name ← readRequiredField 0 readString
    let logicalType ← readRequiredField 1 decodeLogicalType
    pure ⟨name, logicalType⟩

def decodeEnumInfo (typeAlias : Option String) : Decoder ExtraTypeInfo := do
  let valuesCount ← readRequiredField 200 readUlebUsize
  let values ← readRequiredField 201 (readList .string fun _ => readString)
  if values.length ≠ valuesCount then
    protocolError
      s!"ENUM metadata declared {valuesCount} values but serialized {values.length}"
  else
    pure (.enum typeAlias values)

/-- The part of the information that depends on its kind. -/
def decodeInfoBody (decodeLogicalType : Decoder LogicalType) (typeAlias : Option String) :
    ExtraTypeInfoType → Decoder ExtraTypeInfo
  | .invalid => pure (.invalid typeAlias)
  | .generic => pure (.generic typeAlias)
  | .decimal => do
    let width ← readOptionalField 200 readUlebU64 0
    let scale ← readOptionalField 201 readUlebU64 0
    pure (.decimal typeAlias width scale)
  | .string => do
    let collation ← readOptionalField 200 readString ""
    pure (.string typeAlias collation)
  | .list => do
    let childType ← readRequiredField 200 decodeLogicalType
    pure (.list typeAlias childType)
  | .struct => do
    let childTypes ← readOptionalField 200 (decodeChildTypes decodeLogicalType) []
    pure (.struct typeAlias childTypes)
  | .enum => decodeEnumInfo typeAlias
  | .aggregateState => do
    let functionName ← readRequiredField 200 readString
    let returnType ← readRequiredField 201 decodeLogicalType
    let boundArgumentTypes ← readRequiredField 202 (readList .logicalType fun _ => decodeLogicalType)
    pure (.aggregateState typeAlias functionName returnType boundArgumentTypes)
  | .array => do
    let childType ← readRequiredField 200 decodeLogicalType
    let size ← readRequiredField 201 readUlebU64
    pure (.array typeAlias childType size)
  | .any => do
    let targetType ← readRequiredField 200 decodeLogicalType
    let castScore ← readRequiredField 201 readUlebU64
    pure (.any typeAlias targetType castScore)
  | .integerLiteral => do
    rejectField 200 "INTEGER_LITERAL type metadata contains a DuckDB Value, which is not supported"
    pure (.integerLiteral typeAlias)
  | .template => do
    let name ← readOptionalField 200 readString ""
    pure (.template typeAlias name)
  | .geo => do
    let crs ← readOptionalField 200 decodeCoordinateReferenceSystem ⟨none⟩
    pure (.geo typeAlias crs)
  | .unbound => do
    rejectField 204 "UNBOUND type metadata contains a ParsedExpression, which is not supported"
    let name ← readOptionalString 200
    let catalog ← readOptionalString 201
    let schema ← readOptionalString 202
    pure (.unbound typeAlias name catalog schema)

/-- Given the decoder of the types inside. -/
def decodeExtraTypeInfo (decodeLogicalType : Decoder LogicalType) : Decoder ExtraTypeInfo :=
  readObject do
    let code ← readRequiredField 100 readUlebU64
    let typeId ← ofResult (ExtraTypeInfoType.tryFrom code)
    let typeAlias ← readOptionalString 101
    rejectField 103 "extension type metadata is not supported"
    decodeInfoBody decodeLogicalType typeAlias typeId

/-- A type whose nesting the budget covers. -/
def decodeLogicalTypeWithin : Nat → Decoder LogicalType
  | 0 => panic .recursion
  | budget + 1 => recursive .logicalType <| readObject do
    let code ← readRequiredField 100 readUlebU64
    let id ← ofResult (LogicalTypeId.tryFrom code)
    let typeInfo ← readOptionalField 101
      (readNullable (decodeExtraTypeInfo (decodeLogicalTypeWithin budget))) none
    pure ⟨id, typeInfo⟩

def decodeLogicalType : Decoder LogicalType := withBudget decodeLogicalTypeWithin

def getDecimalWidthAndScale (T : LogicalType) : Result (U64 × U64) :=
  match T.typeInfo with
  | some (.decimal _ width scale) => .ok (width, scale)
  | _ => .error (.protocol "DECIMAL type is missing DecimalTypeInfo")

def getEnumValues (T : LogicalType) : Result (List String) :=
  match T.typeInfo with
  | some (.enum _ values) => .ok values
  | _ => .error (.protocol s!"logical type {T.id.debug} is not an ENUM")

def getChildType (T : LogicalType) : Result LogicalType :=
  match T.typeInfo with
  | some (.list _ childType) => .ok childType
  | some (.array _ childType _) => .ok childType
  | _ => .error (.protocol s!"logical type {T.id.debug} does not have a child type")

def getStructChildren (T : LogicalType) : Result (List ChildType) :=
  match T.typeInfo with
  | some (.struct _ childTypes) => .ok childTypes
  | _ =>
    if T.id = .variant ∨ T.id = .union then .ok []
    else .error (.protocol s!"logical type {T.id.debug} does not have struct children")

def getArraySize (T : LogicalType) : Result U64 :=
  match T.typeInfo with
  | some (.array _ _ size) => .ok size
  | _ => .error (.protocol s!"logical type {T.id.debug} is not an ARRAY")

def decimalPhysicalType (T : LogicalType) : Result PhysicalType := do
  let (width, _) ← getDecimalWidthAndScale T
  if width.toNat ≤ 4 then pure .int16
  else if width.toNat ≤ 9 then pure .int32
  else if width.toNat ≤ 18 then pure .int64
  else if width.toNat ≤ 38 then pure .int128
  else throw (.protocol s!"unsupported DECIMAL width {width.toNat}")

def enumPhysicalType (T : LogicalType) : Result PhysicalType := do
  let values ← getEnumValues T
  if values.length ≤ 0xff then pure .uint8
  else if values.length ≤ 0xffff then pure .uint16
  else pure .uint32

def getPhysicalType (T : LogicalType) : Result PhysicalType :=
  match T.id with
  | .boolean => .ok .bool
  | .tinyInt => .ok .int8
  | .uTinyInt => .ok .uint8
  | .smallInt => .ok .int16
  | .uSmallInt => .ok .uint16
  | .sqlNull | .date | .integer => .ok .int32
  | .uInteger => .ok .uint32
  | .bigInt | .time | .timeNs | .timestamp | .timestampSec | .timestampNs | .timestampMs | .timeTz
  | .timestampTz => .ok .int64
  | .uBigInt => .ok .uint64
  | .uHugeInt => .ok .uint128
  | .hugeInt | .uuid => .ok .int128
  | .float => .ok .float
  | .double => .ok .double
  | .decimal => decimalPhysicalType T
  | .bigNum | .varchar | .char | .blob | .bit | .type | .aggregateState | .geometry => .ok .varchar
  | .interval => .ok .interval
  | .union | .variant | .struct => .ok .struct
  | .list | .map => .ok .list
  | .array => .ok .array
  | .pointer => .ok .uint64
  | .validity => .ok .bit
  | .enum => enumPhysicalType T
  | _ => .ok .invalid

/-- `physical_type_size` where `is_constant_size_physical_type` holds. -/
def constantSize : PhysicalType → Option Nat
  | .bool | .uint8 | .int8 => some 1
  | .uint16 | .int16 => some 2
  | .uint32 | .int32 | .float => some 4
  | .uint64 | .int64 | .double => some 8
  | .interval | .uint128 | .int128 => some 16
  | _ => none

theorem constantSize_le {physicalType : PhysicalType} {size : Nat}
    (h : constantSize physicalType = some size) : size ≤ 16 := by
  cases physicalType <;> cases h <;> decide

def isConstantSizePhysicalType (physicalType : PhysicalType) : Bool :=
  (constantSize physicalType).isSome

def physicalTypeSize (physicalType : PhysicalType) : Result Nat :=
  match constantSize physicalType with
  | some size => .ok size
  | none => .error (.protocol s!"physical type {physicalType.debug} is not fixed size")

end QuackProtocol
