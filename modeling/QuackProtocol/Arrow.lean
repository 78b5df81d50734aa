import QuackProtocol.Narrowing
import QuackProtocol.Vectors

/-! The Arrow bridge (`arrow/schema.rs`, `arrow/values.rs`, `arrow/columns.rs`): the Arrow type of a
logical type, and one Arrow array for a column of decoded values. An array is what the builders and
constructors of the Arrow library were given; which of them that library refuses is a parameter. -/

open Decoding Narrowing

namespace QuackProtocol

inductive ArrowTimeUnit where
  | second | millisecond | microsecond | nanosecond
  deriving DecidableEq

mutual

inductive DataType where
  | null | boolean | int8 | int16 | int32 | int64 | uint8 | uint16 | uint32 | uint64 | float32
  | float64 | utf8 | binary | date32
  | decimal128 (precision : Nat) (scale : Int)
  | decimal256 (precision : Nat) (scale : Int)
  | time64 (unit : ArrowTimeUnit)
  | timestamp (unit : ArrowTimeUnit) (timezone : Option String)
  | intervalMonthDayNano
  | list (item : ArrowField)
  | fixedSizeList (item : ArrowField) (size : Int)
  | struct (fields : List ArrowField)

structure ArrowField where
  name : String
  dataType : DataType
  nullable : Bool

end

/-- What one slot of an array of a scalar type holds. -/
inductive Scalar where
  | bool (value : Bool)
  | int (value : Int)
  | float (bits : F32)
  | double (bits : F64)
  | text (value : String)
  | bytes (value : Bytes)
  | interval (months days : I32) (nanoseconds : Int)
  deriving DecidableEq

inductive ArrowArray where
  | null (length : Nat)
  | scalar (dataType : DataType) (slots : List (Option Scalar))
  | list (item : ArrowField) (offsets : List Nat) (child : ArrowArray) (validity : List Bool)
  | fixedSizeList (item : ArrowField) (size : Int) (child : ArrowArray) (validity : List Bool)
  | struct (fields : List ArrowField) (children : List ArrowArray) (validity : List Bool) (length : Nat)

namespace ArrowArray

def dataType : ArrowArray → DataType
  | null _ => .null
  | scalar dataType _ => dataType
  | list item .. => .list item
  | fixedSizeList item size .. => .fixedSizeList item size
  | struct fields .. => .struct fields

def length : ArrowArray → Nat
  | null length => length
  | scalar _ slots => slots.length
  | list _ _ _ validity => validity.length
  | fixedSizeList _ _ _ validity => validity.length
  | struct _ _ _ length => length

end ArrowArray

/-- The checks of the Arrow library, each with the text of its error. -/
structure ArrowLibrary where
  decimal128Limits : Nat → Int → Except String Unit
  decimal256Limits : Nat → Int → Except String Unit
  tryNewList : ArrowField → List Nat → ArrowArray → List Bool → Except String ArrowArray
  tryNewFixedSizeList : ArrowField → Int → ArrowArray → List Bool → Except String ArrowArray
  tryNewStruct : List ArrowField → List ArrowArray → List Bool → Nat → Except String ArrowArray

/-- Why a column has no array. -/
inductive BuildError where
  | mismatch (id : LogicalTypeId) (value : Value)
  | outOfRange (id : LogicalTypeId) (value : Int)
  | unsupported (id : LogicalTypeId)
  | schemaShape (expected : String) (actual : DataType)
  | decimalLimits (width scale : U64)
  | decimalRejected (text : String)
  | intervalOverflow (micros : I64)
  | offsetLimit (id : LogicalTypeId)
  | byteLimit (id : LogicalTypeId) (total : Nat)
  | arraySizeLimit (size : U64)
  | arraySize (size : Int)
  | arrayLength (entries width : Nat)
  | structFields (id : LogicalTypeId) (children fields : Nat)
  | structArity (id : LogicalTypeId) (fields children : Nat)
  | missingField (id : LogicalTypeId) (name : String)
  | rejected (text : String)
  | metadata (error : QuackError)

abbrev Build (α : Type) := Except BuildError α

def withMetadata {α : Type} (result : Result α) : Build α := result.mapError BuildError.metadata

def i32Max : Nat := 2 ^ 31 - 1

def hugeIntPrecision : Nat := 39

def decimalPrecisionAndScale (T : LogicalType) : Build (Nat × Int) := do
  let (width, scale) ← withMetadata (getDecimalWidthAndScale T)
  if width.toNat < 2 ^ 8 ∧ scale.toNat < 2 ^ 7 then
    pure (width.toNat, scale.toNat)
  else
    throw (.decimalLimits width scale)

def arraySize (T : LogicalType) : Build Int := do
  let size ← withMetadata (getArraySize T)
  if size.toNat ≤ i32Max then pure size.toNat else throw (.arraySizeLimit size)

/-- The arms of `arrow_type` that do not recurse. -/
def arrowScalarType (T : LogicalType) : Build DataType :=
  match T.id with
  | .sqlNull => .ok .null
  | .boolean => .ok .boolean
  | .tinyInt => .ok .int8
  | .smallInt => .ok .int16
  | .integer => .ok .int32
  | .bigInt => .ok .int64
  | .uTinyInt => .ok .uint8
  | .uSmallInt => .ok .uint16
  | .uInteger => .ok .uint32
  | .uBigInt => .ok .uint64
  | .hugeInt | .uHugeInt => .ok (.decimal256 hugeIntPrecision 0)
  | .float => .ok .float32
  | .double => .ok .float64
  | .decimal => do
    let (precision, scale) ← decimalPrecisionAndScale T
    pure (.decimal128 precision scale)
  | .varchar | .char | .enum | .uuid => .ok .utf8
  | .blob | .geometry | .bit => .ok .binary
  | .date => .ok .date32
  | .time => .ok (.time64 .microsecond)
  | .timeNs => .ok (.time64 .nanosecond)
  | .timestampSec => .ok (.timestamp .second none)
  | .timestampMs => .ok (.timestamp .millisecond none)
  | .timestamp => .ok (.timestamp .microsecond none)
  | .timestampNs => .ok (.timestamp .nanosecond none)
  | .timestampTz => .ok (.timestamp .microsecond (some "UTC"))
  | .interval => .ok .intervalMonthDayNano
  | other => .error (.unsupported other)

/-- `Field::new_list_field`. -/
def listField (dataType : DataType) : ArrowField := ⟨"item", dataType, true⟩

mutual

def arrowType (T : LogicalType) : Build DataType :=
  match T.id with
  | .list | .map => do
    let item ← listItemField T
    pure (.list item)
  | .array => do
    let item ← listItemField T
    let size ← arraySize T
    pure (.fixedSizeList item size)
  | .struct | .variant => do
    let fields ← structFields T
    pure (.struct fields)
  | _ => arrowScalarType T
termination_by (sizeOf T, 1)

def listItemField (T : LogicalType) : Build ArrowField :=
  match _h : getChildType T with
  | .ok childType => do
    let dataType ← arrowType childType
    pure (listField dataType)
  | .error e => .error (.metadata e)
termination_by (sizeOf T, 0)
decreasing_by exact .left _ _ (LogicalType.sizeOf_lt_of_mem_children (getChildType_mem _h))

def structFields (T : LogicalType) : Build (List ArrowField) :=
  match _h : getStructChildren T with
  | .ok children => children.attach.mapM fun child => do
    let dataType ← arrowType child.val.logicalType
    pure ⟨child.val.name, dataType, true⟩
  | .error e => .error (.metadata e)
termination_by (sizeOf T, 0)
decreasing_by
  exact .left _ _ (LogicalType.sizeOf_lt_of_mem_children (getStructChildren_mem _h child.property))

end

section
variable (id : LogicalTypeId)

def asBool : Value → Build Bool
  | .bool value => .ok value
  | other => .error (.mismatch id other)

def asInt : Value → Build I64
  | .int value => .ok value
  | other => .error (.mismatch id other)

def asUint : Value → Build U64
  | .uint value => .ok value
  | other => .error (.mismatch id other)

def asHugeInt : Value → Build Int
  | .hugeInt value => .ok value.toInt
  | other => .error (.mismatch id other)

def asUnsignedHugeInt : Value → Build Int
  | .uhugeInt value => .ok value.toNat
  | other => .error (.mismatch id other)

def asFloat : Value → Build F32
  | .float value => .ok value
  | other => .error (.mismatch id other)

def asDouble : Value → Build F64
  | .double value => .ok value
  | other => .error (.mismatch id other)

def asDecimal : Value → Build DecimalValue
  | .decimal value => .ok value
  | other => .error (.mismatch id other)

def asStr : Value → Build String
  | .string value => .ok value
  | other => .error (.mismatch id other)

def asBytes : Value → Build Bytes
  | .bytes value => .ok value
  | other => .error (.mismatch id other)

def asDate : Value → Build I32
  | .date value => .ok value.days
  | other => .error (.mismatch id other)

/-- `narrow_int`, for a type of `width` bits. -/
def narrowInt (width : Nat) (value : Value) : Build Int := do
  let number ← asInt id value
  if SignedRange width number.toInt then pure number.toInt else throw (.outOfRange id number.toInt)

def narrowUint (width : Nat) (value : Value) : Build Int := do
  let number ← asUint id value
  if number.toNat < 2 ^ width then pure number.toNat else throw (.outOfRange id number.toNat)

def microsecondsInDay : Int := 86400000000

def nanosecondsInDay : Int := 86400000000000

def asTime (unit : TimeUnit) : Value → Build I64
  | .time value =>
    if value.unit = unit then
      let limit := match unit with
        | .micros => microsecondsInDay
        | .nanos => nanosecondsInDay
      if 0 ≤ value.value.toInt ∧ value.value.toInt < limit then .ok value.value
      else .error (.outOfRange id value.value.toInt)
    else
      .error (.mismatch id (.time value))
  | other => .error (.mismatch id other)

def asTimestamp (unit : TimestampUnit) (timezoneUtc : Bool) : Value → Build I64
  | .timestamp value =>
    if value.unit = unit ∧ value.timezoneUtc = timezoneUtc then .ok value.value
    else .error (.mismatch id (.timestamp value))
  | other => .error (.mismatch id other)

/-- Months, days and nanoseconds. -/
def asInterval : Value → Build Scalar
  | .interval value =>
    if SignedRange 64 (value.micros.toInt * 1000) then
      .ok (.interval value.months value.days (value.micros.toInt * 1000))
    else
      .error (.intervalOverflow value.micros)
  | other => .error (.mismatch id other)

end

/-! ### Columns of scalars -/

/-- The slots of a column: `primitive`, `boolean` and `collect`. -/
def collectSlots {α : Type} (extract : Value → Build α) (values : List Value) : Build (List (Option α)) :=
  values.mapM fun value =>
    match value with
    | .null => .ok none
    | value => some <$> extract value

/-- The total length of a column of texts or byte strings, which Arrow's offsets must reach. -/
def byteCapacity (id : LogicalTypeId) (lengths : List Nat) : Build Unit :=
  if lengths.sum > i32Max then throw (.byteLimit id lengths.sum) else pure ()

def buildInts (dataType : DataType) (extract : Value → Build Int) (values : List Value) :
    Build ArrowArray := do
  let slots ← collectSlots (fun value => Scalar.int <$> extract value) values
  pure (.scalar dataType slots)

def buildTexts (id : LogicalTypeId) (values : List Value) : Build ArrowArray := do
  let strings ← collectSlots (asStr id) values
  byteCapacity id (strings.reduceOption.map fun text => (utf8Bytes text).length)
  pure (.scalar .utf8 (strings.map (Option.map .text)))

def buildBlobs (id : LogicalTypeId) (values : List Value) : Build ArrowArray := do
  let blobs ← collectSlots (asBytes id) values
  byteCapacity id (blobs.reduceOption.map List.length)
  pure (.scalar .binary (blobs.map (Option.map .bytes)))

/-- `with_precision_and_scale`. -/
def withLimits (limits : Except String Unit) (array : ArrowArray) : Build ArrowArray := do
  limits.mapError .decimalRejected
  pure array

section
variable (arrow : ArrowLibrary)

/-- The arms of `build_array` that do not recurse. -/
def buildScalar (T : LogicalType) (values : List Value) : Build ArrowArray :=
  let id := T.id
  match id with
  | .sqlNull =>
    match values.find? fun value => !value.isNull with
    | some value => .error (.mismatch id value)
    | none => .ok (.null values.length)
  | .boolean => do
    let slots ← collectSlots (fun value => Scalar.bool <$> asBool id value) values
    pure (.scalar .boolean slots)
  | .tinyInt => buildInts .int8 (narrowInt id 8) values
  | .smallInt => buildInts .int16 (narrowInt id 16) values
  | .integer => buildInts .int32 (narrowInt id 32) values
  | .bigInt => buildInts .int64 (fun value => BitVec.toInt <$> asInt id value) values
  | .uTinyInt => buildInts .uint8 (narrowUint id 8) values
  | .uSmallInt => buildInts .uint16 (narrowUint id 16) values
  | .uInteger => buildInts .uint32 (narrowUint id 32) values
  | .uBigInt => buildInts .uint64 (fun value => (fun n : U64 => (n.toNat : Int)) <$> asUint id value) values
  | .hugeInt => do
    let array ← buildInts (.decimal256 hugeIntPrecision 0) (asHugeInt id) values
    withLimits (arrow.decimal256Limits hugeIntPrecision 0) array
  | .uHugeInt => do
    let array ← buildInts (.decimal256 hugeIntPrecision 0) (asUnsignedHugeInt id) values
    withLimits (arrow.decimal256Limits hugeIntPrecision 0) array
  | .float => do
    let slots ← collectSlots (fun value => Scalar.float <$> asFloat id value) values
    pure (.scalar .float32 slots)
  | .double => do
    let slots ← collectSlots (fun value => Scalar.double <$> asDouble id value) values
    pure (.scalar .float64 slots)
  | .decimal => do
    let (precision, scale) ← decimalPrecisionAndScale T
    let array ← buildInts (.decimal128 precision scale)
      (fun value => (fun decimal => decimal.value.toInt) <$> asDecimal id value) values
    withLimits (arrow.decimal128Limits precision scale) array
  | .varchar | .char | .enum | .uuid => buildTexts id values
  | .blob | .geometry | .bit => buildBlobs id values
  | .date => buildInts .date32 (fun value => BitVec.toInt <$> asDate id value) values
  | .time => buildInts (.time64 .microsecond) (fun value => BitVec.toInt <$> asTime id .micros value) values
  | .timeNs => buildInts (.time64 .nanosecond) (fun value => BitVec.toInt <$> asTime id .nanos value) values
  | .timestampSec => buildInts (.timestamp .second none)
      (fun value => BitVec.toInt <$> asTimestamp id .seconds false value) values
  | .timestampMs => buildInts (.timestamp .millisecond none)
      (fun value => BitVec.toInt <$> asTimestamp id .millis false value) values
  | .timestamp => buildInts (.timestamp .microsecond none)
      (fun value => BitVec.toInt <$> asTimestamp id .micros false value) values
  | .timestampNs => buildInts (.timestamp .nanosecond none)
      (fun value => BitVec.toInt <$> asTimestamp id .nanos false value) values
  | .timestampTz => buildInts (.timestamp .microsecond (some "UTC"))
      (fun value => BitVec.toInt <$> asTimestamp id .micros true value) values
  | .interval => do
    let slots ← collectSlots (asInterval id) values
    pure (.scalar .intervalMonthDayNano slots)
  | other => .error (.unsupported other)

def listItem : DataType → Build ArrowField
  | .list item => .ok item
  | other => .error (.schemaShape "List" other)

def fixedSizeListItem : DataType → Build (ArrowField × Int)
  | .fixedSizeList item size => .ok (item, size)
  | other => .error (.schemaShape "FixedSizeList" other)

def structChildren : DataType → Build (List ArrowField)
  | .struct fields => .ok fields
  | other => .error (.schemaShape "Struct" other)

/-- The offset and the validity of every row, and the items of all rows; `count` is the number of items
before. -/
def gatherItems (id : LogicalTypeId) (count : Nat) :
    List Value → Build (List Nat × List Bool × List Value)
  | [] => .ok ([], [], [])
  | .null :: values => do
    let offset ← offsetOf count
    let (offsets, validity, items) ← gatherItems id count values
    pure (offset :: offsets, false :: validity, items)
  | .list entries :: values => do
    let offset ← offsetOf (count + entries.length)
    let (offsets, validity, items) ← gatherItems id (count + entries.length) values
    pure (offset :: offsets, true :: validity, entries ++ items)
  | other :: _ => .error (.mismatch id other)
where
  offsetOf (count : Nat) : Build Nat :=
    if count ≤ i32Max then .ok count else .error (.offsetLimit id)

/-- The validity of every row and the items of all rows, `width` for each. -/
def gatherWindows (id : LogicalTypeId) (width : Nat) : List Value → Build (List Bool × List Value)
  | [] => .ok ([], [])
  | .null :: values => do
    let (validity, items) ← gatherWindows id width values
    pure (false :: validity, List.replicate width .null ++ items)
  | .list entries :: values =>
    if entries.length ≠ width then
      .error (.arrayLength entries.length width)
    else do
      let (validity, items) ← gatherWindows id width values
      pure (true :: validity, entries ++ items)
  | other :: _ => .error (.mismatch id other)

/-- A row of a struct column: is it there, and has it as many fields as the type. -/
def structValidity (id : LogicalTypeId) (arity : Nat) : Value → Build Bool
  | .null => .ok false
  | .struct row => if row.length ≠ arity then .error (.structArity id row.length arity) else .ok true
  | other => .error (.mismatch id other)

/-- The field of a row for a child, looked for at its place and then by its name. -/
def structSlot (id : LogicalTypeId) (child : ChildType) (childIndex : Nat) : Value → Build Value
  | .struct row =>
    match row[childIndex]? with
    | some (name, value) => if name = child.name then .ok value else byName row
    | none => byName row
  | _ => .ok .null
where
  byName (row : Row) : Build Value :=
    match Row.get row child.name with
    | some value => .ok value
    | none => .error (.missingField id child.name)

/-- A reference to a value takes a word. -/
def wordSize : Nat := 8

def sequence {ε α : Type} : List (Outcome ε α) → Outcome ε (List α)
  | [] => .ok []
  | action :: actions => do
    let value ← action
    let values ← sequence actions
    pure (value :: values)

mutual

def buildArray (T : LogicalType) (D : DataType) (values : List Value) : Outcome BuildError ArrowArray :=
  match T.id with
  | .list | .map => do
    let item ← listItem D
    buildList T item values
  | .array => do
    let (item, size) ← fixedSizeListItem D
    buildFixedSizeList T item size values
  | .struct | .variant => do
    let fields ← structChildren D
    buildStruct T fields values
  | _ => liftM (buildScalar arrow T values)
termination_by (sizeOf T, 1)

def buildList (T : LogicalType) (item : ArrowField) (values : List Value) :
    Outcome BuildError ArrowArray := do
  let (offsets, validity, items) ← gatherItems T.id 0 values
  match _h : getChildType T with
  | .ok childType => do
    let child ← buildArray childType item.dataType items
    liftM ((arrow.tryNewList item (0 :: offsets) child validity).mapError BuildError.rejected)
  | .error e => .err (.metadata e)
termination_by (sizeOf T, 0)
decreasing_by exact .left _ _ (LogicalType.sizeOf_lt_of_mem_children (getChildType_mem _h))

def buildFixedSizeList (T : LogicalType) (item : ArrowField) (size : Int) (values : List Value) :
    Outcome BuildError ArrowArray :=
  if size < 0 then
    .err (.arraySize size)
  else do
    Outcome.check (values.length * size.toNat < usizeLimit) .overflow
    Outcome.check (values.length * size.toNat * wordSize ≤ isizeMax) .capacity
    let (validity, items) ← gatherWindows T.id size.toNat values
    match _h : getChildType T with
    | .ok childType => do
      let child ← buildArray childType item.dataType items
      liftM ((arrow.tryNewFixedSizeList item size child validity).mapError BuildError.rejected)
    | .error e => .err (.metadata e)
termination_by (sizeOf T, 0)
decreasing_by exact .left _ _ (LogicalType.sizeOf_lt_of_mem_children (getChildType_mem _h))

def buildStruct (T : LogicalType) (fields : List ArrowField) (values : List Value) :
    Outcome BuildError ArrowArray :=
  match _h : getStructChildren T with
  | .ok children =>
    if children.length ≠ fields.length then
      .err (.structFields T.id children.length fields.length)
    else do
      let validity ← (values.mapM (structValidity T.id children.length) : Build (List Bool))
      let arrays ← sequence ((children.attach.zip fields).zipIdx.map fun ((child, field), childIndex) => do
        let childValues ← (values.mapM (structSlot T.id child.val childIndex) : Build (List Value))
        buildArray child.val.logicalType field.dataType childValues)
      liftM ((arrow.tryNewStruct fields arrays validity values.length).mapError BuildError.rejected)
  | .error e => .err (.metadata e)
termination_by (sizeOf T, 0)
decreasing_by
  exact .left _ _ (LogicalType.sizeOf_lt_of_mem_children (getStructChildren_mem _h child.property))

end

end

end QuackProtocol
