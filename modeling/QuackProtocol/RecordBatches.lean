import QuackProtocol.ArrowSlots
import QuackProtocol.Builders

/-! Record batches (`arrow/mod.rs`): a chunk is turned into the columns that a schema declares. The schema
comes from the columns that PREPARE reported, the types from the chunk; the constructors of the Arrow
library compare the data types of what they put together. -/

open Decoding

namespace QuackProtocol

structure RecordBatch where
  schema : List ArrowField
  columns : List ArrowArray
  rowCount : Nat

/-- The Arrow library with its record batches. -/
structure BatchLibrary extends ArrowLibrary where
  tryNewRecordBatch : List ArrowField → List ArrowArray → Nat → Except String RecordBatch

/-- The field of a column. -/
def field (name : String) (T : LogicalType) : Build ArrowField := do
  let dataType ← arrowType T
  pure ⟨name, dataType, true⟩

def schema (columns : List ColumnDefinition) : Build (List ArrowField) :=
  columns.mapM fun column => field column.name column.logicalType

def DataChunk.columnValues (chunk : DataChunk) (column : Nat) : Option (List Value) :=
  chunk.columns[column]?.map DecodedVector.values

/-- The values of column `index` as an array of the declared type. -/
def batchColumn (arrow : ArrowLibrary) (chunk : DataChunk) :
    (LogicalType × ArrowField) × Nat → Outcome BuildError ArrowArray
  | ((T, field), index) =>
    match chunk.columnValues index with
    | none => .err (.metadata (.protocol s!"DataChunk is missing column vector {index}"))
    | some values =>
      if values.length ≠ chunk.rowCount then
        .err (.metadata (.protocol
          s!"column {index} has {values.length} values, expected {chunk.rowCount}"))
      else
        buildArray arrow T field.dataType values

def toRecordBatch (arrow : BatchLibrary) (chunk : DataChunk) (schema : List ArrowField) :
    Outcome BuildError RecordBatch :=
  if chunk.types.length ≠ schema.length then
    .err (.metadata (.protocol
      s!"DataChunk has {chunk.types.length} columns but the Arrow schema declares {schema.length}"))
  else do
    let arrays ← sequence ((chunk.types.zip schema).zipIdx.map (batchColumn arrow.toArrowLibrary chunk))
    liftM ((arrow.tryNewRecordBatch schema arrays chunk.rowCount).mapError BuildError.rejected)

mutual

/-- The type with every list item called `item`. -/
def DataType.unnamed : DataType → DataType
  | .list ⟨_, dataType, nullable⟩ => .list ⟨"item", dataType.unnamed, nullable⟩
  | .fixedSizeList ⟨_, dataType, nullable⟩ size => .fixedSizeList ⟨"item", dataType.unnamed, nullable⟩ size
  | .struct fields => .struct (unnamedFields fields)
  | other => other

def unnamedFields : List ArrowField → List ArrowField
  | [] => []
  | ⟨name, dataType, nullable⟩ :: fields => ⟨name, dataType.unnamed, nullable⟩ :: unnamedFields fields

end

/-- The types are equal up to the names of list items. -/
def SameType (D D' : DataType) : Prop := D.unnamed = D'.unnamed

/-- The type is an image of `arrow_type`, but for the names of list items. -/
def DataType.Image (D : DataType) : Prop := ∃ T D', arrowType T = .ok D' ∧ SameType D' D

mutual

/-- At every depth, a struct of the schema has the names of the children of the type, in their order, and a
list of fixed size has the size of the ARRAY type. -/
def LabelsAgree (T : LogicalType) : DataType → Prop
  | .list ⟨_, dataType, _⟩ => ∀ childType, getChildType T = .ok childType → LabelsAgree childType dataType
  | .fixedSizeList ⟨_, dataType, _⟩ size => arraySize T = .ok size ∧
      ∀ childType, getChildType T = .ok childType → LabelsAgree childType dataType
  | .struct fields => ∀ children, getStructChildren T = .ok children → FieldLabelsAgree children fields
  | _ => True

def FieldLabelsAgree : List ChildType → List ArrowField → Prop
  | child :: children, ⟨name, dataType, _⟩ :: fields =>
    child.name = name ∧ LabelsAgree child.logicalType dataType ∧ FieldLabelsAgree children fields
  | _, _ => True

end

/-- The constructors of the Arrow library compare data types. -/
structure BatchLibrary.Compares (arrow : BatchLibrary) : Prop where
  stores : arrow.toArrowLibrary.Stores
  list : ∀ {item offsets child validity array},
    arrow.tryNewList item offsets child validity = .ok array → child.dataType = item.dataType
  fixedSizeList : ∀ {item size child validity array},
    arrow.tryNewFixedSizeList item size child validity = .ok array → child.dataType = item.dataType
  struct : ∀ {fields children validity length array},
    arrow.tryNewStruct fields children validity length = .ok array →
      children.map ArrowArray.dataType = fields.map ArrowField.dataType
  recordBatch : ∀ {schema columns rowCount batch},
    arrow.tryNewRecordBatch schema columns rowCount = .ok batch →
      columns.map ArrowArray.dataType = schema.map ArrowField.dataType ∧ batch.rowCount = rowCount

/-! ### Constructors that compare data types -/

mutual

def DataType.equals : DataType → DataType → Bool
  | .list item, .list item' => item.equals item'
  | .fixedSizeList item size, .fixedSizeList item' size' => item.equals item' && size == size'
  | .struct fields, .struct fields' => equalFields fields fields'
  | .decimal128 precision scale, .decimal128 precision' scale' => precision == precision' && scale == scale'
  | .decimal256 precision scale, .decimal256 precision' scale' => precision == precision' && scale == scale'
  | .time64 unit, .time64 unit' => unit == unit'
  | .timestamp unit timezone, .timestamp unit' timezone' => unit == unit' && timezone == timezone'
  | D, D' => D.ctorIdx == D'.ctorIdx

def ArrowField.equals : ArrowField → ArrowField → Bool
  | ⟨name, D, nullable⟩, ⟨name', D', nullable'⟩ => name == name' && D.equals D' && nullable == nullable'

def equalFields : List ArrowField → List ArrowField → Bool
  | [], [] => true
  | field :: fields, field' :: fields' => field.equals field' && equalFields fields fields'
  | _, _ => false

end

mutual
theorem DataType.eq_of_equals : ∀ {D D' : DataType}, D.equals D' = true → D = D'
  | .list item, D', h => by
      cases D' with
      | list item' => exact congrArg _ (ArrowField.eq_of_equals h)
      | _ => cases h
  | .fixedSizeList item size, D', h => by
      cases D' with
      | fixedSizeList item' size' =>
        obtain ⟨hitem, hsize⟩ := Bool.and_eq_true_iff.mp h
        rw [ArrowField.eq_of_equals hitem, eq_of_beq hsize]
      | _ => cases h
  | .struct fields, D', h => by
      cases D' with
      | struct fields' => exact congrArg _ (eq_of_equalFields h)
      | _ => cases h
  | .decimal128 .., D', h | .decimal256 .., D', h | .timestamp .., D', h => by
      cases D' <;> first | cases h | skip
      obtain ⟨hfirst, hsecond⟩ := Bool.and_eq_true_iff.mp h
      rw [eq_of_beq hfirst, eq_of_beq hsecond]
  | .time64 unit, D', h => by
      cases D' <;> first | cases h | skip
      rw [eq_of_beq h]
  | .null, D', h | .boolean, D', h | .int8, D', h | .int16, D', h | .int32, D', h | .int64, D', h
  | .uint8, D', h | .uint16, D', h | .uint32, D', h | .uint64, D', h | .float32, D', h | .float64, D', h
  | .utf8, D', h | .binary, D', h | .date32, D', h | .intervalMonthDayNano, D', h => by
      cases D' <;> first | rfl | cases h

theorem ArrowField.eq_of_equals : ∀ {field field' : ArrowField}, field.equals field' = true → field = field'
  | ⟨name, D, nullable⟩, ⟨name', D', nullable'⟩, h => by
      obtain ⟨h, hnullable⟩ := Bool.and_eq_true_iff.mp h
      obtain ⟨hname, hD⟩ := Bool.and_eq_true_iff.mp h
      rw [eq_of_beq hname, DataType.eq_of_equals hD, eq_of_beq hnullable]

theorem eq_of_equalFields : ∀ {fields fields' : List ArrowField}, equalFields fields fields' = true → fields = fields'
  | [], fields', h => by
      cases fields' with
      | nil => rfl
      | cons => cases h
  | field :: fields, fields', h => by
      cases fields' with
      | nil => cases h
      | cons field' fields' =>
          obtain ⟨hfield, hfields⟩ := Bool.and_eq_true_iff.mp h
          rw [ArrowField.eq_of_equals hfield, eq_of_equalFields hfields]
end

/-- The columns have the types of the fields. -/
def columnsFit : List ArrowArray → List ArrowField → Bool
  | [], [] => true
  | column :: columns, field :: fields => column.dataType.equals field.dataType && columnsFit columns fields
  | _, _ => false

theorem eq_of_columnsFit : ∀ {columns : List ArrowArray} {fields : List ArrowField},
    columnsFit columns fields = true → columns.map ArrowArray.dataType = fields.map ArrowField.dataType
  | [], fields, h => by
      cases fields with
      | nil => rfl
      | cons => cases h
  | column :: columns, fields, h => by
      cases fields with
      | nil => cases h
      | cons field fields =>
          obtain ⟨htype, hrest⟩ := Bool.and_eq_true_iff.mp h
          rw [List.map_cons, List.map_cons, DataType.eq_of_equals htype, eq_of_columnsFit hrest]

def BatchLibrary.comparing : BatchLibrary where
  decimal128Limits _ _ := .ok ()
  decimal256Limits _ _ := .ok ()
  tryNewList item offsets child validity :=
    if child.dataType.equals item.dataType then .ok (.list item offsets child validity)
    else .error "ListArray expected data type of its field"
  tryNewFixedSizeList item size child validity :=
    if child.dataType.equals item.dataType then .ok (.fixedSizeList item size child validity)
    else .error "FixedSizeListArray expected data type of its field"
  tryNewStruct fields children validity length :=
    if columnsFit children fields then .ok (.struct fields children validity length)
    else .error "Incorrect datatype for StructArray field"
  tryNewRecordBatch schema columns rowCount :=
    if columnsFit columns schema then .ok ⟨schema, columns, rowCount⟩
    else .error "column types must match schema types"

theorem eq_of_accepted {α : Type} {accepts : Bool} {made result : α} {text : String}
    (h : (if accepts then .ok made else .error text : Except String α) = .ok result) :
    accepts = true ∧ result = made := by
  cases accepts with
  | false => cases h
  | true => exact ⟨rfl, (Except.ok.inj h).symm⟩

theorem BatchLibrary.comparing_compares : BatchLibrary.comparing.Compares where
  stores :=
    { list := fun h => (eq_of_accepted h).2
      fixedSizeList := fun h => (eq_of_accepted h).2
      struct := fun h => (eq_of_accepted h).2 }
  list h := DataType.eq_of_equals (eq_of_accepted h).1
  fixedSizeList h := DataType.eq_of_equals (eq_of_accepted h).1
  struct h := eq_of_columnsFit (eq_of_accepted h).1
  recordBatch h := ⟨eq_of_columnsFit (eq_of_accepted h).1, congrArg RecordBatch.rowCount (eq_of_accepted h).2⟩

end QuackProtocol
