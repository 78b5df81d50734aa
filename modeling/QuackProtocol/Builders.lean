import QuackProtocol.Vectors

/-! Data chunks from rows (`builders.rs`): the columns of a chunk are given, or inferred from the rows
that the chunk is built from. -/

namespace QuackProtocol

structure ColumnInput where
  name : Option String
  logicalType : LogicalType
  values : List Value

structure ColumnDefinition where
  name : String
  logicalType : LogicalType

namespace LogicalTypes

def scalar (id : LogicalTypeId) : LogicalType := ⟨id, none⟩

def decimal (width scale : U64) : LogicalType := ⟨.decimal, some (.decimal none width scale)⟩

def list (childType : LogicalType) : LogicalType := ⟨.list, some (.list none childType)⟩

def struct (childTypes : List ChildType) : LogicalType := ⟨.struct, some (.struct none childTypes)⟩

end LogicalTypes

/-- The first column that has not one value for each row. -/
def unevenColumn (rowCount : Nat) (columns : List ColumnInput) : Option (ColumnInput × Nat) :=
  columns.zipIdx.find? fun (input, _) => input.values.length ≠ rowCount

def dataChunk (columns : List ColumnInput) : Result DataChunk :=
  match columns with
  | [] => .error (.protocol "a Quack DataChunk must contain at least one column")
  | first :: _ =>
    let rowCount := first.values.length
    match unevenColumn rowCount columns with
    | some (input, index) => .error (.protocol
        s!"column {index} has {input.values.length} values, expected {rowCount}")
    | none => .ok {
        rowCount
        types := columns.map ColumnInput.logicalType
        columns := columns.map fun input => ⟨input.logicalType, .flat, input.values⟩
        columnNames := some (columns.zipIdx.map fun (input, index) =>
          input.name.getD s!"column{index}") }

/-! ### Inference -/

theorem sizeOf_get_le {row : Row} {name : String} {value : Value} (h : Row.get row name = some value) :
    sizeOf value < sizeOf row := by
  induction row with
  | nil => cases h
  | cons entry row ih =>
      obtain ⟨key, head⟩ := entry
      rw [Row.get] at h
      simp only [List.cons.sizeOf_spec, Prod.mk.sizeOf_spec]
      split at h
      · cases h
        omega
      · have := ih h
        omega

theorem sizeOf_structField_le (name : String) (value : Value) :
    sizeOf (structField name value) ≤ sizeOf value := by
  cases value with
  | struct row =>
      rw [structField]
      cases hget : Row.get row name with
      | none =>
          simp only [Option.getD_none, Value.null.sizeOf_spec, Value.struct.sizeOf_spec]
          omega
      | some value =>
          have := sizeOf_get_le hget
          simp only [Option.getD_some, Value.struct.sizeOf_spec]
          omega
  | _ =>
      simp only [structField, Value.null.sizeOf_spec]
      simp

theorem sizeOf_structColumn_le (name : String) (values : List Value) :
    sizeOf (structColumn name values) ≤ sizeOf values := by
  induction values with
  | nil => exact le_refl _
  | cons value values ih =>
      have := sizeOf_structField_le name value
      simp only [structColumn, List.map_cons, List.cons.sizeOf_spec] at ih ⊢
      omega

theorem sizeOf_structField_lt (name : String) (row : List (String × Value)) :
    sizeOf (structField name (.struct row)) < sizeOf (Value.struct row) := by
  rw [structField]
  cases hget : Row.get row name with
  | none =>
      have : 1 ≤ sizeOf row := by
        cases row <;> simp only [List.nil.sizeOf_spec, List.cons.sizeOf_spec] <;> omega
      simp only [Option.getD_none, Value.null.sizeOf_spec, Value.struct.sizeOf_spec]
      omega
  | some value =>
      have := sizeOf_get_le hget
      simp only [Option.getD_some, Value.struct.sizeOf_spec]
      omega

/-- A column of fields is smaller than the column of the structs they are in. -/
theorem sizeOf_structColumn_lt (name : String) {values : List Value} {row : List (String × Value)}
    (h : .struct row ∈ values) : sizeOf (structColumn name values) < sizeOf values := by
  obtain ⟨before, after, rfl⟩ := List.append_of_mem h
  induction before with
  | nil =>
      have := sizeOf_structField_lt name row
      have := sizeOf_structColumn_le name after
      simp only [structColumn, List.nil_append, List.map_cons, List.cons.sizeOf_spec] at *
      omega
  | cons value before ih =>
      have := sizeOf_structField_le name value
      have := ih (List.mem_append_right _ (List.mem_cons_self ..))
      simp only [structColumn, List.cons_append, List.map_cons, List.cons.sizeOf_spec] at *
      omega

/-- The type of the first value that is not NULL; the other values are looked at only for the fields of
a struct. -/
def inferLogicalType (values : List Value) : Result LogicalType :=
  match h : values.find? fun value => !value.isNull with
  | none | some .null => .error (.protocol "cannot infer logical type from only null values")
  | some (.bool _) => .ok (LogicalTypes.scalar .boolean)
  | some (.int value) =>
    if -2 ^ 31 ≤ value.toInt ∧ value.toInt ≤ 2 ^ 31 - 1 then .ok (LogicalTypes.scalar .integer)
    else .ok (LogicalTypes.scalar .bigInt)
  | some (.uint value) =>
    if value.toNat ≤ 2 ^ 32 - 1 then .ok (LogicalTypes.scalar .uInteger)
    else .ok (LogicalTypes.scalar .uBigInt)
  | some (.hugeInt _) => .ok (LogicalTypes.scalar .hugeInt)
  | some (.uhugeInt _) => .ok (LogicalTypes.scalar .uHugeInt)
  | some (.float _) => .ok (LogicalTypes.scalar .float)
  | some (.double _) => .ok (LogicalTypes.scalar .double)
  | some (.string _) => .ok (LogicalTypes.scalar .varchar)
  | some (.bytes _) => .ok (LogicalTypes.scalar .blob)
  | some (.decimal value) => .ok (LogicalTypes.decimal value.width value.scale)
  | some (.date _) => .ok (LogicalTypes.scalar .date)
  | some (.time value) =>
    match value.unit with
    | .micros => .ok (LogicalTypes.scalar .time)
    | .nanos => .ok (LogicalTypes.scalar .timeNs)
  | some (.timeTz _) => .ok (LogicalTypes.scalar .timeTz)
  | some (.timestamp value) =>
    match value.unit with
    | .seconds => .ok (LogicalTypes.scalar .timestampSec)
    | .millis => .ok (LogicalTypes.scalar .timestampMs)
    | .micros =>
      if value.timezoneUtc then .ok (LogicalTypes.scalar .timestampTz)
      else .ok (LogicalTypes.scalar .timestamp)
    | .nanos => .ok (LogicalTypes.scalar .timestampNs)
  | some (.interval _) => .ok (LogicalTypes.scalar .interval)
  | some (.list items) => do
    let childType ← inferLogicalType items
    pure (LogicalTypes.list childType)
  | some (.struct row) => do
    let childTypes ← (row.map Prod.fst).mapM fun name => do
      let logicalType ← inferLogicalType (structColumn name values)
      pure (ChildType.mk name logicalType)
    pure (LogicalTypes.struct childTypes)
termination_by sizeOf values
decreasing_by
  · have := List.sizeOf_lt_of_mem (List.mem_of_find?_eq_some h)
    simp only [Value.list.sizeOf_spec] at this
    omega
  · exact sizeOf_structColumn_lt name (List.mem_of_find?_eq_some h)

/-- `row.get(name).cloned().unwrap_or(Value::Null)`. -/
def cell (row : Row) (name : String) : Value := (Row.get row name).getD .null

def inferColumnDefinitions (rows : List Row) : Result (List ColumnDefinition) :=
  match rows with
  | [] => .error (.protocol "cannot infer append row columns from an empty row set")
  | first :: _ => (first.map Prod.fst).mapM fun name => do
    let logicalType ← inferLogicalType (rows.map fun row => cell row name)
    pure ⟨name, logicalType⟩

/-- The items of a list and the fields of a struct, as its type has them; any other value as it is. -/
def normalizeAppendValue (value : Value) (T : LogicalType) : Result Value :=
  match value with
  | .null => .ok .null
  | .list items =>
    if T.id = .list ∨ T.id = .map ∨ T.id = .array then
      match _h : getChildType T with
      | .ok childType => do
        let items ← items.mapM fun item => normalizeAppendValue item childType
        pure (.list items)
      | .error e => .error e
    else
      .ok (.list items)
  | .struct row =>
    if T.id = .struct then
      match _h : getStructChildren T with
      | .ok children => do
        let normalized ← children.attach.foldlM (fun normalized child => do
          let value ← normalizeAppendValue (cell row child.val.name) child.val.logicalType
          pure (Row.insert normalized child.val.name value)) []
        pure (.struct normalized)
      | .error e => .error e
    else
      .ok (.struct row)
  | other => .ok other
termination_by sizeOf T
decreasing_by
  · exact LogicalType.sizeOf_lt_of_mem_children (getChildType_mem _h)
  · exact LogicalType.sizeOf_lt_of_mem_children (getStructChildren_mem _h child.property)

def columnInput (rows : List Row) (definition : ColumnDefinition) : Result ColumnInput := do
  let values ← rows.mapM fun row =>
    normalizeAppendValue (cell row definition.name) definition.logicalType
  pure ⟨some definition.name, definition.logicalType, values⟩

def columnDefinitions (rows : List Row) (columns : Option (List ColumnDefinition)) :
    Result (List ColumnDefinition) :=
  match columns with
  | some columns => .ok columns
  | none => inferColumnDefinitions rows

def dataChunkFromRows (rows : List Row) (columns : Option (List ColumnDefinition)) :
    Result DataChunk := do
  let definitions ← columnDefinitions rows columns
  let inputs ← definitions.mapM (columnInput rows)
  dataChunk inputs

end QuackProtocol
