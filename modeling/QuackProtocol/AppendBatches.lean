import QuackProtocol.Client
import QuackProtocol.ColumnFaults
import QuackProtocol.InferredTypes

/-! Appending rows in batches. Each batch is a chunk of its own, with columns of its own where they are
inferred; what a batch size decides is which rows are looked at together. -/

open Decoding Outcome Sending

namespace QuackProtocol

section
variable {α : Type} {size : Nat} {rows : List α}

theorem flatten_chunks (size : Nat) (rows : List α) : (chunks size rows).flatten = rows := by
  induction rows using chunks.induct size with
  | case1 => rw [chunks, List.flatten_nil]
  | case2 row rows ih =>
      rw [chunks, List.flatten_cons, ih, List.cons_append, List.take_append_drop]

theorem chunks_ne_nil {batch : List α} (h : batch ∈ chunks size rows) : batch ≠ [] := by
  induction rows using chunks.induct size with
  | case1 =>
      rw [chunks] at h
      cases h
  | case2 row rows ih =>
      rw [chunks] at h
      rcases List.mem_cons.mp h with rfl | hmem
      · exact List.cons_ne_nil _ _
      · exact ih hmem

theorem chunks_eq_nil (h : chunks size rows = []) : rows = [] := by
  rw [← flatten_chunks size rows, h, List.flatten_nil]

/-- A row is in one of the batches. -/
theorem mem_chunks {row : α} : (∃ batch ∈ chunks size rows, row ∈ batch) ↔ row ∈ rows := by
  rw [← List.mem_flatten, flatten_chunks]

end

/-- The value of a row in a column, as the column takes it. -/
def normalCell (definition : ColumnDefinition) (row : Row) : Result Value :=
  normalizeAppendValue (cell row definition.name) definition.logicalType

/-- The same, NULL where the column does not take it. -/
def cellValue (definition : ColumnDefinition) (row : Row) : Value :=
  match normalCell definition row with
  | .ok value => value
  | .error _ => .null

/-- Every column takes the row. -/
def Normal (definitions : List ColumnDefinition) (row : Row) : Prop :=
  ∀ definition ∈ definitions, ∃ value, normalCell definition row = .ok value

def rowsChunk (definitions : List ColumnDefinition) (rows : List Row) : DataChunk where
  rowCount := rows.length
  types := definitions.map ColumnDefinition.logicalType
  columns := definitions.map fun definition =>
    ⟨definition.logicalType, .flat, rows.map (cellValue definition)⟩
  columnNames := some (definitions.map ColumnDefinition.name)

section
variable {rows : List Row} {columns : Option (List ColumnDefinition)}
  {definitions : List ColumnDefinition} {chunk : DataChunk}

theorem cellValue_of_ok {definition : ColumnDefinition} {row : Row} {value : Value}
    (h : normalCell definition row = .ok value) : value = cellValue definition row := by
  rw [cellValue, h]

theorem columnInput_ok_iff {definition : ColumnDefinition} {input : ColumnInput} :
    columnInput rows definition = .ok input ↔
      (∀ row ∈ rows, ∃ value, normalCell definition row = .ok value) ∧
      input = ⟨some definition.name, definition.logicalType, rows.map (cellValue definition)⟩ := by
  have hvalues : ∀ values, rows.mapM (normalCell definition) = .ok values ↔
      (∀ row ∈ rows, ∃ value, normalCell definition row = .ok value) ∧
      values = rows.map (cellValue definition) :=
    fun values => Except.mapM_eq_ok_iff fun row value => cellValue_of_ok
  constructor
  · intro h
    obtain ⟨values, hrows, h⟩ := Except.bind_eq_ok h
    cases h
    obtain ⟨hnormal, rfl⟩ := (hvalues values).mp hrows
    exact ⟨hnormal, rfl⟩
  · rintro ⟨hnormal, rfl⟩
    have hrows := (hvalues _).mpr ⟨hnormal, rfl⟩
    show (rows.mapM (normalCell definition) >>= fun values => _) = _
    rw [hrows]
    rfl

theorem columnNames_inputs (definitions : List ColumnDefinition) (rows : List Row) :
    ((definitions.map fun definition => ColumnInput.mk (some definition.name) definition.logicalType
      (rows.map (cellValue definition))).zipIdx.map
        fun (input, index) => input.name.getD s!"column{index}") =
      definitions.map ColumnDefinition.name := by
  apply List.ext_getElem (by simp)
  intro i hi hi'
  simp only [List.getElem_map, List.getElem_zipIdx, Option.getD_some]

/-- The columns of a chunk that is built from rows have one value for each row. -/
theorem dataChunk_inputs (hdefinitions : definitions ≠ []) :
    dataChunk (definitions.map fun definition =>
      ⟨some definition.name, definition.logicalType, rows.map (cellValue definition)⟩) =
      .ok (rowsChunk definitions rows) := by
  obtain ⟨definition, rest, rfl⟩ := List.exists_cons_of_ne_nil hdefinitions
  have heven : unevenColumn rows.length ((definition :: rest).map fun definition =>
      ⟨some definition.name, definition.logicalType, rows.map (cellValue definition)⟩) = none := by
    refine List.find?_eq_none.mpr ?_
    rintro ⟨input, index⟩ hmem
    obtain ⟨definition, -, rfl⟩ := List.mem_map.mp (List.fst_mem_of_mem_zipIdx hmem)
    simp
  have hnames := columnNames_inputs (definition :: rest) rows
  rw [List.map_cons] at heven hnames ⊢
  rw [dataChunk]
  simp only [List.length_map, heven, hnames]
  simp [rowsChunk, Function.comp_def]

theorem dataChunkFromRows_ok_iff :
    dataChunkFromRows rows columns = .ok chunk ↔ ∃ definitions,
      columnDefinitions rows columns = .ok definitions ∧ definitions ≠ [] ∧
      (∀ row ∈ rows, Normal definitions row) ∧ chunk = rowsChunk definitions rows := by
  have hinputs : ∀ definitions inputs, definitions.mapM (columnInput rows) = .ok inputs ↔
      (∀ row ∈ rows, Normal definitions row) ∧ inputs = definitions.map fun definition =>
        ⟨some definition.name, definition.logicalType, rows.map (cellValue definition)⟩ := by
    intro definitions inputs
    rw [Except.mapM_eq_ok_iff fun definition input h => (columnInput_ok_iff.mp h).2]
    refine and_congr_left fun _ => ⟨fun h row hrow definition hmem => ?_, fun h definition hmem => ?_⟩
    · obtain ⟨input, hinput⟩ := h definition hmem
      exact (columnInput_ok_iff.mp hinput).1 row hrow
    · exact ⟨_, columnInput_ok_iff.mpr ⟨fun row hrow => h row hrow definition hmem, rfl⟩⟩
  constructor
  · intro h
    obtain ⟨definitions, hdefinitions, h⟩ := Except.bind_eq_ok h
    obtain ⟨inputs, hrows, h⟩ := Except.bind_eq_ok h
    obtain ⟨hnormal, rfl⟩ := (hinputs definitions inputs).mp hrows
    have hne : definitions ≠ [] := by
      rintro rfl
      cases h
    rw [dataChunk_inputs hne] at h
    cases h
    exact ⟨definitions, hdefinitions, hne, hnormal, rfl⟩
  · rintro ⟨definitions, hdefinitions, hne, hnormal, rfl⟩
    rw [dataChunkFromRows, hdefinitions]
    show (definitions.mapM (columnInput rows) >>= dataChunk) = _
    rw [(hinputs definitions _).mpr ⟨hnormal, rfl⟩]
    exact dataChunk_inputs hne

variable {layout : Layout} {prims : Primitives}

theorem encodeColumns_rowsChunk :
    ((rowsChunk definitions rows).columns.zipIdx.map fun (column, index) =>
      encodeColumn layout prims (rowsChunk definitions rows) column index) =
      definitions.map fun definition => encodeVector layout prims definition.logicalType
        (rows.map (cellValue definition)) (rows.map (cellValue definition)).length := by
  apply List.ext_getElem (by simp [rowsChunk])
  intro i hi hi'
  have hdefinition : i < definitions.length := by simpa using hi'
  simp only [List.getElem_map, List.getElem_zipIdx, Nat.zero_add, encodeColumn, rowsChunk,
    List.getElem?_map, List.getElem?_eq_getElem hdefinition, Option.map_some, List.length_map,
    ne_eq, not_true_eq_false, if_false]

theorem encodeDataChunk_rowsChunk :
    encodeDataChunk layout prims (rowsChunk definitions rows) = writeObject (Encode.all [
      writeField 100 (writeUleb rows.length),
      writeField 101 (writeList (definitions.map fun definition =>
        encodeLogicalType definition.logicalType)),
      writeField 102 (writeList (definitions.map fun definition =>
        encodeVector layout prims definition.logicalType (rows.map (cellValue definition))
          (rows.map (cellValue definition)).length))]) := by
  rw [encodeDataChunk, if_neg (by simp [rowsChunk]), encodeColumns_rowsChunk, rowsChunk, List.map_map]
  rfl

theorem writes_rowsChunk :
    (encodeDataChunk layout prims (rowsChunk definitions rows)).Writes ↔
      ∀ definition ∈ definitions, (encodeLogicalType definition.logicalType).Writes ∧
        EncodesColumn layout prims definition.logicalType (rows.map (cellValue definition)) := by
  rw [encodeDataChunk_rowsChunk, Encode.writes_object, Encode.writes_all]
  simp only [List.forall_mem_cons, Encode.writes_field, Encode.writes_list, List.forall_mem_map]
  constructor
  · rintro ⟨-, htypes, hcolumns, -⟩ definition hmem
    exact ⟨htypes definition hmem, hcolumns definition hmem⟩
  · intro h
    exact ⟨Encode.writes_ok _, fun definition hmem => (h definition hmem).1,
      fun definition hmem => (h definition hmem).2, fun _ hmem => absurd hmem List.not_mem_nil⟩

theorem writes_optionalString (fieldId : Nat) (text : Option String) :
    (writeOptionalString fieldId text).Writes := by
  rw [writeOptionalString]
  cases text.filter fun text => text ≠ "" with
  | none => exact Encode.writes_ok []
  | some text => exact Encode.writes_field.mpr (Encode.writes_ok _)

theorem writes_header (header : MessageHeader) : (encodeHeader header).Writes := by
  rw [encodeHeader, Encode.writes_object, Encode.writes_all]
  simp only [List.forall_mem_cons, Encode.writes_field, writes_optionalString, true_and]
  exact ⟨Encode.writes_ok _, Encode.writes_ok _, fun _ hmem => absurd hmem List.not_mem_nil⟩

/-- An append request is encoded where its chunk is. -/
theorem writes_appendRequest {connection : Connection} {tableName : String} {schemaName : Option String} :
    (encodeMessageForVersion layout prims (connection.appendRequest tableName schemaName chunk)
      quackV1).Writes ↔ (encodeDataChunk layout prims chunk).Writes := by
  rw [encodeMessageForVersion, if_pos rfl, Encode.writes_append]
  simp only [Connection.appendRequest, encodeBodyV1, Encode.writes_object, Encode.writes_all,
    List.forall_mem_cons, Encode.writes_field, writes_optionalString, true_and, writeNullable,
    Encode.writes_append, encodeDataChunkWrapper, writes_header]
  constructor
  · rintro ⟨⟨-, hchunk, -⟩, -⟩
    exact hchunk
  · intro hchunk
    have hempty : ∀ action ∈ ([] : List Encode), action.Writes :=
      fun _ hmem => absurd hmem List.not_mem_nil
    exact ⟨⟨Encode.writes_ok _, hchunk, hempty⟩, hempty⟩

/-- The faults of the columns of a batch, column by column. -/
def batchFaults (layout : Layout) (prims : Primitives) (definitions : List ColumnDefinition)
    (batch : List Row) : List Fault :=
  definitions.flatMap fun definition =>
    columnFaults layout prims definition.logicalType (batch.map (cellValue definition))

/-- The chunk of a batch comes to the types first and then to its columns. -/
theorem encodeDataChunk_meets : Meets (encodeDataChunk layout prims (rowsChunk definitions rows))
    ((definitions.flatMap fun definition => (encodeLogicalType definition.logicalType).fault.toList) ++
      batchFaults layout prims definitions rows) := by
  rw [encodeDataChunk_rowsChunk]
  have hcount : Meets (writeField 100 (writeUleb rows.length)) [] := rfl
  have htypes := Encode.meets_list fun definition (_ : definition ∈ definitions) =>
    meets_fault (encodeLogicalType definition.logicalType)
  have hcolumns := Encode.meets_list fun definition (_ : definition ∈ definitions) =>
    @encodeVector_meets layout prims definition.logicalType (rows.map (cellValue definition))
  have hlast := @Encode.meets_last _ (batchFaults layout prims definitions rows) []
    (fun _ hmem => absurd hmem List.not_mem_nil) (@Encode.meets_field _ _ 102 hcolumns)
  exact Encode.meets_object (@Encode.meets_append _ _ [] _ hcount
    (Encode.meets_append (Encode.meets_field htypes) hlast))

theorem typeFault_eq (definition : ColumnDefinition) :
    (definition.logicalType.Everywhere LogicalType.NotIntegerLiteral →
      (encodeLogicalType definition.logicalType).fault = none) ∧
    (¬ definition.logicalType.Everywhere LogicalType.NotIntegerLiteral →
      (encodeLogicalType definition.logicalType).fault = some .refused) := by
  constructor
  · exact fun h => fault_eq_none_iff.mpr (writes_logicalType_iff.mpr h)
  · intro h
    rcases returns_logicalType definition.logicalType with hwrites | herror
    · exact absurd (writes_logicalType_iff.mp hwrites) h
    · exact fault_eq_refused_iff.mpr herror

theorem refused_head_iff {faults : List Fault} :
    ((definitions.flatMap fun definition => (encodeLogicalType definition.logicalType).fault.toList) ++
      faults).head? = some .refused ↔
    (∃ definition ∈ definitions, ¬ definition.logicalType.Everywhere LogicalType.NotIntegerLiteral) ∨
      faults.head? = some .refused := by
  induction definitions with
  | nil => simp
  | cons definition definitions ih =>
      obtain ⟨hnone, hrefused⟩ := typeFault_eq definition
      rw [List.flatMap_cons, List.append_assoc, List.exists_mem_cons_iff]
      by_cases h : definition.logicalType.Everywhere LogicalType.NotIntegerLiteral
      · rw [hnone h, Option.toList_none, List.nil_append, ih]
        simp only [h, not_true_eq_false, false_or]
      · rw [hrefused h]
        exact iff_of_true rfl (.inl (.inl h))

/-- An append request comes to the faults of its chunk. -/
theorem appendRequest_meets {connection : Connection} {tableName : String} {schemaName : Option String} :
    Meets (encodeMessageForVersion layout prims (connection.appendRequest tableName schemaName chunk)
      quackV1) (encodeDataChunk layout prims chunk).fault.toList := by
  have hbefore : ∀ action ∈ [writeOptionalString 1 schemaName, writeOptionalString 2 (some tableName)],
      action.Writes := by
    simp only [List.forall_mem_cons, writes_optionalString, true_and]
    exact fun _ hmem => absurd hmem List.not_mem_nil
  have hwrapped : Meets (writeObject (Encode.all [writeField 300 (encodeDataChunk layout prims chunk)]))
      (encodeDataChunk layout prims chunk).fault.toList :=
    Encode.meets_object (Encode.meets_last (fun _ hmem => absurd hmem List.not_mem_nil)
      (Encode.meets_field (meets_fault _)))
  obtain ⟨header, hheader⟩ := writes_header (connection.appendRequest tableName schemaName chunk).header
  rw [encodeMessageForVersion, if_pos rfl, hheader]
  have hbool : Meets (writeBool true) [] := rfl
  exact Encode.meets_append (meets_ok header) (Encode.meets_object (Encode.meets_last hbefore
    (Encode.meets_field (Encode.meets_append hbool hwrapped))))

/-- Every column takes the row and writes the value of it. -/
def RowFits (layout : Layout) (prims : Primitives) (definitions : List ColumnDefinition) (row : Row) :
    Prop :=
  ∀ definition ∈ definitions, ∃ value, normalCell definition row = .ok value ∧
    EncodesColumn layout prims definition.logicalType [value]

/-- The buffers for the columns of the rows are not larger than buffers can be. -/
def Room (layout : Layout) (definitions : List ColumnDefinition) (rows : List Row) : Prop :=
  ∀ definition ∈ definitions,
    Allocates layout definition.logicalType (rows.map (cellValue definition))

/-- Columns that can be written. -/
structure WritableColumns (definitions : List ColumnDefinition) : Prop where
  nonempty : definitions ≠ []
  types : ∀ definition ∈ definitions, (encodeLogicalType definition.logicalType).Writes

/-- The batch is built and encoded. -/
def Sendable (layout : Layout) (prims : Primitives) (columns : Option (List ColumnDefinition))
    (batch : List Row) : Prop :=
  ∃ chunk, dataChunkFromRows batch columns = .ok chunk ∧ (encodeDataChunk layout prims chunk).Writes

theorem RowFits.normal {row : Row} (h : RowFits layout prims definitions row) :
    Normal definitions row := fun definition hmem => by
  obtain ⟨value, hvalue, -⟩ := h definition hmem
  exact ⟨value, hvalue⟩

/-- The batch has columns that can be written, each of its rows fits them, and there is room. -/
def Admits (layout : Layout) (prims : Primitives) (columns : Option (List ColumnDefinition))
    (batch : List Row) : Prop :=
  ∃ definitions, columnDefinitions batch columns = .ok definitions ∧ WritableColumns definitions ∧
    (∀ row ∈ batch, RowFits layout prims definitions row) ∧ Room layout definitions batch

theorem sendable_iff {batch : List Row} (hbatch : batch ≠ []) :
    Sendable layout prims columns batch ↔ Admits layout prims columns batch := by
  constructor
  · rintro ⟨chunk, hchunk, hwrites⟩
    obtain ⟨definitions, hdefinitions, hne, hnormal, rfl⟩ := dataChunkFromRows_ok_iff.mp hchunk
    have hcolumns := writes_rowsChunk.mp hwrites
    refine ⟨definitions, hdefinitions, ⟨hne, fun d hmem => (hcolumns d hmem).1⟩, ?_,
      fun d hmem => (hcolumns d hmem).2.allocates⟩
    intro row hrow definition hmem
    obtain ⟨value, hvalue⟩ := hnormal row hrow definition hmem
    refine ⟨value, hvalue, (hcolumns definition hmem).2.sublist (List.singleton_sublist.mpr ?_)⟩
    rw [cellValue_of_ok hvalue]
    exact List.mem_map_of_mem hrow
  · rintro ⟨definitions, hdefinitions, hwritable, hrows, hroom⟩
    refine ⟨_, dataChunkFromRows_ok_iff.mpr ⟨definitions, hdefinitions, hwritable.nonempty,
      fun row hrow => (hrows row hrow).normal, rfl⟩, writes_rowsChunk.mpr fun d hmem => ?_⟩
    have hvalues : ∀ value ∈ batch.map (cellValue d), EncodesColumn layout prims d.logicalType [value] := by
      intro value hvalue
      obtain ⟨row, hrow, rfl⟩ := List.mem_map.mp hvalue
      obtain ⟨value, hvalue, hencodes⟩ := hrows row hrow d hmem
      rwa [← cellValue_of_ok hvalue]
    obtain ⟨row, rest, rfl⟩ := List.exists_cons_of_ne_nil hbatch
    have hempty := (hvalues _ (List.mem_map_of_mem (List.mem_cons_self ..))).sublist (List.nil_sublist _)
    exact ⟨hwritable.types d hmem, encodesColumn_of_rows hempty (hroom d hmem) hvalues⟩

/-- The batch fits the columns: there is one, their types can be written, and every row has the shape of them,
with values that are converted and buffers that are not too large. -/
structure FitsColumns (layout : Layout) (prims : Primitives) (definitions : List ColumnDefinition)
    (batch : List Row) : Prop where
  nonempty : definitions ≠ []
  types : ∀ definition ∈ definitions, definition.logicalType.Everywhere LogicalType.NotIntegerLiteral
  shape : ∀ row ∈ batch, Normal definitions row
  faultless : ∀ definition ∈ definitions,
    columnFaults layout prims definition.logicalType (batch.map (cellValue definition)) = []

/-- The batch fits the columns it is sent in. -/
def Fits (layout : Layout) (prims : Primitives) (columns : Option (List ColumnDefinition))
    (batch : List Row) : Prop :=
  ∃ definitions, ColumnsOf columns batch definitions ∧ FitsColumns layout prims definitions batch

/-- There is no column for the batch, or a row that has not the shape of its columns. -/
def Shapeless (columns : Option (List ColumnDefinition)) (batch : List Row) : Prop :=
  ∀ definitions, ColumnsOf columns batch definitions →
    definitions = [] ∨ ∃ row ∈ batch, ¬ Normal definitions row

/-- The first thing amiss with the columns of the batch is a type that cannot be written or a value that is not
converted, before any buffer that is too large. -/
def Unconverted (layout : Layout) (prims : Primitives) (columns : Option (List ColumnDefinition))
    (batch : List Row) : Prop :=
  ∃ definitions, ColumnsOf columns batch definitions ∧ definitions ≠ [] ∧
    (∀ row ∈ batch, Normal definitions row) ∧
    ((∃ definition ∈ definitions, ¬ definition.logicalType.Everywhere LogicalType.NotIntegerLiteral) ∨
      (batchFaults layout prims definitions batch).head? = some .refused)

theorem encodesColumn_iff_faultless {T : LogicalType} {values : List Value} :
    EncodesColumn layout prims T values ↔ columnFaults layout prims T values = [] := encodeVector_meets.ok_iff

theorem sendable_iff_fits {batch : List Row} :
    Sendable layout prims columns batch ↔ Fits layout prims columns batch := by
  constructor
  · rintro ⟨chunk, hchunk, hwrites⟩
    obtain ⟨definitions, hdefinitions, hne, hnormal, rfl⟩ := dataChunkFromRows_ok_iff.mp hchunk
    have hcolumns := writes_rowsChunk.mp hwrites
    exact ⟨definitions, columnDefinitions_iff.mp hdefinitions, hne,
      fun d hmem => writes_logicalType_iff.mp (hcolumns d hmem).1, hnormal,
      fun d hmem => encodesColumn_iff_faultless.mp (hcolumns d hmem).2⟩
  · rintro ⟨definitions, hdefinitions, hfits⟩
    refine ⟨_, dataChunkFromRows_ok_iff.mpr ⟨definitions, columnDefinitions_iff.mpr hdefinitions,
      hfits.nonempty, hfits.shape, rfl⟩, writes_rowsChunk.mpr fun d hmem => ?_⟩
    exact ⟨writes_logicalType_iff.mpr (hfits.types d hmem),
      encodesColumn_iff_faultless.mpr (hfits.faultless d hmem)⟩

theorem shapeless_iff {batch : List Row} :
    (∃ error, dataChunkFromRows batch columns = .error error) ↔ Shapeless columns batch := by
  have hbuilt : (∃ chunk, dataChunkFromRows batch columns = .ok chunk) ↔ ¬ Shapeless columns batch := by
    simp only [dataChunkFromRows_ok_iff, columnDefinitions_iff, Shapeless, not_forall, not_or, not_exists,
      not_and, not_not, exists_prop]
    constructor
    · rintro ⟨chunk, definitions, hdefinitions, hne, hnormal, -⟩
      exact ⟨definitions, hdefinitions, hne, hnormal⟩
    · rintro ⟨definitions, hdefinitions, hne, hnormal⟩
      exact ⟨_, definitions, hdefinitions, hne, hnormal, rfl⟩
  cases hchunk : dataChunkFromRows batch columns with
  | ok chunk =>
      rw [hchunk] at hbuilt
      exact iff_of_false (fun ⟨_, h⟩ => by cases h) (hbuilt.mp ⟨chunk, rfl⟩)
  | error error =>
      rw [hchunk] at hbuilt
      refine iff_of_true ⟨error, rfl⟩ (not_not.mp fun h => ?_)
      obtain ⟨chunk, h⟩ := hbuilt.mpr h
      cases h

theorem unconverted_iff {batch : List Row} {connection : Connection} {tableName : String}
    {schemaName : Option String} :
    (∃ chunk error, dataChunkFromRows batch columns = .ok chunk ∧ encodeMessageForVersion layout prims
      (connection.appendRequest tableName schemaName chunk) quackV1 = .err error) ↔
      Unconverted layout prims columns batch := by
  have herror (definitions : List ColumnDefinition) : (∃ error, encodeMessageForVersion layout prims
        (connection.appendRequest tableName schemaName (rowsChunk definitions batch)) quackV1 = .err error) ↔
      (∃ definition ∈ definitions, ¬ definition.logicalType.Everywhere LogicalType.NotIntegerLiteral) ∨
        (batchFaults layout prims definitions batch).head? = some .refused := by
    rw [appendRequest_meets.err_iff, Option.head?_toList, encodeDataChunk_meets, refused_head_iff]
  simp only [dataChunkFromRows_ok_iff, columnDefinitions_iff, Unconverted]
  constructor
  · rintro ⟨chunk, error, ⟨definitions, hdefinitions, hne, hnormal, rfl⟩, h⟩
    exact ⟨definitions, hdefinitions, hne, hnormal, (herror definitions).mp ⟨error, h⟩⟩
  · rintro ⟨definitions, hdefinitions, hne, hnormal, h⟩
    obtain ⟨error, h⟩ := (herror definitions).mpr h
    exact ⟨_, error, ⟨definitions, hdefinitions, hne, hnormal, rfl⟩, h⟩

end

/-! ### One batch -/

section
variable {layout : Layout} {prims : Primitives} {tableName : String} {schemaName : Option String}
  {columns : Option (List ColumnDefinition)} {turn : Turn} {batch : List Row} {chunk : DataChunk}

/-- The ways in which the call for one batch ends. -/
inductive BatchEnds (layout : Layout) (prims : Primitives) (tableName : String)
    (schemaName : Option String) (columns : Option (List ColumnDefinition)) (turn : Turn)
    (batch : List Row) : ClientCall Unit → Prop where
  | refused {error : QuackError} (built : dataChunkFromRows batch columns = .error error) :
      BatchEnds layout prims tableName schemaName columns turn batch ⟨[], .error (.error .build error)⟩
  | unready {chunk : DataChunk} {error : QuackError}
      (built : dataChunkFromRows batch columns = .ok chunk)
      (unready : turn.connection.closed = true ∨ turn.connection.quackVersion ≠ quackV1) :
      BatchEnds layout prims tableName schemaName columns turn batch
        ⟨[], .error (.error .connection error)⟩
  | unencoded {chunk : DataChunk} {error : QuackError}
      (built : dataChunkFromRows batch columns = .ok chunk) (ready : turn.connection.closed = false)
      (version : turn.connection.quackVersion = quackV1)
      (encoded : encodeMessageForVersion layout prims
        (turn.connection.appendRequest tableName schemaName chunk) quackV1 = .err error) :
      BatchEnds layout prims tableName schemaName columns turn batch ⟨[], .error (.error .encode error)⟩
  | panicked {chunk : DataChunk} {cause : Panic}
      (built : dataChunkFromRows batch columns = .ok chunk) (ready : turn.connection.closed = false)
      (version : turn.connection.quackVersion = quackV1)
      (encoded : encodeMessageForVersion layout prims
        (turn.connection.appendRequest tableName schemaName chunk) quackV1 = .panic cause) :
      BatchEnds layout prims tableName schemaName columns turn batch ⟨[], .error (.panic cause)⟩
  | accepted {chunk : DataChunk} {header : MessageHeader}
      (built : dataChunkFromRows batch columns = .ok chunk) (ready : turn.connection.closed = false)
      (version : turn.connection.quackVersion = quackV1)
      (encoded : (encodeDataChunk layout prims chunk).Writes)
      (reply : turn.reply = .ok (.successResponse header)) :
      BatchEnds layout prims tableName schemaName columns turn batch
        ⟨[turn.connection.appendRequest tableName schemaName chunk], .ok ()⟩
  | answered {chunk : DataChunk} {stage : Stage} {error : QuackError}
      (built : dataChunkFromRows batch columns = .ok chunk)
      (encoded : (encodeDataChunk layout prims chunk).Writes)
      (reply : ∀ header, turn.reply ≠ .ok (.successResponse header))
      (after : stage = .exchange ∨ stage = .reply) :
      BatchEnds layout prims tableName schemaName columns turn batch
        ⟨[turn.connection.appendRequest tableName schemaName chunk], .error (.error stage error)⟩

theorem appendBatch_ends : BatchEnds layout prims tableName schemaName columns turn batch
    (appendBatch layout prims tableName schemaName columns turn batch) := by
  unfold appendBatch
  cases hchunk : dataChunkFromRows batch columns with
  | error error => exact .refused hchunk
  | ok chunk =>
      show BatchEnds _ _ _ _ _ _ _ (Call.step (.ok chunk) >>= _)
      rw [Call.step_ok_bind, Connection.append, Connection.ensureOpen]
      cases hclosed : turn.connection.closed with
      | true => exact .unready hchunk (.inl hclosed)
      | false =>
          show BatchEnds _ _ _ _ _ _ _ (Call.step (.ok ()) >>= _)
          rw [Call.step_ok_bind]
          by_cases hversion : turn.connection.quackVersion = quackV1
          · rw [if_neg (not_not.mpr hversion)]
            show BatchEnds _ _ _ _ _ _ _ (Call.step (.ok ()) >>= _)
            rw [Call.step_ok_bind]
            unfold Connection.send
            rw [hversion]
            cases hencoded : encodeMessageForVersion layout prims
                (turn.connection.appendRequest tableName schemaName chunk) quackV1 with
            | err error => exact .unencoded hchunk hclosed hversion hencoded
            | panic cause => exact .panicked hchunk hclosed hversion hencoded
            | ok bytes =>
                have hwrites : (encodeDataChunk layout prims chunk).Writes :=
                  writes_appendRequest.mp ⟨bytes, hencoded⟩
                cases hreply : turn.reply with
                | error error =>
                    refine .answered hchunk hwrites (fun header h => ?_) (.inl rfl)
                    cases hreply.symm.trans h
                | ok response =>
                    cases response with
                    | successResponse header =>
                        exact .accepted hchunk hclosed hversion hwrites hreply
                    | errorResponse header text =>
                        refine .answered hchunk hwrites (fun header h => ?_) (.inl rfl)
                        cases hreply.symm.trans h
                    | _ =>
                        refine .answered hchunk hwrites (fun header h => ?_) (.inr rfl)
                        cases hreply.symm.trans h
          · rw [if_pos hversion]
            exact .unready hchunk (.inr hversion)

/-- The failures raised on the client while a chunk is built or a request is encoded. -/
def Failure.Refused : Failure → Prop
  | .error stage _ => stage = .build ∨ stage = .encode
  | .panic _ => False

/-- The client refuses the batch: its rows have not the shape of its columns, or they are not converted when the
request is encoded, which an open connection of protocol v1 comes to. -/
def Turn.Refuses (layout : Layout) (prims : Primitives) (columns : Option (List ColumnDefinition)) (turn : Turn)
    (batch : List Row) : Prop :=
  Shapeless columns batch ∨
  turn.connection.closed = false ∧ turn.connection.quackVersion = quackV1 ∧
    Unconverted layout prims columns batch

theorem refuses_iff : turn.Refuses layout prims columns batch ↔
    (∃ error, dataChunkFromRows batch columns = .error error) ∨
    turn.connection.closed = false ∧ turn.connection.quackVersion = quackV1 ∧ ∃ chunk error,
      dataChunkFromRows batch columns = .ok chunk ∧ encodeMessageForVersion layout prims
        (turn.connection.appendRequest tableName schemaName chunk) quackV1 = .err error := by
  rw [Turn.Refuses, shapeless_iff, unconverted_iff]

/-- An open connection of protocol v1, to a server that reports success. -/
structure Turn.Accepting (turn : Turn) : Prop where
  ready : turn.connection.closed = false
  version : turn.connection.quackVersion = quackV1
  reply : ∃ header, turn.reply = .ok (.successResponse header)

theorem appendBatch_ok_iff :
    (appendBatch layout prims tableName schemaName columns turn batch).result = .ok () ↔
      turn.Accepting ∧ Sendable layout prims columns batch := by
  have hends := @appendBatch_ends layout prims tableName schemaName columns turn batch
  cases hcall : appendBatch layout prims tableName schemaName columns turn batch with
  | mk sent result =>
      rw [hcall] at hends
      cases hends with
      | refused built =>
          apply iff_of_false (by simp)
          rintro ⟨-, chunk, hchunk, -⟩
          cases built.symm.trans hchunk
      | unready built unready =>
          apply iff_of_false (by simp)
          rintro ⟨haccepting, -⟩
          rcases unready with hclosed | hversion
          · cases hclosed.symm.trans haccepting.ready
          · exact hversion haccepting.version
      | unencoded built ready version encoded | panicked built ready version encoded =>
          apply iff_of_false (by simp)
          rintro ⟨-, chunk, hchunk, hwrites⟩
          cases built.symm.trans hchunk
          obtain ⟨bytes, hbytes⟩ := writes_appendRequest.mpr hwrites
          cases encoded.symm.trans hbytes
      | accepted built ready version encoded reply =>
          exact iff_of_true rfl ⟨⟨ready, version, _, reply⟩, _, built, encoded⟩
      | answered built encoded reply after =>
          apply iff_of_false (by simp)
          rintro ⟨⟨-, -, header, hreply⟩, -⟩
          exact reply header hreply

theorem sent_appendBatch_ok
    (h : (appendBatch layout prims tableName schemaName columns turn batch).result = .ok ()) :
    ∃ chunk, dataChunkFromRows batch columns = .ok chunk ∧
      (appendBatch layout prims tableName schemaName columns turn batch).sent =
        [turn.connection.appendRequest tableName schemaName chunk] := by
  have hends := @appendBatch_ends layout prims tableName schemaName columns turn batch
  cases hcall : appendBatch layout prims tableName schemaName columns turn batch with
  | mk sent result =>
      rw [hcall] at hends h
      cases hends with
      | accepted built ready version encoded reply => exact ⟨_, built, rfl⟩
      | _ => cases h

theorem not_refuses (built : dataChunkFromRows batch columns = .ok chunk)
    (encoded : (encodeDataChunk layout prims chunk).Writes) :
    ¬ turn.Refuses layout prims columns batch := by
  rw [@refuses_iff _ _ "" none]
  rintro (⟨error, h⟩ | ⟨-, -, chunk, error, h, herror⟩)
  · cases built.symm.trans h
  · cases built.symm.trans h
    obtain ⟨bytes, hbytes⟩ := writes_appendRequest.mpr encoded
    cases hbytes.symm.trans herror

theorem appendBatch_refused_iff :
    (∃ failure, failure.Refused ∧
      (appendBatch layout prims tableName schemaName columns turn batch).result = .error failure) ↔
      turn.Refuses layout prims columns batch := by
  have hrefuses := @refuses_iff layout prims tableName schemaName columns turn batch
  have hends := @appendBatch_ends layout prims tableName schemaName columns turn batch
  cases hcall : appendBatch layout prims tableName schemaName columns turn batch with
  | mk sent result =>
      rw [hcall] at hends
      cases hends with
      | refused built =>
          exact iff_of_true ⟨.error .build _, Or.inl rfl, rfl⟩ (hrefuses.mpr (.inl ⟨_, built⟩))
      | unencoded built ready version encoded =>
          exact iff_of_true ⟨.error .encode _, Or.inr rfl, rfl⟩
            (hrefuses.mpr (.inr ⟨ready, version, _, _, built, encoded⟩))
      | unready built unready =>
          rw [hrefuses]
          refine iff_of_false ?_ ?_
          · rintro ⟨failure, hrefused, h⟩
            cases h
            rcases hrefused with h | h <;> cases h
          · rintro (⟨error, h⟩ | ⟨ready, version, -⟩)
            · cases built.symm.trans h
            · rcases unready with hclosed | hversion
              · cases hclosed.symm.trans ready
              · exact hversion version
      | panicked built ready version encoded =>
          rw [hrefuses]
          refine iff_of_false ?_ ?_
          · rintro ⟨failure, hrefused, h⟩
            cases h
            exact hrefused
          · rintro (⟨error, h⟩ | ⟨-, -, chunk, error, h, herror⟩)
            · cases built.symm.trans h
            · cases built.symm.trans h
              cases encoded.symm.trans herror
      | accepted built ready version encoded reply =>
          refine iff_of_false ?_ (not_refuses built encoded)
          rintro ⟨failure, -, h⟩
          cases h
      | answered built encoded reply after =>
          refine iff_of_false ?_ (not_refuses built encoded)
          rintro ⟨failure, hrefused, h⟩
          cases h
          rcases hrefused with rfl | rfl <;> rcases after with h | h <;> cases h

theorem sent_appendBatch_refused {failure : Failure} (hrefused : failure.Refused)
    (h : (appendBatch layout prims tableName schemaName columns turn batch).result = .error failure) :
    (appendBatch layout prims tableName schemaName columns turn batch).sent = [] := by
  have hends := @appendBatch_ends layout prims tableName schemaName columns turn batch
  cases hcall : appendBatch layout prims tableName schemaName columns turn batch with
  | mk sent result =>
      rw [hcall] at hends h
      cases hends with
      | refused | unready | unencoded | panicked => rfl
      | accepted => cases h
      | answered built encoded reply after =>
          cases h
          rcases hrefused with rfl | rfl <;> rcases after with h | h <;> cases h

/-- The batches of a call that is given this batch size. -/
def batches (rows : List Row) (batchSize : Option Nat) : List (List Row) :=
  if batchSize.getD rows.length = 0 then [] else chunks (batchSize.getD rows.length) rows

theorem appendRows_batches {rows : List Row} {size : Nat} {turns : Nat → Turn} (hrows : rows ≠ [])
    (hsize : size ≠ 0) :
    appendRows layout prims tableName schemaName columns rows (some size) turns =
      Call.each (fun index => appendBatch layout prims tableName schemaName columns (turns index)) 0
        (chunks size rows) := by
  rw [appendRows, if_neg (by simpa using hrows)]
  exact if_neg hsize

/-- A call that the client refuses has sent nothing. -/
def AllOrNothing (call : ClientCall Unit) : Prop :=
  ∀ failure, failure.Refused → call.result = .error failure → call.sent = []

/-- A call is all or nothing exactly when no batch after the first is the one it is refused for: before
each one that the client refuses, the server does not accept a batch, or a batch does not fit its columns. -/
theorem appendRows_allOrNothing_iff (layout : Layout) (prims : Primitives) (tableName : String)
    (schemaName : Option String) (columns : Option (List ColumnDefinition)) (rows : List Row)
    (batchSize : Option Nat) (turns : Nat → Turn) :
    AllOrNothing (appendRows layout prims tableName schemaName columns rows batchSize turns) ↔
      ∀ k (hk : k < (batches rows batchSize).length), 0 < k →
        (turns k).Refuses layout prims columns (batches rows batchSize)[k] →
        ∃ j, ∃ hj : j < (batches rows batchSize).length, j < k ∧
          ¬ ((turns j).Accepting ∧ Fits layout prims columns (batches rows batchSize)[j]) := by
  unfold appendRows
  by_cases hrows : rows.isEmpty
  · have hnone : batches rows batchSize = [] := by
      rw [List.isEmpty_iff.mp hrows, batches, chunks, ite_self]
    rw [if_pos hrows, hnone]
    refine iff_of_true (fun failure => sent_appendBatch_refused) fun k hk => ?_
    cases hk
  · rw [if_neg hrows]
    by_cases hsize : batchSize.getD rows.length = 0
    · rw [batches, if_pos hsize]
      simp only [hsize, if_true]
      exact iff_of_true (fun _ _ _ => rfl) fun k hk => absurd hk (Nat.not_lt_zero k)
    · rw [batches, if_neg hsize]
      simp only [hsize, if_false]
      rw [AllOrNothing, Call.each_silent_iff
        (fun index batch h => by
          obtain ⟨chunk, -, hsent⟩ := sent_appendBatch_ok h
          rw [hsent]
          exact List.cons_ne_nil _ _)
        (fun index batch failure => sent_appendBatch_refused)]
      simp only [Nat.zero_add, appendBatch_refused_iff, ne_eq, appendBatch_ok_iff, sendable_iff_fits]

end

def numberRow : Row := [("a", .int 1)]

def nullRow : Row := [("a", .null)]

/-- A connection of protocol v1, to a server that reports success. -/
def readyTurn : Turn :=
  ⟨⟨"c", quackV1, 1, 1, false⟩, .ok (.successResponse ⟨.successResponse, none, none⟩)⟩

theorem readyTurn_accepting : readyTurn.Accepting := ⟨rfl, rfl, _, rfl⟩

theorem inferLogicalType_one (values : List Value) :
    inferLogicalType (.int 1 :: values) = .ok (LogicalTypes.scalar .integer) := by
  rw [inferLogicalType]
  split <;> rename_i h <;> cases h
  rfl

theorem inferLogicalType_null : inferLogicalType [.null] =
    .error (.protocol "cannot infer logical type from only null values") := by
  rw [inferLogicalType]
  split <;> rename_i h <;> first | rfl | cases h

def numberColumn : ColumnDefinition := ⟨"a", LogicalTypes.scalar .integer⟩

theorem columnDefinitions_numberRow (rows : List Row) :
    columnDefinitions (numberRow :: rows) none = .ok [numberColumn] := by
  rw [columnDefinitions, inferColumnDefinitions, numberRow]
  simp only [List.map_cons, List.map_nil, List.mapM_cons, List.mapM_nil]
  have hcell : cell [("a", .int 1)] "a" = .int 1 := rfl
  rw [hcell, inferLogicalType_one]
  rfl

theorem refused_nullRow : dataChunkFromRows [nullRow] none =
    .error (.protocol "cannot infer logical type from only null values") := by
  rw [dataChunkFromRows, columnDefinitions, inferColumnDefinitions, nullRow]
  simp only [List.map_cons, List.map_nil, List.mapM_cons, List.mapM_nil]
  have hcell : cell [("a", .null)] "a" = .null := rfl
  rw [hcell, inferLogicalType_null]
  rfl

theorem normalCell_numberColumn {row : Row} (h : row = numberRow ∨ row = nullRow) :
    normalCell numberColumn row = .ok (cell row "a") := by
  rw [normalCell]
  rcases h with rfl | rfl <;> unfold normalizeAppendValue <;> rfl

theorem writes_numberColumn {row : Row} (h : row = numberRow ∨ row = nullRow) :
    (encodeFixedValue .floatless (LogicalTypes.scalar .integer) .int32 (cell row "a")).Writes := by
  rcases h with rfl | rfl
  · exact ⟨_, rfl⟩
  · exact ⟨_, rfl⟩

theorem sendable_integers {rows : List Row} (hrows : ∀ row ∈ rows, row = numberRow ∨ row = nullRow)
    (hlen : rows.length ≤ 2) (hdefinitions : columnDefinitions rows none = .ok [numberColumn]) :
    Sendable .words .floatless none rows := by
  have hnormal : ∀ row ∈ rows, Normal [numberColumn] row := fun row hrow => by
    refine List.forall_mem_singleton.mpr ?_
    exact ⟨_, normalCell_numberColumn (hrows row hrow)⟩
  refine ⟨_, dataChunkFromRows_ok_iff.mpr ⟨_, hdefinitions, List.cons_ne_nil _ _, hnormal, rfl⟩,
    writes_rowsChunk.mpr ?_⟩
  have htype : (encodeLogicalType (LogicalTypes.scalar .integer)).Writes := by
    rw [LogicalTypes.scalar, encodeLogicalType]
    exact ⟨_, rfl⟩
  refine List.forall_mem_singleton.mpr ⟨htype, ?_⟩
  refine (encodesColumn_fixed rfl rfl).mpr ⟨?_, fun value hvalue => ?_⟩
  · rw [List.length_map, isizeMax]
    omega
  · obtain ⟨row, hrow, rfl⟩ := List.mem_map.mp hvalue
    rw [← cellValue_of_ok (normalCell_numberColumn (hrows row hrow))]
    exact writes_numberColumn (hrows row hrow)
theorem chunks_one_rows : chunks 1 [numberRow, nullRow] = [[numberRow], [nullRow]] := by
  simp [chunks]

theorem sendable_numberRow : Sendable .words .floatless none [numberRow] :=
  sendable_integers (fun row hrow => .inl (List.mem_singleton.mp hrow)) (by simp)
    (columnDefinitions_numberRow [])

theorem appendBatch_nullRow {turn : Turn} {tableName : String} {schemaName : Option String} :
    ∃ failure, failure.Refused ∧
      (appendBatch .words .floatless tableName schemaName none turn [nullRow]).result =
        .error failure :=
  appendBatch_refused_iff.mpr (.inl (shapeless_iff.mp ⟨_, refused_nullRow⟩))

/-- The first row has been sent by the time the type of the second one cannot be inferred. -/
theorem not_allOrNothing_partlyNull :
    ¬ AllOrNothing (appendRows .words .floatless "t" none none [numberRow, nullRow] (some 1)
      fun _ => readyTurn) := by
  intro h
  rw [appendRows_batches (List.cons_ne_nil _ _) one_ne_zero, chunks_one_rows] at h
  obtain ⟨failure, hrefused, hresult⟩ := @appendBatch_nullRow readyTurn "t" none
  have hfirst : (appendBatch .words .floatless "t" none none readyTurn [numberRow]).result = .ok () :=
    appendBatch_ok_iff.mpr ⟨readyTurn_accepting, sendable_numberRow⟩
  obtain ⟨chunk, -, hsent⟩ := sent_appendBatch_ok hfirst
  rw [Call.each, Call.bind_ok _ hfirst, Call.each, Call.bind_error _ hresult, hsent] at h
  cases h failure hrefused rfl

end QuackProtocol
