import QuackProtocol.AppendDelivery
import QuackProtocol.Consumers
import QuackProtocol.Relays
import QuackProtocol.ReshapedRows

/-! A table that is copied: the rows of a query are collected and appended with the columns of the query. What
the second server reads is what the first one holds, row by row, in whatever batches it comes. -/

open Decoding Sending

namespace QuackProtocol

/-- A value that a column keeps: it is appended as it is, and stored as it is. -/
structure Kept (prims : Primitives) (T : LogicalType) (value : Value) : Prop where
  normal : normalizeAppendValue value T = .ok value
  storable : Storable prims T value
  same : stored prims T value = value

/-- A row whose values the columns keep. -/
def KeptRow (prims : Primitives) (columns : List ColumnDefinition) (values : List Value) : Prop :=
  List.Forall₂ (fun column value => Kept prims column.logicalType value) columns values

section
variable {layout : Layout} {prims : Primitives} {T : LogicalType} {value : Value}

theorem normal_scalar (h : ScalarOf T value) : normalizeAppendValue value T = .ok value :=
  normalizeAppendValue_same (fun items hvalue => absurd hvalue (h.flat.1 items))
    fun row hvalue => absurd hvalue (h.flat.2 row)

theorem hasItems_of_physical (h : getPhysicalType T = .ok .list ∨ getPhysicalType T = .ok .array) :
    HasItems T := by
  rw [HasItems]
  rcases h with h | h
  · rcases (nested_of_physicalType h).2.1 rfl with hid | hid <;> rw [hid] <;> decide
  · rw [(nested_of_physicalType h).2.2 rfl]
    decide

theorem normal_items {childType : LogicalType} {items : List Value}
    (physical : getPhysicalType T = .ok .list ∨ getPhysicalType T = .ok .array)
    (child : getChildType T = .ok childType)
    (h : ∀ item ∈ items, normalizeAppendValue item childType = .ok item) :
    normalizeAppendValue (.list items) T = .ok (.list items) := by
  have hitems : items.mapM (fun item => normalizeAppendValue item childType) = .ok items := by
    rw [Except.mapM_ok_iff, List.forall₂_same]
    exact h
  rw [normalizeAppendValue_items (hasItems_of_physical physical) child, hitems]
  rfl

/-- What a column gives back has the items and the fields of its type. -/
theorem normal_stored (hfloat : ∀ bits, prims.f64ToF32 (prims.f32ToF64 bits) = bits) (hT : Encodable T)
    (h : Storable prims T value) : normalizeAppendValue (stored prims T value) T = .ok (stored prims T value) := by
  induction h with
  | null T => rw [stored_null, normalizeAppendValue]
  | @fixed T physicalType value w physical size notNull word =>
      have hcanonical := (stored_settles hfloat hT (.fixed physical size notNull word)).1
      by_cases hnull : stored prims T value = .null
      · rw [hnull, normalizeAppendValue]
      · refine normal_scalar (hcanonical.scalarOf hnull ?_)
        refine ⟨?_, ?_, ?_⟩ <;> rw [physical] <;> rintro heq <;> cases heq <;> cases size
  | @varchar T value w raw physical notNull text held back =>
      have hcanonical := (stored_settles hfloat hT (.varchar physical notNull text held back)).1
      by_cases hnull : stored prims T value = .null
      · rw [hnull, normalizeAppendValue]
      · refine normal_scalar (hcanonical.scalarOf hnull ?_)
        refine ⟨?_, ?_, ?_⟩ <;> rw [physical] <;> rintro heq <;> cases heq
  | @struct T children value physical structChildren notNull fields ih =>
      obtain ⟨distinct, hinside⟩ := hT.fields physical structChildren
      have hnodup : ((children.map fun child => (child.name,
          stored prims child.logicalType (structField child.name value))).map Prod.fst).Nodup := by
        rw [List.map_map]
        exact distinct
      rw [stored_struct physical structChildren notNull, Row.ofFields_of_nodup hnodup]
      by_cases hid : T.id = .struct
      · rw [normalizeAppendValue_fields hid structChildren]
        have hfields : children.foldlM (normalizeField (children.map fun child => (child.name,
            stored prims child.logicalType (structField child.name value)))) [] =
            .ok (children.map fun child => (child.name,
              stored prims child.logicalType (structField child.name value))) := by
          refine (foldlM_normalizeField (by simpa using distinct)).mpr ⟨_, (List.nil_append _).symm, ?_⟩
          rw [List.forall₂_map_right_iff, List.forall₂_same]
          intro child hmem
          have hcell := Row.get_of_mem hnodup (List.mem_map.mpr ⟨child, hmem, rfl⟩)
          refine ⟨rfl, ?_⟩
          rw [cell, hcell, Option.getD_some]
          exact ih child hmem (hinside child hmem)
        rw [hfields]
        rfl
      · exact normalizeAppendValue_same (fun items hvalue => by cases hvalue) fun _ _ => hid
  | @list T childType items physical child inside ih =>
      rw [stored_list (.inl physical) child]
      exact normal_items (.inl physical) child (List.forall_mem_map.mpr fun item hmem =>
        ih item hmem (hT.items (.inl physical) child))
  | @array T childType size items physical child arraySize length inside ih =>
      rw [stored_list (.inr physical) child]
      exact normal_items (.inr physical) child (List.forall_mem_map.mpr fun item hmem =>
        ih item hmem (hT.items (.inr physical) child))

/-- A value that was read is kept by a column of its type. -/
theorem kept_stored (hfloat : ∀ bits, prims.f64ToF32 (prims.f32ToF64 bits) = bits) (hT : Encodable T)
    (h : Storable prims T value) : Kept prims T.asRead (stored prims T value) := by
  have hread := SameColumns.asRead.encodable hT
  obtain ⟨hstorable, hsame⟩ := SameColumns.asRead.storable h
  obtain ⟨hcanonical, hagain⟩ := stored_settles hfloat hread hstorable
  rw [← hsame]
  exact ⟨normal_stored hfloat hread hstorable, (storable_canonical hfloat hread hcanonical).1, hagain⟩

end

section
variable {layout : Layout} {prims : Primitives} {columns : List ColumnDefinition} {values : List Value}
  {result : ServedResult}

/-- The cells of a row of kept values are the values. -/
theorem cells_kept (hnames : (columns.map ColumnDefinition.name).Nodup) (h : KeptRow prims columns values) :
    columns.map (fun column => cellValue column (tableRow (columns.map ColumnDefinition.name) values)) =
      values := by
  have hlength := List.Forall₂.length_eq h
  rw [tableRow_distinct hnames (by rw [List.length_map, hlength])]
  apply List.ext_getElem (by rw [List.length_map, hlength])
  intro i hi hi'
  rw [List.length_map] at hi
  rw [List.getElem_map]
  have hkept : Kept prims columns[i].logicalType values[i] := h.get hi hi'
  have hfirst : (((columns.map ColumnDefinition.name).zip values).map Prod.fst).Nodup := by
    rwa [List.map_fst_zip (by rw [List.length_map, hlength])]
  have hmem : (columns[i].name, values[i]) ∈ (columns.map ColumnDefinition.name).zip values := by
    refine List.mem_iff_getElem.mpr ⟨i, by rw [List.length_zip, List.length_map]; omega, ?_⟩
    rw [List.getElem_zip, List.getElem_map]
  have hcell : cell ((columns.map ColumnDefinition.name).zip values) columns[i].name = values[i] := by
    rw [cell, Row.get_of_mem hfirst hmem, Option.getD_some]
  exact (cellValue_of_ok (by rw [normalCell, hcell, hkept.normal])).symm

theorem storedCells_kept (hnames : (columns.map ColumnDefinition.name).Nodup) (h : KeptRow prims columns values) :
    storedCells prims columns (tableRow (columns.map ColumnDefinition.name) values) = values := by
  have hcells := cells_kept hnames h
  have hlength := List.Forall₂.length_eq h
  apply List.ext_getElem (by rw [storedCells, List.length_map, hlength])
  intro i hi hi'
  have hcolumn : i < columns.length := by omega
  have hcell := List.getElem_of_eq hcells (by rwa [List.length_map])
  rw [List.getElem_map] at hcell
  simp only [storedCells, List.getElem_map]
  rw [hcell]
  exact (h.get hcolumn hi').same

/-- A batch of kept rows can be stored. -/
theorem stores_kept {batch : List Row} {table : List (List Value)}
    (hnames : (columns.map ColumnDefinition.name).Nodup)
    (htypes : ∀ column ∈ columns, Encodable column.logicalType ∧ column.logicalType.Writable layout)
    (typesFit : layout.Fits .logicalType columns.length) (columnsFit : layout.Fits .decodedVector columns.length)
    (rowsFit : layout.Fits .value batch.length) (htable : ∀ values ∈ table, KeptRow prims columns values)
    (hbatch : batch ⊆ table.map (tableRow (columns.map ColumnDefinition.name))) :
    (rowsChunk columns batch).Stores layout prims := by
  refine stores_of_storable htypes typesFit columnsFit rowsFit fun column hcolumn row hrow => ?_
  obtain ⟨values, hvalues, rfl⟩ := List.mem_map.mp (hbatch hrow)
  have hkept := htable values hvalues
  obtain ⟨i, hi, rfl⟩ := List.getElem_of_mem hcolumn
  have hcell := List.getElem_of_eq (cells_kept hnames hkept) (by rwa [List.length_map])
  rw [List.getElem_map] at hcell
  rw [hcell]
  exact (hkept.get hi _).storable

/-- The rows that are read of a result have values that the columns of the query keep. -/
theorem keptRow_read (hfloat : ∀ bits, prims.f64ToF32 (prims.f32ToF64 bits) = bits)
    (hresult : result.Deliverable layout)
    (htyped : result.Typed)
    (hvalues : values ∈ result.readTable prims result.batches.length) :
    KeptRow prims (result.names.zipWith ColumnDefinition.mk (result.types.map LogicalType.asRead)) values := by
  rw [ServedResult.readTable, List.take_length, List.mem_flatMap] at hvalues
  obtain ⟨chunk, hchunk, hrow⟩ := hvalues
  have hstores := (hresult.plain chunk hchunk).stores hfloat
  have hmemory := hstores.inMemory
  obtain ⟨row, hrange, rfl⟩ := List.mem_map.mp hrow
  have hrow : row < chunk.rowCount := List.mem_range.mp hrange
  have htypes : chunk.parts.map Prod.fst = result.types := by
    rw [DataChunk.parts, List.map_fst_zip (by rw [List.length_map, hmemory.sameLength]), htyped chunk hchunk]
  have hlength := hresult.named
  rw [← htypes, List.length_map] at hlength
  rw [KeptRow, ← htypes, List.map_map, storedChunk, List.map_map, List.forall₂_map_right_iff]
  refine List.forall₂_iff_get.mpr ⟨by simp [hlength], fun i hi hi' => ?_⟩
  simp only [List.get_eq_getElem, List.getElem_zipWith, List.getElem_map, Function.comp_apply]
  obtain ⟨⟨hT, -⟩, hrows, -⟩ := part_inMemory hmemory (List.getElem_mem hi')
  have hlt : row < chunk.parts[i].2.length := by rwa [hrows]
  rw [List.getD_eq_getElem?_getD, List.getElem?_map, List.getElem?_eq_getElem hlt]
  exact kept_stored hfloat hT (hstores.storable _ (List.getElem_mem hi') _ (List.getElem_mem hlt))

/-- The columns of a query can be written where a chunk of it has been read. -/
theorem columns_inMemory {chunk : DataChunk} (h : chunk.InMemory layout) (htyped : chunk.types = result.types)
    (hnamed : result.names.length = result.types.length)
    (hcolumns : columns = result.names.zipWith ColumnDefinition.mk (result.types.map LogicalType.asRead)) :
    (∀ column ∈ columns, Encodable column.logicalType ∧ column.logicalType.Writable layout) ∧
      layout.Fits .logicalType columns.length ∧ layout.Fits .decodedVector columns.length := by
  have hlength : columns.length = result.types.length := by
    rw [hcolumns, List.length_zipWith, List.length_map, hnamed, Nat.min_self]
  refine ⟨fun column hmem => ?_, ?_, ?_⟩
  · rw [hcolumns] at hmem
    obtain ⟨i, hi, rfl⟩ := List.getElem_of_mem hmem
    rw [List.length_zipWith, List.length_map] at hi
    rw [List.getElem_zipWith, List.getElem_map]
    have hmem : result.types[i] ∈ chunk.types := by
      rw [htyped]
      exact List.getElem_mem _
    have hT := h.types _ hmem
    exact ⟨SameColumns.asRead.encodable hT.1, hT.2.asRead⟩
  · rw [hlength, ← htyped]
    exact h.typesFit
  · rw [hlength, ← htyped, ← h.sameLength]
    exact h.columnsFit

end

/-! ### The copy -/

section
variable {layout : Layout} {prims : Primitives} {canonicalReason : Nat → Option String} {result : ServedResult}
  {reply : Reply} {connection : Connection} {sql : String} {prepared : Prepared} {answers : List Answer}
  {stream : QuackResultStream} {rows : List Row} {tableName : String} {schemaName : Option String}
  {batchSize : Option Nat} {turns : Nat → Turn}

/-- A stream that has ended without an error has yielded the whole result. -/
theorem collected_rows (hcolumns : prepared.columns =
      result.names.zipWith ColumnDefinition.mk (result.types.map LogicalType.asRead))
    (hresult : result.Deliverable layout) {run : StreamRun} {needsMoreFetch : Bool} {count : Nat}
    (more : needsMoreFetch = false → result.batches = [])
    (hrun : Obtains prims result connection needsMoreFetch count run)
    (hstream : run.stream prepared.columns = some stream) (hcollected : stream.intoRows.2.mapM id = .ok rows) :
    rows = (result.readTable prims result.batches.length).map (tableRow result.names) := by
  have hall : ¬ (needsMoreFetch = true ∧ count ≤ result.batches.length) := fun hwaits => by
    rw [StreamRun.stream, hrun.ending, if_pos hwaits] at hstream
    cases hstream
  rw [StreamRun.stream, hrun.ending, if_neg hall] at hstream
  have htake : result.batches.take count = result.batches.take result.batches.length := by
    cases hmore : needsMoreFetch with
    | false => rw [more hmore, List.take_nil, List.take_nil]
    | true => rw [List.take_of_length_le (not_le.mp fun hle => hall ⟨hmore, hle⟩).le, List.take_length]
  have hchunks : run.chunks = result.received prims result.batches.length := by
    rw [hrun.chunks, ServedResult.received, htake, ServedResult.received]
  cases hstream
  rw [(shows_chunks prepared.columns run.chunks).rows, hchunks, received_rows, mapM_id_ok, hcolumns,
    columnNames_prepared hresult] at hcollected
  cases hcollected
  rfl

/-- The rows of a query, appended with its columns, are read by the server that they are appended at as the
rows of the result. -/
theorem rows_copied (ready : connection.closed = false)
    (hversion : connection.quackVersion = quackV1 ∨ connection.quackVersion = quackV3)
    (hid : HeldText connection.connectionId) (hsql : HeldText sql)
    (hfloat : ∀ bits, prims.f64ToF32 (prims.f32ToF64 bits) = bits) (hresult : result.Deliverable layout)
    (hnames : result.names.Nodup)
    (htyped : result.Typed)
    (hprepared : Served layout prims canonicalReason connection.quackVersion result.Prepares
      (connection.prepareRequest sql) reply)
    (hok : (prepareQuery layout prims connection sql reply).result = .ok prepared)
    (hserved : FetchesServed layout prims canonicalReason result connection.quackVersion 0
      (queryStream layout prims prepared answers).requests answers)
    (hstream : (queryStream layout prims prepared answers).stream prepared.columns = some stream)
    (hcollected : stream.intoRows.2.mapM id = .ok rows) (hrows : rows ≠ []) (hone : layout.Fits .dataChunk 1)
    (hids : ∀ k, HeldText (turns k).connection.connectionId) (htable : HeldText tableName)
    (hschema : ∀ text ∈ schemaName, HeldText text)
    (hfits : ∀ batch ∈ batches rows batchSize, layout.Fits .value batch.length)
    (happended : (appendRows layout prims tableName schemaName (some prepared.columns) rows batchSize
      turns).result = .ok ())
    (hheld : ∀ message ∈ (appendRows layout prims tableName schemaName (some prepared.columns) rows batchSize
      turns).sent, ∀ bytes, encodeMessageForVersion layout prims message quackV1 = .ok bytes → Held bytes) :
    ∃ received, List.Forall₂ (Receives layout prims tableName schemaName)
        (appendRows layout prims tableName schemaName (some prepared.columns) rows batchSize turns).sent
        received ∧
      received.flatMap chunkRows = result.readTable prims result.batches.length ∧
      SameRowsOf (received.flatMap chunkRows) (result.table result.batches.length) := by
  obtain ⟨other, hother, hcolumns, more, hobtains⟩ :=
    query_obtains ready hversion hid hsql hfloat hresult hprepared
  cases hok.symm.trans hother
  have hread := collected_rows hcolumns hresult more (hobtains answers hserved) hstream hcollected
  have hcolumnNames : prepared.columns.map ColumnDefinition.name = result.names := by
    rw [hcolumns, columnNames_prepared hresult]
  have hkept : ∀ values ∈ result.readTable prims result.batches.length, KeptRow prims prepared.columns values :=
    fun values hvalues => hcolumns ▸ keptRow_read hfloat hresult htyped hvalues
  rw [← hcolumnNames] at hnames hread
  -- there is a chunk, since there is a row
  obtain ⟨chunk, hchunk⟩ : ∃ chunk, chunk ∈ result.inline ++ result.batches.flatten := by
    obtain ⟨row, hrow⟩ := List.exists_mem_of_ne_nil rows hrows
    rw [hread] at hrow
    obtain ⟨values, hvalues, -⟩ := List.mem_map.mp hrow
    rw [ServedResult.readTable, List.take_length, List.mem_flatMap] at hvalues
    obtain ⟨chunk, hchunk, -⟩ := hvalues
    exact ⟨chunk, hchunk⟩
  obtain ⟨htypes, typesFit, columnsFit⟩ := columns_inMemory (hresult.plain chunk hchunk).inMemory
    (htyped chunk hchunk) hresult.named hcolumns
  obtain ⟨heach, hflatten⟩ := appendRows_each hrows happended
  rw [heach] at happended hheld ⊢
  have hstores : ∀ batch ∈ batches rows batchSize, ∀ definitions,
      columnDefinitions batch (some prepared.columns) = .ok definitions → ∀ inner,
        encodeDataChunk layout prims (rowsChunk definitions batch) = .ok inner → inner.length ≤ isizeMax →
          (rowsChunk definitions batch).Stores layout prims := by
    intro batch hbatch definitions hdefinitions _ _ _
    cases hdefinitions
    refine stores_kept hnames htypes typesFit columnsFit (hfits batch hbatch) hkept ?_
    rw [← hread, ← hflatten]
    exact fun row hrow => List.mem_flatten_of_mem hbatch hrow
  obtain ⟨received, hreceived, hbatches⟩ := each_received hone hids htable hschema hstores happended hheld
  have hequal : received.flatMap chunkRows = result.readTable prims result.batches.length := by
    rw [flatMap_received hbatches, hflatten, hread, List.map_map]
    conv_rhs => rw [← List.map_id (result.readTable prims result.batches.length)]
    exact List.map_congr_left fun values hvalues => storedCells_kept hnames (hkept values hvalues)
  exact ⟨received, hreceived, hequal, hequal ▸ readTable_same hfloat hresult _⟩

end

theorem chunks_whole {α : Type} {rows : List α} (h : rows ≠ []) : chunks rows.length rows = [rows] := by
  cases rows with
  | nil => exact absurd rfl h
  | cons row rows =>
      have hsize : (row :: rows).length - 1 = rows.length := rfl
      rw [chunks, hsize, List.take_length, List.drop_length, chunks]

/-- Without a batch size the rows go in one batch. -/
theorem appendRows_whole {layout : Layout} {prims : Primitives} {tableName : String} {schemaName : Option String}
    {columns : Option (List ColumnDefinition)} {rows : List Row} {turns : Nat → Turn} (hrows : rows ≠ []) :
    appendRows layout prims tableName schemaName columns rows none turns =
      appendBatch layout prims tableName schemaName columns (turns 0) rows := by
  rw [appendRows, if_neg (by simpa using hrows)]
  simp only [Option.getD_none]
  rw [if_neg (List.length_pos_iff.mpr hrows).ne', chunks_whole hrows]
  exact Call.bind_pure _

/-- A batch of rows of the query is accepted. -/
theorem sendable_booleans {batch : List Row}
    (hbatch : batch ⊆ (booleanResult.readTable .floatless 1).map (tableRow ["a"])) (hlength : batch.length ≤ 2) :
    Sendable .words .floatless (some [booleanColumn]) batch := by
  have hkept : ∀ values ∈ booleanResult.readTable .floatless 1, KeptRow .floatless [booleanColumn] values :=
    fun values hvalues => booleanColumns_eq ▸ keptRow_read Primitives.floatless_back booleanResult_deliverable
      booleanResult_typed hvalues
  have hnames : ([booleanColumn].map ColumnDefinition.name).Nodup := List.nodup_singleton _
  have hfits : Layout.words.Fits .value batch.length := by
    refine ⟨lt_of_le_of_lt hlength (by decide), ?_⟩
    simp only [Layout.words, isizeMax]
    omega
  obtain ⟨htypes, typesFit, columnsFit⟩ := columns_inMemory booleanChunk_inMemory rfl rfl booleanColumns_eq.symm
  have hstores := stores_kept hnames htypes typesFit columnsFit hfits hkept hbatch
  refine ⟨_, dataChunkFromRows_ok_iff.mpr
    ⟨_, rfl, List.cons_ne_nil _ _, fun row hrow column hcolumn => ?_, rfl⟩, ?_⟩
  · obtain rfl := List.mem_singleton.mp hcolumn
    obtain ⟨values, hvalues, rfl⟩ := List.mem_map.mp (hbatch hrow)
    obtain ⟨value, rfl⟩ : ∃ value, values = [value] :=
      List.length_eq_one_iff.mp (hkept values hvalues).length_eq.symm
    have hvalue : Kept .floatless booleanColumn.logicalType value := by
      cases hkept _ hvalues with
      | cons h _ => exact h
    refine ⟨value, ?_⟩
    rw [normalCell, tableRow_distinct (List.nodup_singleton _) rfl]
    exact hvalue.normal
  · have hvectors : ∀ part ∈ (rowsChunk [booleanColumn] batch).parts, FitsMemory .words part.1 part.2 := by
      intro part hpart
      rw [parts_rowsChunk] at hpart
      obtain rfl := List.mem_singleton.mp hpart
      exact fitsMemory_fixed (T := booleanColumn.logicalType) rfl rfl (by rwa [List.length_map])
    obtain ⟨bytes, hbytes, -⟩ := roundTrips_dataChunk hstores.inMemory hvectors hstores.storable
    exact ⟨bytes, hbytes⟩

/-- The rows of the query are appended in one request, and it is short. -/
theorem appended_booleans {rows : List Row}
    (hrows : rows = (booleanResult.readTable .floatless 1).map (tableRow ["a"])) :
    (appendRows .words .floatless "t" none (some [booleanColumn]) rows none fun _ => readyTurn).result = .ok () ∧
      ∀ message ∈ (appendRows .words .floatless "t" none (some [booleanColumn]) rows none fun _ => readyTurn).sent,
        ∀ bytes, encodeMessageForVersion .words .floatless message quackV1 = .ok bytes → Held bytes := by
  have hlength : rows.length = 2 := by
    rw [hrows, List.length_map]
    rfl
  have hempty : rows ≠ [] := List.ne_nil_of_length_pos (by omega)
  have hsub : rows ⊆ (booleanResult.readTable .floatless 1).map (tableRow ["a"]) := hrows ▸ List.Subset.refl _
  have hok : (appendBatch .words .floatless "t" none (some [booleanColumn]) readyTurn rows).result = .ok () :=
    appendBatch_ok_iff.mpr ⟨readyTurn_accepting, sendable_booleans hsub hlength.le⟩
  obtain ⟨chunk, hchunk, hsent⟩ := sent_appendBatch_ok hok
  obtain ⟨definitions, hdefinitions, -, -, rfl⟩ := dataChunkFromRows_ok_iff.mp hchunk
  cases hdefinitions
  rw [appendRows_whole hempty]
  refine ⟨hok, fun message hmem bytes hbytes => ?_⟩
  rw [hsent, List.mem_singleton] at hmem
  rw [hmem] at hbytes
  exact held_of_atMost (atMost_shortRequest (atMost_scalarChunk rfl rfl (by decide) hlength.le)) hbytes

/-- The rows of the query, in one request. -/
theorem rows_copied_booleans : ∃ prepared stream rows received,
    (queryStream .words .floatless prepared [booleanAnswer, lastAnswer]).stream prepared.columns = some stream ∧
      stream.intoRows.2.mapM id = .ok rows ∧
      List.Forall₂ (Receives .words .floatless "t" none)
        (appendRows .words .floatless "t" none (some prepared.columns) rows none fun _ => readyTurn).sent
        received ∧
      received.flatMap chunkRows = booleanResult.readTable .floatless 1 := by
  have hid : HeldText liveConnection.connectionId := heldText_short (by decide)
  have hsql : HeldText "SELECT" := heldText_short (by decide)
  obtain ⟨prepared, hok, hcolumns, -, hobtains⟩ := query_obtains rfl (.inr rfl) hid hsql Primitives.floatless_back
    booleanResult_deliverable prepare_booleans
  have hprepared := hok
  obtain ⟨needsMoreFetch, -, hserved⟩ := prepared_served rfl (.inr rfl) hid hsql Primitives.floatless_back
    booleanResult_deliverable prepare_booleans
  have hreached : prepared.state.Reached fetchingConnection ⟨0, 0⟩ 0 := by
    cases hprepared.symm.trans hserved
    exact (prepareQuery_reached (.inr rfl) hok).1
  have hfetches := @fetchesServed_booleans prepared [booleanAnswer, lastAnswer] hreached
  have hrun := hobtains [booleanAnswer, lastAnswer] hfetches
  have hending : (queryStream .words .floatless prepared [booleanAnswer, lastAnswer]).ending = some (.ok ()) := by
    rw [hrun.ending]
    exact if_neg fun h => absurd h.2 (by decide)
  have hstream : (queryStream .words .floatless prepared [booleanAnswer, lastAnswer]).stream prepared.columns =
      some ⟨prepared.columns,
        (queryStream .words .floatless prepared [booleanAnswer, lastAnswer]).chunks.map .ok⟩ := by
    rw [StreamRun.stream, hending]
  have hcollected := (shows_chunks prepared.columns
    (queryStream .words .floatless prepared [booleanAnswer, lastAnswer]).chunks).rows
  have hnames : prepared.columns.map ColumnDefinition.name = ["a"] := by
    rw [hcolumns, booleanColumns_eq]
    rfl
  have htable : (queryStream .words .floatless prepared [booleanAnswer, lastAnswer]).chunks.flatMap chunkRows =
      booleanResult.readTable .floatless 1 := by
    rw [hrun.chunks]
    exact received_rows _
  rw [htable, hnames] at hcollected
  have hrows : (QuackResultStream.mk prepared.columns ((queryStream .words .floatless prepared
      [booleanAnswer, lastAnswer]).chunks.map .ok)).intoRows.2.mapM id =
      .ok ((booleanResult.readTable .floatless 1).map (tableRow ["a"])) := by
    rw [hcollected]
    exact mapM_id_ok _
  have hempty : (booleanResult.readTable .floatless 1).map (tableRow ["a"]) ≠ [] := by
    rw [Ne, List.map_eq_nil_iff]
    exact fun h => by cases h
  obtain ⟨happended, hheld⟩ := appended_booleans rfl
  rw [← booleanColumns_eq, ← hcolumns] at happended hheld
  have hfits : ∀ batch ∈ batches ((booleanResult.readTable .floatless 1).map (tableRow ["a"])) none,
      Layout.words.Fits .value batch.length := by
    intro batch hmem
    rw [batches, Option.getD_none, if_neg (List.length_pos_iff.mpr hempty).ne', chunks_whole hempty] at hmem
    rw [List.mem_singleton.mp hmem, List.length_map]
    exact ⟨by decide, by decide⟩
  obtain ⟨received, hreceived, hequal, -⟩ := rows_copied rfl (.inr rfl) hid hsql Primitives.floatless_back
    booleanResult_deliverable (List.nodup_singleton _) booleanResult_typed prepare_booleans hok hfetches hstream
    hrows hempty ⟨by decide, by decide⟩ (fun _ => heldText_short (by decide)) (heldText_short (by decide))
    (fun text htext => by cases htext) hfits happended hheld
  exact ⟨prepared, _, _, received, hstream, hrows, hreceived, hequal⟩

end QuackProtocol
