import QuackProtocol.AppendedRows
import QuackProtocol.Delivery
import QuackProtocol.UnreadableValues

/-! Appended rows from one end of the wire to the other: the server reads the batches in order, and each
value as the column that it is appended to stores it. -/

open Decoding Sending

namespace QuackProtocol

/-- A batch whose chunk can be read back: its types and its rows exist in memory, and no value is written in
a way that cannot be read. -/
structure Readable (layout : Layout) (definitions : List ColumnDefinition) (batch : List Row) : Prop where
  types : ∀ definition ∈ definitions, definition.logicalType.Writable layout ∧
    definition.logicalType.Everywhere LogicalType.Distinct
  typesFit : layout.Fits .logicalType definitions.length
  columnsFit : layout.Fits .decodedVector definitions.length
  rowsFit : layout.Fits .value batch.length
  values : ∀ definition ∈ definitions, ∀ row ∈ batch,
    ¬ Unreadable definition.logicalType (cellValue definition row)

/-- The cells of a row as the columns give them back. -/
def storedCells (prims : Primitives) (definitions : List ColumnDefinition) (row : Row) : List Value :=
  definitions.map fun definition => stored prims definition.logicalType (cellValue definition row)

section
variable {layout : Layout} {prims : Primitives} {definitions : List ColumnDefinition} {batch : List Row}
  {bytes : Bytes}

theorem parts_rowsChunk : (rowsChunk definitions batch).parts =
    definitions.map fun definition => (definition.logicalType, batch.map (cellValue definition)) := by
  rw [DataChunk.parts, rowsChunk, List.map_map, List.zip_map', Function.comp_def]

theorem column_within {definition : ColumnDefinition} (h : definition ∈ definitions) :
    Encode.Within (encodeVector layout prims definition.logicalType (batch.map (cellValue definition))
      (batch.map (cellValue definition)).length) (encodeDataChunk layout prims (rowsChunk definitions batch))
      0 := by
  have hfield : Encode.Within (encodeVector layout prims definition.logicalType
      (batch.map (cellValue definition)) (batch.map (cellValue definition)).length)
      (writeField 102 (writeList (definitions.map fun definition =>
        encodeVector layout prims definition.logicalType (batch.map (cellValue definition))
          (batch.map (cellValue definition)).length))) 0 :=
    .field (.list (.refl _) (List.mem_map.mpr ⟨definition, h, rfl⟩)) 102
  rw [encodeDataChunk_rowsChunk]
  exact (hfield.object (by simp)).fewer (Nat.zero_le _)

/-- The chunk of a batch of values that the columns store. -/
theorem stores_of_storable (htypes : ∀ definition ∈ definitions, Encodable definition.logicalType ∧
      definition.logicalType.Writable layout) (typesFit : layout.Fits .logicalType definitions.length)
    (columnsFit : layout.Fits .decodedVector definitions.length) (rowsFit : layout.Fits .value batch.length)
    (hvalues : ∀ definition ∈ definitions, ∀ row ∈ batch,
      Storable prims definition.logicalType (cellValue definition row)) :
    (rowsChunk definitions batch).Stores layout prims := by
  refine ⟨⟨?_, rowsFit.count_lt, ?_, ?_, ?_, ?_, ?_⟩, ?_⟩
  · rw [rowsChunk, List.length_map, List.length_map]
  · rw [rowsChunk, List.length_map]
    exact typesFit
  · rw [rowsChunk, List.length_map]
    exact columnsFit
  · exact List.forall_mem_map.mpr htypes
  · exact List.forall_mem_map.mpr fun definition _ => List.length_map _
  · refine List.forall_mem_map.mpr fun definition _ => ?_
    rw [List.length_map]
    exact rowsFit
  · rw [parts_rowsChunk]
    exact List.forall_mem_map.mpr fun definition hmem => List.forall_mem_map.mpr fun row hrow =>
      hvalues definition hmem row hrow

/-- The chunk of a readable batch, once it is written. -/
theorem stores_rowsChunk (h : Readable layout definitions batch)
    (hok : encodeDataChunk layout prims (rowsChunk definitions batch) = .ok bytes)
    (hbytes : bytes.length ≤ isizeMax) : (rowsChunk definitions batch).Stores layout prims := by
  have hencoded (definition : ColumnDefinition) (hmem : definition ∈ definitions) :
      Encoded prims definition.logicalType (batch.map (cellValue definition)) := by
    obtain ⟨inner, hinner, hle⟩ := @column_within layout prims _ batch _ hmem bytes hok
    exact encoded_vector (h.types definition hmem).2 hinner (by omega)
  exact stores_of_storable
    (fun definition hmem => ⟨(hencoded definition hmem).encodable, (h.types definition hmem).1⟩)
    h.typesFit h.columnsFit h.rowsFit fun definition hmem row hrow =>
      ((hencoded definition hmem).valued _ (List.mem_map_of_mem hrow)).resolve_right
        (h.values definition hmem row hrow)

/-- The rows of the chunk that is read back. -/
theorem chunkRows_stored : chunkRows (storedChunk prims (rowsChunk definitions batch)) =
    batch.map (storedCells prims definitions) := by
  apply List.ext_getElem (by simp [chunkRows, storedChunk, rowsChunk])
  intro i hi hi'
  have hrow : i < batch.length := by simpa using hi'
  simp only [chunkRows, List.getElem_map, List.getElem_range, storedChunk, parts_rowsChunk, List.map_map]
  apply List.map_congr_left
  intro definition _
  simp [List.getElem?_eq_getElem hrow]

end

/-! ### The requests of a call -/

/-- The server reads a request as an append to the table, of this chunk. -/
def Receives (layout : Layout) (prims : Primitives) (tableName : String) (schemaName : Option String)
    (message : QuackMessage) (chunk : DataChunk) : Prop :=
  ∃ bytes header, encodeMessageForVersion layout prims message quackV1 = .ok bytes ∧
    decodeMessageForVersion layout bytes quackV1 =
      .ok (.appendRequest header (nonEmptyText schemaName) tableName chunk)

/-- The columns of a batch, and its rows as they are read. -/
def BatchReceived (prims : Primitives) (columns : Option (List ColumnDefinition)) (batch : List Row)
    (chunk : DataChunk) : Prop :=
  ∃ definitions, columnDefinitions batch columns = .ok definitions ∧
    chunk.types = definitions.map (fun definition => definition.logicalType.asRead) ∧
    chunkRows chunk = batch.map (storedCells prims definitions)

section
variable {layout : Layout} {prims : Primitives} {tableName : String} {schemaName : Option String}
  {columns : Option (List ColumnDefinition)} {definitions : List ColumnDefinition} {batch rows : List Row}
  {turns : Nat → Turn}

/-- The request for a batch that can be stored is read as the batch. -/
theorem receives_appendRequest {connection : Connection} {bytes : Bytes}
    (hone : layout.Fits .dataChunk 1) (hid : HeldText connection.connectionId) (htable : HeldText tableName)
    (hschema : ∀ text ∈ schemaName, HeldText text) (h : (rowsChunk definitions batch).Stores layout prims)
    (hok : encodeMessageForVersion layout prims
      (connection.appendRequest tableName schemaName (rowsChunk definitions batch)) quackV1 = .ok bytes)
    (hheld : Held bytes) :
    Receives layout prims tableName schemaName
      (connection.appendRequest tableName schemaName (rowsChunk definitions batch))
      (storedChunk prims (rowsChunk definitions batch)) := by
  have hmemory : (connection.appendRequest tableName schemaName (rowsChunk definitions batch)).InMemory
      layout := by
    refine ⟨fun text htext => ?_, fun T hT => (by cases hT), fits_none _ _, fits_none _ _, hone⟩
    rcases List.mem_append.mp htext with hheader | hbody
    · exact scopedHeader_texts hid .sendDataRequest text hheader
    · rcases List.mem_append.mp hbody with hname | hname
      · exact hschema text (Option.mem_toList.mp hname)
      · rw [List.mem_singleton.mp hname]
        exact htable
  have hstores : ∀ chunk ∈ (connection.appendRequest tableName schemaName
      (rowsChunk definitions batch)).chunks, chunk.Stores layout prims := fun chunk hmem => by
    obtain rfl := List.mem_singleton.mp hmem
    exact h
  exact ⟨bytes, _, hok, decodeMessage_stored (.inl rfl) hmemory rfl trivial hstores hok hheld⟩

/-- A run over batches that succeeds sends a request for each of them, which the server reads. -/
theorem each_received {start : Nat} {batches : List (List Row)} (hone : layout.Fits .dataChunk 1)
    (hid : ∀ k, HeldText (turns k).connection.connectionId) (htable : HeldText tableName)
    (hschema : ∀ text ∈ schemaName, HeldText text)
    (hstores : ∀ batch ∈ batches, ∀ definitions, columnDefinitions batch columns = .ok definitions →
      ∀ inner, encodeDataChunk layout prims (rowsChunk definitions batch) = .ok inner →
        inner.length ≤ isizeMax → (rowsChunk definitions batch).Stores layout prims)
    (hok : (Call.each (fun index => appendBatch layout prims tableName schemaName columns (turns index)) start
      batches).result = .ok ())
    (hheld : ∀ message ∈ (Call.each (fun index => appendBatch layout prims tableName schemaName columns
      (turns index)) start batches).sent, ∀ bytes,
        encodeMessageForVersion layout prims message quackV1 = .ok bytes → Held bytes) :
    ∃ received, List.Forall₂ (Receives layout prims tableName schemaName)
        (Call.each (fun index => appendBatch layout prims tableName schemaName columns (turns index)) start
          batches).sent received ∧
      List.Forall₂ (BatchReceived prims columns) batches received := by
  induction batches generalizing start with
  | nil => exact ⟨[], .nil, .nil⟩
  | cons batch batches ih =>
      rw [Call.each, Call.result_bind_ok] at hok
      obtain ⟨⟨⟩, hfirst, hrest⟩ := hok
      obtain ⟨hbatch, hbatches⟩ := List.forall_mem_cons.mp hstores
      obtain ⟨chunk, hchunk, hsent⟩ := sent_appendBatch_ok hfirst
      obtain ⟨-, other, hother, hwrites⟩ := appendBatch_ok_iff.mp hfirst
      cases hchunk.symm.trans hother
      obtain ⟨definitions, hdefinitions, -, -, rfl⟩ := dataChunkFromRows_ok_iff.mp hchunk
      obtain ⟨bytes, hbytes⟩ := (@writes_appendRequest (rowsChunk definitions batch) layout prims
        (turns start).connection tableName schemaName).mpr hwrites
      rw [Call.each, Call.bind_ok _ hfirst, hsent] at hheld ⊢
      obtain ⟨received, hreceived, hrows⟩ := ih hbatches hrest fun message hmem =>
        hheld message (List.mem_append_right _ hmem)
      have hlen : Held bytes := hheld _ (List.mem_append_left _ (List.mem_singleton_self _)) bytes hbytes
      obtain ⟨inner, hinner, hle⟩ := chunk_within (List.mem_singleton_self _) quackV1 bytes hbytes
      have hreads := receives_appendRequest hone (hid start) htable hschema
        (hbatch definitions hdefinitions inner hinner (le_trans (by omega) hlen)) hbytes hlen
      refine ⟨_ :: received, .cons hreads hreceived,
        .cons ⟨definitions, hdefinitions, ?_, chunkRows_stored⟩ hrows⟩
      rw [storedChunk, rowsChunk, List.map_map]
      rfl

theorem appendRows_each {batchSize : Option Nat} (hrows : rows ≠ [])
    (hok : (appendRows layout prims tableName schemaName columns rows batchSize turns).result = .ok ()) :
    appendRows layout prims tableName schemaName columns rows batchSize turns =
        Call.each (fun index => appendBatch layout prims tableName schemaName columns (turns index)) 0
          (batches rows batchSize) ∧
      (batches rows batchSize).flatten = rows := by
  unfold appendRows at hok ⊢
  rw [if_neg (by simpa using hrows)] at hok ⊢
  simp only [batches] at hok ⊢
  split
  · rename_i hzero
    rw [if_pos hzero] at hok
    cases hok
  · exact ⟨rfl, flatten_chunks _ _⟩

/-- The rows of batches with the same columns, one batch after the other. -/
theorem flatMap_received {batches : List (List Row)} {received : List DataChunk}
    (h : List.Forall₂ (BatchReceived prims (some definitions)) batches received) :
    received.flatMap chunkRows = batches.flatten.map (storedCells prims definitions) := by
  induction h with
  | nil => rfl
  | cons hfirst _ ih =>
      obtain ⟨others, hothers, -, hrows⟩ := hfirst
      cases hothers
      rw [List.flatMap_cons, ih, hrows, List.flatten_cons, List.map_append]

/-- A call that succeeds has sent one request for each batch of the rows, in order, and the server reads
each of them as the rows of its batch, every value as its column stores it. -/
theorem appendRows_delivered {batchSize : Option Nat} (hrows : rows ≠ []) (hone : layout.Fits .dataChunk 1)
    (hid : ∀ k, HeldText (turns k).connection.connectionId) (htable : HeldText tableName)
    (hschema : ∀ text ∈ schemaName, HeldText text)
    (hreadable : ∀ batch ∈ batches rows batchSize, ∀ definitions,
      columnDefinitions batch columns = .ok definitions → Readable layout definitions batch)
    (hok : (appendRows layout prims tableName schemaName columns rows batchSize turns).result = .ok ())
    (hheld : ∀ message ∈ (appendRows layout prims tableName schemaName columns rows batchSize turns).sent,
      ∀ bytes, encodeMessageForVersion layout prims message quackV1 = .ok bytes → Held bytes) :
    ∃ received, List.Forall₂ (Receives layout prims tableName schemaName)
        (appendRows layout prims tableName schemaName columns rows batchSize turns).sent received ∧
      List.Forall₂ (BatchReceived prims columns) (batches rows batchSize) received ∧
      ∀ definitions, columns = some definitions →
        received.flatMap chunkRows = rows.map (storedCells prims definitions) := by
  obtain ⟨heach, hflatten⟩ := appendRows_each hrows hok
  rw [heach] at hok hheld ⊢
  have hstores : ∀ batch ∈ batches rows batchSize, ∀ definitions,
      columnDefinitions batch columns = .ok definitions → ∀ inner,
        encodeDataChunk layout prims (rowsChunk definitions batch) = .ok inner → inner.length ≤ isizeMax →
          (rowsChunk definitions batch).Stores layout prims :=
    fun batch hmem definitions hdefinitions inner hinner => stores_rowsChunk
      (hreadable batch hmem definitions hdefinitions) hinner
  obtain ⟨received, hreceived, hbatches⟩ := each_received hone hid htable hschema hstores hok hheld
  refine ⟨received, hreceived, hbatches, fun definitions hcolumns => ?_⟩
  subst hcolumns
  rw [flatMap_received hbatches, hflatten]

end

theorem numberColumn_distinct : numberColumn.logicalType.Everywhere LogicalType.Distinct :=
  .intro ⟨fun children hchildren => (by cases hchildren), fun h => (by cases h)⟩
    fun child hchild => (by cases hchild)

theorem numberColumn_writable : numberColumn.logicalType.Writable .words :=
  .intro ⟨fun _ hinfo => (by cases hinfo), fun _ hinfo => (by cases hinfo)⟩
    fun child hchild => (by cases hchild)

/-- A number that a scalar column holds can be read back. -/
theorem not_unreadable_int {T : LogicalType} {i : Int} (hT : T.id = .integer) : ¬ Unreadable T (.int i) := by
  intro h
  have hphysical : getPhysicalType T = .ok .int32 := by rw [getPhysicalType, hT]
  cases h with
  | text physical => cases hphysical.symm.trans physical
  | label bad => exact absurd (hT.symm.trans bad.1) (by decide)
  | field physical => cases hphysical.symm.trans physical

theorem readable_numberRow : Readable .words [numberColumn] [numberRow] where
  types definition hmem := by
    obtain rfl := List.mem_singleton.mp hmem
    exact ⟨numberColumn_writable, numberColumn_distinct⟩
  typesFit := ⟨by decide, by decide⟩
  columnsFit := ⟨by decide, by decide⟩
  rowsFit := ⟨by decide, by decide⟩
  values definition hmem row hrow := by
    rw [List.mem_singleton.mp hmem, List.mem_singleton.mp hrow,
      ← cellValue_of_ok (normalCell_numberColumn (.inl rfl))]
    exact not_unreadable_int (i := 1) rfl

theorem sendable_numberColumn : Sendable .words .floatless (some [numberColumn]) [numberRow] := by
  obtain ⟨chunk, hchunk, hwrites⟩ := sendable_numberRow
  obtain ⟨definitions, hdefinitions, hrows⟩ := dataChunkFromRows_ok_iff.mp hchunk
  cases hdefinitions.symm.trans (columnDefinitions_numberRow [])
  exact ⟨chunk, dataChunkFromRows_ok_iff.mpr ⟨_, rfl, hrows⟩, hwrites⟩

/-- A chunk of one scalar column and few rows is short. -/
theorem atMost_scalarChunk {id : LogicalTypeId} {name : String} {physicalType : PhysicalType} {batch : List Row}
    (physical : getPhysicalType (LogicalTypes.scalar id) = .ok physicalType)
    (size : isConstantSizePhysicalType physicalType = true) (hid : id ≠ .geometry) (hbatch : batch.length ≤ 2) :
    (encodeDataChunk .words .floatless (rowsChunk [⟨name, LogicalTypes.scalar id⟩] batch)).AtMost 192 := by
  have hcount : (writeField 100 (writeUleb batch.length)).AtMost (2 + 9) :=
    .field (.uleb (lt_of_le_of_lt hbatch (by decide))) 100
  have hcode : id.code < 2 ^ 63 := by cases id <;> decide
  have htype : (encodeLogicalType (LogicalTypes.scalar id)).AtMost (2 + 9 + (0 + 0) + 2) := by
    rw [LogicalTypes.scalar, encodeLogicalType]
    exact ((Encode.AtMost.field (.uleb hcode) 100).append ((Encode.AtMost.ok le_rfl).append .nothing)).object
  have htypes : (writeField 101 (writeList [encodeLogicalType (LogicalTypes.scalar id)])).AtMost
      (2 + (9 + (13 + 0))) :=
    .field ((Encode.AtMost.uleb (by rw [List.length_singleton]; decide)).append (htype.append .nothing)) 101
  have hlength : (batch.map (cellValue ⟨name, LogicalTypes.scalar id⟩)).length ≤ 2 := by rwa [List.length_map]
  have hcolumn : (encodeVector .words .floatless (LogicalTypes.scalar id)
      (batch.map (cellValue ⟨name, LogicalTypes.scalar id⟩))
      (batch.map (cellValue ⟨name, LogicalTypes.scalar id⟩)).length).AtMost (17 * 2 + 64) :=
    (@atMost_fixedVector .words .floatless _ (batch.map (cellValue ⟨name, LogicalTypes.scalar id⟩)) _ physical
      size hid (lt_of_le_of_lt hlength (by decide))).mono (by omega)
  have hdata : (writeField 102 (writeList [encodeVector .words .floatless (LogicalTypes.scalar id)
      (batch.map (cellValue ⟨name, LogicalTypes.scalar id⟩))
      (batch.map (cellValue ⟨name, LogicalTypes.scalar id⟩)).length])).AtMost (2 + (9 + (17 * 2 + 64 + 0))) :=
    .field ((Encode.AtMost.uleb (by rw [List.length_singleton]; decide)).append (hcolumn.append .nothing)) 102
  rw [encodeDataChunk_rowsChunk]
  exact (hcount.append (htypes.append (hdata.append .nothing))).object.mono (by decide)

theorem atMost_shortRequest {chunk : DataChunk} (h : (encodeDataChunk .words .floatless chunk).AtMost 192) :
    (encodeMessageForVersion .words .floatless (readyTurn.connection.appendRequest "t" none chunk)
      quackV1).AtMost 512 := by
  have htable : (writeOptionalString 2 (some "t")).AtMost (2 + (9 + 1)) :=
    Encode.AtMost.field (.stringBytes (by decide) (heldText_short (by decide))) 2
  have hwrapper : (writeNullable (some (encodeDataChunkWrapper .words .floatless chunk))).AtMost
      (1 + (2 + 192 + 0 + 2)) :=
    (Encode.AtMost.ok le_rfl).append ((Encode.AtMost.field h 300).append .nothing).object
  have hbody : (encodeBodyV1 .words .floatless (readyTurn.connection.appendRequest "t" none chunk)).AtMost
      (0 + (2 + (9 + 1) + (2 + (1 + (2 + 192 + 0 + 2)) + 0)) + 2) :=
    ((Encode.AtMost.ok le_rfl).append (htable.append ((Encode.AtMost.field hwrapper 3).append .nothing))).object
  rw [encodeMessageForVersion, if_pos rfl]
  exact ((atMost_liveHeader .sendDataRequest (by decide)).append hbody).mono (by decide)

theorem storedCells_numberRow : storedCells .floatless [numberColumn] numberRow = [.int 1] := by
  have hphysical : getPhysicalType numberColumn.logicalType = .ok .int32 := rfl
  have hstored : stored .floatless numberColumn.logicalType (.int 1) = .int 1 :=
    stored_fixed hphysical rfl (fun h => by cases h) rfl
  rw [storedCells, List.map_singleton, ← cellValue_of_ok (normalCell_numberColumn (.inl rfl))]
  exact congrArg (fun value => [value]) hstored

/-- Two numbers in two requests. -/
theorem appendRows_delivered_numbers : ∃ received,
    List.Forall₂ (Receives .words .floatless "t" none)
      (appendRows .words .floatless "t" none (some [numberColumn]) [numberRow, numberRow] (some 1)
        fun _ => readyTurn).sent received ∧
      received.flatMap chunkRows = [[.int 1], [.int 1]] := by
  have hchunks : chunks 1 [numberRow, numberRow] = [[numberRow], [numberRow]] := by simp [chunks]
  have hturn : (appendBatch .words .floatless "t" none (some [numberColumn]) readyTurn [numberRow]).result =
      .ok () :=
    appendBatch_ok_iff.mpr ⟨readyTurn_accepting, sendable_numberColumn⟩
  have hsent : (appendBatch .words .floatless "t" none (some [numberColumn]) readyTurn [numberRow]).sent =
      [readyTurn.connection.appendRequest "t" none (rowsChunk [numberColumn] [numberRow])] := by
    obtain ⟨chunk, hchunk, hsent⟩ := sent_appendBatch_ok hturn
    obtain ⟨definitions, hdefinitions, -, -, rfl⟩ := dataChunkFromRows_ok_iff.mp hchunk
    cases hdefinitions
    exact hsent
  have heach : appendRows .words .floatless "t" none (some [numberColumn]) [numberRow, numberRow] (some 1)
      (fun _ => readyTurn) =
      ⟨[readyTurn.connection.appendRequest "t" none (rowsChunk [numberColumn] [numberRow]),
        readyTurn.connection.appendRequest "t" none (rowsChunk [numberColumn] [numberRow])], .ok ()⟩ := by
    rw [appendRows_batches (List.cons_ne_nil _ _) one_ne_zero, hchunks, Call.each, Call.bind_ok _ hturn, Call.each,
      Call.bind_ok _ hturn, hsent]
    rfl
  have hone (element : Element) : Layout.words.Fits element 1 := by
    cases element <;> exact ⟨by decide, by decide⟩
  have hreadable : ∀ batch ∈ batches [numberRow, numberRow] (some 1), ∀ definitions,
      columnDefinitions batch (some [numberColumn]) = .ok definitions → Readable .words definitions batch := by
    intro batch hmem definitions hdefinitions
    cases hdefinitions
    rw [batches, Option.getD_some, if_neg one_ne_zero, hchunks] at hmem
    obtain rfl : batch = [numberRow] := by simpa using hmem
    exact readable_numberRow
  have hheld : ∀ message ∈ (appendRows .words .floatless "t" none (some [numberColumn]) [numberRow, numberRow]
      (some 1) fun _ => readyTurn).sent, ∀ bytes,
        encodeMessageForVersion .words .floatless message quackV1 = .ok bytes → Held bytes := by
    intro message hmem bytes hbytes
    rw [heach] at hmem
    obtain rfl : message = readyTurn.connection.appendRequest "t" none (rowsChunk [numberColumn] [numberRow]) := by
      simpa using hmem
    exact held_of_atMost (atMost_shortRequest (atMost_scalarChunk rfl rfl (by decide) (by decide))) hbytes
  obtain ⟨received, hreceived, -, hrows⟩ := appendRows_delivered (List.cons_ne_nil _ _) (hone _)
    (fun _ => heldText_short (by decide)) (heldText_short (by decide)) (fun text htext => by cases htext)
    hreadable (by rw [heach]) hheld
  refine ⟨received, hreceived, (hrows _ rfl).trans ?_⟩
  rw [List.map_cons, List.map_singleton, storedCells_numberRow]

end QuackProtocol
