import QuackProtocol.Delivery
import QuackProtocol.Rows

/-! What callers make of the stream of a query (`client.rs`): its rows one by one, the first row, the only
row, the first column, or no more than whether the query fails. They see the rows of the result, however it is
cut into batches and chunks, and of a query that fails on the way those that collect its rows see the error. -/

open Decoding Sending

namespace QuackProtocol

namespace QuackResultStream

/-- `execute`, from the stream of its query on. -/
def execute (stream : QuackResultStream) : Result Unit := do
  let _ ← stream.inner.mapM id
  pure ()

/-- `first`, from the stream of its query on. -/
def first (stream : QuackResultStream) : Result (Option Row) := do
  let rows ← stream.intoRows.2.mapM id
  pure rows.head?

/-- The row, where there is one. -/
def onlyRow (rows : List Row) : Result Row :=
  match rows with
  | [row] => .ok row
  | rows => .error (.protocol s!"expected exactly one row, got {rows.length}")

/-- `one`, from the stream of its query on. -/
def one (stream : QuackResultStream) : Result Row := do
  let rows ← stream.intoRows.2.mapM id
  onlyRow rows

end QuackResultStream

/-- What a stream has yielded once it is over. An error is the last thing that it yields. -/
def StreamRun.stream (columns : List ColumnDefinition) (run : StreamRun) : Option QuackResultStream :=
  match run.ending with
  | some (.ok _) => some ⟨columns, run.chunks.map .ok⟩
  | some (.error (.error _ error)) => some ⟨columns, run.chunks.map .ok ++ [.error error]⟩
  | some (.error (.panic _)) => none
  | none => none

/-- A row of values as callers see it, keyed by name. -/
def tableRow (names : List String) (values : List Value) : Row :=
  Row.ofFields (values.zipIdx.map fun entry => (columnName names entry.2, entry.1))

/-- What callers have of a stream whose rows are those of a table. -/
structure Shows (columns : List ColumnDefinition) (table : List (List Value)) (stream : QuackResultStream) :
    Prop where
  rows : stream.intoRows = (columns, (table.map (tableRow (columns.map ColumnDefinition.name))).map .ok)
  execute : stream.execute = .ok ()
  first : stream.first = .ok (table.map (tableRow (columns.map ColumnDefinition.name))).head?
  one : ∀ row, stream.one = .ok row ↔ ∃ values, table = [values] ∧
    row = tableRow (columns.map ColumnDefinition.name) values
  notOne : table.length ≠ 1 →
    stream.one = .error (.protocol s!"expected exactly one row, got {table.length}")
  values : stream.values = .ok (match columns with
    | [] => []
    | first :: _ => table.map fun values =>
      cell (tableRow (columns.map ColumnDefinition.name) values) first.name)

/-- What callers have of a stream that yields the rows of a table and then an error. -/
structure Breaks (columns : List ColumnDefinition) (table : List (List Value)) (error : QuackError)
    (stream : QuackResultStream) : Prop where
  rows : stream.intoRows =
    (columns, (table.map (tableRow (columns.map ColumnDefinition.name))).map .ok ++ [.error error])
  execute : stream.execute = .error error
  first : stream.first = .error error
  one : stream.one = .error error
  values : stream.values = .error error

section
variable {columns : List ColumnDefinition} {names : List String} {chunks : List DataChunk} {chunk : DataChunk}
  {stream : QuackResultStream} {table : List (List Value)} {error : QuackError}

theorem mapM_id_error {α : Type} (items : List α) (rest : List (Result α)) :
    (items.map .ok ++ .error error :: rest : List (Result α)).mapM id = .error error := by
  induction items with
  | nil => rfl
  | cons item items ih =>
      rw [List.map_cons, List.cons_append, List.mapM_cons, ih]
      rfl

theorem rowFields_eq (names : List String) (chunk : DataChunk) (row : Nat) :
    Row.ofFields (rowFields names chunk row) =
      tableRow names (chunk.columns.map fun column => column.values.getD row .null) := by
  rw [tableRow, rowFields]
  congr 1
  apply List.ext_getElem (by rw [List.length_map, List.length_map, List.length_zipIdx, List.length_zipIdx,
    List.length_map])
  intro i hi hi'
  simp

theorem onlyRow_ok {rows : List Row} {row : Row} : QuackResultStream.onlyRow rows = .ok row ↔ rows = [row] := by
  rcases rows with _ | ⟨first, _ | ⟨next, rest⟩⟩ <;> simp [QuackResultStream.onlyRow]

theorem onlyRow_error {rows : List Row} (h : rows.length ≠ 1) : QuackResultStream.onlyRow rows =
    .error (.protocol s!"expected exactly one row, got {rows.length}") := by
  rcases rows with _ | ⟨first, _ | ⟨next, rest⟩⟩
  · rfl
  · exact absurd rfl h
  · rfl

/-- The rows of a stream are those of its chunks. -/
theorem streamRows_eq (names : List String) (chunks : List DataChunk) :
    streamRows names chunks = (chunks.flatMap chunkRows).map (tableRow names) := by
  rw [streamRows, List.map_flatMap]
  refine List.flatMap_congr fun chunk _ => ?_
  rw [chunkRows, List.map_map]
  exact List.map_congr_left fun row _ => rowFields_eq names chunk row

theorem shows_chunks (columns : List ColumnDefinition) (chunks : List DataChunk) :
    Shows columns (chunks.flatMap chunkRows) ⟨columns, chunks.map .ok⟩ := by
  have hrows := intoRows_ok columns chunks
  rw [streamRows_eq] at hrows
  have hone : (QuackResultStream.mk columns (chunks.map .ok)).one = QuackResultStream.onlyRow
      ((chunks.flatMap chunkRows).map (tableRow (columns.map ColumnDefinition.name))) := by
    rw [QuackResultStream.one, hrows]
    simp only [mapM_id_ok]
    rfl
  refine ⟨hrows, ?_, ?_, ?_, ?_, ?_⟩
  · rw [QuackResultStream.execute]
    simp only [mapM_id_ok]
    rfl
  · rw [QuackResultStream.first, hrows]
    simp only [mapM_id_ok]
    rfl
  · intro row
    rw [hone, onlyRow_ok, List.map_eq_singleton_iff]
    exact exists_congr fun values => and_congr_right fun _ => eq_comm
  · intro hlength
    rw [hone, onlyRow_error (by rwa [List.length_map]), List.length_map]
  · cases columns with
    | nil => exact values_nil chunks
    | cons first columns =>
        rw [values_cons, streamRows_eq, List.map_map]
        rfl

theorem breaks_chunks (columns : List ColumnDefinition) (chunks : List DataChunk) (error : QuackError) :
    Breaks columns (chunks.flatMap chunkRows) error ⟨columns, chunks.map .ok ++ [.error error]⟩ := by
  have hrows : (QuackResultStream.mk columns (chunks.map .ok ++ [.error error])).intoRows =
      (columns, ((chunks.flatMap chunkRows).map (tableRow (columns.map ColumnDefinition.name))).map .ok ++
        [.error error]) := by
    have hok := congrArg Prod.snd (intoRows_ok columns chunks)
    rw [streamRows_eq] at hok
    simp only [QuackResultStream.intoRows] at hok ⊢
    rw [List.flatMap_append, hok]
    rfl
  refine ⟨hrows, ?_, ?_, ?_, ?_⟩
  · rw [QuackResultStream.execute]
    simp only [mapM_id_error]
    rfl
  · rw [QuackResultStream.first, hrows]
    simp only [mapM_id_error]
    rfl
  · rw [QuackResultStream.one, hrows]
    simp only [mapM_id_error]
    rfl
  · rw [QuackResultStream.values, hrows]
    simp only [mapM_id_error]
    rfl

/-- Of columns with distinct names a row has all of its values. -/
theorem tableRow_distinct {values : List Value} (hnames : names.Nodup) (hwidth : values.length = names.length) :
    tableRow names values = names.zip values := by
  have hfields : (values.zipIdx.map fun entry => (columnName names entry.2, entry.1)) = names.zip values := by
    apply List.ext_getElem (by simp [hwidth])
    intro i hi hi'
    rw [List.length_zip] at hi'
    have hi : i < names.length := by omega
    simp [columnName, List.getElem?_eq_getElem hi]
  rw [tableRow, hfields, Row.ofFields_of_nodup]
  rwa [List.map_fst_zip hwidth.ge]

/-- With distinct names the rows are those of the table, and `values` is its first column. -/
theorem Shows.distinct (h : Shows columns table stream) (hnames : (columns.map ColumnDefinition.name).Nodup)
    (hwidth : ∀ values ∈ table, values.length = columns.length) :
    stream.intoRows =
        (columns, (table.map fun values => (columns.map ColumnDefinition.name).zip values).map .ok) ∧
      (columns ≠ [] → stream.values = .ok (table.map fun values => values.headD .null)) := by
  have hrow (values : List Value) (hmem : values ∈ table) :=
    tableRow_distinct hnames ((hwidth values hmem).trans (List.length_map _).symm)
  refine ⟨by rw [h.rows, List.map_congr_left hrow], fun hne => ?_⟩
  rw [h.values]
  cases columns with
  | nil => exact absurd rfl hne
  | cons first columns =>
      simp only
      congr 1
      refine List.map_congr_left fun values hmem => ?_
      rw [hrow values hmem]
      cases values with
      | nil => cases hwidth [] hmem
      | cons value values =>
          rw [List.map_cons, List.zip_cons_cons, cell, Row.get, if_pos rfl]
          rfl

end

/-! ### Over the wire -/

/-- The rows of a result up to a batch. -/
def ServedResult.table (result : ServedResult) (count : Nat) : List (List Value) :=
  (result.inline ++ (result.batches.take count).flatten).flatMap chunkRows

/-- The same rows, as they are read off the wire. -/
def ServedResult.readTable (prims : Primitives) (result : ServedResult) (count : Nat) : List (List Value) :=
  (result.inline ++ (result.batches.take count).flatten).flatMap fun chunk => chunkRows (storedChunk prims chunk)

/-- The chunks of a result are of its types. -/
def ServedResult.Typed (result : ServedResult) : Prop :=
  ∀ chunk ∈ result.inline ++ result.batches.flatten, chunk.types = result.types

/-- Rows with the same values. -/
def SameRowsOf (table' table : List (List Value)) : Prop := List.Forall₂ (List.Forall₂ Value.Same) table' table

section
variable {layout : Layout} {prims : Primitives} {canonicalReason : Nat → Option String} {result : ServedResult}
  {reply : Reply} {connection : Connection} {sql : String}

theorem forall₂_getD {values' values : List Value} (h : List.Forall₂ Value.Same values' values) (row : Nat) :
    Value.Same (values'.getD row .null) (values.getD row .null) := by
  induction h generalizing row with
  | nil => exact .refl _
  | cons head _ ih =>
      cases row with
      | zero => exact head
      | succ row => exact ih row

theorem DataChunk.Same.rows {back chunk : DataChunk} (h : back.Same chunk) :
    SameRowsOf (chunkRows back) (chunkRows chunk) := by
  rw [SameRowsOf, chunkRows, chunkRows, h.rowCount, List.forall₂_map_left_iff, List.forall₂_map_right_iff,
    List.forall₂_same]
  intro row _
  rw [List.forall₂_map_left_iff, List.forall₂_map_right_iff]
  exact h.columns.imp fun _ _ hsame => forall₂_getD hsame.2.2 row

/-- The names that a chunk carries are not among its rows. -/
theorem chunkRows_attached (names : List String) (chunks : List DataChunk) :
    (attachColumnNames names chunks).flatMap chunkRows = chunks.flatMap chunkRows := by
  rw [attachColumnNames, List.flatMap_map]
  rfl

theorem received_rows (count : Nat) :
    (result.received prims count).flatMap chunkRows = result.readTable prims count := by
  rw [ServedResult.received, chunkRows_attached, List.flatMap_map]
  rfl

theorem readTable_same (hfloat : ∀ bits, prims.f64ToF32 (prims.f32ToF64 bits) = bits)
    (hresult : result.Deliverable layout) (count : Nat) :
    SameRowsOf (result.readTable prims count) (result.table count) := by
  have hsame := same_received hfloat hresult count
  have hread : (attachColumnNames result.names ((result.inline ++ (result.batches.take count).flatten).map
      DataChunk.asRead)).flatMap chunkRows = result.table count := by
    rw [chunkRows_attached, List.flatMap_map]
    refine List.flatMap_congr fun chunk _ => ?_
    rw [chunkRows, chunkRows, DataChunk.asRead]
    simp only [List.map_map]
    rfl
  rw [← received_rows, ← hread]
  generalize attachColumnNames result.names _ = chunks at hsame
  generalize result.received prims count = received at hsame
  induction hsame with
  | nil => exact .nil
  | cons head _ ih =>
      rw [List.flatMap_cons, List.flatMap_cons]
      exact List.rel_append head.rows ih

/-- A row of a result has a value for each of its types. -/
theorem readTable_width (hresult : result.Deliverable layout) (htyped : result.Typed) {values : List Value}
    (hmem : values ∈ result.readTable prims result.batches.length) :
    values.length = result.types.length := by
  rw [ServedResult.readTable, List.take_length, List.mem_flatMap] at hmem
  obtain ⟨chunk, hchunk, hrow⟩ := hmem
  have hmemory := (hresult.plain chunk hchunk).inMemory
  obtain ⟨row, -, rfl⟩ := List.mem_map.mp hrow
  rw [List.length_map, storedChunk, List.length_map, hmemory.length_parts, hmemory.sameLength,
    htyped chunk hchunk]

/-- The same of the rows of a result. -/
theorem Shows.distinct_result {columns : List ColumnDefinition} {stream : QuackResultStream}
    (h : Shows columns (result.readTable prims result.batches.length) stream)
    (hresult : result.Deliverable layout) (htyped : result.Typed) (hdistinct : result.names.Nodup)
    (hcolumns : columns = result.names.zipWith ColumnDefinition.mk (result.types.map LogicalType.asRead)) :
    stream.intoRows =
        (columns, ((result.readTable prims result.batches.length).map result.names.zip).map .ok) ∧
      (result.names ≠ [] → stream.values =
        .ok ((result.readTable prims result.batches.length).map fun values => values.headD .null)) := by
  have hnamed : columns.map ColumnDefinition.name = result.names := by
    rw [hcolumns]
    exact columnNames_prepared hresult
  have hlength : columns.length = result.types.length := by
    rw [hcolumns, List.length_zipWith, List.length_map, hresult.named, Nat.min_self]
  obtain ⟨hrows, hvalues⟩ := h.distinct (by rwa [hnamed])
    fun values hmem => (readTable_width hresult htyped hmem).trans hlength.symm
  rw [hnamed] at hrows
  refine ⟨hrows, fun hne => hvalues fun hnil => hne ?_⟩
  rw [← hnamed, hnil]
  rfl

/-- A stream that has come to its end has yielded the whole result. -/
theorem Obtains.stream {needsMoreFetch : Bool} {count : Nat} {run : StreamRun} {columns : List ColumnDefinition}
    (h : Obtains prims result connection needsMoreFetch count run)
    (more : needsMoreFetch = false → result.batches = [])
    (all : needsMoreFetch = true → result.batches.length < count) :
    run.stream columns = some ⟨columns, (result.received prims result.batches.length).map .ok⟩ := by
  have hreads : result.received prims count = result.received prims result.batches.length := by
    have htake : result.batches.take count = result.batches.take result.batches.length := by
      cases hmore : needsMoreFetch with
      | false =>
          rw [more hmore, List.take_nil, List.take_nil]
      | true =>
          rw [List.take_of_length_le (all hmore).le, List.take_length]
    rw [ServedResult.received, htake, ServedResult.received]
  have hending : run.ending = some (.ok ()) := by
    rw [h.ending]
    exact if_neg fun hwaits => absurd hwaits.2 (not_le.mpr (all hwaits.1))
  rw [StreamRun.stream, hending, h.chunks, hreads]

/-- Whatever a caller makes of a query that is served over the wire, it has the rows of the result. Where the
names of the columns differ, a row is its values under these names and `values` is the first column. -/
theorem consumers_delivered (ready : connection.closed = false)
    (hversion : connection.quackVersion = quackV1 ∨ connection.quackVersion = quackV3)
    (hid : HeldText connection.connectionId) (hsql : HeldText sql)
    (hfloat : ∀ bits, prims.f64ToF32 (prims.f32ToF64 bits) = bits) (hresult : result.Deliverable layout)
    (hprepared : Served layout prims canonicalReason connection.quackVersion result.Prepares
      (connection.prepareRequest sql) reply) :
    ∃ prepared, (prepareQuery layout prims connection sql reply).result = .ok prepared ∧
      prepared.columns = result.names.zipWith ColumnDefinition.mk (result.types.map LogicalType.asRead) ∧
      SameRowsOf (result.readTable prims result.batches.length) (result.table result.batches.length) ∧
      ∀ answers, FetchesServed layout prims canonicalReason result connection.quackVersion 0
          (queryStream layout prims prepared answers).requests answers →
        (prepared.state.needsMoreFetch = true → result.batches.length < answers.length) →
        ∃ stream, (queryStream layout prims prepared answers).stream prepared.columns = some stream ∧
          Shows prepared.columns (result.readTable prims result.batches.length) stream ∧
          (result.names.Nodup → result.Typed →
            stream.intoRows = (prepared.columns,
              ((result.readTable prims result.batches.length).map result.names.zip).map .ok) ∧
            (result.names ≠ [] → stream.values =
              .ok ((result.readTable prims result.batches.length).map fun values => values.headD .null))) := by
  obtain ⟨prepared, hok, hcolumns, more, hobtains⟩ :=
    query_obtains ready hversion hid hsql hfloat hresult hprepared
  refine ⟨prepared, hok, hcolumns, readTable_same hfloat hresult _, fun answers hserved hall => ?_⟩
  have hshows := shows_chunks prepared.columns (result.received prims result.batches.length)
  rw [received_rows] at hshows
  exact ⟨_, (hobtains answers hserved).stream more hall, hshows,
    fun hdistinct htyped => hshows.distinct_result hresult htyped hdistinct hcolumns⟩

/-- Where a reply on the way is damaged, only those that take the rows one by one have any of them; the others
have the error of that exchange. -/
theorem consumers_damaged (ready : connection.closed = false)
    (hversion : connection.quackVersion = quackV1 ∨ connection.quackVersion = quackV3)
    (hid : HeldText connection.connectionId) (hsql : HeldText sql)
    (hfloat : ∀ bits, prims.f64ToF32 (prims.f32ToF64 bits) = bits) (hresult : result.Deliverable layout)
    {prepared : Prepared} {front rest : List Answer} {damaged : Answer}
    (hprepared : Served layout prims canonicalReason connection.quackVersion result.Prepares
      (connection.prepareRequest sql) reply)
    (hok : (prepareQuery layout prims connection sql reply).result = .ok prepared)
    (hmore : prepared.state.needsMoreFetch = true) (hcount : front.length ≤ result.batches.length)
    (hserved : FetchesServed layout prims canonicalReason result connection.quackVersion 0
      (queryStream layout prims prepared (front ++ damaged :: rest)).requests front)
    (hopen : damaged.closed = false)
    (hdamaged : ∀ request,
      (queryStream layout prims prepared (front ++ damaged :: rest)).requests[front.length]? = some request →
      ServedDamaged layout prims canonicalReason connection.quackVersion
        (result.Fetches connection.quackVersion front.length) request damaged.reply) :
    ∃ e stream, answered damaged.reply = .error (.error .exchange e) ∧
      (queryStream layout prims prepared (front ++ damaged :: rest)).stream prepared.columns = some stream ∧
        SameRowsOf (result.readTable prims front.length) (result.table front.length) ∧
        Breaks prepared.columns (result.readTable prims front.length) e stream := by
  obtain ⟨-, e, he, hending, -, hchunks⟩ :=
    query_fails ready hversion hid hsql hfloat hresult hprepared hok hmore hcount hserved hopen hdamaged
  refine ⟨e, _, he, by rw [StreamRun.stream, hending], readTable_same hfloat hresult _, ?_⟩
  rw [hchunks, ← received_rows]
  exact breaks_chunks _ _ _

end

def booleanColumn : ColumnDefinition := ⟨"a", LogicalTypes.scalar .boolean⟩

theorem booleanColumns_eq : booleanResult.names.zipWith ColumnDefinition.mk
    (booleanResult.types.map LogicalType.asRead) = [booleanColumn] := by
  rw [booleanResult, List.map_singleton, booleanType, LogicalType.asRead]
  rfl

theorem booleanResult_typed : booleanResult.Typed := by
  intro chunk hmem
  rw [List.mem_singleton.mp hmem]
  rfl

/-- One answer with the batch and one without any. -/
theorem consumers_delivered_booleans : ∃ reply prepared stream,
    (prepareQuery .words .floatless liveConnection "SELECT" reply).result = .ok prepared ∧
      (queryStream .words .floatless prepared [booleanAnswer, lastAnswer]).stream prepared.columns =
        some stream ∧
      Shows prepared.columns (booleanResult.readTable .floatless 1) stream ∧
      stream.values = .ok ((booleanResult.readTable .floatless 1).map fun values => values.headD .null) := by
  have hid : HeldText liveConnection.connectionId := heldText_short (by decide)
  have hsql : HeldText "SELECT" := heldText_short (by decide)
  obtain ⟨prepared, hok, -, -, hall⟩ := consumers_delivered rfl (.inr rfl) hid hsql Primitives.floatless_back
    booleanResult_deliverable prepare_booleans
  have hprepared := hok
  obtain ⟨needsMoreFetch, -, hserved⟩ := prepared_served rfl (.inr rfl) hid hsql Primitives.floatless_back
    booleanResult_deliverable prepare_booleans
  cases hprepared.symm.trans hserved
  obtain ⟨hreached, -, -⟩ := prepareQuery_reached (.inr rfl) hok
  obtain ⟨stream, hstream, hshows, hdistinct⟩ := hall [booleanAnswer, lastAnswer]
    (fetchesServed_booleans hreached) fun _ => by decide
  exact ⟨_, _, stream, hok, hstream, hshows, (hdistinct (List.nodup_singleton _) booleanResult_typed).2
    (List.cons_ne_nil _ _)⟩

/-- The second reply is lost. -/
theorem consumers_damaged_lost : ∃ reply prepared e stream,
    (prepareQuery .words .floatless liveConnection "SELECT" reply).result = .ok prepared ∧
      (queryStream .words .floatless prepared [booleanAnswer, ⟨false, .error .http⟩]).stream prepared.columns =
        some stream ∧
      Breaks prepared.columns (booleanResult.readTable .floatless 1) e stream := by
  have hid : HeldText liveConnection.connectionId := heldText_short (by decide)
  have hsql : HeldText "SELECT" := heldText_short (by decide)
  obtain ⟨needsMoreFetch, hmore, hok⟩ := prepared_served rfl (.inr rfl) hid hsql Primitives.floatless_back
    booleanResult_deliverable prepare_booleans
  obtain ⟨hreached, -, -⟩ := prepareQuery_reached (.inr rfl) hok
  cases needsMoreFetch with
  | false => cases hmore rfl
  | true =>
      obtain ⟨e, stream, -, hstream, -, hbreaks⟩ := @consumers_damaged _ _ _ _ _ _ _ rfl (.inr rfl) hid hsql
        Primitives.floatless_back booleanResult_deliverable _ [booleanAnswer] [] ⟨false, .error .http⟩
        prepare_booleans hok rfl (by decide) (FetchesServed.front (@fetchesServed_booleans _ _ hreached)) rfl
        (lost_booleans hreached)
      exact ⟨_, _, e, stream, hok, hstream, hbreaks⟩

end QuackProtocol
