import QuackProtocol.Builders
import QuackProtocol.DecodedValues

/-! Rows from chunks (`vector.rs` and `client.rs`). A row is keyed by name, and its entries are inserted
one by one: of two columns with one name a row has one entry. -/

open Decoding

namespace QuackProtocol

/-- The rows of a chunk, with a value for each column. -/
def chunkRows (chunk : DataChunk) : List (List Value) :=
  (List.range chunk.rowCount).map fun row =>
    chunk.columns.map fun column => column.values.getD row .null

/-- The name of a column among the given ones, or one made from its position. -/
def columnName (names : List String) (index : Nat) : String := (names[index]?).getD s!"column{index}"

/-- The room for `row_count` rows, which the code reserves first, is taken to be there. -/
def rowsFromChunkWithNames (chunk : DataChunk) (names : List String) : Result (List Row) :=
  .ok ((List.range chunk.rowCount).map fun row =>
    Row.ofFields (chunk.columns.zipIdx.map fun (column, index) =>
      (columnName names index, (column.values[row]?).getD .null)))

def rowsFromChunk (chunk : DataChunk) : Result (List Row) :=
  rowsFromChunkWithNames chunk (chunk.columnNames.getD
    ((List.range chunk.columns.length).map fun index => s!"column{index}"))

/-- `QuackResultStream`, with what the stream yields in order. -/
structure QuackResultStream where
  columns : List ColumnDefinition
  inner : List (Result DataChunk)

namespace QuackResultStream

def intoRows (stream : QuackResultStream) : List ColumnDefinition × List (Result Row) :=
  let names := stream.columns.map ColumnDefinition.name
  (stream.columns, stream.inner.flatMap fun chunk =>
    match chunk >>= fun chunk => rowsFromChunkWithNames chunk names with
    | .ok rows => rows.map .ok
    | .error e => [.error e])

/-- `values`, from the stream of its query on. -/
def values (stream : QuackResultStream) : Result (List Value) := do
  let (columns, rows) := stream.intoRows
  let rows ← rows.mapM id
  match columns with
  | [] => pure []
  | first :: _ => pure (rows.map fun row => cell row first.name)

end QuackResultStream

/-! ### Entries -/

/-- The names that the columns of a chunk have in its rows. -/
def columnNames (names : List String) (count : Nat) : List String := (List.range count).map (columnName names)

/-- The entries of a row are the columns' values, in order. -/
def KeepsColumns (names : List String) (chunk : DataChunk) : Prop :=
  ∃ rows, rowsFromChunkWithNames chunk names = .ok rows ∧ rows.map (List.map Prod.snd) = chunkRows chunk

/-- No conversion loses a column, and `values` returns the first column of every chunk, where each has
one. -/
def LosesNoColumn (columns : List ColumnDefinition) (chunks : List DataChunk) : Prop :=
  (∀ chunk ∈ chunks, KeepsColumns (columns.map ColumnDefinition.name) chunk) ∧
    ((∀ chunk ∈ chunks, chunk.columns ≠ []) →
      (QuackResultStream.mk columns (chunks.map .ok)).values =
        .ok (chunks.flatMap fun chunk => (chunkRows chunk).map fun row => row.headD .null))

section
variable {names : List String} {chunk : DataChunk}

theorem Row.nodup_of_length {fields : Row} (h : (Row.ofFields fields).length = fields.length) :
    (fields.map Prod.fst).Nodup := by
  have hsubperm : ((Row.ofFields fields).map Prod.fst).Subperm (fields.map Prod.fst) :=
    List.subperm_of_subset (Row.keys_ofFields fields) fun key hkey => Row.mem_keys_ofFields.mp hkey
  have hperm := hsubperm.perm_of_length_le (by rw [List.length_map, List.length_map, h])
  exact hperm.nodup_iff.mp (Row.keys_ofFields fields)

/-- The entries that are inserted for a row. -/
def rowFields (names : List String) (chunk : DataChunk) (row : Nat) : Row :=
  chunk.columns.zipIdx.map fun (column, index) =>
    (columnName names index, (column.values[row]?).getD .null)

theorem rowsFromChunkWithNames_eq (chunk : DataChunk) (names : List String) :
    rowsFromChunkWithNames chunk names = .ok ((List.range chunk.rowCount).map fun row =>
      Row.ofFields (rowFields names chunk row)) := rfl

theorem keys_rowFields (row : Nat) :
    (rowFields names chunk row).map Prod.fst = columnNames names chunk.columns.length := by
  apply List.ext_getElem (by simp [rowFields, columnNames])
  intro i hi hi'
  simp [rowFields, columnNames]

theorem values_rowFields (row : Nat) :
    (rowFields names chunk row).map Prod.snd = chunk.columns.map fun column => column.values.getD row .null := by
  apply List.ext_getElem (by simp [rowFields])
  intro i hi hi'
  simp [rowFields]

theorem keepsColumns_iff : KeepsColumns names chunk ↔
    chunk.rowCount = 0 ∨ (columnNames names chunk.columns.length).Nodup := by
  rw [KeepsColumns, rowsFromChunkWithNames_eq]
  constructor
  · rintro ⟨rows, hrows, hentries⟩
    cases hrows
    rcases Nat.eq_zero_or_pos chunk.rowCount with hzero | hpos
    · exact .inl hzero
    · right
      rw [chunkRows, List.map_map, List.map_inj_left] at hentries
      have hfirst := congrArg List.length (hentries 0 (List.mem_range.mpr hpos))
      rw [Function.comp_apply, List.length_map, List.length_map] at hfirst
      rw [← keys_rowFields 0]
      exact Row.nodup_of_length (by rw [hfirst]; simp [rowFields])
  · intro h
    refine ⟨_, rfl, ?_⟩
    rw [chunkRows, List.map_map]
    apply List.map_congr_left
    intro row hrow
    rcases h with hzero | hnodup
    · rw [hzero] at hrow
      cases hrow
    · rw [Function.comp_apply, Row.ofFields_of_nodup (by rwa [keys_rowFields]), values_rowFields]

end

section
variable {columns : List ColumnDefinition} {chunks : List DataChunk}

/-- The rows that a stream of chunks becomes. -/
def streamRows (names : List String) (chunks : List DataChunk) : List Row :=
  chunks.flatMap fun chunk => (List.range chunk.rowCount).map fun row =>
    Row.ofFields (rowFields names chunk row)

theorem intoRows_ok (columns : List ColumnDefinition) (chunks : List DataChunk) :
    (QuackResultStream.mk columns (chunks.map .ok)).intoRows =
      (columns, (streamRows (columns.map ColumnDefinition.name) chunks).map .ok) := by
  rw [QuackResultStream.intoRows, streamRows, List.flatMap_map, List.map_flatMap]
  rfl

theorem mapM_id_ok {α : Type} (items : List α) :
    (items.map .ok : List (Result α)).mapM id = .ok items := by
  induction items with
  | nil => rfl
  | cons item items ih =>
      rw [List.map_cons, List.mapM_cons, ih]
      rfl

theorem values_nil (chunks : List DataChunk) :
    (QuackResultStream.mk [] (chunks.map .ok)).values = .ok [] := by
  rw [QuackResultStream.values, intoRows_ok]
  simp only [mapM_id_ok]
  rfl

theorem values_cons (first : ColumnDefinition) (columns : List ColumnDefinition)
    (chunks : List DataChunk) :
    (QuackResultStream.mk (first :: columns) (chunks.map .ok)).values =
      .ok ((streamRows ((first :: columns).map ColumnDefinition.name) chunks).map
        fun row => cell row first.name) := by
  rw [QuackResultStream.values, intoRows_ok]
  simp only [mapM_id_ok]
  rfl

/-- The entry that `values` takes from a row is the one of the first column. -/
theorem cell_first {name : String} {names : List String} {chunk : DataChunk} {row : Nat}
    (h : (columnNames (name :: names) chunk.columns.length).Nodup) :
    cell (Row.ofFields (rowFields (name :: names) chunk row)) name =
      (chunk.columns.map fun column => column.values.getD row .null).headD .null := by
  rw [Row.ofFields_of_nodup (by rwa [keys_rowFields]), rowFields]
  cases chunk.columns with
  | nil => rfl
  | cons column rest =>
      have hkey : columnName (name :: names) 0 = name := rfl
      rw [List.zipIdx_cons, List.map_cons, cell, Row.get, hkey, if_pos rfl, List.map_cons, List.headD_cons,
        Option.getD_some, List.getD_eq_getElem?_getD]

theorem losesNoColumn_iff (columns : List ColumnDefinition) (chunks : List DataChunk) :
    LosesNoColumn columns chunks ↔
      (∀ chunk ∈ chunks, chunk.rowCount = 0 ∨
        (columnNames (columns.map ColumnDefinition.name) chunk.columns.length).Nodup) ∧
      (columns = [] → (∃ chunk ∈ chunks, chunk.columns = []) ∨ ∀ chunk ∈ chunks, chunk.rowCount = 0) := by
  rw [LosesNoColumn]
  simp only [keepsColumns_iff]
  apply and_congr_right
  intro hdistinct
  cases columns with
  | nil =>
      rw [values_nil]
      constructor
      · intro h _
        by_cases hempty : ∃ chunk ∈ chunks, chunk.columns = []
        · exact .inl hempty
        · right
          intro chunk hchunk
          have hvalues := Except.ok.inj (h fun chunk hchunk hnil => hempty ⟨chunk, hchunk, hnil⟩)
          have hnone := List.flatMap_eq_nil_iff.mp hvalues.symm chunk hchunk
          rw [List.map_eq_nil_iff, chunkRows, List.map_eq_nil_iff, List.range_eq_nil] at hnone
          exact hnone
      · intro h hcolumns
        rcases h rfl with ⟨chunk, hchunk, hnil⟩ | hzero
        · exact absurd hnil (hcolumns chunk hchunk)
        · rw [List.flatMap_eq_nil_iff.mpr]
          intro chunk hchunk
          rw [chunkRows, hzero chunk hchunk]
          rfl
  | cons first columns =>
      rw [values_cons]
      refine iff_of_true (fun _ => ?_) nofun
      rw [streamRows, List.map_flatMap]
      refine congrArg Except.ok (List.flatMap_congr fun chunk hchunk => ?_)
      rw [chunkRows, List.map_map, List.map_map]
      apply List.map_congr_left
      intro row hrow
      rcases hdistinct chunk hchunk with hzero | hnodup
      · rw [hzero] at hrow
        cases hrow
      · exact cell_first hnodup

/-- The chunk of one row that SELECT 1 AS a, 2 AS a gives. -/
def sameNames : DataChunk :=
  ⟨1, [LogicalTypes.scalar .integer, LogicalTypes.scalar .integer],
    [⟨LogicalTypes.scalar .integer, .flat, [.int 1]⟩, ⟨LogicalTypes.scalar .integer, .flat, [.int 2]⟩],
    some ["a", "a"]⟩

theorem not_losesNoColumn_sameNames :
    ¬ LosesNoColumn (["a", "a"].map fun name => ⟨name, LogicalTypes.scalar .integer⟩) [sameNames] := by
  rintro ⟨hrows, -⟩
  obtain ⟨rows, hrows, hentries⟩ := hrows sameNames (List.mem_singleton.mpr rfl)
  cases hrows
  have hlength := congrArg (List.map List.length) hentries
  cases hlength

end

end QuackProtocol
