import QuackProtocol.AppendBatches
import QuackProtocol.Rows

/-! What two calls that append the same rows in batches of different sizes have in common. Where every
batch has the same columns and room for its rows, the rows alone decide; where the columns are inferred
from the rows of a batch, the batch size decides with them. -/

open Decoding Sending

namespace QuackProtocol

/-- The chunk that an append request carries. -/
def QuackMessage.appendChunk : QuackMessage → Option DataChunk
  | .appendRequest _ _ _ chunk => some chunk
  | _ => none

def sentChunks (sent : List QuackMessage) : List DataChunk := sent.filterMap QuackMessage.appendChunk

/-- The requests have the same columns throughout and, one after the other, the same rows. -/
structure SameTable (first second : List QuackMessage) : Prop where
  columns : ∃ names types, ∀ chunk ∈ sentChunks first ++ sentChunks second,
    chunk.columnNames = some names ∧ chunk.types = types
  rows : (sentChunks first).flatMap chunkRows = (sentChunks second).flatMap chunkRows

/-- Two calls that both send the same table or both fail. -/
def Independent (first second : ClientCall Unit) : Prop :=
  (first.result = .ok () ∧ second.result = .ok () ∧ SameTable first.sent second.sent) ∨
  (∃ failure, first.result = .error failure) ∧ ∃ failure, second.result = .error failure

section
variable {layout : Layout} {prims : Primitives} {tableName : String} {schemaName : Option String}
  {columns : Option (List ColumnDefinition)} {definitions : List ColumnDefinition} {rows : List Row}
  {turns : Nat → Turn}

theorem chunkRows_rowsChunk :
    chunkRows (rowsChunk definitions rows) =
      rows.map fun row => definitions.map fun definition => cellValue definition row := by
  apply List.ext_getElem (by simp [chunkRows, rowsChunk])
  intro i hi hi'
  have hrow : i < rows.length := by simpa using hi'
  simp only [chunkRows, List.getElem_map, List.getElem_range, rowsChunk, List.map_map]
  apply List.map_congr_left
  intro definition _
  simp [List.getElem?_eq_getElem hrow]

theorem zipWith_definitions (definitions : List ColumnDefinition) :
    List.zipWith ColumnDefinition.mk (definitions.map ColumnDefinition.name)
      (definitions.map ColumnDefinition.logicalType) = definitions := by
  rw [List.zipWith_map, List.zipWith_self]
  exact List.map_id definitions

/-! ### A run over the batches -/

theorem each_ok_iff_sendable {start : Nat} {batches : List (List Row)}
    (hturns : ∀ k, (turns k).Accepting) :
    (Call.each (fun index => appendBatch layout prims tableName schemaName columns (turns index)) start
      batches).result = .ok () ↔ ∀ batch ∈ batches, Sendable layout prims columns batch := by
  rw [Call.each_ok_iff]
  constructor
  · intro h batch hmem
    obtain ⟨j, hj, rfl⟩ := List.getElem_of_mem hmem
    exact (appendBatch_ok_iff.mp (h j hj hj)).2
  · intro h j hlt hj
    exact appendBatch_ok_iff.mpr ⟨hturns _, h _ (List.getElem_mem hj)⟩

/-- A run that succeeds sends the chunk of each batch. -/
theorem sentChunks_each {start : Nat} {batches : List (List Row)}
    (h : (Call.each (fun index => appendBatch layout prims tableName schemaName columns (turns index))
      start batches).result = .ok ()) :
    List.Forall₂ (fun batch chunk => dataChunkFromRows batch columns = .ok chunk) batches
      (sentChunks (Call.each (fun index => appendBatch layout prims tableName schemaName columns
        (turns index)) start batches).sent) := by
  induction batches generalizing start with
  | nil => exact .nil
  | cons batch batches ih =>
      rw [Call.each, Call.result_bind_ok] at h
      obtain ⟨⟨⟩, hfirst, hrest⟩ := h
      obtain ⟨chunk, hchunk, hsent⟩ := sent_appendBatch_ok hfirst
      rw [Call.each, Call.bind_ok _ hfirst, hsent]
      exact .cons hchunk (ih hrest)

/-- Batches with the same columns are sent as one table. -/
theorem sentChunks_eq {batches : List (List Row)} {sent : List DataChunk}
    (hdefinitions : ∀ batch ∈ batches, columnDefinitions batch columns = .ok definitions)
    (hsent : List.Forall₂ (fun batch chunk => dataChunkFromRows batch columns = .ok chunk) batches sent) :
    sent = batches.map (rowsChunk definitions) := by
  induction hsent with
  | nil => rfl
  | cons hchunk _ ih =>
      obtain ⟨hbatch, hbatches⟩ := List.forall_mem_cons.mp hdefinitions
      obtain ⟨other, hother, -, -, rfl⟩ := dataChunkFromRows_ok_iff.mp hchunk
      cases hbatch.symm.trans hother
      rw [ih hbatches, List.map_cons]

/-- Batches that are sent with the same names and types have the same columns. -/
theorem definitions_eq {batches : List (List Row)} {sent : List DataChunk} {names : List String}
    {types : List LogicalType} (hsame : ∀ chunk ∈ sent, chunk.columnNames = some names ∧ chunk.types = types)
    (hsent : List.Forall₂ (fun batch chunk => dataChunkFromRows batch columns = .ok chunk) batches sent) :
    ∀ batch ∈ batches,
      columnDefinitions batch columns = .ok (List.zipWith ColumnDefinition.mk names types) := by
  induction hsent with
  | nil => exact fun _ hmem => absurd hmem List.not_mem_nil
  | cons hchunk _ ih =>
      obtain ⟨⟨hnames, htypes⟩, hchunks⟩ := List.forall_mem_cons.mp hsame
      obtain ⟨definitions, hdefinitions, -, -, rfl⟩ := dataChunkFromRows_ok_iff.mp hchunk
      refine List.forall_mem_cons.mpr ⟨?_, ih hchunks⟩
      cases hnames
      cases htypes
      rw [hdefinitions]
      exact congrArg Except.ok (zipWith_definitions definitions).symm

/-- The rows that batches of the same columns are sent as do not depend on the size of the batches. -/
theorem flatMap_chunkRows (size : Nat) :
    ((chunks size rows).map (rowsChunk definitions)).flatMap chunkRows =
      rows.map fun row => definitions.map fun definition => cellValue definition row := by
  calc ((chunks size rows).map (rowsChunk definitions)).flatMap chunkRows
      = (chunks size rows).flatMap fun batch => batch.map fun row =>
          definitions.map fun definition => cellValue definition row := by
        rw [List.flatMap_map]
        exact List.flatMap_congr fun batch _ => chunkRows_rowsChunk
    _ = (chunks size rows).flatten.map fun row =>
          definitions.map fun definition => cellValue definition row := by
        rw [List.map_flatten, List.flatMap_def]
    _ = rows.map fun row => definitions.map fun definition => cellValue definition row := by
        rw [flatten_chunks]

theorem sendable_of_common (hrows : rows ≠ []) {size : Nat}
    (hcommon : ∀ batch ∈ chunks size rows,
      columnDefinitions batch columns = .ok definitions ∧ Room layout definitions batch) :
    (∀ batch ∈ chunks size rows, Sendable layout prims columns batch) ↔
      WritableColumns definitions ∧ ∀ row ∈ rows, RowFits layout prims definitions row := by
  constructor
  · intro h
    have hadmits : ∀ batch ∈ chunks size rows, WritableColumns definitions ∧
        ∀ row ∈ batch, RowFits layout prims definitions row := by
      intro batch hmem
      obtain ⟨other, hother, hwritable, hfits, -⟩ := (sendable_iff (chunks_ne_nil hmem)).mp (h batch hmem)
      cases (hcommon batch hmem).1.symm.trans hother
      exact ⟨hwritable, hfits⟩
    obtain ⟨batch, hmem⟩ := List.exists_mem_of_ne_nil _ fun hnil => hrows (chunks_eq_nil hnil)
    refine ⟨(hadmits batch hmem).1, fun row hrow => ?_⟩
    obtain ⟨batch, hmem, hin⟩ := mem_chunks.mpr hrow
    exact (hadmits batch hmem).2 row hin
  · rintro ⟨hwritable, hfits⟩ batch hmem
    obtain ⟨hdefinitions, hroom⟩ := hcommon batch hmem
    exact (sendable_iff (chunks_ne_nil hmem)).mpr ⟨definitions, hdefinitions, hwritable,
      fun row hrow => hfits row (mem_chunks.mp ⟨batch, hmem, hrow⟩), hroom⟩

/-- What is sent for the batches of two sizes, where every batch has the same columns. -/
theorem sameTable_of_common {size size' : Nat} {sent sent' : List QuackMessage}
    (hcommon : ∀ batch ∈ chunks size rows, columnDefinitions batch columns = .ok definitions)
    (hcommon' : ∀ batch ∈ chunks size' rows, columnDefinitions batch columns = .ok definitions)
    (hsent : List.Forall₂ (fun batch chunk => dataChunkFromRows batch columns = .ok chunk)
      (chunks size rows) (sentChunks sent))
    (hsent' : List.Forall₂ (fun batch chunk => dataChunkFromRows batch columns = .ok chunk)
      (chunks size' rows) (sentChunks sent')) : SameTable sent sent' := by
  have hchunks := sentChunks_eq hcommon hsent
  have hchunks' := sentChunks_eq hcommon' hsent'
  refine ⟨⟨definitions.map ColumnDefinition.name, definitions.map ColumnDefinition.logicalType, ?_⟩, ?_⟩
  · rw [hchunks, hchunks', ← List.map_append]
    exact List.forall_mem_map.mpr fun batch _ => ⟨rfl, rfl⟩
  · rw [hchunks, hchunks', flatMap_chunkRows, flatMap_chunkRows]

/-- The columns of the batches, and the room for their rows, where two calls sent the same table. -/
theorem common_of_sameTable {size size' : Nat} {sent sent' : List QuackMessage}
    (hsent : List.Forall₂ (fun batch chunk => dataChunkFromRows batch columns = .ok chunk)
      (chunks size rows) (sentChunks sent))
    (hsent' : List.Forall₂ (fun batch chunk => dataChunkFromRows batch columns = .ok chunk)
      (chunks size' rows) (sentChunks sent')) (hsame : SameTable sent sent')
    (hall : ∀ batch ∈ chunks size rows ++ chunks size' rows, Sendable layout prims columns batch) :
    ∃ definitions, ∀ batch ∈ chunks size rows ++ chunks size' rows,
      columnDefinitions batch columns = .ok definitions ∧ Room layout definitions batch := by
  obtain ⟨names, types, hcolumns⟩ := hsame.columns
  rw [List.forall_mem_append] at hcolumns
  have hdefinitions := List.forall_mem_append.mpr
    ⟨definitions_eq hcolumns.1 hsent, definitions_eq hcolumns.2 hsent'⟩
  refine ⟨_, fun batch hmem => ⟨hdefinitions batch hmem, ?_⟩⟩
  have hne : batch ≠ [] := by
    rcases List.mem_append.mp hmem with h | h
    · exact chunks_ne_nil h
    · exact chunks_ne_nil h
  obtain ⟨other, hother, -, -, hroom⟩ := (sendable_iff hne).mp (hall batch hmem)
  cases (hdefinitions batch hmem).symm.trans hother
  exact hroom

theorem error_ne_ok {ε α : Type} {e : ε} {a : α} : (.error e : Except ε α) ≠ .ok a := by
  rintro ⟨⟩

theorem error_of_not_ok {call : ClientCall Unit} (h : call.result ≠ .ok ()) :
    ∃ failure, call.result = .error failure := by
  cases hresult : call.result with
  | ok value => exact absurd hresult h
  | error failure => exact ⟨failure, rfl⟩

theorem not_sendable_iff {batches : List (List Row)} :
    (∃ batch ∈ batches, ¬ Fits layout prims columns batch) ↔
      ¬ ∀ batch ∈ batches, Sendable layout prims columns batch := by
  simp only [sendable_iff_fits, not_forall, exists_prop]

/-- Whatever the two sizes, the same rows are sent or refused alike exactly when all batches have the same
columns and room for their rows, or when there is a batch of each size that does not fit its columns. -/
theorem appendRows_independent_iff {first second : Nat → Turn} {size size' : Nat} (hrows : rows ≠ [])
    (hsize : 1 ≤ size) (hsize' : 1 ≤ size') (hfirst : ∀ k, (first k).Accepting)
    (hsecond : ∀ k, (second k).Accepting) :
    Independent
        (appendRows layout prims tableName schemaName columns rows (some size) first)
        (appendRows layout prims tableName schemaName columns rows (some size') second) ↔
      (∃ definitions, ∀ batch ∈ chunks size rows ++ chunks size' rows,
        ColumnsOf columns batch definitions ∧ Room layout definitions batch) ∨
      (∃ batch ∈ chunks size rows, ¬ Fits layout prims columns batch) ∧
        ∃ batch ∈ chunks size' rows, ¬ Fits layout prims columns batch := by
  have hrun := @each_ok_iff_sendable layout prims tableName schemaName columns first 0
    (chunks size rows) hfirst
  have hrun' := @each_ok_iff_sendable layout prims tableName schemaName columns second 0
    (chunks size' rows) hsecond
  rw [appendRows_batches hrows (Nat.one_le_iff_ne_zero.mp hsize),
    appendRows_batches hrows (Nat.one_le_iff_ne_zero.mp hsize'), not_sendable_iff, not_sendable_iff,
    ← hrun, ← hrun']
  simp only [← columnDefinitions_iff]
  constructor
  · rintro (⟨hok, hok', hsame⟩ | ⟨⟨failure, hfail⟩, failure', hfail'⟩)
    · left
      have hall := List.forall_mem_append.mpr ⟨hrun.mp hok, hrun'.mp hok'⟩
      exact common_of_sameTable (sentChunks_each hok) (sentChunks_each hok') hsame hall
    · right
      rw [hfail, hfail']
      exact ⟨error_ne_ok, error_ne_ok⟩
  · rintro (⟨definitions, hcommon⟩ | ⟨hnot, hnot'⟩)
    · rw [List.forall_mem_append] at hcommon
      obtain ⟨hcommon, hcommon'⟩ := hcommon
      have hall := hrun.trans (sendable_of_common hrows hcommon)
      have hall' := hrun'.trans (sendable_of_common hrows hcommon')
      by_cases h : WritableColumns definitions ∧ ∀ row ∈ rows, RowFits layout prims definitions row
      · have hok := hall.mpr h
        have hok' := hall'.mpr h
        exact .inl ⟨hok, hok', sameTable_of_common (fun batch hmem => (hcommon batch hmem).1)
          (fun batch hmem => (hcommon' batch hmem).1) (sentChunks_each hok) (sentChunks_each hok')⟩
      · exact .inr ⟨error_of_not_ok (hall.not.mpr h), error_of_not_ok (hall'.not.mpr h)⟩
    · exact .inr ⟨error_of_not_ok hnot, error_of_not_ok hnot'⟩

end

theorem room_numberRows {batch : List Row} (hne : batch ≠ []) (hlen : batch.length ≤ 2)
    (hrows : ∀ row ∈ batch, row = numberRow) :
    columnDefinitions batch none = .ok [numberColumn] ∧ Room .words [numberColumn] batch := by
  obtain ⟨row, rest, rfl⟩ := List.exists_cons_of_ne_nil hne
  have hdefinitions : columnDefinitions (row :: rest) none = .ok [numberColumn] := by
    rw [hrows row (List.mem_cons_self ..)]
    exact columnDefinitions_numberRow rest
  have hsendable := sendable_integers (fun row hrow => .inl (hrows row hrow)) hlen hdefinitions
  obtain ⟨definitions, hother, -, -, hroom⟩ := (sendable_iff hne).mp hsendable
  cases hdefinitions.symm.trans hother
  exact ⟨hdefinitions, hroom⟩

/-- Two numbers, one by one and both at once. -/
theorem appendRows_independent_numbers :
    Independent
      (appendRows .words .floatless "t" none none [numberRow, numberRow] (some 1) fun _ => readyTurn)
      (appendRows .words .floatless "t" none none [numberRow, numberRow] (some 2) fun _ => readyTurn) := by
  refine (appendRows_independent_iff (List.cons_ne_nil _ _) (by decide) (by decide)
    (fun _ => readyTurn_accepting) (fun _ => readyTurn_accepting)).mpr (.inl ⟨[numberColumn], ?_⟩)
  intro batch hmem
  rw [← columnDefinitions_iff]
  have hbatches : chunks 1 [numberRow, numberRow] ++ chunks 2 [numberRow, numberRow] =
      [[numberRow], [numberRow], [numberRow, numberRow]] := by
    simp [chunks]
  rw [hbatches] at hmem
  refine room_numberRows ?_ ?_ ?_
  all_goals
    simp only [List.mem_cons, List.not_mem_nil, or_false] at hmem
    rcases hmem with rfl | rfl | rfl <;> simp

/-- A NULL alone in its batch leaves the type of its column open; with the number before it, it does
not. -/
theorem not_appendRows_independent_partlyNull :
    ¬ Independent
      (appendRows .words .floatless "t" none none [numberRow, nullRow] (some 1) fun _ => readyTurn)
      (appendRows .words .floatless "t" none none [numberRow, nullRow] (some 2) fun _ => readyTurn) := by
  have hall : chunks 2 [numberRow, nullRow] = [[numberRow, nullRow]] := by
    simp [chunks]
  rw [appendRows_batches (List.cons_ne_nil _ _) one_ne_zero,
    appendRows_batches (List.cons_ne_nil _ _) two_ne_zero, chunks_one_rows, hall]
  have hfirst : Sendable .words .floatless none [numberRow, nullRow] :=
    sendable_integers (by simp) (by simp) (columnDefinitions_numberRow [nullRow])
  have hok := (@each_ok_iff_sendable .words .floatless "t" none none (fun _ => readyTurn) 0
    [[numberRow, nullRow]] fun _ => readyTurn_accepting).mpr (List.forall_mem_singleton.mpr hfirst)
  have hrun := @each_ok_iff_sendable .words .floatless "t" none none (fun _ => readyTurn) 0
    [[numberRow], [nullRow]] fun _ => readyTurn_accepting
  have hrefused : ¬ Sendable .words .floatless none [nullRow] := by
    rintro ⟨chunk, hchunk, -⟩
    cases refused_nullRow.symm.trans hchunk
  rintro (⟨hone, -⟩ | ⟨-, failure, htwo⟩)
  · exact hrefused (hrun.mp hone _ (by simp))
  · exact error_ne_ok (htwo.symm.trans hok)

end QuackProtocol
