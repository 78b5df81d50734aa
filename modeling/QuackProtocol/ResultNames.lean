import QuackProtocol.AnnouncedBatches
import QuackProtocol.OneQuery

/-! The names of a result. The chunks that come with PREPARE take the names of the response and the
fetched ones those of the reported columns, which pair the names with the types as far as both go. -/

open Decoding Sending

namespace QuackProtocol

section
variable (layout : Layout) (prims : Primitives)

/-- The reported columns are the names and types of the response, one by one, and whatever is fetched,
every chunk of the stream has their names. -/
structure Prepared.NamesAgree (prepared : Prepared) (resultNames : List String)
    (resultTypes : List LogicalType) : Prop where
  names : prepared.columns.map ColumnDefinition.name = resultNames
  types : prepared.columns.map ColumnDefinition.logicalType = resultTypes
  chunks : ∀ answers, ∀ chunk ∈ (queryStream layout prims prepared answers).chunks,
    chunk.columnNames = some (prepared.columns.map ColumnDefinition.name)

end

section
variable {layout : Layout} {prims : Primitives} {connection : Connection} {sql : String}
  {prepared : Prepared} {state next : FetchState} {names : List String} {answer : Answer}
  {chunks : List DataChunk}

theorem attachColumnNames_named (names : List String) (results : List DataChunk) :
    ∀ chunk ∈ attachColumnNames names results, chunk.columnNames = some names := by
  intro chunk hmem
  obtain ⟨result, -, rfl⟩ := List.mem_map.mp hmem
  rfl

/-- The chunks of one reply have the names of the columns. -/
theorem fetchOnce_named (h : (fetchOnce layout prims names state answer).result = .ok (next, chunks)) :
    ∀ chunk ∈ chunks, chunk.columnNames = some names := by
  obtain ⟨response, -, h⟩ := Call.result_bind_ok.mp h
  cases response with
  | fetchResponse header results totalBatches batchIndex =>
      obtain ⟨accepted, -, h⟩ := Call.result_bind_ok.mp h
      obtain ⟨rows, -, h⟩ := Call.result_bind_ok.mp h
      obtain ⟨rowsDelivered, -, h⟩ := Call.result_bind_ok.mp h
      cases h
      exact attachColumnNames_named names results
  | _ => cases h

theorem fetchStream_named (names : List String) (state : FetchState) (answers : List Answer) :
    ∀ chunk ∈ (fetchStream layout prims names state answers).chunks, chunk.columnNames = some names := by
  induction answers generalizing state with
  | nil =>
      intro chunk hmem
      cases hmem
  | cons answer answers ih =>
      intro chunk hmem
      cases hmore : state.needsMoreFetch with
      | false =>
          rw [fetchStream_complete hmore] at hmem
          cases hmem
      | true =>
          cases hcall : (fetchOnce layout prims names state answer).result with
          | error failure =>
              rw [fetchStream_failure hmore hcall] at hmem
              cases hmem
          | ok turn =>
              obtain ⟨next, chunks⟩ := turn
              rw [fetchStream_turn hmore hcall] at hmem
              cases List.mem_append.mp hmem with
              | inl hfetched => exact fetchOnce_named hcall chunk hfetched
              | inr hlater => exact ih next chunk hlater

/-- What is paired as far as both lists go gives back the front of the first one. -/
theorem map_zipWith_left {α β γ : Type} {make : α → β → γ} {get : γ → α} (h : ∀ a b, get (make a b) = a)
    (front : List α) (back : List β) : (front.zipWith make back).map get = front.take back.length := by
  induction front generalizing back with
  | nil => rw [List.zipWith_nil_left, List.take_nil, List.map_nil]
  | cons a front ih =>
      cases back with
      | nil => rfl
      | cons b back => rw [List.zipWith_cons_cons, List.map_cons, ih, h, List.length_cons, List.take_succ_cons]

theorem map_name_zipWith (names : List String) (types : List LogicalType) :
    (names.zipWith ColumnDefinition.mk types).map ColumnDefinition.name = names.take types.length :=
  map_zipWith_left (fun _ _ => rfl) names types

theorem map_logicalType_zipWith (names : List String) (types : List LogicalType) :
    (names.zipWith ColumnDefinition.mk types).map ColumnDefinition.logicalType = types.take names.length := by
  rw [List.zipWith_comm]
  exact map_zipWith_left (fun _ _ => rfl) types names

variable {header : MessageHeader} {resultTypes : List LogicalType} {resultNames : List String}
  {needsMoreFetch : Bool} {results : List DataChunk} {resultUuid : HugeIntParts}

/-- What PREPARE leaves of an accepted response. -/
theorem prepareQuery_prepared (h : (prepareQuery layout prims connection sql
      (.ok (.prepareResponse header resultTypes resultNames needsMoreFetch results resultUuid))).result =
        .ok prepared) :
    prepared.columns = resultNames.zipWith ColumnDefinition.mk resultTypes ∧
      prepared.chunks = attachColumnNames resultNames results := by
  obtain ⟨response, hprepare, h⟩ := Call.result_bind_ok.mp h
  cases (prepare_ok hprepare).2
  obtain ⟨rows, -, h⟩ := Call.result_bind_ok.mp h
  cases h
  exact ⟨rfl, rfl⟩

/-- The names and types of an accepted response agree with its stream exactly if there are as many names as
types. -/
theorem prepared_namesAgree_iff (h : (prepareQuery layout prims connection sql
      (.ok (.prepareResponse header resultTypes resultNames needsMoreFetch results resultUuid))).result =
        .ok prepared) :
    prepared.NamesAgree layout prims resultNames resultTypes ↔ resultNames.length = resultTypes.length := by
  obtain ⟨hcolumns, hchunks⟩ := prepareQuery_prepared h
  constructor
  · intro hagree
    have hnames := congrArg List.length hagree.names
    have htypes := congrArg List.length hagree.types
    rw [List.length_map] at hnames htypes
    exact hnames.symm.trans htypes
  · intro hlength
    have hnames : prepared.columns.map ColumnDefinition.name = resultNames := by
      rw [hcolumns, map_name_zipWith, ← hlength, List.take_length]
    constructor
    · exact hnames
    · rw [hcolumns, map_logicalType_zipWith, hlength, List.take_length]
    · intro answers chunk hmem
      cases List.mem_append.mp hmem with
      | inl hinline =>
          rw [hchunks] at hinline
          rw [hnames]
          exact attachColumnNames_named resultNames results chunk hinline
      | inr hfetched => exact fetchStream_named _ _ answers chunk hfetched

end

/-! ### One type and two names -/

/-- A response with one INTEGER column, some names and a chunk. -/
def namesReply (names : List String) : Reply :=
  .ok (.prepareResponse ⟨.prepareResponse, none, none⟩ [⟨.integer, none⟩] names false [rowsOnly 1] ⟨0, 0⟩)

def preparedNames (names : List String) : Prepared :=
  ⟨names.zipWith ColumnDefinition.mk [⟨.integer, none⟩], attachColumnNames names [rowsOnly 1],
    ⟨⟨"c", quackV3, 2, 2, false⟩, ⟨0, 0⟩, false, 1, 1, 0⟩⟩

theorem prepareQuery_names (names : List String) :
    (prepareQuery .words .floatless openConnectionV3 "SELECT" (namesReply names)).result =
      .ok (preparedNames names) :=
  prepareQuery_answered rfl (.inr rfl) (by decide)

theorem oneName_namesAgree : (preparedNames ["a"]).NamesAgree .words .floatless ["a"] [⟨.integer, none⟩] :=
  (prepared_namesAgree_iff (prepareQuery_names ["a"])).mpr rfl

/-- The second name is dropped from the columns and stays on the chunk. -/
theorem not_prepared_namesAgree :
    (prepareQuery .words .floatless openConnectionV3 "SELECT" (namesReply ["a", "b"])).result =
      .ok (preparedNames ["a", "b"]) ∧
    ¬ (preparedNames ["a", "b"]).NamesAgree .words .floatless ["a", "b"] [⟨.integer, none⟩] := by
  apply And.intro (prepareQuery_names ["a", "b"])
  intro hagree
  have hnames := congrArg List.length hagree.names
  cases hnames

end QuackProtocol
