import QuackProtocol.Client

/-! Queries (`client.rs`). PREPARE gives the first chunks of a result; the stream that carries the rest
keeps the connection locked from PREPARE on and sends a FETCH whenever it is polled for more. -/

open Decoding Sending

namespace QuackProtocol

/-- What the environment decides at one request: whether the connection has been closed by then, which
needs no lock, and the reply. -/
structure Answer where
  closed : Bool
  reply : Reply

/-- The state of a result stream, which owns the lock. -/
structure FetchState where
  connection : Connection
  resultUuid : HugeIntParts
  needsMoreFetch : Bool
  rowsDelivered : Nat
  nextBatchIndex : U64
  ackIndex : U64

/-- `attach_column_names`. -/
def attachColumnNames (names : List String) (chunks : List DataChunk) : List DataChunk :=
  chunks.map fun chunk => { chunk with columnNames := some names }

/-- `chunks.iter().map(|chunk| chunk.row_count).sum()`. -/
def totalRows (chunks : List DataChunk) : Nat := (chunks.map DataChunk.rowCount).sum

/-- A count of rows, which is a `usize`. -/
def countRows (rows : Nat) : ClientCall Nat :=
  Call.step (if rows < usizeLimit then .ok rows else .error (.panic .overflow))

namespace Connection

/-- The connection after a request has taken its number. -/
def numbered (connection : Connection) : Connection :=
  { connection with queryCounter := connection.queryCounter + 1 }

/-- Indices and query ids are sent on protocol v3 only. -/
def onlyV3 {α : Type} (connection : Connection) (value : α) : Option α :=
  if connection.quackVersion = quackV3 then some value else none

def prepareRequest (connection : Connection) (sql : String) : QuackMessage :=
  .prepareRequest (connection.scopedHeader .prepareRequest) sql
    (connection.onlyV3 ⟨0, connection.queryUuidCounter⟩) none

def fetchRequest (connection : Connection) (resultUuid : HugeIntParts) (batchIndex ackIndex : U64) :
    QuackMessage :=
  .fetchRequest (connection.scopedHeader .fetchRequest) resultUuid (connection.onlyV3 batchIndex)
    (connection.onlyV3 ackIndex)

section
variable (layout : Layout) (prims : Primitives)

def prepare (connection : Connection) (sql : String) (reply : Reply) : ClientCall QuackMessage := do
  connection.ensureOpen
  connection.send layout prims (connection.prepareRequest sql) reply

def fetch (connection : Connection) (resultUuid : HugeIntParts) (batchIndex ackIndex : U64)
    (reply : Reply) : ClientCall QuackMessage := do
  connection.ensureOpen
  connection.send layout prims (connection.fetchRequest resultUuid batchIndex ackIndex) reply

end

end Connection

/-! ### PREPARE -/

/-- What PREPARE leaves: the columns, the chunks that came with the reply, and the state of the stream. -/
structure Prepared where
  columns : List ColumnDefinition
  chunks : List DataChunk
  state : FetchState

section
variable (layout : Layout) (prims : Primitives)

def prepareQuery (connection : Connection) (sql : String) (reply : Reply) : ClientCall Prepared := do
  let response ← connection.prepare layout prims sql reply
  match response with
  | .prepareResponse _ resultTypes resultNames needsMoreFetch results resultUuid => do
    let rows ← countRows (totalRows results)
    let connection := { connection.numbered with
      queryUuidCounter := connection.queryUuidCounter + 1 }
    pure ⟨resultNames.zipWith ColumnDefinition.mk resultTypes, attachColumnNames resultNames results,
      ⟨connection, resultUuid, needsMoreFetch, rows, 1, 0⟩⟩
  | other =>
    attempt .reply (.error (.protocol s!"expected PREPARE_RESPONSE, got {other.messageType.debug}"))

/-- What a FETCH_RESPONSE does to the state: on protocol v3 it is the batch that was asked for, or the
end of the result. -/
def FetchState.accept (state : FetchState) (results : List DataChunk)
    (totalBatches batchIndex : Option U64) : Result FetchState :=
  if state.connection.quackVersion = quackV3 then
    match batchIndex with
    | some batchIndex =>
      if batchIndex = state.nextBatchIndex then
        if results.isEmpty then
          .error (.protocol "FETCH_RESPONSE batch did not include any chunks")
        else if state.nextBatchIndex = BitVec.allOnes 64 then
          .error (.protocol "FETCH_RESPONSE batch index overflow")
        else
          .ok { state with
            ackIndex := batchIndex
            nextBatchIndex := state.nextBatchIndex + 1
            needsMoreFetch := true }
      else
        .error (.protocol
          s!"expected FETCH_RESPONSE batch {state.nextBatchIndex.toNat}, got {batchIndex.toNat}")
    | none =>
      if results.isEmpty then
        match totalBatches with
        | some totalBatches =>
          if totalBatches ≠ state.ackIndex then
            .error (.protocol
              s!"FETCH_RESPONSE ended after {state.ackIndex.toNat} batches but announced {totalBatches.toNat}")
          else
            .ok { state with needsMoreFetch := false }
        | none => .ok { state with needsMoreFetch := false }
      else
        .error (.protocol "FETCH_RESPONSE with chunks did not include a batch index")
  else
    .ok { state with needsMoreFetch := !results.isEmpty }

/-- One turn of the loop: a FETCH, the checks of its reply, and the chunks to yield. -/
def fetchOnce (columnNames : List String) (state : FetchState) (answer : Answer) :
    ClientCall (FetchState × List DataChunk) := do
  let connection := { state.connection with closed := answer.closed }
  let response ← connection.fetch layout prims state.resultUuid state.nextBatchIndex state.ackIndex
    answer.reply
  match response with
  | .fetchResponse _ results totalBatches batchIndex => do
    let accepted ← attempt .reply (state.accept results totalBatches batchIndex)
    let rows ← countRows (totalRows results)
    let rowsDelivered ← countRows (state.rowsDelivered + rows)
    pure ({ accepted with connection := connection.numbered, rowsDelivered },
      attachColumnNames columnNames results)
  | other =>
    attempt .reply (.error (.protocol s!"expected FETCH_RESPONSE, got {other.messageType.debug}"))

/-- What a stream has done by some point: its requests, the chunks it has yielded, and how it ended, if
it has. -/
structure StreamRun where
  requests : List QuackMessage
  chunks : List DataChunk
  ending : Option (Except Failure Unit)

/-- The loop, as far as the answers go. -/
def fetchStream (columnNames : List String) (state : FetchState) : List Answer → StreamRun
  | [] => ⟨[], [], if state.needsMoreFetch then none else some (.ok ())⟩
  | answer :: answers =>
    if state.needsMoreFetch then
      let call := fetchOnce layout prims columnNames state answer
      match call.result with
      | .ok (state, chunks) =>
        let rest := fetchStream columnNames state answers
        ⟨call.sent ++ rest.requests, chunks ++ rest.chunks, rest.ending⟩
      | .error failure => ⟨call.sent, [], some (.error failure)⟩
    else
      ⟨[], [], some (.ok ())⟩

/-- The stream of a query that has been prepared. -/
def queryStream (prepared : Prepared) (answers : List Answer) : StreamRun :=
  let columnNames := prepared.columns.map ColumnDefinition.name
  let rest := fetchStream layout prims columnNames prepared.state answers
  { rest with chunks := prepared.chunks ++ rest.chunks }

end

end QuackProtocol
