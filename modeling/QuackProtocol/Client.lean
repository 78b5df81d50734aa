import QuackProtocol.Builders
import QuackProtocol.Messages
import QuackProtocol.Sending

/-! The client (`client.rs`). A call locks the connection, sends a request once it is encoded, and then
has the reply of the server; the reply, and the connection as the call finds it under the lock, are the
environment's. -/

open Decoding Sending

namespace QuackProtocol

/-- The connection under its lock. The counters number the requests and the queries. -/
structure Connection where
  connectionId : String
  quackVersion : U64
  queryCounter : U64
  queryUuidCounter : U64
  closed : Bool

/-- Where in a call an error is raised. -/
inductive Stage where
  | arguments
  | build
  | connection
  | encode
  | exchange
  | reply
  deriving DecidableEq

/-- Why a call ends without a value. -/
inductive Failure where
  | error (stage : Stage) (error : QuackError)
  | panic (cause : Panic)

/-- What the exchange of one request gives: a decoded message, or an error of the transport. -/
abbrev Reply := Except QuackError QuackMessage

abbrev ClientCall (α : Type) := Call QuackMessage Failure α

/-- A step that may fail, at the given stage of the call. -/
def attempt {α : Type} (stage : Stage) (result : Result α) : ClientCall α :=
  Call.step (result.mapError (.error stage))

namespace Connection

def ensureOpen (connection : Connection) : ClientCall Unit :=
  attempt .connection
    (if connection.closed then .error (.protocol "Quack client is not connected") else .ok ())

def scopedHeader (connection : Connection) (messageType : MessageType) : MessageHeader :=
  ⟨messageType, some connection.connectionId, some connection.queryCounter⟩

section
variable (layout : Layout) (prims : Primitives) (connection : Connection)

/-- Nothing is sent unless the whole message is encoded. -/
def send (message : QuackMessage) (reply : Reply) : ClientCall QuackMessage :=
  match encodeMessageForVersion layout prims message connection.quackVersion with
  | .ok _ => ⟨[message], match reply with
    | .ok (.errorResponse _ text) => .error (.error .exchange (.server text))
    | .ok response => .ok response
    | .error e => .error (.error .exchange e)⟩
  | .err e => ⟨[], .error (.error .encode e)⟩
  | .panic cause => ⟨[], .error (.panic cause)⟩

def appendRequest (tableName : String) (schemaName : Option String) (chunk : DataChunk) :
    QuackMessage :=
  .appendRequest (connection.scopedHeader .sendDataRequest) schemaName tableName chunk

end

end Connection

def expectSuccess (response : QuackMessage) : ClientCall Unit :=
  attempt .reply (match response with
    | .successResponse _ => .ok ()
    | other => .error (.protocol s!"expected SUCCESS_RESPONSE, got {other.messageType.debug}"))

/-- `rows.chunks(size)`. -/
def chunks {α : Type} (size : Nat) : List α → List (List α)
  | [] => []
  | row :: rows => (row :: rows.take (size - 1)) :: chunks size (rows.drop (size - 1))
termination_by rows => rows.length
decreasing_by
  rw [List.length_drop, List.length_cons]
  omega

section
variable (layout : Layout) (prims : Primitives)

def Connection.append (connection : Connection) (tableName : String) (schemaName : Option String)
    (chunk : DataChunk) (reply : Reply) : ClientCall Unit := do
  connection.ensureOpen
  attempt .connection (if connection.quackVersion ≠ quackV1 then
      .error (.protocol "append is only supported by Quack protocol v1; protocol v3 uses SEND_DATA")
    else .ok ())
  let response ← connection.send layout prims (connection.appendRequest tableName schemaName chunk) reply
  expectSuccess response

/-! ### Appending rows -/

/-- What one call finds under the lock and what it is answered. -/
structure Turn where
  connection : Connection
  reply : Reply

variable (tableName : String) (schemaName : Option String) (columns : Option (List ColumnDefinition))

def appendBatch (turn : Turn) (batch : List Row) : ClientCall Unit := do
  let chunk ← attempt .build (dataChunkFromRows batch columns)
  turn.connection.append layout prims tableName schemaName chunk turn.reply

/-- Each batch is built, encoded and sent before the next one is looked at. -/
def appendRows (rows : List Row) (batchSize : Option Nat) (turns : Nat → Turn) : ClientCall Unit :=
  if rows.isEmpty then
    appendBatch layout prims tableName schemaName columns (turns 0) rows
  else
    let batchSize := batchSize.getD rows.length
    if batchSize = 0 then
      attempt .arguments (.error (.protocol "append_rows batch_size must be at least 1"))
    else
      Call.each (fun index => appendBatch layout prims tableName schemaName columns (turns index)) 0
        (chunks batchSize rows)

end

end QuackProtocol
