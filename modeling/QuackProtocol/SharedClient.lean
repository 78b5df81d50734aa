import QuackProtocol.Locks
import QuackProtocol.Queries

/-! Tasks that share one client (`client.rs`). Each call locks the connection; a query keeps it locked in
its result stream, which is polled when its owner likes and may be dropped at any point. The log holds what
passes on the connection but for the heartbeats. -/

open Decoding Sending

namespace QuackProtocol

def Connection.disconnectRequest (connection : Connection) : QuackMessage :=
  .disconnect (connection.scopedHeader .disconnectMessage)

/-- A connection that is closed already is left as it is. -/
def Connection.disconnect (layout : Layout) (prims : Primitives) (connection : Connection) (reply : Reply) :
    ClientCall Unit :=
  if connection.closed then pure ()
  else do
    let response ← connection.send layout prims connection.disconnectRequest reply
    expectSuccess response

namespace Connection

def afterPrepare (connection : Connection) : Connection :=
  if connection.closed then connection
  else { connection.numbered with queryUuidCounter := connection.queryUuidCounter + 1 }

def afterFetch (connection : Connection) : Connection :=
  if connection.closed then connection else connection.numbered

def afterAppend (connection : Connection) : Connection :=
  if connection.closed ∨ connection.quackVersion ≠ quackV1 then connection else connection.numbered

def afterDisconnect (connection : Connection) (result : Except Failure Unit) : Connection :=
  if connection.closed then connection
  else
    match result with
    | .ok _ => { connection.numbered with closed := true }
    | .error _ => connection.numbered

end Connection

/-! ### The log -/

/-- A request, with the number of the operation that sent it, or a PREPARE_RESPONSE. -/
inductive LogEntry where
  | request (operation : Nat) (message : QuackMessage)
  | prepared (resultUuid : HugeIntParts)

/-- What the log keeps of a reply. -/
def responses : Reply → List LogEntry
  | .ok (.prepareResponse _ _ _ _ _ resultUuid) => [.prepared resultUuid]
  | _ => []

def exchange (operation : Nat) (sent : List QuackMessage) (reply : Reply) : List LogEntry :=
  sent.flatMap fun message => .request operation message :: responses reply

/-- What is behind the lock; `numbers` counts the numbers that requests have taken, `operations` the
operations that have taken the lock. -/
structure Shared where
  connection : Connection
  numbers : Nat
  operations : Nat
  log : List LogEntry

/-- The client after `connect`. -/
def connected (connectionId : String) (quackVersion : U64) : Shared :=
  ⟨⟨connectionId, quackVersion, 1, 1, false⟩, 0, 0, []⟩

/-- The shared state after a call of one operation, which leaves `connection`. -/
def Shared.exchanged (shared : Shared) (operation : Nat) (connection : Connection)
    (sent : List QuackMessage) (reply : Reply) : Shared where
  connection
  numbers := if connection.queryCounter = shared.connection.queryCounter then shared.numbers
    else shared.numbers + 1
  operations := max shared.operations (operation + 1)
  log := shared.log ++ exchange operation sent reply

/-- What a task calls. -/
inductive Operation where
  | query (sql : String)
  | append (tableName : String) (schemaName : Option String) (chunk : DataChunk)
  | disconnect

/-- What the holder of the lock has to do: a call, or a stream, that has failed or not. -/
inductive Work where
  | call (operation : Operation)
  | stream (operation : Nat) (columnNames : List String) (state : FetchState)
  | failed

section
variable (layout : Layout) (prims : Primitives)

/-- The next request of the holder, with the reply that it will have. A stream that has failed yields the
error first and gives the lock back when it is polled again. -/
def Shared.poll (shared : Shared) (reply : Reply) : Work → Shared × Option Work
  | .call (.query sql) =>
    let call := prepareQuery layout prims shared.connection sql reply
    let after := shared.exchanged shared.operations shared.connection.afterPrepare call.sent reply
    match call.result with
    | .ok prepared =>
      (after, some (.stream shared.operations (prepared.columns.map ColumnDefinition.name) prepared.state))
    | .error _ => (after, none)
  | .call (.append tableName schemaName chunk) =>
    let call := shared.connection.append layout prims tableName schemaName chunk reply
    (shared.exchanged shared.operations shared.connection.afterAppend call.sent reply, none)
  | .call .disconnect =>
    let call := shared.connection.disconnect layout prims reply
    (shared.exchanged shared.operations (shared.connection.afterDisconnect call.result) call.sent reply,
      none)
  | .stream operation columnNames state =>
    if state.needsMoreFetch then
      let call := fetchOnce layout prims columnNames { state with connection := shared.connection }
        ⟨shared.connection.closed, reply⟩
      let after := shared.exchanged operation shared.connection.afterFetch call.sent reply
      match call.result with
      | .ok (next, _) => (after, some (.stream operation columnNames next))
      | .error _ => (after, some .failed)
    else
      (shared, none)
  | .failed => (shared, none)

/-- A turn under the lock: a poll, whatever the reply to it, or the drop of the call or the stream. A
request whose reply is not waited for is one that the transport fails. -/
inductive Turns (shared : Shared) (work : Work) : Shared → Option Work → Prop where
  | polled (reply : Reply) :
      Turns shared work (shared.poll layout prims reply work).1 (shared.poll layout prims reply work).2
  | dropped : Turns shared work shared none

/-- The tasks come to the lock with calls; the heartbeat may close the connection without it. -/
def clientProtocol : Locks.Protocol Shared Work where
  begins work := ∃ operation, work = .call operation
  turn := Turns layout prims
  outside shared next := next = { shared with connection := { shared.connection with closed := true } }

end

end QuackProtocol
