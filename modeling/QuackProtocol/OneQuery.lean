import Mathlib.Data.List.Pairwise
import QuackProtocol.FetchOrder
import QuackProtocol.SharedClient

/-! One query at a time: whatever the tasks that share a client do, and in whatever order, the requests on
its connection come one query after the other, since a query holds the lock from its PREPARE to the end of
its stream. -/

open Decoding Sending

namespace QuackProtocol

def QuackMessage.prepares : QuackMessage → Bool
  | .prepareRequest .. => true
  | _ => false

def QuackMessage.fetches : QuackMessage → Bool
  | .fetchRequest .. => true
  | _ => false

def LogEntry.message : LogEntry → Option QuackMessage
  | .request _ message => some message
  | .prepared _ => none

def LogEntry.resultUuid : LogEntry → Option HugeIntParts
  | .request .. => none
  | .prepared resultUuid => some resultUuid

/-- The result of the latest PREPARE_RESPONSE. -/
def latestPrepared (log : List LogEntry) : Option HugeIntParts := (log.filterMap LogEntry.resultUuid).getLast?

/-- Once the operation has sent its PREPARE, `second` is not a request or it is a FETCH of the operation. -/
def ComesAfter (operation : Nat) (first second : LogEntry) : Prop :=
  ∀ prepare other message, first = .request operation prepare → prepare.prepares = true →
    second = .request other message → other = operation ∧ message.fetches = true

/-- After the PREPARE of the operation it has the connection for itself. -/
def Alone (operation : Nat) (log : List LogEntry) : Prop := log.Pairwise (ComesAfter operation)

/-- The request may come after `before`: a PREPARE begins an operation; a FETCH belongs to an operation
that has had the connection for itself since its PREPARE, and it asks for the result that was prepared
last. -/
structure InTurn (before : List LogEntry) (operation : Nat) (message : QuackMessage) : Prop where
  fresh : message.prepares = true → ∀ other, .request operation other ∉ before
  begun : message.fetches = true → ∃ prepare, prepare.prepares = true ∧ .request operation prepare ∈ before
  alone : message.fetches = true → Alone operation before
  latest : ∀ header resultUuid batchIndex ackIndex,
    message = .fetchRequest header resultUuid batchIndex ackIndex → latestPrepared before = some resultUuid

/-- Every request comes in its turn. -/
def OneByOne (log : List LogEntry) : Prop :=
  ∀ k operation message, log[k]? = some (.request operation message) → InTurn (log.take k) operation message

/-- The requests are numbered by `ids`. -/
def NumberedBy (log : List LogEntry) (ids : List U64) : Prop :=
  (log.filterMap LogEntry.message).map (fun message => message.header.clientQueryId) = ids.map some

/-- One query at a time, with numbers that increase until the counter wraps around. -/
structure OneQueryAtATime (shared : Shared) : Prop where
  oneByOne : OneByOne shared.log
  increasing : shared.numbers < 2 ^ 64 → ∃ ids, NumberedBy shared.log ids ∧ ids.Pairwise (· < ·)

section
variable {log : List LogEntry} {event : LogEntry} {operation : Nat} {message : QuackMessage}
  {resultUuid : HugeIntParts}

theorem latestPrepared_request : latestPrepared (log ++ [.request operation message]) = latestPrepared log := by
  rw [latestPrepared, List.filterMap_append]
  show (_ ++ []).getLast? = _
  rw [List.append_nil]
  rfl

theorem latestPrepared_prepared : latestPrepared (log ++ [.prepared resultUuid]) = some resultUuid := by
  rw [latestPrepared, List.filterMap_append]
  exact List.getLast?_concat

theorem oneByOne_nil : OneByOne [] := fun k _ _ h => by cases h

theorem oneByOne_snoc (h : OneByOne log)
    (hlast : ∀ operation message, event = .request operation message → InTurn log operation message) :
    OneByOne (log ++ [event]) := by
  intro k operation message hk
  rcases Nat.lt_trichotomy k log.length with hlt | heq | hgt
  · rw [List.getElem?_append_left hlt] at hk
    rw [List.take_append_of_le_length hlt.le]
    exact h k operation message hk
  · rw [heq, List.getElem?_concat_length] at hk
    rw [heq, List.take_left]
    exact hlast operation message (Option.some.inj hk)
  · rw [List.getElem?_eq_none (by rw [List.length_append, List.length_singleton]; omega)] at hk
    cases hk

theorem oneByOne_request (h : OneByOne log) (hturn : InTurn log operation message) :
    OneByOne (log ++ [.request operation message]) := by
  apply oneByOne_snoc h
  intro _ _ heq
  cases heq
  exact hturn

theorem oneByOne_prepared (h : OneByOne log) : OneByOne (log ++ [.prepared resultUuid]) := by
  apply oneByOne_snoc h
  intro _ _ heq
  cases heq

theorem numberedBy_request {ids : List U64} {id : U64} (h : NumberedBy log ids)
    (hid : message.header.clientQueryId = some id) :
    NumberedBy (log ++ [.request operation message]) (ids ++ [id]) := by
  rw [NumberedBy, List.filterMap_append, List.map_append, h, List.map_append]
  exact congrArg (ids.map some ++ [·]) hid

theorem numberedBy_prepared {ids : List U64} (h : NumberedBy log ids) :
    NumberedBy (log ++ [.prepared resultUuid]) ids := by
  rw [NumberedBy, List.filterMap_append, List.map_append, h]
  exact List.append_nil _

/-- A request that is neither PREPARE nor FETCH may come at any time. -/
theorem inTurn_other (hprepares : message.prepares = false) (hfetches : message.fetches = false) :
    InTurn log operation message := by
  refine ⟨fun h => ?_, fun h => ?_, fun h => ?_, ?_⟩
  · cases hprepares.symm.trans h
  · cases hfetches.symm.trans h
  · cases hfetches.symm.trans h
  · rintro _ _ _ _ rfl
    cases hfetches

end

/-- A call that makes one request takes at most one number and sends at most that request. -/
structure Sends (before after : Connection) (sent : List QuackMessage) (message : QuackMessage) : Prop where
  counter : (after.queryCounter = before.queryCounter ∧ sent = []) ∨
    (after.queryCounter = before.queryCounter + 1 ∧ (sent = [] ∨ sent = [message]))
  number : message.header.clientQueryId = some before.queryCounter

section
variable {layout : Layout} {prims : Primitives} {connection : Connection} {message response : QuackMessage}
  {reply : Reply}

theorem Connection.sent_send : (connection.send layout prims message reply).sent = [] ∨
    (connection.send layout prims message reply).sent = [message] := by
  unfold Connection.send
  split
  · exact .inr rfl
  · exact .inl rfl
  · exact .inl rfl

theorem Connection.send_ok (h : (connection.send layout prims message reply).result = .ok response) :
    (connection.send layout prims message reply).sent = [message] ∧ reply = .ok response := by
  unfold Connection.send at h ⊢
  split at h
  · refine ⟨rfl, ?_⟩
    cases reply with
    | error e => cases h
    | ok other =>
        cases other with
        | errorResponse => cases h
        | _ =>
            cases h
            rfl
  · cases h
  · cases h

theorem Connection.ensureOpen_bind {α : Type} {f : Unit → ClientCall α} (h : connection.closed = false) :
    (connection.ensureOpen >>= f) = f () := by
  rw [Connection.ensureOpen, h]
  exact Call.step_ok_bind () f

theorem Connection.ensureOpen_bind_sent {α : Type} {f : Unit → ClientCall α} (h : connection.closed = true) :
    (connection.ensureOpen >>= f).sent = [] := by
  rw [Connection.ensureOpen, h]
  rfl

theorem attempt_ok_bind {α β : Type} {stage : Stage} {a : α} {f : α → ClientCall β} :
    (attempt stage (.ok a) >>= f) = f a := Call.step_ok_bind a f

theorem of_attempt_ok {α : Type} {stage : Stage} {result : Result α} {a : α}
    (h : (attempt stage result : ClientCall α).result = .ok a) : result = .ok a := by
  cases result with
  | error e => cases h
  | ok other =>
      cases h
      rfl

/-- Where the connection is open, the number is taken and the request is sent if it is encoded. -/
theorem sends_of_open {after : Connection} {sent : List QuackMessage}
    (hafter : connection.closed = false → after.queryCounter = connection.queryCounter + 1)
    (hclosed : connection.closed = true → after.queryCounter = connection.queryCounter ∧ sent = [])
    (hsent : connection.closed = false → sent = [] ∨ sent = [message])
    (hnumber : message.header.clientQueryId = some connection.queryCounter) :
    Sends connection after sent message := by
  refine ⟨?_, hnumber⟩
  cases hstate : connection.closed with
  | true => exact .inl (hclosed hstate)
  | false => exact .inr ⟨hafter hstate, hsent hstate⟩

variable {sql : String} {prepared : Prepared}

theorem prepare_open (h : connection.closed = false) : connection.prepare layout prims sql reply =
    connection.send layout prims (connection.prepareRequest sql) reply := Connection.ensureOpen_bind h

theorem sent_prepareQuery : (prepareQuery layout prims connection sql reply).sent =
    (connection.prepare layout prims sql reply).sent := by
  apply Call.sent_bind_of_silent
  intro response
  cases response with
  | prepareResponse => exact Call.sent_bind_of_silent fun _ => rfl
  | _ => rfl

theorem prepareQuery_sends : Sends connection connection.afterPrepare
    (prepareQuery layout prims connection sql reply).sent (connection.prepareRequest sql) := by
  apply sends_of_open
  · intro h
    rw [Connection.afterPrepare, h]
    rfl
  · intro h
    rw [Connection.afterPrepare, h, sent_prepareQuery]
    exact ⟨rfl, Connection.ensureOpen_bind_sent h⟩
  · intro h
    rw [sent_prepareQuery, prepare_open h]
    exact Connection.sent_send
  · rfl

/-- A PREPARE that has an answer was sent on an open connection. -/
theorem prepare_ok (h : (connection.prepare layout prims sql reply).result = .ok response) :
    (connection.prepare layout prims sql reply).sent = [connection.prepareRequest sql] ∧ reply = .ok response := by
  have hopen : connection.closed = false := by
    cases hclosed : connection.closed with
    | false => rfl
    | true =>
        rw [Connection.prepare, Connection.ensureOpen, hclosed] at h
        cases h
  rw [prepare_open hopen] at h ⊢
  exact Connection.send_ok h

/-- A query that is prepared has sent its PREPARE and had a PREPARE_RESPONSE. -/
theorem prepareQuery_exchange (h : (prepareQuery layout prims connection sql reply).result = .ok prepared)
    (operation : Nat) : exchange operation (prepareQuery layout prims connection sql reply).sent reply =
      [.request operation (connection.prepareRequest sql), .prepared prepared.state.resultUuid] := by
  obtain ⟨response, hprepare, h⟩ := Call.result_bind_ok.mp h
  obtain ⟨hsent, hreply⟩ := prepare_ok hprepare
  rw [sent_prepareQuery, hsent, hreply]
  cases response with
  | prepareResponse header types names needsMore results resultUuid =>
      obtain ⟨rows, -, h⟩ := Call.result_bind_ok.mp h
      cases h
      rfl
  | _ => cases h

theorem append_sends {tableName : String} {schemaName : Option String} {chunk : DataChunk} :
    Sends connection connection.afterAppend
      (connection.append layout prims tableName schemaName chunk reply).sent
      (connection.appendRequest tableName schemaName chunk) := by
  refine ⟨?_, rfl⟩
  unfold Connection.append Connection.afterAppend
  cases hclosed : connection.closed with
  | true => exact .inl ⟨rfl, Connection.ensureOpen_bind_sent hclosed⟩
  | false =>
      rw [Connection.ensureOpen_bind hclosed]
      by_cases hversion : connection.quackVersion = quackV1
      · rw [if_neg (by simp [hversion]), if_neg (not_not.mpr hversion), attempt_ok_bind,
          Call.sent_bind_of_silent fun _ => rfl]
        exact .inr ⟨rfl, Connection.sent_send⟩
      · rw [if_pos (.inr hversion), if_pos hversion]
        exact .inl ⟨rfl, rfl⟩

theorem disconnect_sends : Sends connection
    (connection.afterDisconnect (connection.disconnect layout prims reply).result)
    (connection.disconnect layout prims reply).sent connection.disconnectRequest := by
  refine ⟨?_, rfl⟩
  unfold Connection.disconnect Connection.afterDisconnect
  cases connection.closed with
  | true => exact .inl ⟨rfl, rfl⟩
  | false =>
      refine .inr ⟨?_, ?_⟩
      · rw [if_neg Bool.false_ne_true]
        split <;> rfl
      · rw [if_neg Bool.false_ne_true, Call.sent_bind_of_silent fun _ => rfl]
        exact Connection.sent_send

variable {names : List String} {state next : FetchState} {chunks : List DataChunk} {answer : Answer}

theorem fetch_open (ready : answer.closed = false) :
    Connection.fetch layout prims { state.connection with closed := answer.closed } state.resultUuid
      state.nextBatchIndex state.ackIndex answer.reply =
    Connection.send layout prims { state.connection with closed := answer.closed } state.request answer.reply :=
  Connection.ensureOpen_bind ready

theorem sent_fetchOnce : (fetchOnce layout prims names state answer).sent =
    (Connection.fetch layout prims { state.connection with closed := answer.closed } state.resultUuid
      state.nextBatchIndex state.ackIndex answer.reply).sent := by
  apply Call.sent_bind_of_silent
  intro response
  cases response with
  | fetchResponse =>
      exact Call.sent_bind_of_silent fun _ => Call.sent_bind_of_silent fun _ =>
        Call.sent_bind_of_silent fun _ => rfl
  | _ => rfl

theorem accept_resultUuid {results : List DataChunk} {totalBatches batchIndex : Option U64}
    (h : state.accept results totalBatches batchIndex = .ok next) : next.resultUuid = state.resultUuid := by
  unfold FetchState.accept at h
  split at h
  · split at h
    · split_ifs at h
      cases h
      rfl
    · split_ifs at h
      split at h
      · split_ifs at h
        cases h
        rfl
      · cases h
        rfl
  · cases h
    rfl

theorem fetchOnce_sends : Sends state.connection state.connection.afterFetch
    (fetchOnce layout prims names state ⟨state.connection.closed, reply⟩).sent state.request := by
  apply sends_of_open
  · intro h
    rw [Connection.afterFetch, h]
    rfl
  · intro h
    rw [Connection.afterFetch, h, sent_fetchOnce]
    exact ⟨rfl, Connection.ensureOpen_bind_sent rfl⟩
  · intro h
    rw [sent_fetchOnce, fetch_open h]
    exact Connection.sent_send
  · rfl

/-- A batch, or the end of a result, has come with a FETCH_RESPONSE to a FETCH. -/
theorem fetchOnce_ok (h : (fetchOnce layout prims names state answer).result = .ok (next, chunks)) :
    answer.closed = false ∧ (fetchOnce layout prims names state answer).sent = [state.request] ∧
      responses answer.reply = [] ∧ next.resultUuid = state.resultUuid := by
  obtain ⟨response, hfetch, h⟩ := Call.result_bind_ok.mp h
  have hopen : answer.closed = false := by
    cases hclosed : answer.closed with
    | false => rfl
    | true =>
        rw [hclosed] at hfetch
        cases hfetch
  rw [fetch_open hopen] at hfetch
  obtain ⟨hsent, hreply⟩ := Connection.send_ok hfetch
  rw [sent_fetchOnce, fetch_open hopen, hsent, hreply]
  cases response with
  | fetchResponse header results totalBatches batchIndex =>
      obtain ⟨accepted, haccept, h⟩ := Call.result_bind_ok.mp h
      obtain ⟨rows, -, h⟩ := Call.result_bind_ok.mp h
      obtain ⟨rowsDelivered, -, h⟩ := Call.result_bind_ok.mp h
      cases h
      have huuid := accept_resultUuid (of_attempt_ok haccept)
      exact ⟨hopen, rfl, rfl, huuid⟩
  | _ => cases h

end

/-! ### The invariants -/

/-- What holds of the shared state at all times. The numbers that were taken are `1, 2, …`, modulo the
size of the counter. -/
structure Ledger (shared : Shared) : Prop where
  oneByOne : OneByOne shared.log
  known : ∀ operation message, .request operation message ∈ shared.log → operation < shared.operations
  counter : shared.connection.queryCounter = BitVec.ofNat 64 (1 + shared.numbers)
  ids : ∃ ids : List Nat, NumberedBy shared.log (ids.map (BitVec.ofNat 64)) ∧ ids.Pairwise (· < ·) ∧
    ∀ id ∈ ids, id ≤ shared.numbers

/-- What holds while the stream of an operation has the lock. -/
structure Streams (log : List LogEntry) (operation : Nat) (resultUuid : HugeIntParts) : Prop where
  begun : ∃ prepare, prepare.prepares = true ∧ .request operation prepare ∈ log
  alone : Alone operation log
  latest : latestPrepared log = some resultUuid

def Work.Ready (log : List LogEntry) : Work → Prop
  | .call _ => True
  | .stream operation _ state => Streams log operation state.resultUuid
  | .failed => True

def HeldFor (shared : Shared) (work : Work) : Prop := Ledger shared ∧ work.Ready shared.log

section
variable {shared : Shared} {operation : Nat} {message : QuackMessage} {connection : Connection}
  {sent : List QuackMessage} {reply : Reply} {resultUuid : HugeIntParts}

theorem ledger_connected (connectionId : String) (quackVersion : U64) :
    Ledger (connected connectionId quackVersion) :=
  ⟨oneByOne_nil, fun _ _ h => absurd h List.not_mem_nil, rfl, [], rfl, .nil, by simp⟩

/-- The log with the reply to a request. -/
theorem ledger_responses (h : Ledger shared) (reply : Reply) :
    Ledger { shared with log := shared.log ++ responses reply } := by
  have hnone : Ledger { shared with log := shared.log ++ [] } := by
    rw [List.append_nil]
    exact h
  cases reply with
  | error e => exact hnone
  | ok response =>
      cases response with
      | prepareResponse header types names needsMore results resultUuid =>
          obtain ⟨ids, hids, hincreasing, hbound⟩ := h.ids
          refine ⟨oneByOne_prepared h.oneByOne, fun operation message hmem => ?_, h.counter,
            ids, numberedBy_prepared hids, hincreasing, hbound⟩
          rcases List.mem_append.mp hmem with hmem | hmem
          · exact h.known operation message hmem
          · cases List.mem_singleton.mp hmem
      | _ => exact hnone

/-- The number after the next one is the counter after it. -/
theorem counter_succ {counter : U64} {numbers : Nat} (h : counter = BitVec.ofNat 64 (1 + numbers)) :
    counter + 1 = BitVec.ofNat 64 (1 + (numbers + 1)) := by
  rw [h, ← Nat.add_assoc, BitVec.ofNat_add (1 + numbers) 1]
  rfl

theorem exchanged_idle (h : connection.queryCounter = shared.connection.queryCounter) :
    shared.exchanged operation connection [] reply =
      { shared with connection, operations := max shared.operations (operation + 1) } := by
  rw [Shared.exchanged, if_pos h]
  simp [exchange]

/-- A call that sends a request in its turn keeps the log in order. -/
theorem ledger_exchanged (h : Ledger shared) (hsends : Sends shared.connection connection sent message)
    (hturn : InTurn shared.log operation message) :
    Ledger (shared.exchanged operation connection sent reply) := by
  have hknown (operation' : Nat) (message' : QuackMessage)
      (hmem : .request operation' message' ∈ shared.log) :
      operation' < max shared.operations (operation + 1) :=
    lt_of_lt_of_le (h.known operation' message' hmem) (le_max_left _ _)
  rcases hsends.counter with ⟨hcounter, rfl⟩ | ⟨hcounter, hsent⟩
  · rw [exchanged_idle hcounter]
    exact ⟨h.oneByOne, hknown, hcounter.trans h.counter, h.ids⟩
  · have hmoved : connection.queryCounter ≠ shared.connection.queryCounter := by
      rw [hcounter]
      simp
    obtain ⟨ids, hids, hincreasing, hbound⟩ := h.ids
    have hnext : connection.queryCounter = BitVec.ofNat 64 (1 + (shared.numbers + 1)) :=
      hcounter.trans (counter_succ h.counter)
    rw [Shared.exchanged, if_neg hmoved]
    rcases hsent with rfl | rfl
    · rw [exchange, List.flatMap_nil, List.append_nil]
      exact ⟨h.oneByOne, hknown, hnext, ids, hids, hincreasing, fun id hid => Nat.le_succ_of_le (hbound id hid)⟩
    · rw [exchange, List.flatMap_singleton, List.append_cons]
      have hrequest : Ledger ⟨connection, shared.numbers + 1, max shared.operations (operation + 1),
          shared.log ++ [.request operation message]⟩ := by
        refine ⟨oneByOne_request h.oneByOne hturn, fun operation' message' hmem => ?_, hnext,
          ids ++ [1 + shared.numbers], ?_, ?_, fun id hid => ?_⟩
        · rcases List.mem_append.mp hmem with hmem | hmem
          · exact hknown operation' message' hmem
          · cases List.mem_singleton.mp hmem
            exact lt_of_lt_of_le (Nat.lt_succ_self operation) (le_max_right _ _)
        · rw [List.map_append, List.map_singleton, ← h.counter]
          exact numberedBy_request hids hsends.number
        · refine List.pairwise_append.mpr ⟨hincreasing, List.pairwise_singleton _ _, ?_⟩
          intro id hid last hlast
          rw [List.mem_singleton.mp hlast, Nat.add_comm]
          exact Nat.lt_succ_of_le (hbound id hid)
        · rcases List.mem_append.mp hid with hid | hid
          · exact Nat.le_succ_of_le (hbound id hid)
          · rw [List.mem_singleton.mp hid, Nat.add_comm]
      exact ledger_responses hrequest reply

theorem inTurn_prepare (h : Ledger shared) (hfetches : message.fetches = false) :
    InTurn shared.log shared.operations message := by
  refine ⟨fun _ other hmem => ?_, fun h => ?_, fun h => ?_, ?_⟩
  · exact absurd (h.known _ _ hmem) (Nat.lt_irrefl _)
  · cases hfetches.symm.trans h
  · cases hfetches.symm.trans h
  · rintro _ _ _ _ rfl
    cases hfetches

theorem inTurn_fetch {log : List LogEntry} {state : FetchState}
    (h : Streams log operation state.resultUuid) : InTurn log operation state.request := by
  refine ⟨fun hprepares => ?_, fun _ => h.begun, fun _ => h.alone, fun _ _ _ _ heq => ?_⟩
  · cases hprepares
  · cases heq
    exact h.latest

/-- An operation that sends nothing else until its PREPARE is answered has the connection for itself. -/
theorem streams_prepared (hfresh : ∀ message, .request operation message ∉ shared.log)
    (hprepares : message.prepares = true) :
    Streams (shared.log ++ [.request operation message, .prepared resultUuid]) operation resultUuid := by
  have hfirst (first second : LogEntry) (hmem : first ∈ shared.log) : ComesAfter operation first second := by
    rintro prepare _ _ rfl
    exact absurd hmem (hfresh prepare)
  have hlast (first : LogEntry) : ComesAfter operation first (.prepared resultUuid) := by
    rintro _ _ _ _ _ ⟨⟩
  refine ⟨⟨message, hprepares, by simp⟩, ?_, ?_⟩
  · refine List.pairwise_append.mpr ⟨?_, ?_, fun first hmem second _ => hfirst first second hmem⟩
    · exact List.pairwise_of_forall_mem_list fun first hmem second _ => hfirst first second hmem
    · refine List.pairwise_pair.mpr (hlast _)
  · rw [List.append_cons]
    exact latestPrepared_prepared

theorem streams_fetched {log : List LogEntry} {state : FetchState}
    (h : Streams log operation state.resultUuid) :
    Streams (log ++ [.request operation state.request]) operation state.resultUuid := by
  obtain ⟨prepare, hprepares, hmem⟩ := h.begun
  refine ⟨⟨prepare, hprepares, List.mem_append_left _ hmem⟩, ?_, latestPrepared_request.trans h.latest⟩
  refine List.pairwise_append.mpr ⟨h.alone, List.pairwise_singleton _ _, ?_⟩
  rintro first - second hsecond _ _ _ - - rfl
  cases List.mem_singleton.mp hsecond
  exact ⟨rfl, rfl⟩

variable {layout : Layout} {prims : Primitives}

/-- What a turn leaves: the lock given back, or work that has it ready. -/
def Leaves : Shared × Option Work → Prop
  | (shared, none) => Ledger shared
  | (shared, some work) => HeldFor shared work

theorem poll_query (h : Ledger shared) (sql : String) :
    Leaves (shared.poll layout prims reply (.call (.query sql))) := by
  have hledger : Ledger (shared.exchanged shared.operations shared.connection.afterPrepare
      (prepareQuery layout prims shared.connection sql reply).sent reply) :=
    ledger_exchanged h prepareQuery_sends (inTurn_prepare h rfl)
  rw [Shared.poll]
  cases hresult : (prepareQuery layout prims shared.connection sql reply).result with
  | error failure => exact hledger
  | ok prepared =>
      refine ⟨hledger, ?_⟩
      show Streams (shared.log ++ exchange _ _ _) _ _
      rw [prepareQuery_exchange hresult]
      refine streams_prepared (fun message hmem => ?_) rfl
      exact absurd (h.known _ _ hmem) (Nat.lt_irrefl _)

theorem poll_stream {names : List String} {state : FetchState} (h : Ledger shared)
    (hstreams : Streams shared.log operation state.resultUuid) :
    Leaves (shared.poll layout prims reply (.stream operation names state)) := by
  rw [Shared.poll]
  by_cases hmore : state.needsMoreFetch = true
  · rw [if_pos hmore]
    have hledger := @ledger_exchanged shared operation _ _ _ reply h
      (@fetchOnce_sends layout prims reply names { state with connection := shared.connection })
      (inTurn_fetch hstreams)
    cases hresult : (fetchOnce layout prims names { state with connection := shared.connection }
        ⟨shared.connection.closed, reply⟩).result with
    | error failure =>
        simp only [hresult]
        exact ⟨hledger, trivial⟩
    | ok result =>
        obtain ⟨next, chunks⟩ := result
        obtain ⟨-, hsent, hreply, huuid⟩ := fetchOnce_ok hresult
        simp only [hresult]
        refine ⟨hledger, ?_⟩
        show Streams (shared.log ++ exchange _ _ _) _ next.resultUuid
        rw [hsent, exchange, List.flatMap_singleton, hreply, huuid]
        exact streams_fetched hstreams
  · rw [if_neg hmore]
    exact h

/-- A poll of the holder, whatever its work. -/
theorem poll_leaves {work : Work} (h : HeldFor shared work) (reply : Reply) :
    Leaves (shared.poll layout prims reply work) := by
  cases work with
  | call operation =>
      cases operation with
      | query sql => exact poll_query h.1 sql
      | append tableName schemaName chunk => exact ledger_exchanged h.1 append_sends (inTurn_other rfl rfl)
      | disconnect => exact ledger_exchanged h.1 disconnect_sends (inTurn_other rfl rfl)
  | stream operation names state => exact poll_stream h.1 h.2
  | failed => exact h.1

theorem turns_leave {work : Work} {next : Option Work} {value : Shared} (h : HeldFor shared work)
    (hturn : Turns layout prims shared work value next) : Leaves (value, next) := by
  cases hturn with
  | polled reply => exact poll_leaves h reply
  | dropped => exact h.1

/-- A heartbeat that closes the connection has no part in the log. -/
theorem ledger_closed (h : Ledger shared) :
    Ledger { shared with connection := { shared.connection with closed := true } } :=
  ⟨h.oneByOne, h.known, h.counter, h.ids⟩

theorem clientProtocol_keeps : Locks.Keeps (clientProtocol layout prims) Ledger HeldFor where
  take h hbegins := by
    obtain ⟨operation, rfl⟩ := hbegins
    exact ⟨h, trivial⟩
  turn h hturn := turns_leave h hturn
  release h hturn := turns_leave h hturn
  outsideFree h houtside := by
    rw [houtside]
    exact ledger_closed h
  outsideHeld h houtside := by
    rw [houtside]
    exact ⟨ledger_closed h.1, h.2⟩

/-- The ids do not wrap around while there are numbers left. -/
theorem increasing_of_ledger (h : Ledger shared) (hnumbers : shared.numbers < 2 ^ 64) :
    ∃ ids, NumberedBy shared.log ids ∧ ids.Pairwise (· < ·) := by
  obtain ⟨ids, hids, hincreasing, hbound⟩ := h.ids
  refine ⟨_, hids, List.pairwise_map.mpr (hincreasing.imp_of_mem fun {a b} ha hb hlt => ?_)⟩
  have hsize {id : Nat} (hid : id ∈ ids) : (BitVec.ofNat 64 id).toNat = id := by
    rw [BitVec.toNat_ofNat]
    exact Nat.mod_eq_of_lt (Nat.lt_of_le_of_lt (hbound id hid) hnumbers)
  rw [BitVec.lt_def, hsize ha, hsize hb]
  exact hlt

/-- In every state that the tasks reach, one query at a time has been on the connection. -/
theorem oneQueryAtATime {Task : Type} [DecidableEq Task] {connectionId : String} {quackVersion : U64}
    {state : Locks.State Task Shared Work}
    (h : Locks.Reachable (clientProtocol layout prims) (connected connectionId quackVersion) state) :
    OneQueryAtATime state.value := by
  have hsound := Locks.Sound.reachable clientProtocol_keeps (ledger_connected connectionId quackVersion) h
  have hledger : Ledger state.value := by
    cases hholder : state.holder with
    | none => exact hsound.unlocked hholder
    | some task =>
        obtain ⟨work, -, hheld⟩ := hsound.locked task hholder
        exact hheld.1
  exact ⟨hledger.oneByOne, increasing_of_ledger hledger⟩

end

def preparedReply : Reply := .ok (.prepareResponse ⟨.prepareResponse, none, none⟩ [] [] true [] ⟨0, 0⟩)

def afterQuery : Shared × Option Work :=
  (connected "c" quackV1).poll .words .floatless preparedReply (.call (.query "SELECT"))

theorem afterQuery_streams : afterQuery.2 = some (.stream 0 [] preparedEmpty.state) := by
  have hresult : (prepareQuery .words .floatless (connected "c" quackV1).connection "SELECT"
      preparedReply).result = .ok preparedEmpty := prepareQuery_empty
  rw [afterQuery, Shared.poll, hresult]
  rfl

/-- One task drops its stream before it has fetched anything, and another one disconnects. -/
theorem oneQueryAtATime_dropped : OneQueryAtATime
    (afterQuery.1.poll .words .floatless (.ok (.successResponse ⟨.successResponse, none, none⟩))
      (.call .disconnect)).1 := by
  have hquery : Turns .words .floatless (connected "c" quackV1) (.call (.query "SELECT")) afterQuery.1
      (some (.stream 0 [] preparedEmpty.state)) := afterQuery_streams ▸ .polled preparedReply
  have hrun : Locks.Reachable (clientProtocol .words .floatless) (connected "c" quackV1) _ :=
    .tail (.tail (.tail (.tail (.tail (.tail (.tail .refl
      (.ask false rfl ⟨.query "SELECT", rfl⟩))
      (.ask true rfl ⟨.disconnect, rfl⟩))
      (.take false rfl rfl))
      (.turn false rfl hquery))
      (.release false rfl .dropped))
      (.take true rfl rfl))
      (.release true rfl (.polled (.ok (.successResponse ⟨.successResponse, none, none⟩))))
  exact oneQueryAtATime hrun

end QuackProtocol
