import QuackProtocol.Delivery
import QuackProtocol.OneQuery

/-! Tasks that share one client, and the server that they share it for. The server has one cursor: PREPARE sets
it to a new result, and FETCH takes the next batch from it. In whatever order the tasks go on, and whatever
becomes of a single request, the stream of each query yields the result of that query, from its beginning. -/

open Decoding Sending

namespace QuackProtocol

/-- The result that is being fetched, and how many of its batches have been sent. -/
structure Cursor where
  result : ServedResult
  sent : Nat

/-- What the server may do with a request, and what the client then has for a reply. The server may refuse any
request, and a reply may be lost; then nothing is known of the cursor. -/
inductive Serves (results : String → ServedResult → Prop) (quackVersion : U64) :
    Option Cursor → QuackMessage → Reply → Option Cursor → Prop where
  | prepared {cursor : Option Cursor} {result : ServedResult} {header : MessageHeader} {sql : String}
      {queryUuid : Option HugeIntParts} {inlineRows : Option U64} {response : QuackMessage}
      (holds : results sql result)
      (answer : result.Prepares (.prepareRequest header sql queryUuid inlineRows) response) :
      Serves results quackVersion cursor (.prepareRequest header sql queryUuid inlineRows) (.ok response)
        (some ⟨result, 0⟩)
  | fetched {result : ServedResult} {sent : Nat} {request response : QuackMessage}
      (answer : result.Fetches quackVersion sent request response) :
      Serves results quackVersion (some ⟨result, sent⟩) request (.ok response) (some ⟨result, sent + 1⟩)
  | other {cursor next : Option Cursor} {request : QuackMessage} {reply : Reply}
      (prepares : request.prepares = false) (fetches : request.fetches = false) :
      Serves results quackVersion cursor request reply next
  | refused {cursor next : Option Cursor} {request : QuackMessage} {header : MessageHeader} {text : String} :
      Serves results quackVersion cursor request (.ok (.errorResponse header text)) next
  | lost {cursor next : Option Cursor} {request : QuackMessage} {error : QuackError} :
      Serves results quackVersion cursor request (.error error) next

/-- Results as a server makes them: each column has a name, no batch is empty, and the batches are numbered. -/
structure ServedResult.Regular (result : ServedResult) : Prop where
  named : result.names.length = result.types.length
  filled : ∀ batch ∈ result.batches, batch ≠ []
  numbers : result.batches.length + 2 < 2 ^ 64

/-- The chunks of a result up to a batch, as a stream yields them. -/
def ServedResult.first (result : ServedResult) (count : Nat) : List DataChunk :=
  attachColumnNames result.names (result.inline ++ (result.batches.take count).flatten)

/-- What is behind the lock, the cursor of the server, and for each operation the query that it has prepared
with its result, the chunks that its stream has yielded, and whether it has come to its end. -/
structure Hosted where
  shared : Shared
  cursor : Option Cursor
  queries : Nat → Option (String × ServedResult)
  delivered : Nat → List DataChunk
  completed : List Nat

/-- A client that has connected. -/
def hostedConnected (connectionId : String) (quackVersion : U64) : Hosted :=
  ⟨connected connectionId quackVersion, none, fun _ => none, fun _ => [], []⟩

section
variable (layout : Layout) (prims : Primitives)

/-- The requests that a poll sends. -/
def Shared.requests (shared : Shared) (reply : Reply) : Work → List QuackMessage
  | .call (.query sql) => (prepareQuery layout prims shared.connection sql reply).sent
  | .call (.append tableName schemaName chunk) =>
    (shared.connection.append layout prims tableName schemaName chunk reply).sent
  | .call .disconnect => (shared.connection.disconnect layout prims reply).sent
  | .stream _ columnNames state =>
    if state.needsMoreFetch then
      (fetchOnce layout prims columnNames { state with connection := shared.connection }
        ⟨shared.connection.closed, reply⟩).sent
    else []
  | .failed => []

/-- The operation that the work belongs to. -/
def Shared.operation (shared : Shared) : Work → Nat
  | .stream operation _ _ => operation
  | _ => shared.operations

/-- A poll, with what the stream of an operation yields at it. -/
def Hosted.poll (hosted : Hosted) (reply : Reply) (cursor : Option Cursor) (work : Work) :
    Hosted × Option Work :=
  let connection := hosted.shared.connection
  let polled := hosted.shared.poll layout prims reply work
  let after := { hosted with shared := polled.1, cursor }
  match work with
  | .call (.query sql) =>
    match (prepareQuery layout prims connection sql reply).result with
    | .ok prepared =>
      let operation := hosted.shared.operations
      ({ after with
          queries := Function.update hosted.queries operation (cursor.map fun cursor => (sql, cursor.result))
          delivered := Function.update hosted.delivered operation prepared.chunks }, polled.2)
    | .error _ => (after, polled.2)
  | .stream operation columnNames state =>
    if state.needsMoreFetch then
      match (fetchOnce layout prims columnNames { state with connection } ⟨connection.closed, reply⟩).result with
      | .ok (_, chunks) =>
        ({ after with
            delivered := Function.update hosted.delivered operation (hosted.delivered operation ++ chunks) },
          polled.2)
      | .error _ => (after, polled.2)
    else
      ({ after with completed := operation :: hosted.completed }, polled.2)
  | _ => (after, polled.2)

variable (results : String → ServedResult → Prop)

/-- What the requests of a poll come to at the server. -/
def Hosted.Exchanges (hosted : Hosted) (reply : Reply) (cursor : Option Cursor) (work : Work) : Prop :=
  (hosted.shared.requests layout prims reply work = [] ∧ cursor = hosted.cursor) ∨
    ∃ request, hosted.shared.requests layout prims reply work = [request] ∧
      Serves results hosted.shared.connection.quackVersion hosted.cursor request reply cursor

/-- A turn under the lock: a poll that the server replies to, or the drop of the call or the stream. -/
inductive HostedTurns (hosted : Hosted) (work : Work) : Hosted → Option Work → Prop where
  | polled {reply : Reply} {cursor : Option Cursor}
      (exchanges : hosted.Exchanges layout prims results reply cursor work) :
      HostedTurns hosted work (hosted.poll layout prims reply cursor work).1
        (hosted.poll layout prims reply cursor work).2
  | dropped : HostedTurns hosted work hosted none

def Hosted.close (hosted : Hosted) : Hosted :=
  { hosted with shared := { hosted.shared with connection := { hosted.shared.connection with closed := true } } }

/-- The protocol of the client, with the server. -/
def hostedProtocol : Locks.Protocol Hosted Work where
  begins work := ∃ operation, work = .call operation
  turn := HostedTurns layout prims results
  outside hosted next := next = hosted.close

end

section
variable {layout : Layout} {prims : Primitives} {results : String → ServedResult → Prop} {hosted : Hosted}
  {shared : Shared} {reply : Reply} {cursor : Option Cursor} {work : Work}

theorem poll_shared : ((hosted.poll layout prims reply cursor work).1.shared,
    (hosted.poll layout prims reply cursor work).2) = hosted.shared.poll layout prims reply work := by
  unfold Hosted.poll
  cases work with
  | call operation =>
      cases operation with
      | query sql =>
          simp only
          split <;> rfl
      | append => rfl
      | disconnect => rfl
  | stream operation names state =>
      simp only
      split
      · split <;> rfl
      · rfl
  | failed => rfl

/-- A poll appends its request to the log. -/
theorem poll_log : (shared.poll layout prims reply work).1.log =
    shared.log ++ exchange (shared.operation work) (shared.requests layout prims reply work) reply := by
  cases work with
  | call operation =>
      cases operation with
      | query sql =>
          unfold Shared.poll
          simp only
          split <;> rfl
      | append => rfl
      | disconnect => rfl
  | stream operation names state =>
      unfold Shared.poll Shared.requests
      simp only
      split
      · split <;> rfl
      · exact (List.append_nil _).symm
  | failed => exact (List.append_nil _).symm

theorem hostedTurns_shared {next : Option Work} {value : Hosted}
    (h : HostedTurns layout prims results hosted work value next) :
    Turns layout prims hosted.shared work value.shared next := by
  cases h with
  | @polled reply cursor =>
      have hshared := @poll_shared layout prims hosted reply cursor work
      generalize hosted.poll layout prims reply cursor work = polled at hshared
      have hpolled := @Turns.polled layout prims hosted.shared work reply
      rw [← hshared] at hpolled
      exact hpolled
  | dropped => exact .dropped

/-- What the tasks do with this server they may do with any. -/
theorem hosted_reaches {Task : Type} [DecidableEq Task] {connectionId : String} {quackVersion : U64}
    {state : Locks.State Task Hosted Work}
    (h : Locks.Reachable (hostedProtocol layout prims results) (hostedConnected connectionId quackVersion) state) :
    Locks.Reachable (clientProtocol layout prims) (connected connectionId quackVersion)
      (state.project Hosted.shared) := by
  have hclose (value next : Hosted) (houtside : (hostedProtocol layout prims results).outside value next) :
      (clientProtocol layout prims).outside value.shared next.shared := by
    rw [show next = value.close from houtside]
    exact rfl
  exact @Locks.Reachable.project _ _ _ _ _ _ _ _ Hosted.shared _ (fun _ hbegins => hbegins)
    (fun _ _ _ _ hturn => hostedTurns_shared hturn) hclose h

section
variable {sql : String} {prepared : Prepared}

/-- A query that is prepared has set the cursor to the beginning of its result. -/
theorem prepared_exchanges
    (hok : (prepareQuery layout prims hosted.shared.connection sql reply).result = .ok prepared)
    (hexchanges : hosted.Exchanges layout prims results reply cursor (.call (.query sql))) :
    ∃ result needsMoreFetch, results sql result ∧ cursor = some ⟨result, 0⟩ ∧
      (needsMoreFetch = false → result.batches = []) ∧ totalRows result.inline < usizeLimit ∧
      prepared = ⟨result.names.zipWith ColumnDefinition.mk result.types,
        attachColumnNames result.names result.inline,
        ⟨{ hosted.shared.connection.numbered with
            queryUuidCounter := hosted.shared.connection.queryUuidCounter + 1 },
          result.resultUuid, needsMoreFetch, totalRows result.inline, 1, 0⟩⟩ := by
  obtain ⟨response, hprepare, hrest⟩ := Call.result_bind_ok.mp hok
  obtain ⟨hsent, rfl⟩ := prepare_ok hprepare
  rw [← sent_prepareQuery] at hsent
  rcases hexchanges with ⟨hnone, -⟩ | ⟨request, hrequest, hserves⟩
  · cases hsent.symm.trans hnone
  · cases (List.singleton_inj.mp (hsent.symm.trans hrequest))
    generalize hmessage : hosted.shared.connection.prepareRequest sql = message at hserves
    generalize hosted.cursor = before at hserves
    unfold Connection.prepareRequest at hmessage
    cases hserves with
    | prepared holds answer =>
        cases hmessage
        cases answer with
        | @intro _ _ _ _ _ needsMoreFetch more =>
            obtain ⟨rows, hrows, hrest⟩ := Call.result_bind_ok.mp hrest
            rw [countRows_eq] at hrows
            split at hrows
            · rename_i hfits
              cases hrows
              cases hrest
              exact ⟨_, needsMoreFetch, holds, rfl, more, hfits, rfl⟩
            · cases hrows
    | fetched answer =>
        subst hmessage
        cases answer
    | other hprepares =>
        subst hmessage
        cases hprepares
    | refused => cases hrest

end

section
variable {result : ServedResult} {index : Nat} {state next : FetchState} {names : List String}
  {chunks : List DataChunk}

/-- The reply to the FETCH for the batch after the cursor is that batch, or the end. -/
theorem fetched_reply {request : QuackMessage} {header : MessageHeader} {results' : List DataChunk}
    {totalBatches batchIndex : Option U64} {answer : Answer} (hregular : result.Regular)
    (hstate : state.At index) (hrequest : request = state.request) (ready : answer.closed = false)
    (hreply : answer.reply = .ok (.fetchResponse header results' totalBatches batchIndex))
    (h : Serves results state.connection.quackVersion (some ⟨result, index⟩) request answer.reply cursor) :
    cursor = some ⟨result, index + 1⟩ ∧
    (∀ _ : index < result.batches.length,
      answer.IsBatch state.connection.quackVersion (index + 1) result.batches[index]) ∧
    (index = result.batches.length → answer.IsEnd state.connection.quackVersion index) := by
  have hnumbers := hregular.numbers
  have hbatch (hresults : results' = result.batch (index + 1))
      (hmark : state.connection.quackVersion = quackV3 →
        batchIndex = (if index + 1 ≤ result.batches.length then some (BitVec.ofNat 64 (index + 1)) else none) ∧
        ∀ total, totalBatches = some total → total.toNat = result.batches.length) :
      (∀ _ : index < result.batches.length,
        answer.IsBatch state.connection.quackVersion (index + 1) result.batches[index]) ∧
      (index = result.batches.length → answer.IsEnd state.connection.quackVersion index) := by
    have hall := @batch_or_end _ _ id answer header totalBatches batchIndex index hregular.filled
      hregular.numbers ready (by rw [hreply, hresults, List.map_id]) hmark
    simpa only [List.map_id] using hall
  rw [hreply] at h
  cases h with
  | prepared holds answer => cases answer
  | fetched answer =>
      refine ⟨rfl, ?_⟩
      unfold FetchState.request Connection.fetchRequest Connection.onlyV3 at hrequest
      rcases hstate.version with hone | hthree
      · have hne : state.connection.quackVersion ≠ quackV3 := by
          rw [hone]
          decide
        simp only [if_neg hne] at hrequest
        cases answer with
        | next => exact hbatch rfl fun hthree => absurd hthree hne
        | asked =>
            injection hrequest with _ _ hasked
            cases hasked
      · have hnext : state.nextBatchIndex = BitVec.ofNat 64 (index + 1) := by
          rw [← hstate.next hthree, BitVec.ofNat_toNat, BitVec.setWidth_eq]
        have hnumber := hstate.next hthree
        simp only [if_pos hthree] at hrequest
        cases answer with
        | asked _ total =>
            injection hrequest with _ _ hasked
            cases hasked
            refine hbatch (by rw [hnumber]) fun _ => ⟨?_, total⟩
            rw [hnumber, hnext]
        | next =>
            injection hrequest with _ _ hasked
            cases hasked
  | other _ hfetches =>
      rw [hrequest] at hfetches
      cases hfetches

/-- A turn of the stream that is at the cursor yields the next batch of the result, or is its last one. -/
theorem fetched_exchanges {operation : Nat} (hregular : result.Regular)
    (hstate : FetchState.At { state with connection := hosted.shared.connection } index)
    (huuid : state.resultUuid = result.resultUuid) (hindex : index ≤ result.batches.length)
    (more : state.needsMoreFetch = true) (hcursor : hosted.cursor = some ⟨result, index⟩)
    (hok : (fetchOnce layout prims names { state with connection := hosted.shared.connection }
      ⟨hosted.shared.connection.closed, reply⟩).result = .ok (next, chunks))
    (hexchanges : hosted.Exchanges layout prims results reply cursor (.stream operation names state)) :
    (∃ _ : index < result.batches.length, cursor = some ⟨result, index + 1⟩ ∧
      chunks = attachColumnNames names result.batches[index] ∧ next.needsMoreFetch = true ∧
      next.At (index + 1) ∧ next.resultUuid = result.resultUuid ∧
      next.connection.quackVersion = hosted.shared.connection.quackVersion) ∨
    (index = result.batches.length ∧ chunks = [] ∧ next.needsMoreFetch = false) := by
  obtain ⟨ready, hsent, -, -⟩ := fetchOnce_ok hok
  rcases hexchanges with ⟨hnone, -⟩ | ⟨request, hrequest, hserves⟩
  · rw [Shared.requests, if_pos more, hsent] at hnone
    cases hnone
  · rw [Shared.requests, if_pos more, hsent] at hrequest
    rw [hcursor] at hserves
    have hends := @fetchOnce_ends layout prims names _ _ _ hstate ready
    rw [hok] at hends
    have hserved {header : MessageHeader} {results' : List DataChunk} {totalBatches batchIndex : Option U64}
        (hreply : reply = .ok (.fetchResponse header results' totalBatches batchIndex)) :=
      @fetched_reply _ _ _ _ { state with connection := hosted.shared.connection } _ _ _ _ _
        ⟨hosted.shared.connection.closed, reply⟩ hregular hstate
        (List.singleton_inj.mp hrequest).symm ready hreply hserves
    cases hends with
    | batch isBatch room rows after reached =>
        obtain ⟨-, -, header, totalBatches, batchIndex, hreply, -⟩ := id isBatch
        obtain ⟨hmoved, hbatch, hend⟩ := hserved hreply
        left
        have hlt : index < result.batches.length := lt_of_le_of_ne hindex fun heq =>
          (hend heq).not_isBatch isBatch
        cases (hbatch hlt).unique isBatch
        refine ⟨hlt, hmoved, rfl, after.more, reached, after.resultUuid.trans huuid, ?_⟩
        rw [after.connection]
        rfl
    | finished isEnd done =>
        obtain ⟨-, header, totalBatches, batchIndex, hreply, -⟩ := id isEnd
        obtain ⟨-, hbatch, -⟩ := hserved hreply
        right
        refine ⟨le_antisymm hindex (not_lt.mp fun hlt => isEnd.not_isBatch (hbatch hlt)), rfl, done⟩

end

/-! ### The invariants -/

/-- What an operation has had of its query: nothing yet, or the result of it from the beginning, to its end if
the stream has come to an end. -/
inductive Own (results : String → ServedResult → Prop) (hosted : Hosted) (operation : Nat) : Prop where
  | idle (queries : hosted.queries operation = none) (delivered : hosted.delivered operation = [])
      (running : operation ∉ hosted.completed)
  | query {sql : String} {result : ServedResult} {count : Nat} {header : MessageHeader}
      {queryUuid : Option HugeIntParts} (queries : hosted.queries operation = some (sql, result))
      (logged : .request operation (.prepareRequest header sql queryUuid none) ∈ hosted.shared.log)
      (holds : results sql result) (delivered : hosted.delivered operation = result.first count)
      (all : operation ∈ hosted.completed → result.batches.length ≤ count)

/-- What holds at all times. -/
structure Settled (results : String → ServedResult → Prop) (hosted : Hosted) : Prop where
  version : hosted.shared.connection.quackVersion = quackV1 ∨ hosted.shared.connection.quackVersion = quackV3
  own : ∀ operation, Own results hosted operation
  fresh : ∀ operation, hosted.shared.operations ≤ operation →
    hosted.queries operation = none ∧ operation ∉ hosted.completed

/-- What holds for the holder of the lock: the cursor of the server is where its stream is. -/
inductive AtCursor (hosted : Hosted) : Work → Prop where
  | call {operation : Operation} : AtCursor hosted (.call operation)
  | failed : AtCursor hosted .failed
  | fetching {operation : Nat} {names : List String} {state : FetchState} {sql : String} {result : ServedResult}
      {index : Nat} (queries : hosted.queries operation = some (sql, result)) (columns : names = result.names)
      (uuid : state.resultUuid = result.resultUuid) (more : state.needsMoreFetch = true)
      (cursor : hosted.cursor = some ⟨result, index⟩) (within : index ≤ result.batches.length)
      (place : FetchState.At { state with connection := hosted.shared.connection } index)
      (delivered : hosted.delivered operation = result.first index) (running : operation ∉ hosted.completed) :
      AtCursor hosted (.stream operation names state)
  | complete {operation : Nat} {names : List String} {state : FetchState} {sql : String}
      {result : ServedResult} (queries : hosted.queries operation = some (sql, result))
      (more : state.needsMoreFetch = false)
      (delivered : hosted.delivered operation = result.first result.batches.length) :
      AtCursor hosted (.stream operation names state)

def HeldAtCursor (results : String → ServedResult → Prop) (hosted : Hosted) (work : Work) : Prop :=
  Settled results hosted ∧ AtCursor hosted work

/-- What a turn leaves. -/
def LeavesSettled (results : String → ServedResult → Prop) (hosted : Hosted) : Option Work → Prop
  | none => Settled results hosted
  | some work => HeldAtCursor results hosted work

/-- A turn that changes nothing of what operations have had. -/
theorem Settled.moved {shared' : Shared} (h : Settled results hosted)
    (hversion : shared'.connection.quackVersion = hosted.shared.connection.quackVersion)
    (hoperations : hosted.shared.operations ≤ shared'.operations)
    (hlog : ∀ entry ∈ hosted.shared.log, entry ∈ shared'.log) :
    Settled results { hosted with shared := shared', cursor } := by
  refine ⟨hversion.symm ▸ h.version, fun operation => ?_,
    fun operation hfresh => h.fresh operation (hoperations.trans hfresh)⟩
  cases h.own operation with
  | idle queries delivered running => exact .idle queries delivered running
  | query queries logged holds delivered all => exact .query queries (hlog _ logged) holds delivered all

theorem poll_operations : shared.operations ≤ (shared.poll layout prims reply work).1.operations := by
  cases work with
  | call operation =>
      cases operation with
      | query sql =>
          unfold Shared.poll
          simp only
          split <;> exact le_max_left _ _
      | append => exact le_max_left _ _
      | disconnect => exact le_max_left _ _
  | stream operation names state =>
      unfold Shared.poll
      simp only
      split
      · split <;> exact le_max_left _ _
      · exact le_rfl
  | failed => exact le_rfl

theorem poll_version :
    (shared.poll layout prims reply work).1.connection.quackVersion = shared.connection.quackVersion := by
  cases work with
  | call operation =>
      cases operation with
      | query sql =>
          unfold Shared.poll
          simp only
          split <;> simp only [Shared.exchanged, Connection.afterPrepare] <;> split <;> rfl
      | append =>
          simp only [Shared.poll, Shared.exchanged, Connection.afterAppend]
          split <;> rfl
      | disconnect =>
          simp only [Shared.poll, Shared.exchanged, Connection.afterDisconnect]
          split
          · rfl
          · split <;> rfl
  | stream operation names state =>
      unfold Shared.poll
      simp only
      split
      · split <;> simp only [Shared.exchanged, Connection.afterFetch] <;> split <;> rfl
      · rfl
  | failed => rfl

/-- A poll changes nothing of what operations have had but what its stream yields. -/
theorem settled_polled (h : Settled results hosted) : Settled results
    { hosted with shared := (hosted.shared.poll layout prims reply work).1, cursor } :=
  h.moved poll_version poll_operations fun entry hmem => by
    rw [poll_log]
    exact List.mem_append_left _ hmem

/-- An operation that has had more of its query than before. -/
theorem Settled.update {operation : Nat} {queries : Nat → Option (String × ServedResult)}
    {delivered : Nat → List DataChunk} (h : Settled results hosted)
    (hknown : operation < hosted.shared.operations)
    (hqueries : ∀ other, other ≠ operation → queries other = hosted.queries other)
    (hdelivered : ∀ other, other ≠ operation → delivered other = hosted.delivered other)
    (hown : Own results { hosted with queries, delivered } operation) :
    Settled results { hosted with queries, delivered } := by
  refine ⟨h.version, fun other => ?_, fun other hfresh => ?_⟩
  · by_cases heq : other = operation
    · exact heq ▸ hown
    · cases h.own other with
      | idle none nothing running =>
          exact .idle ((hqueries other heq).trans none) ((hdelivered other heq).trans nothing) running
      | query some logged holds chunks all =>
          exact .query ((hqueries other heq).trans some) logged holds ((hdelivered other heq).trans chunks) all
  · have hne : other ≠ operation := fun heq => absurd hknown (not_lt.mpr (heq ▸ hfresh))
    obtain ⟨hnone, hrunning⟩ := h.fresh other hfresh
    exact ⟨(hqueries other hne).trans hnone, hrunning⟩

theorem first_succ {result : ServedResult} {index : Nat} (hlt : index < result.batches.length) :
    result.first index ++ attachColumnNames result.names result.batches[index] = result.first (index + 1) := by
  rw [ServedResult.first, ServedResult.first, attachColumnNames, attachColumnNames, ← List.map_append,
    List.append_assoc, List.take_add_one, List.flatten_append, List.getElem?_eq_getElem hlt]
  simp [attachColumnNames]

theorem poll_query_settled {sql : String} (hresults : ∀ sql result, results sql result → result.Regular)
    (h : Settled results hosted)
    (hexchanges : hosted.Exchanges layout prims results reply cursor (.call (.query sql))) :
    LeavesSettled results (hosted.poll layout prims reply cursor (.call (.query sql))).1
      (hosted.poll layout prims reply cursor (.call (.query sql))).2 := by
  have hsettled := @settled_polled layout prims results hosted reply cursor (.call (.query sql)) h
  have hlog := @poll_log layout prims hosted.shared reply (.call (.query sql))
  unfold Hosted.poll
  unfold Shared.poll at hsettled hlog ⊢
  simp only at hsettled hlog ⊢
  cases hok : (prepareQuery layout prims hosted.shared.connection sql reply).result with
  | error failure =>
      simp only [hok] at hsettled ⊢
      exact hsettled
  | ok prepared =>
      obtain ⟨result, needsMoreFetch, holds, rfl, hmore, hrows, hprepared⟩ :=
        prepared_exchanges hok hexchanges
      simp only [hok] at hsettled hlog ⊢
      have hregular := hresults _ _ holds
      have hnames : prepared.columns.map ColumnDefinition.name = result.names := by
        rw [hprepared, map_zipWith_left (fun _ _ => rfl), ← hregular.named, List.take_length]
      have hfirst : prepared.chunks = result.first 0 := by
        rw [hprepared, ServedResult.first, List.take_zero, List.flatten_nil, List.append_nil]
      have hrunning := (h.fresh _ le_rfl).2
      have hlogged : .request hosted.shared.operations (hosted.shared.connection.prepareRequest sql) ∈
          (hosted.shared.exchanged hosted.shared.operations hosted.shared.connection.afterPrepare
            (prepareQuery layout prims hosted.shared.connection sql reply).sent reply).log := by
        rw [hlog]
        refine List.mem_append_right _ ?_
        show _ ∈ exchange hosted.shared.operations
          (prepareQuery layout prims hosted.shared.connection sql reply).sent reply
        rw [prepareQuery_exchange hok]
        exact List.mem_cons_self
      refine ⟨hsettled.update (lt_of_lt_of_le (Nat.lt_succ_self _) (le_max_right _ _))
        (fun other hne => Function.update_of_ne hne ..) (fun other hne => Function.update_of_ne hne ..)
        (.query (Function.update_self ..) hlogged holds ((Function.update_self ..).trans hfirst)
          fun hdone => absurd hdone hrunning), ?_⟩
      cases needsMoreFetch with
      | true =>
          refine .fetching (Function.update_self ..) hnames (by rw [hprepared]) (by rw [hprepared]) rfl
            (Nat.zero_le _) ?_ ((Function.update_self ..).trans hfirst) hrunning
          rw [hprepared]
          exact ⟨hsettled.version, fun _ => rfl, fun _ => rfl, hrows⟩
      | false =>
          refine .complete (Function.update_self ..) (by rw [hprepared]) ((Function.update_self ..).trans ?_)
          rw [hfirst, hmore rfl]
          rfl

/-- The end of the stream of an operation that has had all of its result. -/
theorem Settled.complete {operation : Nat} {sql : String} {result : ServedResult} (h : Settled results hosted)
    (hqueries : hosted.queries operation = some (sql, result))
    (hdelivered : hosted.delivered operation = result.first result.batches.length) :
    Settled results { hosted with completed := operation :: hosted.completed } := by
  refine ⟨h.version, fun other => ?_, fun other hfresh => ?_⟩
  · cases h.own other with
    | idle none nothing running =>
        refine .idle none nothing (List.not_mem_cons_of_ne_of_not_mem (fun heq => ?_) running)
        rw [heq, hqueries] at none
        cases none
    | query queries logged holds delivered all =>
        by_cases heq : other = operation
        · subst heq
          cases hqueries.symm.trans queries
          exact .query hqueries logged holds hdelivered fun _ => le_rfl
        · exact .query queries logged holds delivered fun hmem =>
            all ((List.mem_cons.mp hmem).resolve_left heq)
  · obtain ⟨hnone, hrunning⟩ := h.fresh other hfresh
    refine ⟨hnone, List.not_mem_cons_of_ne_of_not_mem (fun heq => ?_) hrunning⟩
    rw [heq, hqueries] at hnone
    cases hnone

theorem poll_stream_settled {operation : Nat} {names : List String} {state : FetchState}
    (hresults : ∀ sql result, results sql result → result.Regular) (h : Settled results hosted)
    (hcursor : AtCursor hosted (.stream operation names state))
    (hexchanges : hosted.Exchanges layout prims results reply cursor (.stream operation names state)) :
    LeavesSettled results (hosted.poll layout prims reply cursor (.stream operation names state)).1
      (hosted.poll layout prims reply cursor (.stream operation names state)).2 := by
  have hsettled := @settled_polled layout prims results hosted reply cursor (.stream operation names state) h
  have hsame := @poll_version layout prims hosted.shared reply (.stream operation names state)
  unfold Hosted.poll
  unfold Shared.poll at hsettled hsame ⊢
  simp only at hsettled hsame ⊢
  cases hcursor with
  | @fetching _ _ _ sql result index queries columns uuid more hbefore within place delivered running =>
      rw [if_pos more] at hsettled hsame ⊢
      rw [if_pos more]
      cases hok : (fetchOnce layout prims names { state with connection := hosted.shared.connection }
          ⟨hosted.shared.connection.closed, reply⟩).result with
      | error failure =>
          simp only [hok] at hsettled ⊢
          exact ⟨hsettled, .failed⟩
      | ok turn =>
          obtain ⟨next, chunks⟩ := turn
          simp only [hok] at hsettled hsame ⊢
          have hknown : operation < max hosted.shared.operations (operation + 1) :=
            lt_of_lt_of_le (Nat.lt_succ_self _) (le_max_right _ _)
          cases hsettled.own operation with
          | idle none =>
              cases queries.symm.trans none
          | query queries' logged holds =>
              cases queries.symm.trans queries'
              rcases fetched_exchanges (hresults _ _ holds) place uuid within more hbefore hok hexchanges with
                ⟨hlt, hmoved, hchunks, hnext, hreached, huuid, hversion⟩ | ⟨hlast, hnone, hdone⟩
              · have hall : Function.update hosted.delivered operation (hosted.delivered operation ++ chunks)
                    operation = result.first (index + 1) := by
                  rw [Function.update_self, delivered, hchunks, columns, first_succ hlt]
                refine ⟨hsettled.update hknown (fun _ _ => rfl) (fun other hne => Function.update_of_ne hne ..)
                  (.query queries logged holds hall fun hdone => absurd hdone running), ?_⟩
                exact .fetching queries columns huuid hnext hmoved hlt
                  ⟨hsettled.version, fun hthree => hreached.next (hversion.trans (hsame.symm.trans hthree)),
                    fun hthree => hreached.ack (hversion.trans (hsame.symm.trans hthree)), hreached.rows⟩
                  hall running
              · have hall : Function.update hosted.delivered operation (hosted.delivered operation ++ chunks)
                    operation = result.first result.batches.length := by
                  rw [Function.update_self, delivered, hnone, List.append_nil, hlast]
                exact ⟨hsettled.update hknown (fun _ _ => rfl) (fun other hne => Function.update_of_ne hne ..)
                  (.query queries logged holds hall fun hdone => absurd hdone running),
                  .complete queries hdone hall⟩
  | complete queries more delivered =>
      have hnone : ¬ state.needsMoreFetch = true := by
        rw [more]
        exact Bool.false_ne_true
      rw [if_neg hnone] at hsettled ⊢
      rw [if_neg hnone]
      exact @Settled.complete results { hosted with shared := hosted.shared, cursor } _ _ _ hsettled queries
        delivered

theorem hostedTurns_settled {next : Option Work} {value : Hosted}
    (hresults : ∀ sql result, results sql result → result.Regular) (h : HeldAtCursor results hosted work)
    (hturn : HostedTurns layout prims results hosted work value next) : LeavesSettled results value next := by
  cases hturn with
  | dropped => exact h.1
  | @polled reply cursor exchanges =>
      cases work with
      | call operation =>
          cases operation with
          | query sql => exact poll_query_settled hresults h.1 exchanges
          | append tableName schemaName chunk =>
              exact @settled_polled layout prims results hosted reply cursor
                (.call (.append tableName schemaName chunk)) h.1
          | disconnect => exact @settled_polled layout prims results hosted reply cursor (.call .disconnect) h.1
      | stream operation names state => exact poll_stream_settled hresults h.1 h.2 exchanges
      | failed => exact @settled_polled layout prims results hosted reply cursor .failed h.1

/-- A heartbeat that closes the connection leaves the server where it is. -/
theorem settled_close (h : Settled results hosted) : Settled results hosted.close :=
  h.moved rfl le_rfl fun _ hmem => hmem

theorem atCursor_close (h : AtCursor hosted work) : AtCursor hosted.close work := by
  cases h with
  | call => exact .call
  | failed => exact .failed
  | fetching queries columns uuid more cursor within place delivered running =>
      exact .fetching queries columns uuid more cursor within
        ⟨place.version, place.next, place.ack, place.rows⟩ delivered running
  | complete queries more delivered => exact .complete queries more delivered

theorem hostedProtocol_keeps (hresults : ∀ sql result, results sql result → result.Regular) :
    Locks.Keeps (hostedProtocol layout prims results) (Settled results) (HeldAtCursor results) where
  take h hbegins := by
    obtain ⟨operation, rfl⟩ := hbegins
    exact ⟨h, .call⟩
  turn h hturn := hostedTurns_settled hresults h hturn
  release h hturn := hostedTurns_settled hresults h hturn
  outsideFree h houtside := by
    rw [houtside]
    exact settled_close h
  outsideHeld h houtside := by
    rw [houtside]
    exact ⟨settled_close h.1, atCursor_close h.2⟩

/-- Whatever the tasks do, in every state that they reach each operation has had the beginning of the result of
its own query, batch after batch, and all of it if its stream has come to an end. -/
theorem queries_isolated {Task : Type} [DecidableEq Task] {connectionId : String} {quackVersion : U64}
    {state : Locks.State Task Hosted Work}
    (hversion : quackVersion = quackV1 ∨ quackVersion = quackV3)
    (hresults : ∀ sql result, results sql result → result.Regular)
    (h : Locks.Reachable (hostedProtocol layout prims results) (hostedConnected connectionId quackVersion) state)
    (operation : Nat) : Own results state.value operation := by
  have hfirst : Settled results (hostedConnected connectionId quackVersion) :=
    ⟨hversion, fun _ => .idle rfl rfl List.not_mem_nil, fun _ _ => ⟨rfl, List.not_mem_nil⟩⟩
  have hsound := Locks.Sound.reachable (hostedProtocol_keeps hresults) hfirst h
  cases hholder : state.holder with
  | none => exact (hsound.unlocked hholder).own operation
  | some task =>
      obtain ⟨work, -, hheld⟩ := hsound.locked task hholder
      exact hheld.1.own operation

end

/-- The result of every query: one batch of one row without columns. -/
def oneBatch : ServedResult := ⟨[], [], ⟨0, 0⟩, [], [[rowsOnly 1]]⟩

theorem oneBatch_regular : oneBatch.Regular where
  named := rfl
  filled batch hmem := by
    rw [List.mem_singleton.mp hmem]
    exact List.cons_ne_nil _ _
  numbers := by decide

def afterHostedQuery : Hosted × Option Work :=
  (hostedConnected "c" quackV1).poll .words .floatless preparedReply (some ⟨oneBatch, 0⟩)
    (.call (.query "SELECT"))

theorem afterHostedQuery_streams : afterHostedQuery.2 = some (.stream 0 [] preparedEmpty.state) := by
  have hshared := @poll_shared .words .floatless (hostedConnected "c" quackV1) preparedReply (some ⟨oneBatch, 0⟩)
    (.call (.query "SELECT"))
  exact (congrArg Prod.snd hshared).trans afterQuery_streams

theorem exchanges_query : (hostedConnected "c" quackV1).Exchanges .words .floatless
    (fun _ result => result = oneBatch) preparedReply (some ⟨oneBatch, 0⟩) (.call (.query "SELECT")) := by
  have hresult : (prepareQuery .words .floatless (connected "c" quackV1).connection "SELECT"
      preparedReply).result = .ok preparedEmpty := prepareQuery_empty
  obtain ⟨response, hprepare, -⟩ := Call.result_bind_ok.mp hresult
  refine .inr ⟨_, sent_prepareQuery.trans (prepare_ok hprepare).1, ?_⟩
  exact .prepared rfl (.intro fun h => by cases h)

/-- One task has prepared a query and drops its stream; another one waits to disconnect, and does. -/
theorem queries_isolated_dropped :
    Own (fun _ result => result = oneBatch) (afterHostedQuery.1.poll .words .floatless
      (.ok (.successResponse ⟨.successResponse, none, none⟩)) afterHostedQuery.1.cursor (.call .disconnect)).1 0 := by
  have hquery : HostedTurns .words .floatless (fun _ result => result = oneBatch) (hostedConnected "c" quackV1)
      (.call (.query "SELECT")) afterHostedQuery.1 (some (.stream 0 [] preparedEmpty.state)) :=
    afterHostedQuery_streams ▸ .polled exchanges_query
  have hdisconnect : afterHostedQuery.1.Exchanges .words .floatless (fun _ result => result = oneBatch)
      (.ok (.successResponse ⟨.successResponse, none, none⟩)) afterHostedQuery.1.cursor (.call .disconnect) := by
    rcases (@disconnect_sends .words .floatless afterHostedQuery.1.shared.connection
      (.ok (.successResponse ⟨.successResponse, none, none⟩))).counter with ⟨-, hsent⟩ | ⟨-, hsent | hsent⟩
    · exact .inl ⟨hsent, rfl⟩
    · exact .inl ⟨hsent, rfl⟩
    · exact .inr ⟨_, hsent, .other rfl rfl⟩
  have hrun : Locks.Reachable (hostedProtocol .words .floatless fun _ result => result = oneBatch)
      (hostedConnected "c" quackV1) _ :=
    .tail (.tail (.tail (.tail (.tail (.tail (.tail .refl
      (.ask false rfl ⟨.query "SELECT", rfl⟩))
      (.ask true rfl ⟨.disconnect, rfl⟩))
      (.take false rfl rfl))
      (.turn false rfl hquery))
      (.release false rfl .dropped))
      (.take true rfl rfl))
      (.release true rfl (.polled hdisconnect))
  refine queries_isolated (.inl rfl) (fun sql result holds => ?_) hrun 0
  rw [holds]
  exact oneBatch_regular

end QuackProtocol
