import QuackProtocol.AppendBatches
import QuackProtocol.Queries

/-! The order of a result stream: the batches that the server is asked for are those it has not sent yet,
one after the other, and their chunks are yielded in that order; any other reply ends the stream. -/

open Decoding Sending

namespace QuackProtocol

/-- The reply is batch `index` of the result: on protocol v3 it says so. -/
def Answer.IsBatch (version : U64) (answer : Answer) (index : Nat) (results : List DataChunk) : Prop :=
  answer.closed = false ∧ results ≠ [] ∧ ∃ header totalBatches batchIndex,
    answer.reply = .ok (.fetchResponse header results totalBatches batchIndex) ∧
    (version = quackV3 → batchIndex.map BitVec.toNat = some index)

/-- The reply is the end of a result of `count` batches: on protocol v3 it has no index and announces no
other number of batches. -/
def Answer.IsEnd (version : U64) (answer : Answer) (count : Nat) : Prop :=
  answer.closed = false ∧ ∃ header totalBatches batchIndex,
    answer.reply = .ok (.fetchResponse header [] totalBatches batchIndex) ∧
    (version = quackV3 → batchIndex = none ∧ ∀ total, totalBatches = some total → total.toNat = count)

/-- The state of a stream that has delivered `index` batches. -/
structure FetchState.At (state : FetchState) (index : Nat) : Prop where
  version : state.connection.quackVersion = quackV1 ∨ state.connection.quackVersion = quackV3
  next : state.connection.quackVersion = quackV3 → state.nextBatchIndex.toNat = index + 1
  ack : state.connection.quackVersion = quackV3 → state.ackIndex.toNat = index
  rows : state.rowsDelivered < usizeLimit

/-- The request that asks for the next batch. -/
def FetchState.request (state : FetchState) : QuackMessage :=
  state.connection.fetchRequest state.resultUuid state.nextBatchIndex state.ackIndex

/-- The state after a batch. -/
structure FetchState.After (state : FetchState) (results : List DataChunk) (next : FetchState) : Prop where
  connection : next.connection = { state.connection.numbered with closed := next.connection.closed }
  resultUuid : next.resultUuid = state.resultUuid
  rowsDelivered : next.rowsDelivered = state.rowsDelivered + totalRows results
  more : next.needsMoreFetch = true

section
variable {layout : Layout} {prims : Primitives} {names : List String} {state : FetchState}
  {answer : Answer} {index : Nat}

theorem writes_hugeIntParts (value : HugeIntParts) : (writeHugeIntParts value).Writes :=
  Encode.writes_append.mpr ⟨Encode.writes_ok _, Encode.writes_ok _⟩

theorem writes_optionalIndexDefaultZero (fieldId : Nat) (value : U64) :
    (writeOptionalIndexDefaultZero fieldId value).Writes := by
  unfold writeOptionalIndexDefaultZero
  split
  · exact Encode.writes_field.mpr (Encode.writes_ok _)
  · exact Encode.writes_ok _

theorem writes_nil : ∀ action ∈ ([] : List Encode), action.Writes :=
  fun _ hmem => absurd hmem List.not_mem_nil

/-- A FETCH is always encoded. -/
theorem writes_fetchRequest {connection : Connection} (resultUuid : HugeIntParts) (batchIndex ackIndex : U64)
    (hversion : connection.quackVersion = quackV1 ∨ connection.quackVersion = quackV3) :
    (encodeMessageForVersion layout prims (connection.fetchRequest resultUuid batchIndex ackIndex)
      connection.quackVersion).Writes := by
  unfold encodeMessageForVersion Connection.fetchRequest
  rcases hversion with hversion | hversion
  · rw [if_pos hversion, Encode.writes_append, encodeBodyV1, Encode.writes_object, Encode.writes_all]
    simp only [List.forall_mem_cons, Encode.writes_field, writes_hugeIntParts, true_and]
    exact ⟨writes_header _, writes_nil⟩
  · have hne : connection.quackVersion ≠ quackV1 := by
      rw [hversion]
      decide
    rw [if_neg hne, if_pos hversion, Encode.writes_append, Connection.onlyV3, if_pos hversion]
    rw [encodeBodyV3, Encode.writes_object, Encode.writes_all]
    simp only [List.forall_mem_cons, Encode.writes_field, writes_hugeIntParts, true_and,
      writes_optionalIndexDefaultZero]
    exact ⟨writes_header _, writes_nil⟩

theorem writes_request (hstate : state.At index) :
    (encodeMessageForVersion layout prims state.request state.connection.quackVersion).Writes :=
  writes_fetchRequest _ _ _ hstate.version

/-- How one turn of the loop ends once its FETCH is sent. -/
inductive FetchEnds (names : List String) (state : FetchState) (answer : Answer) (index : Nat) :
    Except Failure (FetchState × List DataChunk) → Prop where
  | batch {results : List DataChunk} {next : FetchState}
      (reply : answer.IsBatch state.connection.quackVersion (index + 1) results)
      (room : state.connection.quackVersion = quackV3 → index + 2 < 2 ^ 64)
      (rows : state.rowsDelivered + totalRows results < usizeLimit)
      (after : state.After results next) (reached : next.At (index + 1)) :
      FetchEnds names state answer index (.ok (next, attachColumnNames names results))
  | finished {next : FetchState} (reply : answer.IsEnd state.connection.quackVersion index)
      (more : next.needsMoreFetch = false) : FetchEnds names state answer index (.ok (next, []))
  | uncounted {results : List DataChunk} {cause : Panic}
      (reply : answer.IsBatch state.connection.quackVersion (index + 1) results)
      (room : state.connection.quackVersion = quackV3 → index + 2 < 2 ^ 64)
      (rows : usizeLimit ≤ state.rowsDelivered + totalRows results) :
      FetchEnds names state answer index (.error (.panic cause))
  | last {error : QuackError} (version : state.connection.quackVersion = quackV3)
      (full : index + 2 = 2 ^ 64) : FetchEnds names state answer index (.error (.error .reply error))
  | refused {stage : Stage} {error : QuackError}
      (batch : ∀ results, ¬ answer.IsBatch state.connection.quackVersion (index + 1) results)
      (finish : ¬ answer.IsEnd state.connection.quackVersion index) :
      FetchEnds names state answer index (.error (.error stage error))

/-- What the reply to a request that was sent comes to. -/
def answered (reply : Reply) : Except Failure QuackMessage :=
  match reply with
  | .ok (.errorResponse _ text) => .error (.error .exchange (.server text))
  | .ok response => .ok response
  | .error e => .error (.error .exchange e)

theorem send_encoded {connection : Connection} {message : QuackMessage} {bytes : Bytes}
    (encoded : encodeMessageForVersion layout prims message connection.quackVersion = .ok bytes)
    (reply : Reply) : connection.send layout prims message reply = ⟨[message], answered reply⟩ := by
  unfold Connection.send
  rw [encoded]
  rfl

theorem fetch_ready (hstate : state.At index) (ready : answer.closed = false) :
    Connection.fetch layout prims { state.connection with closed := answer.closed } state.resultUuid
      state.nextBatchIndex state.ackIndex answer.reply = ⟨[state.request], answered answer.reply⟩ := by
  obtain ⟨bytes, hbytes⟩ := @writes_request layout prims _ _ hstate
  rw [Connection.fetch, Connection.ensureOpen, ready]
  show Call.step (.ok ()) >>= _ = _
  rw [Call.step_ok_bind]
  exact send_encoded hbytes answer.reply

theorem countRows_eq (rows : Nat) : countRows rows =
    if rows < usizeLimit then Call.step (.ok rows) else Call.step (.error (.panic .overflow)) := by
  unfold countRows
  split <;> rfl

/-- The rows of a batch are counted before its chunks are yielded. -/
theorem counted_ends {results : List DataChunk} {accepted : FetchState}
    (reply : answer.IsBatch state.connection.quackVersion (index + 1) results)
    (room : state.connection.quackVersion = quackV3 → index + 2 < 2 ^ 64) (connection : Connection)
    (after : state.rowsDelivered + totalRows results < usizeLimit →
      state.After results { accepted with
        connection, rowsDelivered := state.rowsDelivered + totalRows results } ∧
      FetchState.At { accepted with
        connection, rowsDelivered := state.rowsDelivered + totalRows results } (index + 1)) :
    FetchEnds names state answer index (Call.result (do
      let rows ← countRows (totalRows results)
      let rowsDelivered ← countRows (state.rowsDelivered + rows)
      pure ({ accepted with connection, rowsDelivered }, attachColumnNames names results))) := by
  by_cases hrows : state.rowsDelivered + totalRows results < usizeLimit
  · have hown : totalRows results < usizeLimit := by omega
    obtain ⟨hafter, hreached⟩ := after hrows
    rw [countRows_eq, if_pos hown, Call.step_ok_bind, countRows_eq, if_pos hrows, Call.step_ok_bind]
    exact .batch reply room hrows hafter hreached
  · have hover : usizeLimit ≤ state.rowsDelivered + totalRows results := by omega
    rw [countRows_eq]
    split
    · rw [Call.step_ok_bind, countRows_eq, if_neg hrows]
      exact .uncounted reply room hover
    · exact .uncounted reply room hover

/-- The end of a result leaves nothing to count. -/
theorem finished_ends {accepted : FetchState} (hstate : state.At index)
    (reply : answer.IsEnd state.connection.quackVersion index) (connection : Connection)
    (more : accepted.needsMoreFetch = false) :
    FetchEnds names state answer index (Call.result (do
      let rows ← countRows (totalRows [])
      let rowsDelivered ← countRows (state.rowsDelivered + rows)
      pure ({ accepted with connection, rowsDelivered }, attachColumnNames names []))) := by
  have hnone : totalRows [] < usizeLimit := by decide
  have hrows : state.rowsDelivered + totalRows [] < usizeLimit := hstate.rows
  rw [countRows_eq, if_pos hnone, Call.step_ok_bind, countRows_eq, if_pos hrows, Call.step_ok_bind]
  exact .finished reply more

theorem not_batch_of_reply {version : U64}
    (h : ∀ header results totalBatches batchIndex,
      answer.reply ≠ .ok (.fetchResponse header results totalBatches batchIndex)) :
    (∀ results, ¬ answer.IsBatch version (index + 1) results) ∧ ¬ answer.IsEnd version index := by
  constructor
  · rintro results ⟨-, -, header, totalBatches, batchIndex, hreply, -⟩
    exact h header results totalBatches batchIndex hreply
  · rintro ⟨-, header, totalBatches, batchIndex, hreply, -⟩
    exact h header [] totalBatches batchIndex hreply

/-- The state of the stream after it took a batch, but for the connection and the rows. -/
structure FetchState.Advanced (state : FetchState) (index : Nat) (accepted : FetchState) : Prop where
  resultUuid : accepted.resultUuid = state.resultUuid
  more : accepted.needsMoreFetch = true
  next : state.connection.quackVersion = quackV3 → accepted.nextBatchIndex.toNat = index + 2
  ack : state.connection.quackVersion = quackV3 → accepted.ackIndex.toNat = index + 1

/-- A FETCH_RESPONSE is accepted as the next batch or as the end. -/
theorem accept_ok {results : List DataChunk} {totalBatches batchIndex : Option U64} {accepted : FetchState}
    (hstate : state.At index) (h : state.accept results totalBatches batchIndex = .ok accepted) :
    (results ≠ [] ∧
      (state.connection.quackVersion = quackV3 → batchIndex.map BitVec.toNat = some (index + 1)) ∧
      (state.connection.quackVersion = quackV3 → index + 2 < 2 ^ 64) ∧ state.Advanced index accepted) ∨
    (results = [] ∧ (state.connection.quackVersion = quackV3 → batchIndex = none ∧
      ∀ total, totalBatches = some total → total.toNat = index) ∧ accepted.needsMoreFetch = false) := by
  unfold FetchState.accept at h
  by_cases hversion : state.connection.quackVersion = quackV3
  · have hnext := hstate.next hversion
    have hack := hstate.ack hversion
    rw [if_pos hversion] at h
    cases batchIndex with
    | some batchIndex =>
        simp only at h
        split_ifs at h with hindex hempty hfull
        cases h
        have hne : results ≠ [] := fun h => hempty (h ▸ rfl)
        have hroom : index + 2 < 2 ^ 64 := by
          have hlt := state.nextBatchIndex.isLt
          have hlast : state.nextBatchIndex.toNat ≠ 2 ^ 64 - 1 := fun h => hfull (BitVec.eq_of_toNat_eq h)
          omega
        refine .inl ⟨hne, fun _ => ?_, fun _ => hroom, rfl, rfl, fun _ => ?_, fun _ => ?_⟩
        · rw [hindex, Option.map_some, hnext]
        · show (state.nextBatchIndex + 1).toNat = index + 2
          rw [BitVec.toNat_add, hnext]
          exact Nat.mod_eq_of_lt hroom
        · rw [hindex, hnext]
    | none =>
        simp only at h
        split_ifs at h with hempty
        have hnone : results = [] := List.isEmpty_iff.mp hempty
        cases totalBatches with
        | none =>
            cases h
            exact .inr ⟨hnone, fun _ => ⟨rfl, fun _ htotal => by cases htotal⟩, rfl⟩
        | some total =>
            simp only at h
            split_ifs at h with htotal
            cases h
            refine .inr ⟨hnone, fun _ => ⟨rfl, ?_⟩, rfl⟩
            rintro _ ⟨⟩
            rw [not_not.mp htotal, hack]
  · rw [if_neg hversion] at h
    cases h
    cases hempty : results.isEmpty with
    | true => exact .inr ⟨List.isEmpty_iff.mp hempty, fun h => absurd h hversion, by simp⟩
    | false =>
        refine .inl ⟨fun h => ?_, fun h => absurd h hversion, fun h => absurd h hversion, rfl, by simp,
          fun h => absurd h hversion, fun h => absurd h hversion⟩
        rw [h] at hempty
        cases hempty

/-- Only the last index and a reply that is neither the next batch nor the end are refused. -/
theorem accept_error {results : List DataChunk} {totalBatches batchIndex : Option U64} {error : QuackError}
    (hstate : state.At index) (h : state.accept results totalBatches batchIndex = .error error) :
    (state.connection.quackVersion = quackV3 ∧ index + 2 = 2 ^ 64) ∨
    (¬ (results ≠ [] ∧
      (state.connection.quackVersion = quackV3 → batchIndex.map BitVec.toNat = some (index + 1))) ∧
      ¬ (results = [] ∧ (state.connection.quackVersion = quackV3 → batchIndex = none ∧
        ∀ total, totalBatches = some total → total.toNat = index))) := by
  unfold FetchState.accept at h
  by_cases hversion : state.connection.quackVersion = quackV3
  · have hnext := hstate.next hversion
    have hack := hstate.ack hversion
    rw [if_pos hversion] at h
    cases batchIndex with
    | some batchIndex =>
        have hend : ¬ (results = [] ∧ (state.connection.quackVersion = quackV3 → some batchIndex = none ∧
            ∀ total, totalBatches = some total → total.toNat = index)) := fun h => by cases (h.2 hversion).1
        simp only at h
        split_ifs at h with hindex hempty hfull
        · exact .inr ⟨fun h => h.1 (List.isEmpty_iff.mp hempty), hend⟩
        · rw [hfull, BitVec.toNat_allOnes] at hnext
          exact .inl ⟨hversion, by omega⟩
        · refine .inr ⟨fun h => hindex (BitVec.eq_of_toNat_eq ?_), hend⟩
          rw [hnext]
          exact Option.some.inj (h.2 hversion)
    | none =>
        have hbatch : ¬ (results ≠ [] ∧
            (state.connection.quackVersion = quackV3 → (none : Option U64).map BitVec.toNat = some (index + 1))) :=
          fun h => by cases h.2 hversion
        refine .inr ⟨hbatch, fun hend => ?_⟩
        simp only at h
        split_ifs at h with hempty
        · cases totalBatches with
          | none => cases h
          | some total =>
              simp only at h
              split_ifs at h with htotal
              exact htotal (BitVec.eq_of_toNat_eq (((hend.2 hversion).2 total rfl).trans hack.symm))
        · exact hempty (hend.1 ▸ rfl)
  · rw [if_neg hversion] at h
    cases h

section
variable {header : MessageHeader} {results : List DataChunk} {totalBatches batchIndex : Option U64}
  (ready : answer.closed = false)
  (hreply : answer.reply = .ok (.fetchResponse header results totalBatches batchIndex))
include ready hreply

theorem isBatch_iff {version : U64} : answer.IsBatch version (index + 1) results ↔
    results ≠ [] ∧ (version = quackV3 → batchIndex.map BitVec.toNat = some (index + 1)) := by
  constructor
  · rintro ⟨-, hne, _, _, _, hreply', hindex⟩
    cases hreply.symm.trans hreply'
    exact ⟨hne, hindex⟩
  · rintro ⟨hne, hindex⟩
    exact ⟨ready, hne, header, totalBatches, batchIndex, hreply, hindex⟩

theorem isEnd_iff {version : U64} : answer.IsEnd version index ↔ results = [] ∧
    (version = quackV3 → batchIndex = none ∧ ∀ total, totalBatches = some total → total.toNat = index) := by
  constructor
  · rintro ⟨-, _, _, _, hreply', hend⟩
    cases hreply.symm.trans hreply'
    exact ⟨rfl, hend⟩
  · rintro ⟨rfl, hend⟩
    exact ⟨ready, header, totalBatches, batchIndex, hreply, hend⟩

theorem refused_of_reply {version : U64} (hbatch : ¬ (results ≠ [] ∧
      (version = quackV3 → batchIndex.map BitVec.toNat = some (index + 1))))
    (hend : ¬ (results = [] ∧ (version = quackV3 → batchIndex = none ∧
      ∀ total, totalBatches = some total → total.toNat = index))) :
    (∀ others, ¬ answer.IsBatch version (index + 1) others) ∧ ¬ answer.IsEnd version index := by
  refine ⟨?_, fun h => hend ((isEnd_iff ready hreply).mp h)⟩
  rintro others ⟨hready, hne, header', totalBatches', batchIndex', hreply', hindex⟩
  cases hreply.symm.trans hreply'
  exact hbatch ⟨hne, hindex⟩

/-- How a turn of the loop ends where a FETCH_RESPONSE answers it. -/
theorem accept_ends (hstate : state.At index) (connection : Connection)
    (hconnection : connection = { state.connection.numbered with closed := connection.closed }) :
    FetchEnds names state answer index (Call.result (do
      let accepted ← attempt .reply (state.accept results totalBatches batchIndex)
      let rows ← countRows (totalRows results)
      let rowsDelivered ← countRows (state.rowsDelivered + rows)
      pure ({ accepted with connection, rowsDelivered }, attachColumnNames names results))) := by
  have hattempt (x : Result FetchState) {f : FetchState → ClientCall (FetchState × List DataChunk)} :
      (∀ accepted, x = .ok accepted → FetchEnds names state answer index (f accepted).result) →
      (∀ error, x = .error error → FetchEnds names state answer index (.error (.error .reply error))) →
      FetchEnds names state answer index (attempt .reply x >>= f).result := by
    intro hok herror
    cases x with
    | ok accepted =>
        show FetchEnds _ _ _ _ (Call.step (.ok accepted) >>= f).result
        rw [Call.step_ok_bind]
        exact hok accepted rfl
    | error error => exact herror error rfl
  refine hattempt _ (fun accepted haccept => ?_) fun error haccept => ?_
  · rcases accept_ok hstate haccept with ⟨hne, hindex, hroom, hadvanced⟩ | ⟨rfl, hend, hmore⟩
    · refine counted_ends ((isBatch_iff ready hreply).mpr ⟨hne, hindex⟩) hroom connection fun hrows => ?_
      refine ⟨⟨hconnection, hadvanced.resultUuid, rfl, hadvanced.more⟩, ?_⟩
      have hversion : connection.quackVersion = state.connection.quackVersion := by
        rw [hconnection]
        rfl
      exact ⟨hversion ▸ hstate.version, hversion ▸ hadvanced.next, hversion ▸ hadvanced.ack, hrows⟩
    · exact finished_ends hstate ((isEnd_iff ready hreply).mpr ⟨rfl, hend⟩) connection hmore
  · rcases accept_error hstate haccept with ⟨hversion, hfull⟩ | ⟨hbatch, hend⟩
    · exact .last hversion hfull
    · obtain ⟨hbatch, hend⟩ := refused_of_reply ready hreply hbatch hend
      exact .refused hbatch hend

end

theorem fetchOnce_closed (closed : answer.closed = true) :
    ∃ error, fetchOnce layout prims names state answer = ⟨[], .error (.error .connection error)⟩ := by
  unfold fetchOnce
  rw [closed]
  exact ⟨_, rfl⟩

theorem fetchOnce_sent (hstate : state.At index) (ready : answer.closed = false) :
    (fetchOnce layout prims names state answer).sent = [state.request] := by
  have hfetch := @fetch_ready layout prims _ _ _ hstate ready
  unfold fetchOnce
  simp only [hfetch]
  cases hreply : answered answer.reply with
  | error failure => rfl
  | ok response =>
      rw [Call.bind_ok _ rfl]
      show [state.request] ++ _ = [state.request]
      refine (List.append_right_eq_self).mpr ?_
      cases response with
      | fetchResponse =>
          exact Call.sent_bind_of_silent fun _ => Call.sent_bind_of_silent fun _ =>
            Call.sent_bind_of_silent fun _ => rfl
      | _ => rfl

theorem fetchOnce_ends (hstate : state.At index) (ready : answer.closed = false) :
    FetchEnds names state answer index (fetchOnce layout prims names state answer).result := by
  have hfetch := @fetch_ready layout prims _ _ _ hstate ready
  unfold fetchOnce
  simp only [hfetch]
  have hother (h : ∀ header results totalBatches batchIndex,
      answer.reply ≠ .ok (.fetchResponse header results totalBatches batchIndex)) (stage : Stage)
      (error : QuackError) : FetchEnds names state answer index (.error (.error stage error)) :=
    .refused (not_batch_of_reply h).1 (not_batch_of_reply h).2
  cases hreply : answer.reply with
  | error e => exact hother (fun _ _ _ _ h => by cases hreply.symm.trans h) _ _
  | ok response =>
      cases response with
      | fetchResponse header results totalBatches batchIndex =>
          exact accept_ends ready hreply hstate _ rfl
      | _ => exact hother (fun _ _ _ _ h => by cases hreply.symm.trans h) _ _

end

/-! ### Runs -/

/-- How the stream stands after `batches`, of which the first has number `index + 1`. -/
inductive EndsInOrder (version : U64) (needsMore : Bool) (index : Nat) (answers : List Answer)
    (batches : List (List DataChunk)) : Option (Except Failure Unit) → Prop where
  | waiting (more : needsMore = true) (all : batches.length = answers.length) :
      EndsInOrder version needsMore index answers batches none
  | complete (more : needsMore = false) (none : batches = []) :
      EndsInOrder version needsMore index answers batches (some (.ok ()))
  | finished {answer : Answer} (more : needsMore = true) (next : answers[batches.length]? = some answer)
      (reply : answer.IsEnd version (index + batches.length)) :
      EndsInOrder version needsMore index answers batches (some (.ok ()))
  | refused {answer : Answer} {stage : Stage} {error : QuackError} (more : needsMore = true)
      (next : answers[batches.length]? = some answer)
      (batch : ∀ results, ¬ answer.IsBatch version (index + batches.length + 1) results)
      (finish : ¬ answer.IsEnd version (index + batches.length)) :
      EndsInOrder version needsMore index answers batches (some (.error (.error stage error)))
  | last {answer : Answer} {stage : Stage} {error : QuackError} (more : needsMore = true)
      (next : answers[batches.length]? = some answer) (indexed : version = quackV3)
      (full : index + batches.length + 2 = 2 ^ 64) :
      EndsInOrder version needsMore index answers batches (some (.error (.error stage error)))

/-- The FETCH_REQUEST after `index` batches: on protocol v3 it asks for batch `index + 1` and acknowledges
batch `index`. -/
def batchRequest (connection : Connection) (resultUuid : HugeIntParts) (index : Nat) : QuackMessage :=
  Connection.fetchRequest { connection with queryCounter := connection.queryCounter + BitVec.ofNat 64 index }
    resultUuid (BitVec.ofNat 64 (index + 1)) (BitVec.ofNat 64 index)

/-- The stream of a result goes over the batches in order: each is asked for by its number and its chunks
are yielded once, after `inline`. -/
structure InOrder (connection : Connection) (resultUuid : HugeIntParts) (names : List String)
    (needsMore : Bool) (inline : List DataChunk) (index : Nat) (answers : List Answer)
    (batches : List (List DataChunk)) (run : StreamRun) : Prop where
  accepted : ∀ k (h : k < batches.length), ∃ answer, answers[k]? = some answer ∧
    answer.IsBatch connection.quackVersion (index + k + 1) batches[k]
  requests : ∃ sent, batches.length ≤ sent ∧ sent ≤ batches.length + 1 ∧
    run.requests = (List.range' index sent).map (batchRequest connection resultUuid)
  chunks : run.chunks = inline ++ batches.flatMap (attachColumnNames names)
  ending : EndsInOrder connection.quackVersion needsMore index answers batches run.ending

/-- As long as the replies are the batches in order, the rows delivered can be counted. -/
def RowsFit (version : U64) (rows index : Nat) : List Answer → Prop
  | [] => True
  | answer :: answers => ∀ results, answer.IsBatch version (index + 1) results →
      (version = quackV3 → index + 2 < 2 ^ 64) →
      rows + totalRows results < usizeLimit ∧ RowsFit version (rows + totalRows results) (index + 1) answers

/-- The state of a stream after `index` batches of a result. -/
structure FetchState.Reached (state : FetchState) (connection : Connection) (resultUuid : HugeIntParts)
    (index : Nat) : Prop extends state.At index where
  counter : state.connection = { connection with
    queryCounter := connection.queryCounter + BitVec.ofNat 64 index, closed := state.connection.closed }
  sameUuid : state.resultUuid = resultUuid

section
variable {layout : Layout} {prims : Primitives} {names : List String} {state next : FetchState}
  {connection : Connection} {resultUuid : HugeIntParts} {answer : Answer} {index : Nat}
  {results : List DataChunk}

theorem FetchState.Reached.sameVersion (h : state.Reached connection resultUuid index) :
    state.connection.quackVersion = connection.quackVersion := by
  rw [h.counter]

theorem FetchState.Reached.request_eq (h : state.Reached connection resultUuid index) :
    state.request = batchRequest connection resultUuid index := by
  have hversion := h.sameVersion
  have hheader : state.connection.scopedHeader .fetchRequest =
      Connection.scopedHeader { connection with
        queryCounter := connection.queryCounter + BitVec.ofNat 64 index } .fetchRequest := by
    rw [h.counter]
    rfl
  rw [FetchState.request, Connection.fetchRequest, batchRequest, Connection.fetchRequest, hheader,
    h.sameUuid]
  by_cases hv3 : state.connection.quackVersion = quackV3
  · have hnext : state.nextBatchIndex = BitVec.ofNat 64 (index + 1) := by
      rw [← h.next hv3, BitVec.ofNat_toNat, BitVec.setWidth_eq]
    have hack : state.ackIndex = BitVec.ofNat 64 index := by
      rw [← h.ack hv3, BitVec.ofNat_toNat, BitVec.setWidth_eq]
    rw [hnext, hack, Connection.onlyV3, Connection.onlyV3, hversion]
    rfl
  · have hother : connection.quackVersion ≠ quackV3 := hversion ▸ hv3
    simp only [Connection.onlyV3, if_neg hv3, if_neg hother]

theorem FetchState.Reached.advance (h : state.Reached connection resultUuid index)
    (after : state.After results next) (reached : next.At (index + 1)) :
    next.Reached connection resultUuid (index + 1) := by
  refine ⟨reached, ?_, after.resultUuid.trans h.sameUuid⟩
  rw [after.connection, Connection.numbered, h.counter]
  have hcounter : connection.queryCounter + BitVec.ofNat 64 index + 1 =
      connection.queryCounter + BitVec.ofNat 64 (index + 1) := by
    rw [BitVec.ofNat_add, BitVec.add_assoc]
    rfl
  simp only [hcounter]

theorem Answer.IsBatch.unique {version : U64} {others : List DataChunk}
    (h : answer.IsBatch version index results) (h' : answer.IsBatch version index others) :
    others = results := by
  obtain ⟨-, -, _, _, _, hreply, -⟩ := h
  obtain ⟨-, -, _, _, _, hreply', -⟩ := h'
  cases hreply.symm.trans hreply'
  rfl

theorem Answer.IsEnd.not_isBatch {version : U64} {index' : Nat} (h : answer.IsEnd version index) :
    ¬ answer.IsBatch version index' results := by
  rintro ⟨-, hne, _, _, _, hreply', -⟩
  obtain ⟨-, _, _, _, hreply, -⟩ := h
  cases hreply.symm.trans hreply'
  exact hne rfl

variable {answers : List Answer} {batches : List (List DataChunk)} {run : StreamRun}

/-- A turn that yields nothing ends the stream. -/
theorem inOrder_stop {requests : List QuackMessage} {ending : Option (Except Failure Unit)} {needsMore : Bool}
    (hrequests : requests = [] ∨ requests = [batchRequest connection resultUuid index])
    (hending : EndsInOrder connection.quackVersion needsMore index answers [] ending) :
    InOrder connection resultUuid names needsMore [] index answers [] ⟨requests, [], ending⟩ := by
  refine ⟨fun k h => absurd h (Nat.not_lt_zero k), ?_, rfl, hending⟩
  rcases hrequests with rfl | rfl
  · exact ⟨0, le_rfl, Nat.zero_le _, rfl⟩
  · exact ⟨1, Nat.zero_le _, le_rfl, rfl⟩

theorem EndsInOrder.cons {version : U64} {ending : Option (Except Failure Unit)}
    (h : EndsInOrder version true (index + 1) answers batches ending) :
    EndsInOrder version true index (answer :: answers) (results :: batches) ending := by
  have hshift : index + 1 + batches.length = index + (results :: batches).length := by
    rw [List.length_cons]
    omega
  cases h with
  | waiting more all => exact .waiting rfl (by rw [List.length_cons, List.length_cons, all])
  | complete more => cases more
  | finished more next reply => exact .finished rfl next (hshift ▸ reply)
  | refused more next batch finish => exact .refused rfl next (hshift ▸ batch) (hshift ▸ finish)
  | last more next indexed full => exact .last rfl next indexed (hshift ▸ full)

theorem InOrder.cons (reply : answer.IsBatch connection.quackVersion (index + 1) results)
    (h : InOrder connection resultUuid names true [] (index + 1) answers batches run) :
    InOrder connection resultUuid names true [] index (answer :: answers) (results :: batches)
      ⟨batchRequest connection resultUuid index :: run.requests,
        attachColumnNames names results ++ run.chunks, run.ending⟩ := by
  obtain ⟨sent, hle, hge, hrequests⟩ := h.requests
  refine ⟨fun k hk => ?_, ⟨sent + 1, Nat.succ_le_succ hle, Nat.succ_le_succ hge, ?_⟩, ?_, h.ending.cons⟩
  · cases k with
    | zero => exact ⟨answer, rfl, reply⟩
    | succ k =>
        obtain ⟨next, hnext, hbatch⟩ := h.accepted k (Nat.lt_of_succ_lt_succ hk)
        rw [Nat.add_right_comm index 1 k, Nat.add_assoc index k 1] at hbatch
        exact ⟨next, hnext, hbatch⟩
  · rw [List.range'_succ, List.map_cons, hrequests]
  · rw [h.chunks]
    rfl

theorem fetchStream_complete (more : state.needsMoreFetch = false) :
    fetchStream layout prims names state answers = ⟨[], [], some (.ok ())⟩ := by
  cases answers with
  | nil => rw [fetchStream, more, if_neg Bool.false_ne_true]
  | cons answer answers => rw [fetchStream, more, if_neg Bool.false_ne_true]

/-- A stream goes over its batches in order, or panics where it cannot count the rows. -/
theorem fetchStream_run (h : state.Reached connection resultUuid index) (answers : List Answer) :
    let run := fetchStream layout prims names state answers
    ((∃ batches, InOrder connection resultUuid names state.needsMoreFetch [] index answers batches run) ∧
      (state.needsMoreFetch = true →
        RowsFit connection.quackVersion state.rowsDelivered index answers)) ∨
    (state.needsMoreFetch = true ∧ ¬ RowsFit connection.quackVersion state.rowsDelivered index answers ∧
      ∃ cause, run.ending = some (.error (.panic cause))) := by
  induction answers generalizing state index with
  | nil =>
      refine .inl ⟨⟨[], inOrder_stop (.inl rfl) ?_⟩, fun _ => trivial⟩
      cases hmore : state.needsMoreFetch with
      | true => exact .waiting rfl rfl
      | false => exact .complete rfl rfl
  | cons answer answers ih =>
      cases hmore : state.needsMoreFetch with
      | false =>
          rw [fetchStream, hmore]
          exact .inl ⟨⟨[], inOrder_stop (.inl rfl) (.complete rfl rfl)⟩, fun h => by cases h⟩
      | true =>
          rw [fetchStream, hmore, if_pos rfl]
          cases hclosed : answer.closed with
          | true =>
              obtain ⟨error, hcall⟩ := @fetchOnce_closed layout prims names state _ hclosed
              have hbatch (results : List DataChunk) (number : Nat) :
                  ¬ answer.IsBatch connection.quackVersion number results := by
                rintro ⟨hready, -⟩
                cases hclosed.symm.trans hready
              simp only [hcall]
              refine .inl ⟨⟨[], inOrder_stop (.inl rfl) ?_⟩, fun _ => ?_⟩
              · refine .refused rfl rfl (fun results => hbatch results _) ?_
                rintro ⟨hready, -⟩
                cases hclosed.symm.trans hready
              · exact fun results hresults => absurd hresults (hbatch results _)
          | false =>
              have hversion := h.sameVersion
              have hends := @fetchOnce_ends layout prims names state _ _ h.toAt hclosed
              have hsent := @fetchOnce_sent layout prims names state _ _ h.toAt hclosed
              rw [h.request_eq] at hsent
              generalize fetchOnce layout prims names state answer = call at hends hsent
              obtain ⟨sent, result⟩ := call
              obtain rfl : sent = _ := hsent
              cases hends with
              | batch reply room rows after reached =>
                  rw [hversion] at reply room
                  have htail := ih (h.advance after reached)
                  rw [after.more, after.rowsDelivered] at htail
                  rcases htail with ⟨⟨batches, hrun⟩, hfit⟩ | ⟨-, hfit, cause, hending⟩
                  · refine .inl ⟨⟨_, hrun.cons reply⟩, fun _ others hothers _ => ?_⟩
                    rw [reply.unique hothers]
                    exact ⟨rows, hfit rfl⟩
                  · exact .inr ⟨rfl, fun hall => hfit (hall _ reply room).2, cause, hending⟩
              | finished reply more =>
                  rw [hversion] at reply
                  simp only [fetchStream_complete more]
                  refine .inl ⟨⟨[], inOrder_stop (.inr rfl) (.finished rfl rfl reply)⟩, fun _ => ?_⟩
                  exact fun results hresults => absurd hresults reply.not_isBatch
              | uncounted reply room rows =>
                  refine .inr ⟨rfl, fun hfit => ?_, _, rfl⟩
                  rw [hversion] at reply room
                  exact absurd (hfit _ reply room).1 (Nat.not_lt.mpr rows)
              | last version full =>
                  rw [hversion] at version
                  refine .inl ⟨⟨[], inOrder_stop (.inr rfl) (.last rfl rfl version full)⟩, fun _ => ?_⟩
                  exact fun results hresults room => absurd (room version) (by omega)
              | refused batch finish =>
                  rw [hversion] at batch finish
                  refine .inl ⟨⟨[], inOrder_stop (.inr rfl) (.refused rfl rfl batch finish)⟩, fun _ => ?_⟩
                  exact fun results hresults => absurd hresults (batch results)

variable {sql : String} {reply : Reply} {prepared : Prepared}

theorem totalRows_attach (names : List String) (chunks : List DataChunk) :
    totalRows (attachColumnNames names chunks) = totalRows chunks := by
  rw [totalRows, attachColumnNames, List.map_map]
  rfl

/-- What PREPARE leaves where it succeeds. -/
theorem prepareQuery_ok (h : (prepareQuery layout prims connection sql reply).result = .ok prepared) :
    ∃ names types needsMore results resultUuid, totalRows results < usizeLimit ∧
      prepared = ⟨names.zipWith ColumnDefinition.mk types, attachColumnNames names results,
        ⟨{ connection.numbered with queryUuidCounter := connection.queryUuidCounter + 1 }, resultUuid,
          needsMore, totalRows results, 1, 0⟩⟩ := by
  obtain ⟨response, -, h⟩ := Call.result_bind_ok.mp h
  cases response with
  | prepareResponse header types names needsMore results resultUuid =>
      obtain ⟨rows, hrows, h⟩ := Call.result_bind_ok.mp h
      rw [countRows_eq] at hrows
      split at hrows
      · rename_i hfits
        cases hrows
        cases h
        exact ⟨names, types, needsMore, results, resultUuid, hfits, rfl⟩
      · cases hrows
  | _ => cases h

/-- The stream of a prepared query begins before batch 1. -/
theorem prepareQuery_reached (hversion : connection.quackVersion = quackV1 ∨ connection.quackVersion = quackV3)
    (h : (prepareQuery layout prims connection sql reply).result = .ok prepared) :
    prepared.state.Reached prepared.state.connection prepared.state.resultUuid 0 ∧
      prepared.state.connection.quackVersion = connection.quackVersion ∧
      prepared.state.rowsDelivered = totalRows prepared.chunks := by
  obtain ⟨names, types, needsMore, results, resultUuid, hrows, rfl⟩ := prepareQuery_ok h
  refine ⟨⟨⟨hversion, fun _ => rfl, fun _ => rfl, hrows⟩, ?_, rfl⟩, rfl, (totalRows_attach ..).symm⟩
  simp only [BitVec.ofNat_eq_ofNat, BitVec.add_zero]

/-- The result of a prepared query is delivered in order: first the chunks that came with PREPARE. -/
def Prepared.InOrder (layout : Layout) (prims : Primitives) (prepared : Prepared) (answers : List Answer) : Prop :=
  ∃ batches, QuackProtocol.InOrder prepared.state.connection prepared.state.resultUuid
    (prepared.columns.map ColumnDefinition.name) prepared.state.needsMoreFetch prepared.chunks 0 answers batches
    (queryStream layout prims prepared answers)

/-- Whatever the replies are, the result is delivered in order exactly if no more is fetched or the rows
can be counted. -/
theorem queryStream_inOrder_iff (hversion : connection.quackVersion = quackV1 ∨ connection.quackVersion = quackV3)
    (hprepared : (prepareQuery layout prims connection sql reply).result = .ok prepared)
    (answers : List Answer) : prepared.InOrder layout prims answers ↔
      (prepared.state.needsMoreFetch = true →
        RowsFit connection.quackVersion (totalRows prepared.chunks) 0 answers) := by
  obtain ⟨hreached, hsame, hrows⟩ := prepareQuery_reached hversion hprepared
  have hrun := @fetchStream_run layout prims (prepared.columns.map ColumnDefinition.name) _ _ _ _ hreached answers
  rw [hsame, hrows] at hrun
  constructor
  · rintro ⟨batches, hinOrder⟩ hmore
    rcases hrun with ⟨-, hfit⟩ | ⟨-, -, cause, hending⟩
    · exact hfit hmore
    · have hends := hinOrder.ending
      change EndsInOrder _ _ _ _ _ (fetchStream _ _ _ _ _).ending at hends
      rw [hending] at hends
      cases hends
  · intro hfit
    rcases hrun with ⟨⟨batches, hinOrder⟩, -⟩ | ⟨hmore, hnot, -⟩
    · refine ⟨batches, hinOrder.accepted, hinOrder.requests, ?_, hinOrder.ending⟩
      show prepared.chunks ++ (fetchStream _ _ _ _ _).chunks = _
      rw [hinOrder.chunks]
      rfl
    · exact absurd (hfit hmore) hnot

theorem writes_prepareRequest (hversion : connection.quackVersion = quackV1 ∨ connection.quackVersion = quackV3) :
    (encodeMessageForVersion layout prims (connection.prepareRequest sql) connection.quackVersion).Writes := by
  unfold encodeMessageForVersion Connection.prepareRequest
  rcases hversion with hversion | hversion
  · rw [if_pos hversion, Encode.writes_append, encodeBodyV1, Encode.writes_object, Encode.writes_all]
    simp only [List.forall_mem_cons, writes_optionalString, true_and]
    exact ⟨writes_header _, writes_nil⟩
  · have hne : connection.quackVersion ≠ quackV1 := by
      rw [hversion]
      decide
    rw [if_neg hne, if_pos hversion, Encode.writes_append, Connection.onlyV3, if_pos hversion]
    rw [encodeBodyV3, Encode.writes_object, Encode.writes_all]
    simp only [List.forall_mem_cons, Encode.writes_field, writes_hugeIntParts, writes_optionalString, true_and]
    exact ⟨writes_header _, Encode.writes_ok _, writes_nil⟩

theorem prepareQuery_answered {header : MessageHeader} {types : List LogicalType} {names : List String}
    {needsMore : Bool} (ready : connection.closed = false)
    (hversion : connection.quackVersion = quackV1 ∨ connection.quackVersion = quackV3)
    (hrows : totalRows results < usizeLimit) :
    (prepareQuery layout prims connection sql
      (.ok (.prepareResponse header types names needsMore results resultUuid))).result =
      .ok ⟨names.zipWith ColumnDefinition.mk types, attachColumnNames names results,
        ⟨{ connection.numbered with queryUuidCounter := connection.queryUuidCounter + 1 }, resultUuid,
          needsMore, totalRows results, 1, 0⟩⟩ := by
  obtain ⟨bytes, hbytes⟩ := @writes_prepareRequest layout prims _ sql hversion
  refine Call.result_bind_ok.mpr ⟨.prepareResponse header types names needsMore results resultUuid, ?_, ?_⟩
  · rw [Connection.prepare, Connection.ensureOpen, ready]
    show (Call.step (.ok ()) >>= _).result = _
    rw [Call.step_ok_bind]
    unfold Connection.send
    rw [hbytes]
  · refine Call.result_bind_ok.mpr ⟨totalRows results, ?_, rfl⟩
    rw [countRows_eq, if_pos hrows]
    rfl

end

def openConnection : Connection := ⟨"c", quackV1, 1, 1, false⟩

/-- A chunk without columns, which has as many rows as it says. -/
def rowsOnly (rowCount : Nat) : DataChunk := ⟨rowCount, [], [], none⟩

def preparedEmpty : Prepared :=
  ⟨[], [], ⟨⟨"c", quackV1, 2, 2, false⟩, ⟨0, 0⟩, true, 0, 1, 0⟩⟩

theorem prepareQuery_empty : (prepareQuery .words .floatless openConnection "SELECT"
    (.ok (.prepareResponse ⟨.prepareResponse, none, none⟩ [] [] true [] ⟨0, 0⟩))).result =
      .ok preparedEmpty :=
  prepareQuery_answered rfl (.inl rfl) (by decide)

def rowsAnswer (counts : List Nat) : Answer :=
  ⟨false, .ok (.fetchResponse ⟨.fetchResponse, none, none⟩ (counts.map rowsOnly) none none)⟩

theorem rowsAnswer_isBatch (counts : List Nat) (hcounts : counts ≠ []) (index : Nat) :
    (rowsAnswer counts).IsBatch quackV1 index (counts.map rowsOnly) :=
  ⟨rfl, fun h => hcounts (List.map_eq_nil_iff.mp h), _, _, _, rfl, fun h => absurd h (by decide)⟩

theorem queryStream_inOrder_counted :
    preparedEmpty.InOrder .words .floatless [rowsAnswer [2, 1], rowsAnswer []] := by
  refine (queryStream_inOrder_iff (.inl rfl) prepareQuery_empty _).mpr fun _ results hbatch _ => ?_
  rw [(rowsAnswer_isBatch [2, 1] (by simp) 1).unique hbatch]
  refine ⟨by decide, fun others hothers => ?_⟩
  obtain ⟨-, hne, _, _, _, hreply, -⟩ := hothers
  cases hreply
  exact absurd rfl hne

/-- The rows of one reply are more than a counter holds. -/
theorem not_queryStream_inOrder :
    (prepareQuery .words .floatless openConnection "SELECT"
      (.ok (.prepareResponse ⟨.prepareResponse, none, none⟩ [] [] true [] ⟨0, 0⟩))).result = .ok preparedEmpty ∧
    ¬ preparedEmpty.InOrder .words .floatless [rowsAnswer [2 ^ 64 - 1, 1]] := by
  refine ⟨prepareQuery_empty, ?_⟩
  rintro ⟨batches, hinOrder⟩
  obtain ⟨hreached, -, -⟩ := prepareQuery_reached (.inl rfl) prepareQuery_empty
  have hbatch := rowsAnswer_isBatch [2 ^ 64 - 1, 1] (by simp) 1
  rcases @fetchStream_run .words .floatless [] _ _ _ _ hreached [rowsAnswer [2 ^ 64 - 1, 1]] with
    ⟨-, hfit⟩ | ⟨-, -, cause, hending⟩
  · have hrows := (hfit rfl _ hbatch (fun h => absurd h (by decide))).1
    exact absurd hrows (by decide)
  · have hends := hinOrder.ending
    change EndsInOrder _ _ _ _ _ (fetchStream _ _ [] _ _).ending at hends
    rw [hending] at hends
    cases hends

end QuackProtocol
