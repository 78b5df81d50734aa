import QuackProtocol.ResultNames
import QuackProtocol.Transport

/-! A query from one end of the wire to the other. The server holds a result in batches and answers each
request that it reads off the wire; what the stream of the client yields is the result, batch by batch, and
nothing else, whatever becomes of a reply on the way. -/

open Decoding Sending

namespace QuackProtocol

/-- The result of a query as a server holds it: the chunks that go with PREPARE and the batches after them. -/
structure ServedResult where
  types : List LogicalType
  names : List String
  resultUuid : HugeIntParts
  inline : List DataChunk
  batches : List (List DataChunk)

namespace ServedResult

/-- The chunks of a batch, which are numbered from 1 on; there are none after the last one. -/
def batch (result : ServedResult) (number : Nat) : List DataChunk := (result.batches[number - 1]?).getD []

/-- How PREPARE is answered. -/
inductive Prepares (result : ServedResult) : QuackMessage → QuackMessage → Prop where
  | intro {requestHeader header : MessageHeader} {sql : String} {queryUuid : Option HugeIntParts}
      {inlineRows : Option U64} {needsMoreFetch : Bool}
      (more : needsMoreFetch = false → result.batches = []) :
      Prepares result (.prepareRequest requestHeader sql queryUuid inlineRows)
        (.prepareResponse header result.types result.names needsMoreFetch result.inline result.resultUuid)

/-- How FETCH is answered: on v3 with the batch that is asked for, on v1 with the next one after those that
have been sent. -/
inductive Fetches (result : ServedResult) (quackVersion : U64) (sent : Nat) :
    QuackMessage → QuackMessage → Prop where
  | asked {requestHeader header : MessageHeader} {batchIndex : U64} {ackIndex totalBatches : Option U64}
      (version : quackVersion = quackV3)
      (total : ∀ total, totalBatches = some total → total.toNat = result.batches.length) :
      Fetches result quackVersion sent
        (.fetchRequest requestHeader result.resultUuid (some batchIndex) ackIndex)
        (.fetchResponse header (result.batch batchIndex.toNat) totalBatches
          (if batchIndex.toNat ≤ result.batches.length then some batchIndex else none))
  | next {requestHeader header : MessageHeader} {totalBatches batchIndex : Option U64}
      (version : quackVersion = quackV1) :
      Fetches result quackVersion sent (.fetchRequest requestHeader result.resultUuid none none)
        (.fetchResponse header (result.batch (sent + 1)) totalBatches batchIndex)

/-- A result that can be sent: its chunks are read back as they are, no batch is empty, and the batches and
the rows can be counted. -/
structure Deliverable (layout : Layout) (result : ServedResult) : Prop where
  plain : ∀ chunk ∈ result.inline ++ result.batches.flatten, chunk.Plain layout
  narrow : ∀ chunk ∈ result.inline ++ result.batches.flatten, chunk.NarrowLabels
  filled : ∀ batch ∈ result.batches, batch ≠ []
  named : result.names.length = result.types.length
  numbers : result.batches.length + 2 < 2 ^ 64
  rows : totalRows (result.inline ++ result.batches.flatten) < usizeLimit

end ServedResult

section
variable (layout : Layout) (prims : Primitives) (canonicalReason : Nat → Option String)

/-- The server reads a request off the wire, and what it answers to that is what comes back. -/
structure Exchanged (quackVersion : U64) (answers : QuackMessage → QuackMessage → Prop) (bytes : Bytes)
    (request response : QuackMessage) (body : Bytes) : Prop where
  received : Held bytes
  read : decodeMessageForVersion layout bytes quackVersion = .ok request
  answer : answers request response
  inMemory : response.InMemory layout
  ofType : response.messageType = response.variantType
  written : encodeMessageForVersion layout prims response quackVersion = .ok body
  held : Held body

/-- The reply to a message is the answer of the server to the bytes that were posted. -/
def Served (quackVersion : U64) (answers : QuackMessage → QuackMessage → Prop) (message : QuackMessage)
    (reply : Reply) : Prop :=
  ∃ bytes request response body status,
    encodeMessageForVersion layout prims message quackVersion = .ok bytes ∧
    Exchanged layout prims quackVersion answers bytes request response body ∧ isSuccess status = true ∧
    Replied ((HttpReply.response status (some body)).decode layout canonicalReason quackVersion) reply

/-- A request is written, and the server reads it as it was meant. -/
def Understood (quackVersion : U64) (message : QuackMessage) : Prop :=
  ∃ bytes, encodeMessageForVersion layout prims message quackVersion = .ok bytes ∧
    (Held bytes → decodeMessageForVersion layout bytes quackVersion =
      .ok (message.readWith (storedChunk prims) quackVersion))

/-- The connection stays open, and each answer to a stream is what the server gives to the request in the
same place. -/
structure FetchesServed (result : ServedResult) (quackVersion : U64) (sent : Nat)
    (requests : List QuackMessage) (answers : List Answer) : Prop where
  ready : ∀ answer ∈ answers, answer.closed = false
  served : ∀ i request answer, requests[i]? = some request → answers[i]? = some answer →
    Served layout prims canonicalReason quackVersion (result.Fetches quackVersion (sent + i)) request
      answer.reply

end

section
variable {layout : Layout} {prims : Primitives} {canonicalReason : Nat → Option String} {quackVersion : U64}
  {result : ServedResult} {message : QuackMessage} {reply : Reply}
  {answers : QuackMessage → QuackMessage → Prop}

/-- A request that is served is read as it was written, and so is its answer. -/
theorem served_reply (hversion : quackVersion = quackV1 ∨ quackVersion = quackV3)
    (hmemory : message.InMemory layout) (htype : message.messageType = message.variantType)
    (hasks : message.AsksFromOne quackVersion) (hnone : message.chunks = [])
    (hstores : ∀ request response, answers request response →
      response.AsksFromOne quackVersion ∧ ∀ chunk ∈ response.chunks, chunk.Stores layout prims)
    (h : Served layout prims canonicalReason quackVersion answers message reply) :
    ∃ response, answers (message.readWith (storedChunk prims) quackVersion) response ∧
      reply = .ok (response.readWith (storedChunk prims) quackVersion) := by
  obtain ⟨bytes, request, response, body, status, hbytes, hexchanged, hstatus, hreplied⟩ := h
  have hrequest := decodeMessage_stored hversion hmemory htype hasks
    (fun chunk hmem => by rw [hnone] at hmem; cases hmem) hbytes hexchanged.received
  cases hexchanged.read.symm.trans hrequest
  obtain ⟨hresponseAsks, hchunks⟩ := hstores _ _ hexchanged.answer
  have hresponse := decodeMessage_stored hversion hexchanged.inMemory hexchanged.ofType hresponseAsks
    hchunks hexchanged.written hexchanged.held
  rw [decode_success hstatus, hresponse] at hreplied
  cases hreplied
  exact ⟨response, hexchanged.answer, rfl⟩

/-- A header of the connection is read as it was written. -/
theorem scopedHeader_texts {connection : Connection} (hid : HeldText connection.connectionId)
    (messageType : MessageType) :
    ∀ text ∈ (connection.scopedHeader messageType).connectionId.toList, HeldText text := by
  intro text htext
  rw [List.mem_singleton.mp htext]
  exact hid

theorem fits_none (layout : Layout) (element : Element) : layout.Fits element 0 := by
  refine ⟨by decide, ?_⟩
  rw [Nat.zero_mul]
  exact Nat.zero_le _

theorem prepareRequest_inMemory {connection : Connection} {sql : String}
    (hid : HeldText connection.connectionId) (hsql : HeldText sql) :
    (connection.prepareRequest sql).InMemory layout := by
  refine ⟨fun text htext => ?_, fun T hT => (by cases hT), fits_none _ _, fits_none _ _, fits_none _ _⟩
  rcases List.mem_append.mp htext with hheader | hbody
  · exact scopedHeader_texts hid .prepareRequest text hheader
  · rw [List.mem_singleton.mp hbody]
    exact hsql

theorem batchRequest_inMemory {connection : Connection} (hid : HeldText connection.connectionId)
    (resultUuid : HugeIntParts) (index : Nat) :
    (batchRequest connection resultUuid index).InMemory layout := by
  refine ⟨fun text htext => ?_, fun T hT => (by cases hT), fits_none _ _, fits_none _ _, fits_none _ _⟩
  rcases List.mem_append.mp htext with hheader | hbody
  · exact @scopedHeader_texts connection hid .fetchRequest text hheader
  · cases hbody

theorem prepareRequest_understood {connection : Connection} {sql : String}
    (hversion : connection.quackVersion = quackV1 ∨ connection.quackVersion = quackV3)
    (hid : HeldText connection.connectionId) (hsql : HeldText sql) :
    Understood layout prims connection.quackVersion (connection.prepareRequest sql) := by
  obtain ⟨bytes, hbytes⟩ := @writes_prepareRequest layout prims _ sql hversion
  exact ⟨bytes, hbytes, decodeMessage_stored hversion (prepareRequest_inMemory hid hsql) rfl trivial
    (fun chunk hmem => by cases hmem) hbytes⟩

/-- On v3 a FETCH asks for a batch from 1 on. -/
theorem batchRequest_asks (connection : Connection) (resultUuid : HugeIntParts) {index : Nat}
    (hindex : index + 1 < 2 ^ 64) :
    (batchRequest connection resultUuid index).AsksFromOne connection.quackVersion := by
  unfold batchRequest Connection.fetchRequest Connection.onlyV3
  split
  · intro _ hzero
    have hlow := congrArg BitVec.toNat hzero
    rw [BitVec.toNat_ofNat, Nat.mod_eq_of_lt hindex] at hlow
    cases hlow
  · trivial

theorem batchRequest_understood {connection : Connection} (resultUuid : HugeIntParts) {index : Nat}
    (hversion : connection.quackVersion = quackV1 ∨ connection.quackVersion = quackV3)
    (hid : HeldText connection.connectionId) (hindex : index + 1 < 2 ^ 64) :
    Understood layout prims connection.quackVersion (batchRequest connection resultUuid index) := by
  obtain ⟨bytes, hbytes⟩ := @writes_fetchRequest layout prims
    { connection with queryCounter := connection.queryCounter + BitVec.ofNat 64 index } resultUuid
    (BitVec.ofNat 64 (index + 1)) (BitVec.ofNat 64 index) hversion
  exact ⟨bytes, hbytes, decodeMessage_stored hversion (batchRequest_inMemory hid _ _) rfl
    (batchRequest_asks connection resultUuid hindex) (fun chunk hmem => by cases hmem) hbytes⟩

theorem mem_batch {chunk : DataChunk} {number : Nat} (h : chunk ∈ result.batch number) :
    chunk ∈ result.inline ++ result.batches.flatten := by
  rw [ServedResult.batch] at h
  cases hbatch : result.batches[number - 1]? with
  | none =>
      rw [hbatch] at h
      cases h
  | some batch =>
      rw [hbatch] at h
      exact List.mem_append_right _ (List.mem_flatten_of_mem (List.mem_of_getElem? hbatch) h)

theorem ServedResult.Fetches.stores {sent : Nat} {request response : QuackMessage}
    (hfloat : ∀ bits, prims.f64ToF32 (prims.f32ToF64 bits) = bits) (hresult : result.Deliverable layout)
    (h : result.Fetches quackVersion sent request response) :
    response.AsksFromOne quackVersion ∧ ∀ chunk ∈ response.chunks, chunk.Stores layout prims := by
  cases h <;>
    exact ⟨trivial, fun chunk hmem => (hresult.plain chunk (mem_batch hmem)).stores hfloat⟩

theorem ServedResult.Prepares.stores {request response : QuackMessage}
    (hfloat : ∀ bits, prims.f64ToF32 (prims.f32ToF64 bits) = bits) (hresult : result.Deliverable layout)
    (h : result.Prepares request response) :
    response.AsksFromOne quackVersion ∧ ∀ chunk ∈ response.chunks, chunk.Stores layout prims := by
  cases h
  exact ⟨trivial, fun chunk hmem => (hresult.plain chunk (List.mem_append_left _ hmem)).stores hfloat⟩

/-- A reply with the chunks of batch `index + 1`, and its number where there is such a batch, is that batch or
the end. -/
theorem batch_or_end {f : DataChunk → DataChunk} {answer : Answer} {header : MessageHeader}
    {totalBatches batchIndex : Option U64} {index : Nat} (hfilled : ∀ batch ∈ result.batches, batch ≠ [])
    (hnumbers : result.batches.length + 2 < 2 ^ 64) (ready : answer.closed = false)
    (hreply : answer.reply = .ok (.fetchResponse header ((result.batch (index + 1)).map f) totalBatches
      batchIndex))
    (hmark : quackVersion = quackV3 →
      batchIndex = (if index + 1 ≤ result.batches.length then some (BitVec.ofNat 64 (index + 1)) else none) ∧
      ∀ total, totalBatches = some total → total.toNat = result.batches.length) :
    (∀ _ : index < result.batches.length, answer.IsBatch quackVersion (index + 1)
      (result.batches[index].map f)) ∧
    (index = result.batches.length → answer.IsEnd quackVersion index) := by
  constructor
  · intro hlt
    have hbatch : result.batch (index + 1) = result.batches[index] := by
      rw [ServedResult.batch, Nat.add_sub_cancel, List.getElem?_eq_getElem hlt]
      rfl
    rw [hbatch] at hreply
    refine ⟨ready, fun hempty => ?_, header, totalBatches, batchIndex, hreply, fun hthree => ?_⟩
    · exact hfilled _ (List.getElem_mem hlt) (List.map_eq_nil_iff.mp hempty)
    · rw [(hmark hthree).1, if_pos (Nat.succ_le_of_lt hlt), Option.map_some, BitVec.toNat_ofNat,
        Nat.mod_eq_of_lt (by omega)]
  · rintro rfl
    have hbatch : result.batch (result.batches.length + 1) = [] := by
      rw [ServedResult.batch, Nat.add_sub_cancel, List.getElem?_eq_none le_rfl]
      rfl
    rw [hbatch] at hreply
    refine ⟨ready, header, totalBatches, batchIndex, hreply, fun hthree => ⟨?_, (hmark hthree).2⟩⟩
    rw [(hmark hthree).1, if_neg (Nat.not_succ_le_self _)]

section
variable {connection : Connection} {index : Nat}
  (hversion : connection.quackVersion = quackV1 ∨ connection.quackVersion = quackV3)
  (hid : HeldText connection.connectionId)
  (hfloat : ∀ bits, prims.f64ToF32 (prims.f32ToF64 bits) = bits) (hresult : result.Deliverable layout)
include hversion hid hfloat hresult

/-- The reply to the FETCH after `index` batches. -/
theorem fetch_served (hindex : index ≤ result.batches.length)
    (h : Served layout prims canonicalReason connection.quackVersion
      (result.Fetches connection.quackVersion index) (batchRequest connection result.resultUuid index) reply) :
    ∃ header totalBatches batchIndex,
      reply = .ok (.fetchResponse header ((result.batch (index + 1)).map (storedChunk prims)) totalBatches
        batchIndex) ∧
      (connection.quackVersion = quackV3 →
        batchIndex = (if index + 1 ≤ result.batches.length then some (BitVec.ofNat 64 (index + 1)) else none) ∧
        ∀ total, totalBatches = some total → total.toNat = result.batches.length) := by
  have hnumbers := hresult.numbers
  have hnumber : (BitVec.ofNat 64 (index + 1)).toNat = index + 1 := by
    rw [BitVec.toNat_ofNat, Nat.mod_eq_of_lt (by omega)]
  have hvalid : BitVec.ofNat 64 (index + 1) ≠ optionalIndexInvalid := by
    intro heq
    have hlast := congrArg BitVec.toNat heq
    rw [hnumber, optionalIndexInvalid, BitVec.toNat_allOnes] at hlast
    omega
  have hasks := batchRequest_asks connection result.resultUuid (show index + 1 < 2 ^ 64 by omega)
  obtain ⟨response, hanswer, rfl⟩ := served_reply hversion (batchRequest_inMemory hid _ _) rfl hasks rfl
    (fun _ _ hfetches => hfetches.stores hfloat hresult) h
  unfold batchRequest Connection.fetchRequest Connection.onlyV3 at hanswer
  rcases hversion with hone | hthree
  · have hne : connection.quackVersion ≠ quackV3 := by
      rw [hone]
      decide
    simp only [if_neg hne, QuackMessage.readWith] at hanswer
    cases hanswer with
    | next => exact ⟨_, _, _, rfl, fun hthree => absurd hthree hne⟩
  · simp only [if_pos hthree, QuackMessage.readWith, validIndex, Option.filter_some, hvalid, ne_eq,
      not_false_eq_true, decide_true, if_true] at hanswer
    cases hanswer with
    | @asked _ header _ _ totalBatches _ total =>
        simp only [QuackMessage.readWith, if_pos hthree, hnumber]
        refine ⟨_, _, _, rfl, fun _ => ⟨?_, fun count hcount => ?_⟩⟩
        · split <;> simp [validIndex, hvalid]
        · exact total count (Option.mem_filter_iff.mp hcount).1

/-- The answer to the FETCH after `index` batches is the next batch, or the end. -/
theorem answer_served (hindex : index ≤ result.batches.length) {answer : Answer}
    (ready : answer.closed = false)
    (h : Served layout prims canonicalReason connection.quackVersion
      (result.Fetches connection.quackVersion index) (batchRequest connection result.resultUuid index)
      answer.reply) :
    (∀ _ : index < result.batches.length, answer.IsBatch connection.quackVersion (index + 1)
      (result.batches[index].map (storedChunk prims))) ∧
    (index = result.batches.length → answer.IsEnd connection.quackVersion index) := by
  obtain ⟨header, totalBatches, batchIndex, hreply, hmark⟩ := fetch_served hversion hid hfloat hresult hindex h
  exact batch_or_end hresult.filled hresult.numbers ready hreply hmark

end

/-! ### The stream -/

/-- The chunks of a batch as the stream yields them. -/
def yielded (prims : Primitives) (names : List String) (batch : List DataChunk) : List DataChunk :=
  attachColumnNames names (batch.map (storedChunk prims))

theorem totalRows_append (first second : List DataChunk) :
    totalRows (first ++ second) = totalRows first + totalRows second := by
  rw [totalRows, List.map_append, List.sum_append]
  rfl

theorem totalRows_stored (batch : List DataChunk) :
    totalRows (batch.map (storedChunk prims)) = totalRows batch := by
  rw [totalRows, List.map_map]
  rfl

/-- A stream sends its request before it looks at the answer. -/
theorem fetchStream_head {names : List String} {state : FetchState} {index : Nat} {answer : Answer}
    {answers : List Answer} (hstate : state.At index) (more : state.needsMoreFetch = true)
    (ready : answer.closed = false) :
    (fetchStream layout prims names state (answer :: answers)).requests[0]? = some state.request := by
  have hsent := @fetchOnce_sent layout prims names state _ _ hstate ready
  rw [fetchStream, more, if_pos rfl]
  generalize fetchOnce layout prims names state answer = call at hsent
  obtain ⟨sent, result⟩ := call
  obtain rfl : sent = _ := hsent
  cases result <;> rfl

section
variable {connection : Connection} {index : Nat} {names : List String} {state : FetchState}
  {answers tail : List Answer}
  (hversion : connection.quackVersion = quackV1 ∨ connection.quackVersion = quackV3)
  (hid : HeldText connection.connectionId)
  (hfloat : ∀ bits, prims.f64ToF32 (prims.f32ToF64 bits) = bits) (hresult : result.Deliverable layout)
include hversion hid hfloat hresult

/-- A stream that is served goes over the next batches and is where it was, that much further on. -/
theorem fetchStream_served (hreached : state.Reached connection result.resultUuid index)
    (more : state.needsMoreFetch = true)
    (hrows : state.rowsDelivered + totalRows (result.batches.drop index).flatten < usizeLimit)
    (hcount : index + answers.length ≤ result.batches.length)
    (hserved : FetchesServed layout prims canonicalReason result connection.quackVersion index
      (fetchStream layout prims names state (answers ++ tail)).requests answers) :
    ∃ next, next.Reached connection result.resultUuid (index + answers.length) ∧
      next.needsMoreFetch = true ∧
      fetchStream layout prims names state (answers ++ tail) =
        ⟨(List.range' index answers.length).map (batchRequest connection result.resultUuid) ++
            (fetchStream layout prims names next tail).requests,
          ((result.batches.drop index).take answers.length).flatMap (yielded prims names) ++
            (fetchStream layout prims names next tail).chunks,
          (fetchStream layout prims names next tail).ending⟩ := by
  induction answers generalizing state index with
  | nil =>
      refine ⟨state, hreached, more, ?_⟩
      rw [List.length_nil, List.take_zero]
      rfl
  | cons answer answers ih =>
      have hlt : index < result.batches.length := by
        rw [List.length_cons] at hcount
        omega
      have ready := hserved.ready answer (List.mem_cons_self ..)
      have hhead : (fetchStream layout prims names state (answer :: (answers ++ tail))).requests[0]? =
          some (batchRequest connection result.resultUuid index) := by
        rw [fetchStream_head hreached.toAt more ready, hreached.request_eq]
      have hbatch := (answer_served hversion hid hfloat hresult hlt.le ready
        (hserved.served 0 _ answer hhead rfl)).1 hlt
      rw [← hreached.sameVersion] at hbatch
      have hdrop : result.batches.drop index = result.batches[index] :: result.batches.drop (index + 1) :=
        List.drop_eq_getElem_cons hlt
      rw [hdrop, List.flatten_cons, totalRows_append] at hrows
      have hends := @fetchOnce_ends layout prims names state _ _ hreached.toAt ready
      have hsent := @fetchOnce_sent layout prims names state _ _ hreached.toAt ready
      rw [hreached.request_eq] at hsent
      have hserved' := hserved.served
      rw [List.cons_append, fetchStream, more, if_pos rfl] at hserved' ⊢
      generalize fetchOnce layout prims names state answer = call at hends hsent hserved' ⊢
      obtain ⟨sent, ended⟩ := call
      obtain rfl : sent = _ := hsent
      cases hends with
      | @batch results next reply room rows after reached =>
          cases reply.unique hbatch
          have hadvanced := hreached.advance after reached
          rw [totalRows_stored] at rows
          have hnext := after.rowsDelivered
          rw [totalRows_stored] at hnext
          obtain ⟨last, hlast, hmore, hrun⟩ := ih hadvanced after.more (by omega)
            (by rw [List.length_cons] at hcount; omega)
            ⟨fun answer hmem => hserved.ready answer (List.mem_cons_of_mem _ hmem),
              fun i request answer hrequest hanswer => by
                rw [Nat.add_right_comm, Nat.add_assoc]
                exact hserved' (i + 1) request answer hrequest hanswer⟩
          refine ⟨last, ?_, hmore, ?_⟩
          · rw [List.length_cons, ← Nat.add_assoc, Nat.add_right_comm]
            exact hlast
          · simp only
            rw [hrun, hdrop, List.length_cons, List.range'_succ, List.take_succ_cons, List.flatMap_cons,
              List.append_assoc]
            rfl
      | finished reply => exact absurd hbatch reply.not_isBatch
      | uncounted reply room rows =>
          rw [hbatch.unique reply, totalRows_stored] at rows
          omega
      | last version full =>
          have hnumbers := hresult.numbers
          omega
      | refused batch => exact absurd hbatch (batch _)

/-- Where everything has been asked for, the next answer ends the stream. -/
theorem fetchStream_finished (hreached : state.Reached connection result.resultUuid result.batches.length)
    (more : state.needsMoreFetch = true) {answer : Answer}
    (hserved : FetchesServed layout prims canonicalReason result connection.quackVersion
      result.batches.length (fetchStream layout prims names state (answer :: answers)).requests
      (answer :: answers)) :
    fetchStream layout prims names state (answer :: answers) =
      ⟨[batchRequest connection result.resultUuid result.batches.length], [], some (.ok ())⟩ := by
  have ready := hserved.ready answer (List.mem_cons_self ..)
  have hhead : (fetchStream layout prims names state (answer :: answers)).requests[0]? =
      some (batchRequest connection result.resultUuid result.batches.length) := by
    rw [fetchStream_head hreached.toAt more ready, hreached.request_eq]
  have hend := (answer_served hversion hid hfloat hresult le_rfl ready
    (hserved.served 0 _ answer hhead rfl)).2 rfl
  rw [← hreached.sameVersion] at hend
  have hends := @fetchOnce_ends layout prims names state _ _ hreached.toAt ready
  have hsent := @fetchOnce_sent layout prims names state _ _ hreached.toAt ready
  rw [hreached.request_eq] at hsent
  rw [fetchStream, more, if_pos rfl]
  generalize fetchOnce layout prims names state answer = call at hends hsent
  obtain ⟨sent, ended⟩ := call
  obtain rfl : sent = _ := hsent
  cases hends with
  | batch reply => exact absurd reply hend.not_isBatch
  | finished reply done =>
      simp only [fetchStream_complete done]
      rfl
  | uncounted reply => exact absurd reply hend.not_isBatch
  | last version full =>
      have hnumbers := hresult.numbers
      omega
  | refused batch finish => exact absurd hend finish

end

/-- What a stream has done after some answers of the server. -/
structure Delivers (result : ServedResult) (connection : Connection) (needsMoreFetch : Bool) (count : Nat)
    (run : StreamRun) : Prop where
  requests : run.requests =
    (List.range (if needsMoreFetch then min count (result.batches.length + 1) else 0)).map
      (batchRequest connection result.resultUuid)
  chunks : List.Forall₂ DataChunk.Same run.chunks
    (attachColumnNames result.names ((result.inline ++ (result.batches.take count).flatten).map
      DataChunk.asRead))
  ending : run.ending = if needsMoreFetch ∧ count ≤ result.batches.length then none else some (.ok ())

/-- The chunks of a result up to a batch, as they are read off the wire. -/
def ServedResult.received (prims : Primitives) (result : ServedResult) (count : Nat) : List DataChunk :=
  attachColumnNames result.names
    ((result.inline ++ (result.batches.take count).flatten).map (storedChunk prims))

/-- The same, with the chunks as they are read. -/
structure Obtains (prims : Primitives) (result : ServedResult) (connection : Connection)
    (needsMoreFetch : Bool) (count : Nat) (run : StreamRun) : Prop where
  requests : run.requests =
    (List.range (if needsMoreFetch then min count (result.batches.length + 1) else 0)).map
      (batchRequest connection result.resultUuid)
  chunks : run.chunks = result.received prims count
  ending : run.ending = if needsMoreFetch ∧ count ≤ result.batches.length then none else some (.ok ())

section
variable {connection : Connection} {sql : String} {prepared : Prepared} {answers : List Answer} {index : Nat}

theorem same_yielded (hfloat : ∀ bits, prims.f64ToF32 (prims.f32ToF64 bits) = bits)
    (hresult : result.Deliverable layout) {names : List String} {chunks : List DataChunk}
    (h : ∀ chunk ∈ chunks, chunk ∈ result.inline ++ result.batches.flatten) :
    List.Forall₂ DataChunk.Same (attachColumnNames names (chunks.map (storedChunk prims)))
      (attachColumnNames names (chunks.map DataChunk.asRead)) := by
  rw [attachColumnNames, attachColumnNames, List.map_map, List.map_map, List.forall₂_map_left_iff,
    List.forall₂_map_right_iff, List.forall₂_same]
  intro chunk hmem
  have hsame := ((hresult.plain chunk (h chunk hmem)).same_iff hfloat).mpr (hresult.narrow chunk (h chunk hmem))
  exact ⟨hsame.rowCount, hsame.types, rfl, hsame.columns⟩

theorem flatMap_yielded (names : List String) (batches : List (List DataChunk)) :
    batches.flatMap (yielded prims names) =
      attachColumnNames names (batches.flatten.map (storedChunk prims)) := by
  rw [attachColumnNames, List.map_flatten, List.map_flatten, List.map_map, List.flatMap_def]
  rfl

/-- PREPARE leaves the stream before the first batch of the result. -/
theorem prepared_served (ready : connection.closed = false)
    (hversion : connection.quackVersion = quackV1 ∨ connection.quackVersion = quackV3)
    (hid : HeldText connection.connectionId) (hsql : HeldText sql)
    (hfloat : ∀ bits, prims.f64ToF32 (prims.f32ToF64 bits) = bits) (hresult : result.Deliverable layout)
    (hserved : Served layout prims canonicalReason connection.quackVersion result.Prepares
      (connection.prepareRequest sql) reply) :
    ∃ needsMoreFetch, (needsMoreFetch = false → result.batches = []) ∧
      (prepareQuery layout prims connection sql reply).result =
        .ok ⟨result.names.zipWith ColumnDefinition.mk (result.types.map LogicalType.asRead),
          attachColumnNames result.names (result.inline.map (storedChunk prims)),
          ⟨{ connection.numbered with queryUuidCounter := connection.queryUuidCounter + 1 },
            result.resultUuid, needsMoreFetch, totalRows result.inline, 1, 0⟩⟩ := by
  obtain ⟨response, hanswer, rfl⟩ := served_reply hversion (prepareRequest_inMemory hid hsql) rfl trivial rfl
    (fun _ _ hprepares => hprepares.stores hfloat hresult) hserved
  have hrows := hresult.rows
  rw [totalRows_append] at hrows
  unfold Connection.prepareRequest at hanswer
  simp only [QuackMessage.readWith] at hanswer
  cases hanswer with
  | @intro _ _ _ _ _ needsMoreFetch more =>
      refine ⟨needsMoreFetch, more, ?_⟩
      simp only [QuackMessage.readWith]
      rw [prepareQuery_answered ready hversion (by rw [totalRows_stored]; omega), totalRows_stored]

theorem columnNames_prepared (hresult : result.Deliverable layout) :
    (result.names.zipWith ColumnDefinition.mk (result.types.map LogicalType.asRead)).map
      ColumnDefinition.name = result.names := by
  rw [map_zipWith_left (fun _ _ => rfl), List.length_map, ← hresult.named, List.take_length]

/-- The stream of the query, once it is prepared, over the first answers and what follows them. -/
theorem stream_served (hversion : connection.quackVersion = quackV1 ∨ connection.quackVersion = quackV3)
    (hid : HeldText connection.connectionId)
    (hfloat : ∀ bits, prims.f64ToF32 (prims.f32ToF64 bits) = bits) (hresult : result.Deliverable layout)
    {state : FetchState} {names : List String} (front tail : List Answer)
    (hreached : state.Reached connection result.resultUuid 0) (more : state.needsMoreFetch = true)
    (hrows : state.rowsDelivered = totalRows result.inline)
    (hcount : front.length ≤ result.batches.length)
    (hserved : FetchesServed layout prims canonicalReason result connection.quackVersion 0
      (fetchStream layout prims names state (front ++ tail)).requests front) :
    ∃ next, next.Reached connection result.resultUuid front.length ∧ next.needsMoreFetch = true ∧
      fetchStream layout prims names state (front ++ tail) =
        ⟨(List.range front.length).map (batchRequest connection result.resultUuid) ++
            (fetchStream layout prims names next tail).requests,
          (result.batches.take front.length).flatMap (yielded prims names) ++
            (fetchStream layout prims names next tail).chunks,
          (fetchStream layout prims names next tail).ending⟩ := by
  have hall := hresult.rows
  rw [totalRows_append] at hall
  have hrun := fetchStream_served hversion hid hfloat hresult hreached more
    (by rw [hrows, List.drop_zero]; exact hall) (by omega) hserved
  rwa [Nat.zero_add, List.drop_zero, ← List.range_eq_range'] at hrun

theorem FetchesServed.front {sent : Nat} {requests : List QuackMessage} {front tail : List Answer}
    (h : FetchesServed layout prims canonicalReason result quackVersion sent requests (front ++ tail)) :
    FetchesServed layout prims canonicalReason result quackVersion sent requests front where
  ready answer hmem := h.ready answer (List.mem_append_left _ hmem)
  served i request answer hrequest hanswer := h.served i request answer hrequest
    (by rw [List.getElem?_append_left (List.getElem?_eq_some_iff.mp hanswer).1]; exact hanswer)

theorem FetchesServed.tail {first requests : List QuackMessage} {front tail : List Answer}
    (h : FetchesServed layout prims canonicalReason result quackVersion 0 (first ++ requests) (front ++ tail))
    (hlength : first.length = front.length) :
    FetchesServed layout prims canonicalReason result quackVersion front.length requests tail where
  ready answer hmem := h.ready answer (List.mem_append_right _ hmem)
  served i request answer hrequest hanswer := by
    have hplace := h.served (front.length + i) request answer
      (by rw [← hlength, List.getElem?_append_right (Nat.le_add_right _ _), Nat.add_sub_cancel_left]
          exact hrequest)
      (by rw [List.getElem?_append_right (Nat.le_add_right _ _), Nat.add_sub_cancel_left]; exact hanswer)
    rwa [Nat.zero_add] at hplace

/-- The stream of a prepared query, with the chunks that came with PREPARE. -/
def withInline (prims : Primitives) (result : ServedResult) (run : StreamRun) : StreamRun :=
  { run with chunks := attachColumnNames result.names (result.inline.map (storedChunk prims)) ++ run.chunks }

theorem yielded_received (count : Nat) :
    attachColumnNames result.names (result.inline.map (storedChunk prims)) ++
      (result.batches.take count).flatMap (yielded prims result.names) = result.received prims count := by
  rw [flatMap_yielded, ServedResult.received, List.map_append, attachColumnNames, attachColumnNames,
    attachColumnNames, List.map_append]

theorem same_received (hfloat : ∀ bits, prims.f64ToF32 (prims.f32ToF64 bits) = bits)
    (hresult : result.Deliverable layout) (count : Nat) :
    List.Forall₂ DataChunk.Same (result.received prims count)
      (attachColumnNames result.names ((result.inline ++ (result.batches.take count).flatten).map
        DataChunk.asRead)) := by
  refine same_yielded hfloat hresult fun chunk hmem => ?_
  rcases List.mem_append.mp hmem with hinline | hbatch
  · exact List.mem_append_left _ hinline
  · obtain ⟨batch, hbatch, hchunk⟩ := List.mem_flatten.mp hbatch
    exact List.mem_append_right _ (List.mem_flatten_of_mem (List.mem_of_mem_take hbatch) hchunk)

theorem Obtains.delivers {needsMoreFetch : Bool} {count : Nat} {run : StreamRun}
    (hfloat : ∀ bits, prims.f64ToF32 (prims.f32ToF64 bits) = bits) (hresult : result.Deliverable layout)
    (h : Obtains prims result connection needsMoreFetch count run) :
    Delivers result connection needsMoreFetch count run :=
  ⟨h.requests, h.chunks ▸ same_received hfloat hresult count, h.ending⟩

theorem stream_obtains (hversion : connection.quackVersion = quackV1 ∨ connection.quackVersion = quackV3)
    (hid : HeldText connection.connectionId)
    (hfloat : ∀ bits, prims.f64ToF32 (prims.f32ToF64 bits) = bits) (hresult : result.Deliverable layout)
    {state : FetchState} (hreached : state.Reached connection result.resultUuid 0)
    (hrows : state.rowsDelivered = totalRows result.inline)
    (done : state.needsMoreFetch = false → result.batches = [])
    (hserved : FetchesServed layout prims canonicalReason result connection.quackVersion 0
      (fetchStream layout prims result.names state answers).requests answers) :
    Obtains prims result connection state.needsMoreFetch answers.length
      (withInline prims result (fetchStream layout prims result.names state answers)) := by
  have hchunks := @yielded_received prims result answers.length
  cases hmore : state.needsMoreFetch with
  | false =>
      rw [done hmore, List.take_nil] at hchunks
      rw [fetchStream_complete hmore]
      exact ⟨rfl, hchunks, (if_neg fun h => Bool.false_ne_true h.1).symm⟩
  | true =>
      by_cases hcount : answers.length ≤ result.batches.length
      · -- every answer is a batch, and the stream waits for the next one
        rw [← List.append_nil answers] at hserved
        obtain ⟨next, -, hnext, hrun⟩ :=
          stream_served hversion hid hfloat hresult answers [] hreached hmore hrows hcount hserved.front
        have hwaits : fetchStream layout prims result.names next [] = ⟨[], [], none⟩ := by
          rw [fetchStream, hnext]
          rfl
        rw [List.append_nil, hwaits] at hrun
        rw [hrun]
        simp only [List.append_nil]
        refine ⟨?_, hchunks, (if_pos ⟨rfl, hcount⟩).symm⟩
        rw [if_pos rfl, Nat.min_eq_left (by omega)]
        rfl
      · -- the answer after the last batch is the end
        obtain ⟨front, answer, rest, rfl, hfront⟩ : ∃ front answer rest,
            answers = front ++ answer :: rest ∧ front.length = result.batches.length := by
          have hlt := not_le.mp hcount
          exact ⟨_, _, _, (List.take_append_drop result.batches.length answers).symm.trans
            (congrArg _ (List.drop_eq_getElem_cons hlt)), List.length_take_of_le hlt.le⟩
        obtain ⟨next, hplace, hnext, hrun⟩ := stream_served hversion hid hfloat hresult front (answer :: rest)
          hreached hmore hrows hfront.le hserved.front
        rw [hrun] at hserved
        have htail := hserved.tail (by rw [List.length_map, List.length_range])
        rw [hfront] at hplace htail
        rw [hrun, fetchStream_finished hversion hid hfloat hresult hplace hnext htail]
        simp only [List.append_nil]
        rw [List.take_of_length_le (not_le.mp hcount).le] at hchunks
        refine ⟨?_, ?_, (if_neg fun h => hcount h.2).symm⟩
        · rw [if_pos rfl, Nat.min_eq_right (by omega), List.range_succ, List.map_append, hfront]
          rfl
        · rw [List.take_of_length_le hfront.ge]
          exact hchunks

/-- The query and its stream, with the chunks as they are read. -/
theorem query_obtains (ready : connection.closed = false)
    (hversion : connection.quackVersion = quackV1 ∨ connection.quackVersion = quackV3)
    (hid : HeldText connection.connectionId) (hsql : HeldText sql)
    (hfloat : ∀ bits, prims.f64ToF32 (prims.f32ToF64 bits) = bits) (hresult : result.Deliverable layout)
    (hprepared : Served layout prims canonicalReason connection.quackVersion result.Prepares
      (connection.prepareRequest sql) reply) :
    ∃ prepared, (prepareQuery layout prims connection sql reply).result = .ok prepared ∧
      prepared.columns = result.names.zipWith ColumnDefinition.mk (result.types.map LogicalType.asRead) ∧
      (prepared.state.needsMoreFetch = false → result.batches = []) ∧
      ∀ answers, FetchesServed layout prims canonicalReason result connection.quackVersion 0
          (queryStream layout prims prepared answers).requests answers →
        Obtains prims result prepared.state.connection prepared.state.needsMoreFetch answers.length
          (queryStream layout prims prepared answers) := by
  obtain ⟨needsMoreFetch, more, hok⟩ := prepared_served ready hversion hid hsql hfloat hresult hprepared
  refine ⟨_, hok, rfl, more, fun answers hserved => ?_⟩
  obtain ⟨hreached, -, -⟩ := prepareQuery_reached hversion hok
  unfold queryStream at hserved ⊢
  simp only [columnNames_prepared hresult] at hserved ⊢
  exact stream_obtains (by exact hversion) (by exact hid) hfloat hresult hreached rfl more hserved

/-- The requests of a stream of the server are understood. -/
theorem Obtains.understood {needsMoreFetch : Bool} {count : Nat} {run : StreamRun}
    (hversion : connection.quackVersion = quackV1 ∨ connection.quackVersion = quackV3)
    (hid : HeldText connection.connectionId) (hresult : result.Deliverable layout)
    (h : Obtains prims result connection needsMoreFetch count run) :
    ∀ request ∈ run.requests, Understood layout prims connection.quackVersion request := by
  intro request hmem
  have hnumbers := hresult.numbers
  rw [h.requests] at hmem
  obtain ⟨index, hindex, rfl⟩ := List.mem_map.mp hmem
  have hlt := List.mem_range.mp hindex
  refine batchRequest_understood _ hversion hid ?_
  split at hlt <;> omega

/-- A query that a server answers over the wire gives the columns of the result, and its stream asks for one
batch after the other and yields the chunks that the server holds, in order and once. The server reads each
request as it was meant. -/
theorem query_delivered (ready : connection.closed = false)
    (hversion : connection.quackVersion = quackV1 ∨ connection.quackVersion = quackV3)
    (hid : HeldText connection.connectionId) (hsql : HeldText sql)
    (hfloat : ∀ bits, prims.f64ToF32 (prims.f32ToF64 bits) = bits) (hresult : result.Deliverable layout)
    (hprepared : Served layout prims canonicalReason connection.quackVersion result.Prepares
      (connection.prepareRequest sql) reply) :
    Understood layout prims connection.quackVersion (connection.prepareRequest sql) ∧
    ∃ prepared, (prepareQuery layout prims connection sql reply).result = .ok prepared ∧
      prepared.columns = result.names.zipWith ColumnDefinition.mk (result.types.map LogicalType.asRead) ∧
      (prepared.state.needsMoreFetch = false → result.batches = []) ∧
      ∀ answers, FetchesServed layout prims canonicalReason result connection.quackVersion 0
          (queryStream layout prims prepared answers).requests answers →
        (∀ request ∈ (queryStream layout prims prepared answers).requests,
          Understood layout prims connection.quackVersion request) ∧
        Delivers result prepared.state.connection prepared.state.needsMoreFetch answers.length
          (queryStream layout prims prepared answers) := by
  obtain ⟨prepared, hok, hcolumns, more, hobtains⟩ :=
    query_obtains ready hversion hid hsql hfloat hresult hprepared
  refine ⟨prepareRequest_understood hversion hid hsql, prepared, hok, hcolumns, more, fun answers hserved => ?_⟩
  obtain ⟨needsMoreFetch, -, hstate⟩ := prepared_served ready hversion hid hsql hfloat hresult hprepared
  cases hok.symm.trans hstate
  have hall := hobtains answers hserved
  have hrequests := hall.understood (by exact hversion) (by exact hid) hresult
  exact ⟨hrequests, hall.delivers hfloat hresult⟩

end

end

/-- What may become of a response on the way: nothing comes back, or a status of failure, or a body that
cannot be read, is cut off or has bytes behind it. -/
inductive Damaged (body : Bytes) : HttpReply → Prop where
  | failed : Damaged body .failed
  | refused {status : Nat} {rest : Option Bytes} (fails : isSuccess status = false) :
      Damaged body (.response status rest)
  | unread {status : Nat} : Damaged body (.response status none)
  | cut {status : Nat} {front back : Bytes} (parts : body = front ++ back) (missing : back ≠ []) :
      Damaged body (.response status (some front))
  | longer {status : Nat} {more : Bytes} (added : more ≠ []) :
      Damaged body (.response status (some (body ++ more)))

/-- The server reports an error instead of an answer. -/
inductive Reported (layout : Layout) (prims : Primitives) (quackVersion : U64) : HttpReply → Prop where
  | intro {status : Nat} {header : MessageHeader} {text : String} {bytes : Bytes}
      (inMemory : (QuackMessage.errorResponse header text).InMemory layout)
      (ofType : header.messageType = .errorResponse)
      (written : encodeMessageForVersion layout prims (.errorResponse header text) quackVersion = .ok bytes)
      (held : Held bytes) : Reported layout prims quackVersion (.response status (some bytes))

/-- The reply to a message is what has become of the answer of the server to it, or an error that the server
reports. -/
def ServedDamaged (layout : Layout) (prims : Primitives) (canonicalReason : Nat → Option String)
    (quackVersion : U64) (answers : QuackMessage → QuackMessage → Prop) (message : QuackMessage)
    (reply : Reply) : Prop :=
  ∃ bytes http, encodeMessageForVersion layout prims message quackVersion = .ok bytes ∧
    ((∃ request response body, Exchanged layout prims quackVersion answers bytes request response body ∧
        Damaged body http) ∨
      Reported layout prims quackVersion http) ∧
    Replied (http.decode layout canonicalReason quackVersion) reply

section
variable {layout : Layout} {prims : Primitives} {canonicalReason : Nat → Option String} {quackVersion : U64}
  {result : ServedResult} {message : QuackMessage} {reply : Reply} {connection : Connection} {sql : String}
  {answers : QuackMessage → QuackMessage → Prop}

/-- A damaged reply is an error, never a message. -/
theorem damaged_refused {body : Bytes} {http : HttpReply} (hheld : Held body)
    (hbody : decodeMessageForVersion layout body quackVersion = .ok message) (h : Damaged body http) :
    ∃ e, http.decode layout canonicalReason quackVersion = .err e := by
  have hstatus (status : Nat) (bytes : Bytes)
      (hrefused : ∃ e, decodeMessageForVersion layout bytes quackVersion = .err e) :
      ∃ e, (HttpReply.response status (some bytes)).decode layout canonicalReason quackVersion = .err e := by
    simp only [HttpReply.decode]
    split
    · exact ⟨_, rfl⟩
    · exact hrefused
  cases h with
  | failed => exact ⟨_, rfl⟩
  | refused fails =>
      simp only [HttpReply.decode, fails]
      exact ⟨_, rfl⟩
  | unread =>
      simp only [HttpReply.decode]
      split <;> exact ⟨_, rfl⟩
  | @cut status front back parts missing =>
      subst parts
      have hlen : front.length ≤ isizeMax := by
        have hall : (front ++ back).length ≤ isizeMax := hheld
        rw [List.length_append] at hall
        omega
      exact hstatus _ _ (shorter_refused hlen hbody missing)
  | longer added => exact hstatus _ _ (longer_refused hbody added)

/-- An error that the server reports is the error of the exchange, whatever the status. -/
theorem reported_answered {http : HttpReply} (hversion : quackVersion = quackV1 ∨ quackVersion = quackV3)
    (h : Reported layout prims quackVersion http)
    (hreplied : Replied (http.decode layout canonicalReason quackVersion) reply) :
    ∃ e, answered reply = .error (.error .exchange e) := by
  cases h with
  | @intro status header text bytes inMemory ofType written held =>
      have hread := decodeMessage_stored hversion inMemory ofType trivial (fun chunk hmem => by cases hmem)
        written held
      simp only [HttpReply.decode] at hreplied
      split at hreplied
      · cases hreplied
        exact ⟨_, rfl⟩
      · rw [hread] at hreplied
        cases hreplied
        exact ⟨_, rfl⟩

theorem servedDamaged_error (hversion : quackVersion = quackV1 ∨ quackVersion = quackV3)
    (hstores : ∀ request response, answers request response →
      response.AsksFromOne quackVersion ∧ ∀ chunk ∈ response.chunks, chunk.Stores layout prims)
    (h : ServedDamaged layout prims canonicalReason quackVersion answers message reply) :
    ∃ e, answered reply = .error (.error .exchange e) := by
  obtain ⟨bytes, http, -, ⟨request, response, body, hexchanged, hdamaged⟩ | hreported, hreplied⟩ := h
  · obtain ⟨hasks, hchunks⟩ := hstores _ _ hexchanged.answer
    have hbody := decodeMessage_stored hversion hexchanged.inMemory hexchanged.ofType hasks hchunks
      hexchanged.written hexchanged.held
    obtain ⟨e, he⟩ := @damaged_refused layout canonicalReason _ _ _ _ hexchanged.held hbody hdamaged
    rw [he] at hreplied
    cases hreplied
    exact ⟨e, rfl⟩
  · exact reported_answered hversion hreported hreplied

/-- A stream whose request comes to an error ends there. -/
theorem fetchStream_failed {names : List String} {state : FetchState} {index : Nat} {answer : Answer}
    {rest : List Answer} {e : QuackError} (hstate : state.At index) (more : state.needsMoreFetch = true)
    (ready : answer.closed = false) (hreply : answered answer.reply = .error (.error .exchange e)) :
    fetchStream layout prims names state (answer :: rest) =
      ⟨[state.request], [], some (.error (.error .exchange e))⟩ := by
  have hfetch := @fetch_ready layout prims _ _ _ hstate ready
  rw [hreply] at hfetch
  have honce : fetchOnce layout prims names state answer =
      ⟨[state.request], .error (.error .exchange e)⟩ := by
    unfold fetchOnce
    simp only [hfetch]
    rfl
  rw [fetchStream, more, if_pos rfl]
  simp only [honce]

/-- A query whose next reply is damaged, with the chunks before it as they are read. -/
theorem query_fails (ready : connection.closed = false)
    (hversion : connection.quackVersion = quackV1 ∨ connection.quackVersion = quackV3)
    (hid : HeldText connection.connectionId) (hsql : HeldText sql)
    (hfloat : ∀ bits, prims.f64ToF32 (prims.f32ToF64 bits) = bits) (hresult : result.Deliverable layout)
    {prepared : Prepared} {front rest : List Answer} {damaged : Answer}
    (hprepared : Served layout prims canonicalReason connection.quackVersion result.Prepares
      (connection.prepareRequest sql) reply)
    (hok : (prepareQuery layout prims connection sql reply).result = .ok prepared)
    (hmore : prepared.state.needsMoreFetch = true) (hcount : front.length ≤ result.batches.length)
    (hserved : FetchesServed layout prims canonicalReason result connection.quackVersion 0
      (queryStream layout prims prepared (front ++ damaged :: rest)).requests front)
    (hopen : damaged.closed = false)
    (hdamaged : ∀ request, (queryStream layout prims prepared (front ++ damaged :: rest)).requests[front.length]? =
        some request →
      ServedDamaged layout prims canonicalReason connection.quackVersion
        (result.Fetches connection.quackVersion front.length) request damaged.reply) :
    prepared.columns = result.names.zipWith ColumnDefinition.mk (result.types.map LogicalType.asRead) ∧
    ∃ e, answered damaged.reply = .error (.error .exchange e) ∧
      (queryStream layout prims prepared (front ++ damaged :: rest)).ending =
        some (.error (.error .exchange e)) ∧
      (queryStream layout prims prepared (front ++ damaged :: rest)).requests =
        (List.range (front.length + 1)).map (batchRequest prepared.state.connection result.resultUuid) ∧
      (queryStream layout prims prepared (front ++ damaged :: rest)).chunks =
        result.received prims front.length := by
  obtain ⟨needsMoreFetch, -, hprepare⟩ := prepared_served ready hversion hid hsql hfloat hresult hprepared
  cases hok.symm.trans hprepare
  refine ⟨rfl, ?_⟩
  obtain ⟨hreached, -, -⟩ := prepareQuery_reached hversion hok
  unfold queryStream at hserved hdamaged ⊢
  simp only [columnNames_prepared hresult] at hserved hdamaged ⊢
  obtain ⟨next, hplace, hnext, hrun⟩ := stream_served (by exact hversion) (by exact hid) hfloat hresult front
    (damaged :: rest) hreached hmore rfl hcount hserved
  have hrequest := hplace.request_eq
  have hhead := @fetchStream_head layout prims result.names _ _ _ rest hplace.toAt hnext hopen
  rw [hrun] at hdamaged ⊢
  obtain ⟨e, he⟩ := servedDamaged_error hversion (fun _ _ hfetches => hfetches.stores hfloat hresult)
    (hdamaged next.request (by
      rw [List.getElem?_append_right (by rw [List.length_map, List.length_range]), List.length_map,
        List.length_range, Nat.sub_self]
      exact hhead))
  rw [fetchStream_failed hplace.toAt hnext hopen he, hrequest, List.append_nil]
  refine ⟨e, he, rfl, ?_, yielded_received front.length⟩
  rw [List.range_succ, List.map_append]
  rfl

/-- However the reply to a request is damaged, the query ends there with an error, and its stream has yielded
the batches before it and nothing of that one. -/
theorem query_damaged (ready : connection.closed = false)
    (hversion : connection.quackVersion = quackV1 ∨ connection.quackVersion = quackV3)
    (hid : HeldText connection.connectionId) (hsql : HeldText sql)
    (hfloat : ∀ bits, prims.f64ToF32 (prims.f32ToF64 bits) = bits) (hresult : result.Deliverable layout) :
    (∀ reply, ServedDamaged layout prims canonicalReason connection.quackVersion result.Prepares
        (connection.prepareRequest sql) reply →
      ∃ e, answered reply = .error (.error .exchange e) ∧
        (prepareQuery layout prims connection sql reply).result = .error (.error .exchange e)) ∧
    ∀ reply prepared front damaged rest,
      Served layout prims canonicalReason connection.quackVersion result.Prepares
        (connection.prepareRequest sql) reply →
      (prepareQuery layout prims connection sql reply).result = .ok prepared →
      prepared.state.needsMoreFetch = true → front.length ≤ result.batches.length →
      FetchesServed layout prims canonicalReason result connection.quackVersion 0
        (queryStream layout prims prepared (front ++ damaged :: rest)).requests front →
      damaged.closed = false →
      (∀ request, (queryStream layout prims prepared (front ++ damaged :: rest)).requests[front.length]? =
          some request →
        ServedDamaged layout prims canonicalReason connection.quackVersion
          (result.Fetches connection.quackVersion front.length) request damaged.reply) →
      ∃ e, answered damaged.reply = .error (.error .exchange e) ∧
        (queryStream layout prims prepared (front ++ damaged :: rest)).ending =
          some (.error (.error .exchange e)) ∧
        (queryStream layout prims prepared (front ++ damaged :: rest)).requests =
          (List.range (front.length + 1)).map (batchRequest prepared.state.connection result.resultUuid) ∧
        List.Forall₂ DataChunk.Same (queryStream layout prims prepared (front ++ damaged :: rest)).chunks
          (attachColumnNames result.names
            ((result.inline ++ (result.batches.take front.length).flatten).map DataChunk.asRead)) := by
  constructor
  · intro reply hdamaged
    obtain ⟨e, he⟩ := servedDamaged_error hversion (fun _ _ hprepares => hprepares.stores hfloat hresult)
      hdamaged
    obtain ⟨bytes, hbytes⟩ := @writes_prepareRequest layout prims _ sql hversion
    refine ⟨e, he, ?_⟩
    unfold prepareQuery Connection.prepare
    rw [Connection.ensureOpen, ready]
    show (((Call.step (.ok ()) >>= _) >>= _) : ClientCall Prepared).result = _
    rw [Call.step_ok_bind, send_encoded hbytes, he]
    rfl
  · intro reply prepared front damaged rest hprepared hok hmore hcount hserved hopen hdamaged
    obtain ⟨-, e, he, hending, hrequests, hchunks⟩ :=
      query_fails ready hversion hid hsql hfloat hresult hprepared hok hmore hcount hserved hopen hdamaged
    exact ⟨e, he, hending, hrequests, hchunks ▸ same_received hfloat hresult front.length⟩

end

section
variable {layout : Layout} {prims : Primitives} {canonicalReason : Nat → Option String} {quackVersion : U64}
  {message response : QuackMessage} {bytes body : Bytes} {answers : QuackMessage → QuackMessage → Prop}

theorem served_intro (hversion : quackVersion = quackV1 ∨ quackVersion = quackV3)
    (hmemory : message.InMemory layout) (htype : message.messageType = message.variantType)
    (hasks : message.AsksFromOne quackVersion) (hnone : message.chunks = [])
    (hbytes : encodeMessageForVersion layout prims message quackVersion = .ok bytes) (hheld : Held bytes)
    (hanswer : answers (message.readWith (storedChunk prims) quackVersion) response)
    (hinMemory : response.InMemory layout) (hofType : response.messageType = response.variantType)
    (hresponseAsks : response.AsksFromOne quackVersion)
    (hstores : ∀ chunk ∈ response.chunks, chunk.Stores layout prims)
    (hbody : encodeMessageForVersion layout prims response quackVersion = .ok body) (hheldBody : Held body) :
    Served layout prims canonicalReason quackVersion answers message
      (.ok (response.readWith (storedChunk prims) quackVersion)) := by
  have hrequest := decodeMessage_stored hversion hmemory htype hasks
    (fun chunk hmem => by rw [hnone] at hmem; cases hmem) hbytes hheld
  have hresponse := decodeMessage_stored hversion hinMemory hofType hresponseAsks hstores hbody hheldBody
  refine ⟨bytes, _, response, body, 200, hbytes,
    ⟨hheld, hrequest, hanswer, hinMemory, hofType, hbody, hheldBody⟩, rfl, ?_⟩
  rw [decode_success rfl, hresponse]
  exact .message _

/-- Whatever the answers, the requests of a stream are those for the batches in order. -/
theorem fetchStream_requests {connection : Connection} {resultUuid : HugeIntParts} {names : List String}
    {state : FetchState} {index : Nat} (h : state.Reached connection resultUuid index) (answers : List Answer) :
    ∃ sent, (fetchStream layout prims names state answers).requests =
      (List.range' index sent).map (batchRequest connection resultUuid) := by
  induction answers generalizing state index with
  | nil => exact ⟨0, rfl⟩
  | cons answer answers ih =>
      cases hmore : state.needsMoreFetch with
      | false =>
          rw [fetchStream_complete hmore]
          exact ⟨0, rfl⟩
      | true =>
          rw [fetchStream, hmore, if_pos rfl]
          cases hclosed : answer.closed with
          | true =>
              obtain ⟨error, hcall⟩ := @fetchOnce_closed layout prims names state _ hclosed
              simp only [hcall]
              exact ⟨0, rfl⟩
          | false =>
              have hends := @fetchOnce_ends layout prims names state _ _ h.toAt hclosed
              have hsent := @fetchOnce_sent layout prims names state _ _ h.toAt hclosed
              rw [h.request_eq] at hsent
              generalize fetchOnce layout prims names state answer = call at hends hsent
              obtain ⟨sent, result⟩ := call
              obtain rfl : sent = _ := hsent
              cases hends with
              | batch reply room rows after reached =>
                  obtain ⟨sent, hsent⟩ := ih (h.advance after reached)
                  refine ⟨sent + 1, ?_⟩
                  simp only [hsent]
                  rw [List.range'_succ]
                  rfl
              | finished reply done =>
                  simp only [fetchStream_complete done]
                  exact ⟨1, rfl⟩
              | uncounted | last | refused => exact ⟨1, rfl⟩

end

def liveConnection : Connection := ⟨"c", quackV3, 1, 1, false⟩

/-- The result of one column, whose two rows come in one batch. -/
def booleanResult : ServedResult := ⟨[booleanType], ["a"], ⟨0, 0⟩, [], [[booleanChunk]]⟩

theorem booleanResult_deliverable : booleanResult.Deliverable .words where
  plain chunk hmem := by
    obtain rfl := List.mem_singleton.mp hmem
    exact columnChunk_plain booleanChunk_inMemory booleanChunk_canonical
  narrow chunk hmem := by
    obtain rfl := List.mem_singleton.mp hmem
    exact booleanChunk_narrow
  filled batch hmem := by
    obtain rfl := List.mem_singleton.mp hmem
    exact List.cons_ne_nil _ _
  named := rfl
  numbers := by decide
  rows := by decide

theorem heldText_short {text : String} (h : (utf8Bytes text).length ≤ 16) : HeldText text :=
  h.trans (by decide)

theorem atMost_liveHeader (messageType : MessageType) {number : U64} (hnumber : number.toNat < 2 ^ 63) :
    (encodeHeader ⟨messageType, some "c", some number⟩).AtMost 64 := by
  have hcode : messageType.code < 2 ^ 63 := by cases messageType <;> decide
  have hid : (writeOptionalString 2 (some "c")).AtMost (2 + (9 + 1)) :=
    Encode.AtMost.field (.stringBytes (by decide) (heldText_short (by decide))) 2
  exact ((Encode.AtMost.field (.uleb hcode) 1).append (hid.append
    ((Encode.AtMost.field (.uleb hnumber) 3).append .nothing))).object.mono (by decide)

theorem atMost_smallUuid {number : U64} (hnumber : number.toNat < 2 ^ 63) :
    (writeHugeIntParts ⟨0, number⟩).AtMost 16 := by
  have hupper : (Varint.sleb (0 : I64).toInt).length ≤ 1 := by
    rcases Varint.sleb_cases (0 : I64).toInt with ⟨-, -, hbytes⟩ | ⟨hbig, -⟩
    · rw [hbytes]
      exact le_rfl
    · exact absurd hbig (by decide)
  exact ((Encode.AtMost.ok hupper).append (.uleb hnumber)).mono (by decide)

theorem held_of_atMost {write : Encode} {bytes : Bytes} (h : write.AtMost 512) (hok : write = .ok bytes) :
    Held bytes := (h bytes hok).trans (by decide)

theorem atMost_livePrepare : (encodeMessageForVersion .words .floatless
    (liveConnection.prepareRequest "SELECT") quackV3).AtMost 512 := by
  have hsql : (writeOptionalString 1 (some "SELECT")).AtMost (2 + (9 + 6)) :=
    Encode.AtMost.field (.stringBytes (by decide) (heldText_short (by decide))) 1
  have hbody : (encodeBodyV3 .words .floatless (liveConnection.prepareRequest "SELECT")).AtMost
      (2 + (9 + 6) + (2 + 16 + (0 + 0)) + 2) :=
    (hsql.append ((Encode.AtMost.field (atMost_smallUuid (by decide)) 2).append
      ((Encode.AtMost.ok le_rfl).append .nothing))).object
  exact ((atMost_liveHeader .prepareRequest (by decide)).append hbody).mono (by decide)

/-- The answer to PREPARE. -/
def booleanPrepared : QuackMessage :=
  .prepareResponse ⟨.prepareResponse, some "c", some 1⟩ [booleanType] ["a"] true [] ⟨0, 0⟩

theorem encode_booleanType : ∃ bytes, encodeLogicalType booleanType = .ok bytes ∧ bytes.length ≤ 13 := by
  obtain ⟨bytes, hok, -⟩ := roundTrips_logicalType
    (booleanChunk_inMemory.types booleanType (List.mem_singleton_self _)).2
  refine ⟨bytes, hok, ?_⟩
  have htype : (encodeLogicalType booleanType).AtMost 13 := by
    rw [booleanType, encodeLogicalType]
    exact ((Encode.AtMost.field (.uleb (by decide)) 100).append
      ((Encode.AtMost.ok le_rfl).append .nothing)).object
  exact htype bytes hok

theorem encode_booleanPrepared : ∃ bytes,
    encodeMessageForVersion .words .floatless booleanPrepared quackV3 = .ok bytes ∧ Held bytes := by
  obtain ⟨typeBytes, hok, hlen⟩ := encode_booleanType
  have htypes : (writeList ([booleanType].map encodeLogicalType)).AtMost (9 + 13 * 1) := by
    rw [List.map_singleton, hok]
    exact .list (fun element hmem => by
      rw [List.mem_singleton.mp hmem]
      exact .ok hlen) (by rw [List.length_singleton]; decide)
  have hnames : (writeList (["a"].map writeString)).AtMost (9 + (9 + 1) * 1) :=
    .list (fun element hmem => by
      rw [List.mem_singleton.mp hmem]
      exact .stringBytes (by decide) (heldText_short (by decide))) (by decide)
  have hbody : (encodeBodyV3 .words .floatless booleanPrepared).AtMost
      (2 + (9 + 13 * 1) + (2 + (9 + (9 + 1) * 1) + (2 + 1 + (0 + (2 + 16 + 0)))) + 2) :=
    ((Encode.AtMost.field htypes 1).append ((Encode.AtMost.field hnames 2).append
      ((Encode.AtMost.field (.ok le_rfl) 3).append ((Encode.AtMost.ok le_rfl).append
        ((Encode.AtMost.field (atMost_smallUuid (by decide)) 5).append .nothing))))).object
  have hwrites : ∃ bytes, encodeMessageForVersion .words .floatless booleanPrepared quackV3 = .ok bytes := by
    rw [encodeMessageForVersion, if_neg (by decide), if_pos rfl, booleanPrepared]
    simp only [encodeBodyV3, encodePrepareResponse, List.map_cons, List.map_nil, hok]
    exact ⟨_, rfl⟩
  obtain ⟨bytes, hbytes⟩ := hwrites
  exact ⟨bytes, hbytes, held_of_atMost
    (((atMost_liveHeader .prepareResponse (by decide)).append hbody).mono (by decide)) hbytes⟩

/-- The PREPARE of the query is served. -/
theorem prepare_booleans : Served .words .floatless (fun _ => none) quackV3 booleanResult.Prepares
    (liveConnection.prepareRequest "SELECT")
    (.ok (booleanPrepared.readWith (storedChunk .floatless) quackV3)) := by
  obtain ⟨bytes, hbytes⟩ := @writes_prepareRequest .words .floatless liveConnection "SELECT" (.inr rfl)
  obtain ⟨body, hbody, hheld⟩ := encode_booleanPrepared
  have hid : HeldText "c" := heldText_short (by decide)
  have hone (element : Element) : Layout.words.Fits element 1 := by
    cases element <;> exact ⟨by decide, by decide⟩
  refine served_intro (.inr rfl) (prepareRequest_inMemory hid (heldText_short (by decide))) rfl trivial rfl hbytes
    (held_of_atMost atMost_livePrepare hbytes) (.intro fun h => by cases h) ?_ rfl trivial
    (fun chunk hmem => by cases hmem) hbody hheld
  refine ⟨fun text htext => ?_, fun T hT => ?_, hone _, hone _, fits_none _ _⟩
  · rcases List.mem_append.mp htext with hheader | hname
    · rw [List.mem_singleton.mp hheader]
      exact hid
    · rw [List.mem_singleton.mp hname]
      exact heldText_short (by decide)
  · rw [List.mem_singleton.mp hT]
    exact (booleanChunk_inMemory.types booleanType (List.mem_singleton_self _)).2

/-- The connection once the query is prepared. -/
def fetchingConnection : Connection := ⟨"c", quackV3, 2, 2, false⟩

theorem atMost_liveFetch {index : Nat} (hindex : index < 2) :
    (encodeMessageForVersion .words .floatless (batchRequest fetchingConnection ⟨0, 0⟩ index) quackV3).AtMost
      512 := by
  have hnumber (number : Nat) (hnumber : number < 3) (fieldId : Nat) :
      (writeOptionalIndexDefaultZero fieldId (BitVec.ofNat 64 number)).AtMost (2 + 9) := by
    unfold writeOptionalIndexDefaultZero
    split
    · exact Encode.AtMost.field (.uleb (by rw [BitVec.toNat_ofNat]; omega)) fieldId
    · exact .ok (Nat.zero_le _)
  have hbody : (encodeBodyV3 .words .floatless (batchRequest fetchingConnection ⟨0, 0⟩ index)).AtMost
      (2 + 16 + (2 + 9 + (2 + 9 + 0)) + 2) :=
    ((Encode.AtMost.field (atMost_smallUuid (by decide)) 1).append ((hnumber (index + 1) (by omega) 2).append
      ((hnumber index (by omega) 3).append .nothing))).object
  have hcounter : (fetchingConnection.queryCounter + BitVec.ofNat 64 index).toNat < 2 ^ 63 := by
    obtain rfl | rfl : index = 0 ∨ index = 1 := by omega
    · decide
    · decide
  exact ((atMost_liveHeader .fetchRequest hcounter).append hbody).mono (by decide)

/-- The FETCH after the last batch is answered without chunks. -/
def lastReply : QuackMessage := .fetchResponse ⟨.fetchResponse, none, some 8⟩ [] none none

theorem encode_lastReply : ∃ bytes,
    encodeMessageForVersion .words .floatless lastReply quackV3 = .ok bytes ∧ Held bytes := by
  have hheader : (encodeHeader ⟨.fetchResponse, none, some 8⟩).AtMost (2 + 9 + (0 + (2 + 9 + 0)) + 2) :=
    ((Encode.AtMost.field (.uleb (by decide)) 1).append ((Encode.AtMost.ok le_rfl).append
      ((Encode.AtMost.field (.uleb (by decide)) 3).append .nothing))).object
  have hfields : (writeObject (Encode.all [writeOptionalIndexDefaultZero 1 (BitVec.ofNat 64 0),
      writeOptionalIndex 2 none, writeOptionalIndex 3 none])).AtMost (0 + (0 + (0 + 0)) + 2) :=
    ((Encode.AtMost.ok le_rfl).append ((Encode.AtMost.ok le_rfl).append
      ((Encode.AtMost.ok le_rfl).append .nothing))).object
  refine ⟨_, rfl, held_of_atMost ((hheader.append (hfields.append .nothing)).mono (by decide)) rfl⟩

/-- The chunks of the batch, and the end, are served. -/
theorem fetches_booleans :
    Served .words .floatless (fun _ => none) quackV3 (booleanResult.Fetches quackV3 0)
      (batchRequest fetchingConnection ⟨0, 0⟩ 0)
      (.ok ((chunkReply booleanChunk).readWith (storedChunk .floatless) quackV3)) ∧
    Served .words .floatless (fun _ => none) quackV3 (booleanResult.Fetches quackV3 1)
      (batchRequest fetchingConnection ⟨0, 0⟩ 1)
      (.ok (lastReply.readWith (storedChunk .floatless) quackV3)) := by
  have hid : HeldText fetchingConnection.connectionId := heldText_short (by decide)
  have hplain := columnChunk_plain booleanChunk_inMemory booleanChunk_canonical
  constructor
  · obtain ⟨bytes, hbytes⟩ : ∃ bytes, encodeMessageForVersion .words .floatless
        (batchRequest fetchingConnection ⟨0, 0⟩ 0) quackV3 = .ok bytes := ⟨_, rfl⟩
    obtain ⟨inner, hinner, -⟩ := roundTrips_dataChunk booleanChunk_inMemory booleanChunk_fits
      (hplain.stores Primitives.floatless_back).storable
    obtain ⟨body, hbody, hlen⟩ := chunkReply_encode hinner
    have hheld : Held body := by
      have hsize := atMost_booleanChunk inner hinner
      simp only [Held, isizeMax]
      omega
    exact served_intro (.inr rfl) (batchRequest_inMemory hid _ _) rfl
      (fun _ => (by decide : (BitVec.ofNat 64 1 : U64) ≠ 0)) rfl hbytes
      (held_of_atMost (atMost_liveFetch (by decide)) hbytes) (.asked rfl fun _ h => by cases h)
      (chunkReply_inMemory _) rfl trivial (fun chunk hmem => by
        rw [List.mem_singleton.mp hmem]
        exact hplain.stores Primitives.floatless_back) hbody hheld
  · obtain ⟨bytes, hbytes⟩ : ∃ bytes, encodeMessageForVersion .words .floatless
        (batchRequest fetchingConnection ⟨0, 0⟩ 1) quackV3 = .ok bytes := ⟨_, rfl⟩
    obtain ⟨body, hbody, hheld⟩ := encode_lastReply
    exact served_intro (.inr rfl) (batchRequest_inMemory hid _ _) rfl
      (fun _ => (by decide : (BitVec.ofNat 64 2 : U64) ≠ 0)) rfl hbytes
      (held_of_atMost (atMost_liveFetch (by decide)) hbytes) (.asked rfl fun _ h => by cases h)
      ⟨fun text htext => (by cases htext), fun T hT => (by cases hT), fits_none _ _, fits_none _ _,
        fits_none _ _⟩
      rfl trivial (fun chunk hmem => by cases hmem) hbody hheld

theorem request_at {connection : Connection} {resultUuid : HugeIntParts} {requests : List QuackMessage}
    {sent i : Nat} {request : QuackMessage}
    (hrequests : requests = (List.range' 0 sent).map (batchRequest connection resultUuid))
    (h : requests[i]? = some request) : request = batchRequest connection resultUuid i := by
  rw [hrequests, List.getElem?_map] at h
  obtain ⟨index, hindex, rfl⟩ := Option.map_eq_some_iff.mp h
  obtain ⟨hlt, hget⟩ := List.getElem?_eq_some_iff.mp hindex
  rw [List.getElem_range', Nat.zero_add, Nat.one_mul] at hget
  rw [hget]

def booleanAnswer : Answer :=
  ⟨false, .ok ((chunkReply booleanChunk).readWith (storedChunk .floatless) quackV3)⟩

def lastAnswer : Answer := ⟨false, .ok (lastReply.readWith (storedChunk .floatless) quackV3)⟩

theorem fetchesServed_booleans {prepared : Prepared} {answers : List Answer}
    (hreached : prepared.state.Reached fetchingConnection ⟨0, 0⟩ 0) :
    FetchesServed .words .floatless (fun _ => none) booleanResult quackV3 0
      (queryStream .words .floatless prepared answers).requests [booleanAnswer, lastAnswer] := by
  obtain ⟨sent, hsent⟩ := @fetchStream_requests .words .floatless _ _
    (prepared.columns.map ColumnDefinition.name) _ _ hreached answers
  refine ⟨fun answer hmem => ?_, fun i request answer hrequest hanswer => ?_⟩
  · rcases List.mem_cons.mp hmem with rfl | hlast
    · rfl
    · rw [List.mem_singleton.mp hlast]
      rfl
  · rw [request_at hsent hrequest]
    rcases i with _ | _ | i
    · cases hanswer
      exact fetches_booleans.1
    · cases hanswer
      exact fetches_booleans.2
    · cases hanswer

theorem query_delivered_booleans : ∃ reply prepared answers,
    (prepareQuery .words .floatless liveConnection "SELECT" reply).result = .ok prepared ∧
      answers.length = 2 ∧
      Delivers booleanResult prepared.state.connection prepared.state.needsMoreFetch answers.length
        (queryStream .words .floatless prepared answers) := by
  have hid : HeldText liveConnection.connectionId := heldText_short (by decide)
  have hsql : HeldText "SELECT" := heldText_short (by decide)
  obtain ⟨-, prepared, hok, -, -, hall⟩ := query_delivered rfl (.inr rfl) hid hsql
    Primitives.floatless_back booleanResult_deliverable prepare_booleans
  have hprepared := hok
  obtain ⟨needsMoreFetch, -, hserved⟩ := prepared_served rfl (.inr rfl) hid hsql Primitives.floatless_back
    booleanResult_deliverable prepare_booleans
  cases hprepared.symm.trans hserved
  obtain ⟨hreached, -, -⟩ := prepareQuery_reached (.inr rfl) hok
  exact ⟨_, _, [booleanAnswer, lastAnswer], hok, rfl, (hall _ (fetchesServed_booleans hreached)).2⟩

/-- What is lost is an answer to the second request. -/
theorem lost_booleans {prepared : Prepared} {answers : List Answer}
    (hreached : prepared.state.Reached fetchingConnection ⟨0, 0⟩ 0) (request : QuackMessage)
    (h : (queryStream .words .floatless prepared answers).requests[1]? = some request) :
    ServedDamaged .words .floatless (fun _ => none) quackV3 (booleanResult.Fetches quackV3 1) request
      (.error .http) := by
  obtain ⟨sent, hsent⟩ := @fetchStream_requests .words .floatless _ _
    (prepared.columns.map ColumnDefinition.name) _ _ hreached answers
  rw [request_at hsent h]
  obtain ⟨bytes, request, response, body, -, hbytes, hexchanged, -⟩ := fetches_booleans.2
  exact ⟨bytes, .failed, hbytes, .inl ⟨request, response, body, hexchanged, .failed⟩, .error .http⟩

/-- The second reply is lost. -/
theorem query_damaged_lost : ∃ reply prepared e,
    (prepareQuery .words .floatless liveConnection "SELECT" reply).result = .ok prepared ∧
      (queryStream .words .floatless prepared [booleanAnswer, ⟨false, .error .http⟩]).ending =
        some (.error (.error .exchange e)) ∧
      List.Forall₂ DataChunk.Same
        (queryStream .words .floatless prepared [booleanAnswer, ⟨false, .error .http⟩]).chunks
        (attachColumnNames ["a"] [booleanChunk.asRead]) := by
  have hid : HeldText liveConnection.connectionId := heldText_short (by decide)
  have hsql : HeldText "SELECT" := heldText_short (by decide)
  obtain ⟨needsMoreFetch, hmore, hok⟩ := prepared_served rfl (.inr rfl) hid hsql Primitives.floatless_back
    booleanResult_deliverable prepare_booleans
  obtain ⟨hreached, -, -⟩ := prepareQuery_reached (.inr rfl) hok
  cases needsMoreFetch with
  | false => cases hmore rfl
  | true =>
      obtain ⟨e, -, hending, -, hchunks⟩ := (query_damaged rfl (.inr rfl) hid hsql Primitives.floatless_back
        booleanResult_deliverable).2 _ _ [booleanAnswer] ⟨false, .error .http⟩ [] prepare_booleans hok rfl
        (by decide) (FetchesServed.front (@fetchesServed_booleans _ _ hreached)) rfl (lost_booleans hreached)
      exact ⟨_, _, e, hok, hending, hchunks⟩

end QuackProtocol
