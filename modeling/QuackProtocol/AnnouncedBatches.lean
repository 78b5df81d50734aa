import QuackProtocol.FetchOrder

/-! The number of batches of a result, which the server may announce with any FETCH_RESPONSE. The client
compares the number on the reply that ends the result and reads past it on the batches. -/

open Decoding Sending

namespace QuackProtocol

/-- The number of batches that a reply announces. -/
def Answer.announced (answer : Answer) : Option U64 :=
  match answer.reply with
  | .ok (.fetchResponse _ _ totalBatches _) => totalBatches
  | _ => none

section
variable (layout : Layout) (prims : Primitives)

/-- The batches that the loop yields, one for each reply that has chunks. -/
def fetchedBatches (columnNames : List String) (state : FetchState) : List Answer → List (List DataChunk)
  | [] => []
  | answer :: answers =>
    if state.needsMoreFetch then
      match (fetchOnce layout prims columnNames state answer).result with
      | .ok (state, chunks) =>
        (if chunks.isEmpty then [] else [chunks]) ++ fetchedBatches columnNames state answers
      | .error _ => []
    else
      []

/-- The batches that are fetched after PREPARE. -/
def deliveredBatches (prepared : Prepared) (answers : List Answer) : List (List DataChunk) :=
  fetchedBatches layout prims (prepared.columns.map ColumnDefinition.name) prepared.state answers

/-- A stream that ends without an error has delivered the number of batches that any of its replies has
announced; each request has had one reply. -/
def HonoursTotals (prepared : Prepared) (answers : List Answer) : Prop :=
  let run := queryStream layout prims prepared answers
  run.ending = some (.ok ()) → ∀ answer ∈ answers.take run.requests.length, ∀ total,
    answer.announced = some total → (deliveredBatches layout prims prepared answers).length = total.toNat

end

/-- The replies are `count` batches, of which the first has number `index + 1`, and the end of the result. -/
def EndsAfter (version : U64) : Nat → Nat → List Answer → Prop
  | _, _, [] => False
  | index, 0, answer :: _ => answer.IsEnd version index
  | index, count + 1, answer :: answers => (∃ results, answer.IsBatch version (index + 1) results) ∧
      (version = quackV3 → index + 2 < 2 ^ 64) ∧ EndsAfter version (index + 1) count answers

/-- Where the replies are some batches and the end of the result, each batch that announces a number of
batches announces theirs. -/
def BatchesAgree (version : U64) (rows : Nat) (answers : List Answer) : Prop :=
  ∀ count, EndsAfter version 0 count answers → RowsFit version rows 0 answers →
    ∀ answer ∈ answers.take count, ∀ total, answer.announced = some total → total.toNat = count

section
variable {layout : Layout} {prims : Primitives} {names : List String} {state : FetchState}
  {connection : Connection} {resultUuid : HugeIntParts} {index count : Nat} {answers : List Answer}

section
variable {answer : Answer} {next : FetchState} {chunks : List DataChunk} {failure : Failure}
  (more : state.needsMoreFetch = true)
include more

theorem fetchStream_turn (h : (fetchOnce layout prims names state answer).result = .ok (next, chunks)) :
    fetchStream layout prims names state (answer :: answers) =
      ⟨(fetchOnce layout prims names state answer).sent ++ (fetchStream layout prims names next answers).requests,
        chunks ++ (fetchStream layout prims names next answers).chunks,
        (fetchStream layout prims names next answers).ending⟩ := by
  rw [fetchStream, if_pos more]
  simp only [h]

theorem fetchedBatches_turn (h : (fetchOnce layout prims names state answer).result = .ok (next, chunks)) :
    fetchedBatches layout prims names state (answer :: answers) =
      (if chunks.isEmpty then [] else [chunks]) ++ fetchedBatches layout prims names next answers := by
  rw [fetchedBatches, if_pos more]
  simp only [h]

theorem fetchStream_failure (h : (fetchOnce layout prims names state answer).result = .error failure) :
    fetchStream layout prims names state (answer :: answers) =
      ⟨(fetchOnce layout prims names state answer).sent, [], some (.error failure)⟩ := by
  rw [fetchStream, if_pos more]
  simp only [h]

end

theorem fetchedBatches_complete (more : state.needsMoreFetch = false) :
    fetchedBatches layout prims names state answers = [] := by
  cases answers with
  | nil => rfl
  | cons answer answers => rw [fetchedBatches, more, if_neg Bool.false_ne_true]

theorem attachColumnNames_isEmpty {results : List DataChunk} (hne : results ≠ []) :
    (attachColumnNames names results).isEmpty = false := by
  rw [attachColumnNames, List.isEmpty_eq_false_iff]
  exact fun h => hne (List.map_eq_nil_iff.mp h)

theorem fetchOnce_open {answer : Answer} {turn : FetchState × List DataChunk}
    (h : (fetchOnce layout prims names state answer).result = .ok turn) : answer.closed = false := by
  cases hclosed : answer.closed with
  | false => rfl
  | true =>
      obtain ⟨error, hcall⟩ := @fetchOnce_closed layout prims names state _ hclosed
      rw [hcall] at h
      cases h

/-- The next batch is taken where its rows can be counted. -/
theorem fetchOnce_batch {answer : Answer} {results : List DataChunk} (h : state.Reached connection resultUuid index)
    (reply : answer.IsBatch connection.quackVersion (index + 1) results)
    (room : connection.quackVersion = quackV3 → index + 2 < 2 ^ 64)
    (rows : state.rowsDelivered + totalRows results < usizeLimit) :
    ∃ next, (fetchOnce layout prims names state answer).result = .ok (next, attachColumnNames names results) ∧
      state.After results next ∧ next.Reached connection resultUuid (index + 1) := by
  have hends := @fetchOnce_ends layout prims names state _ _ h.toAt reply.1
  generalize (fetchOnce layout prims names state answer).result = result at hends
  rw [← h.sameVersion] at reply room
  cases hends with
  | batch reply' room' rows' after reached =>
      cases reply.unique reply'
      exact ⟨_, rfl, after, h.advance after reached⟩
  | finished reply' more => exact absurd reply reply'.not_isBatch
  | uncounted reply' room' rows' =>
      cases reply.unique reply'
      exact absurd rows (Nat.not_lt.mpr rows')
  | last version full => exact absurd (room version) (by omega)
  | refused batch finish => exact absurd reply (batch results)

/-- The end of the result is accepted. -/
theorem accept_end {totalBatches batchIndex : Option U64} (hstate : state.At index)
    (hend : state.connection.quackVersion = quackV3 → batchIndex = none ∧
      ∀ total, totalBatches = some total → total.toNat = index) :
    state.accept [] totalBatches batchIndex = .ok { state with needsMoreFetch := false } := by
  unfold FetchState.accept
  by_cases hversion : state.connection.quackVersion = quackV3
  · obtain ⟨rfl, htotal⟩ := hend hversion
    rw [if_pos hversion]
    cases totalBatches with
    | none => rfl
    | some total =>
        have hack : total = state.ackIndex :=
          BitVec.eq_of_toNat_eq ((htotal total rfl).trans (hstate.ack hversion).symm)
        show (if total ≠ state.ackIndex then _ else _) = _
        rw [if_neg (not_not.mpr hack)]
  · rw [if_neg hversion]
    rfl

theorem fetchOnce_finished {answer : Answer} (h : state.Reached connection resultUuid index)
    (reply : answer.IsEnd connection.quackVersion index) :
    ∃ next, (fetchOnce layout prims names state answer).result = .ok (next, []) ∧
      next.needsMoreFetch = false := by
  obtain ⟨ready, header, totalBatches, batchIndex, hreply, hend⟩ := reply
  rw [← h.sameVersion] at hend
  have hfetch := @fetch_ready layout prims _ _ _ h.toAt ready
  unfold fetchOnce
  rw [hreply] at hfetch
  simp only [hreply, hfetch]
  apply Exists.intro _
  apply And.intro
  · apply Call.result_bind_ok.mpr
    apply Exists.intro (.fetchResponse header [] totalBatches batchIndex)
    apply And.intro rfl
    apply Call.result_bind_ok.mpr
    apply Exists.intro { state with needsMoreFetch := false }
    rw [accept_end h.toAt hend]
    apply And.intro rfl
    apply Call.result_bind_ok.mpr
    apply Exists.intro 0
    apply And.intro rfl
    apply Call.result_bind_ok.mpr
    apply Exists.intro (state.rowsDelivered + 0)
    rw [countRows_eq, if_pos (show state.rowsDelivered + 0 < usizeLimit from h.rows)]
    exact ⟨rfl, rfl⟩
  · rfl

/-- A stream that ends well has had batches and the end of the result. -/
theorem endsAfter_of_ending (h : state.Reached connection resultUuid index)
    (more : state.needsMoreFetch = true)
    (hending : (fetchStream layout prims names state answers).ending = some (.ok ())) :
    ∃ count, EndsAfter connection.quackVersion index count answers := by
  induction answers generalizing state index with
  | nil =>
      rw [fetchStream, more] at hending
      cases hending
  | cons answer answers ih =>
      cases hcall : (fetchOnce layout prims names state answer).result with
      | error failure =>
          rw [fetchStream_failure more hcall] at hending
          cases hending
      | ok turn =>
          obtain ⟨next, chunks⟩ := turn
          have hends := @fetchOnce_ends layout prims names state _ _ h.toAt (fetchOnce_open hcall)
          rw [hcall] at hends
          rw [fetchStream_turn more hcall] at hending
          cases hends with
          | batch reply room rows after reached =>
              rw [h.sameVersion] at reply room
              obtain ⟨count, hcount⟩ := ih (h.advance after reached) after.more hending
              exact ⟨count + 1, ⟨_, reply⟩, room, hcount⟩
          | finished reply more =>
              rw [h.sameVersion] at reply
              exact ⟨0, reply⟩

theorem rowsFit_of_ending (h : state.Reached connection resultUuid index)
    (more : state.needsMoreFetch = true)
    (hending : (fetchStream layout prims names state answers).ending = some (.ok ())) :
    RowsFit connection.quackVersion state.rowsDelivered index answers := by
  rcases @fetchStream_run layout prims names _ _ _ _ h answers with ⟨-, hfit⟩ | ⟨-, -, cause, hpanic⟩
  · exact hfit more
  · rw [hending] at hpanic
    cases hpanic

/-- A stream that has batches and the end of the result delivers the batches and ends well. -/
theorem fetchStream_of_endsAfter (h : state.Reached connection resultUuid index)
    (more : state.needsMoreFetch = true) (hfit : RowsFit connection.quackVersion state.rowsDelivered index answers)
    (hends : EndsAfter connection.quackVersion index count answers) :
    (fetchStream layout prims names state answers).ending = some (.ok ()) ∧
      (fetchStream layout prims names state answers).requests.length = count + 1 ∧
      (fetchedBatches layout prims names state answers).length = count := by
  induction answers generalizing state index count with
  | nil => cases count <;> cases hends
  | cons answer answers ih =>
      cases count with
      | zero =>
          obtain ⟨next, hcall, hmore⟩ := @fetchOnce_finished layout prims names _ _ _ _ _ h hends
          have hsent := @fetchOnce_sent layout prims names state _ _ h.toAt hends.1
          rw [fetchStream_turn more hcall, fetchedBatches_turn more hcall, fetchStream_complete hmore,
            fetchedBatches_complete hmore, hsent]
          exact ⟨rfl, rfl, rfl⟩
      | succ count =>
          obtain ⟨⟨results, reply⟩, room, htail⟩ := hends
          obtain ⟨hrows, hfit⟩ := hfit results reply room
          obtain ⟨next, hcall, after, hreached⟩ :=
            @fetchOnce_batch layout prims names _ _ _ _ _ _ h reply room hrows
          have hsent := @fetchOnce_sent layout prims names state _ _ h.toAt reply.1
          rw [← after.rowsDelivered] at hfit
          obtain ⟨hending, hrequests, hbatches⟩ := ih hreached after.more hfit htail
          have hchunks := @attachColumnNames_isEmpty names _ reply.2.1
          rw [fetchStream_turn more hcall, fetchedBatches_turn more hcall, hsent, hchunks,
            if_neg Bool.false_ne_true]
          apply And.intro hending
          apply And.intro
          · show ([state.request] ++ _).length = _
            rw [List.length_append, hrequests, List.length_singleton, Nat.add_comm]
          · rw [List.length_append, hbatches, List.length_singleton, Nat.add_comm]

variable {sql : String} {reply : Reply} {prepared : Prepared}

/-- A reply to one of the batches or the end announces the number of the batches. -/
theorem announced_of_endsAfter (hends : EndsAfter quackV3 index count answers)
    (hbatches : ∀ answer ∈ answers.take count, ∀ total, answer.announced = some total →
      total.toNat = index + count) :
    ∀ answer ∈ answers.take (count + 1), ∀ total, answer.announced = some total → total.toNat = index + count := by
  induction answers generalizing index count with
  | nil => cases count <;> cases hends
  | cons answer answers ih =>
      intro other hmem total htotal
      rw [List.take_succ_cons] at hmem
      cases count with
      | zero =>
          obtain ⟨-, header, totalBatches, batchIndex, hreply, hend⟩ := hends
          rw [List.take_zero, List.mem_singleton] at hmem
          rw [hmem, Answer.announced, hreply] at htotal
          exact (hend rfl).2 total htotal
      | succ count =>
          rw [List.take_succ_cons] at hbatches
          cases List.mem_cons.mp hmem with
          | inl hfirst => exact hbatches other (hfirst ▸ List.mem_cons_self) total htotal
          | inr hrest =>
              have hshift : index + 1 + count = index + (count + 1) := by omega
              rw [← hshift] at hbatches ⊢
              exact ih hends.2.2 (fun answer hanswer => hbatches answer (List.mem_cons_of_mem _ hanswer))
                other hrest total htotal

/-- Whatever the replies are, the announced numbers are honoured exactly if those on the batches are right:
the one on the end of the result is checked. -/
theorem honoursTotals_iff (hversion : connection.quackVersion = quackV3)
    (hprepared : (prepareQuery layout prims connection sql reply).result = .ok prepared)
    (answers : List Answer) : HonoursTotals layout prims prepared answers ↔
      (prepared.state.needsMoreFetch = true → BatchesAgree quackV3 (totalRows prepared.chunks) answers) := by
  obtain ⟨hreached, hsame, hrows⟩ := prepareQuery_reached (.inr hversion) hprepared
  rw [hversion] at hsame
  have hrun (count : Nat) := @fetchStream_of_endsAfter layout prims
    (prepared.columns.map ColumnDefinition.name) _ _ _ 0 count answers hreached
  constructor
  · intro h hmore count hends hfit answer hmem total htotal
    rw [← hrows, ← hsame] at hfit
    obtain ⟨hending, hrequests, hbatches⟩ := hrun count hmore hfit (hsame ▸ hends)
    rw [← hbatches]
    apply (h hending answer _ total htotal).symm
    show answer ∈ answers.take (fetchStream _ _ _ _ _).requests.length
    rw [hrequests]
    exact List.take_subset_take_left _ (Nat.le_succ count) hmem
  · intro h hending answer hmem total htotal
    change answer ∈ answers.take (fetchStream _ _ _ _ _).requests.length at hmem
    cases hmore : prepared.state.needsMoreFetch with
    | false =>
        rw [fetchStream_complete hmore] at hmem
        cases hmem
    | true =>
        obtain ⟨count, hends⟩ := endsAfter_of_ending hreached hmore hending
        have hfit := rowsFit_of_ending hreached hmore hending
        obtain ⟨-, hrequests, hbatches⟩ := hrun count hmore hfit hends
        rw [hrequests] at hmem
        rw [hsame] at hends hfit
        rw [hrows] at hfit
        show (fetchedBatches _ _ _ _ _).length = _
        rw [hbatches]
        have hagree := announced_of_endsAfter hends
        rw [Nat.zero_add] at hagree
        exact (hagree (h hmore count hends hfit) answer hmem total htotal).symm

end

/-! ### A total on a batch -/

def openConnectionV3 : Connection := ⟨"c", quackV3, 1, 1, false⟩

def preparedEmptyV3 : Prepared :=
  ⟨[], [], ⟨⟨"c", quackV3, 2, 2, false⟩, ⟨0, 0⟩, true, 0, 1, 0⟩⟩

theorem prepareQuery_emptyV3 : (prepareQuery .words .floatless openConnectionV3 "SELECT"
    (.ok (.prepareResponse ⟨.prepareResponse, none, none⟩ [] [] true [] ⟨0, 0⟩))).result =
      .ok preparedEmptyV3 :=
  prepareQuery_answered rfl (.inr rfl) (by decide)

/-- Batch `index`, of one row, which announces `total` batches. -/
def batchAnswer (index : U64) (total : Option U64) : Answer :=
  ⟨false, .ok (.fetchResponse ⟨.fetchResponse, none, none⟩ [rowsOnly 1] total (some index))⟩

/-- The end of a result, which announces `total` batches. -/
def endAnswer (total : Option U64) : Answer :=
  ⟨false, .ok (.fetchResponse ⟨.fetchResponse, none, none⟩ [] total none)⟩

theorem batchAnswer_isBatch (index : U64) (total : Option U64) :
    (batchAnswer index total).IsBatch quackV3 index.toNat [rowsOnly 1] :=
  ⟨rfl, List.cons_ne_nil _ _, _, _, _, rfl, fun _ => rfl⟩

theorem endAnswer_isEnd (count : Nat) : (endAnswer none).IsEnd quackV3 count :=
  ⟨rfl, _, _, _, rfl, fun _ => ⟨rfl, fun _ h => by cases h⟩⟩

theorem oneBatch_endsAfter (total : Option U64) :
    EndsAfter quackV3 0 1 [batchAnswer 1 total, endAnswer none] :=
  ⟨⟨_, batchAnswer_isBatch 1 total⟩, fun _ => by decide, endAnswer_isEnd 1⟩

theorem oneBatch_rowsFit (total : Option U64) :
    RowsFit quackV3 0 0 [batchAnswer 1 total, endAnswer none] := by
  intro results hbatch _
  rw [(batchAnswer_isBatch 1 total).unique hbatch]
  exact ⟨by decide, fun others hothers => absurd hothers (endAnswer_isEnd 1).not_isBatch⟩

theorem honoursTotals_oneBatch :
    HonoursTotals .words .floatless preparedEmptyV3 [batchAnswer 1 (some 1), endAnswer none] := by
  apply (honoursTotals_iff rfl prepareQuery_emptyV3 _).mpr
  intro _ count hends _ answer hmem total htotal
  obtain rfl : count = 1 := by
    cases count with
    | zero => exact absurd (batchAnswer_isBatch 1 (some 1)) (Answer.IsEnd.not_isBatch hends)
    | succ count =>
        cases count with
        | zero => rfl
        | succ count =>
            obtain ⟨results, hbatch⟩ := hends.2.2.1
            exact absurd hbatch (endAnswer_isEnd 1).not_isBatch
  rw [List.take_succ_cons, List.take_zero, List.mem_singleton] at hmem
  rw [hmem] at htotal
  cases htotal
  rfl

/-- A batch announces two batches, and the result ends after it. -/
theorem not_honoursTotals :
    (prepareQuery .words .floatless openConnectionV3 "SELECT"
      (.ok (.prepareResponse ⟨.prepareResponse, none, none⟩ [] [] true [] ⟨0, 0⟩))).result =
        .ok preparedEmptyV3 ∧
    ¬ HonoursTotals .words .floatless preparedEmptyV3 [batchAnswer 1 (some 2), endAnswer none] := by
  apply And.intro prepareQuery_emptyV3
  intro h
  obtain ⟨hreached, -, -⟩ := prepareQuery_reached (.inr rfl) prepareQuery_emptyV3
  obtain ⟨hending, hrequests, hbatches⟩ := @fetchStream_of_endsAfter .words .floatless [] _ _ _ _ _ _
    hreached rfl (oneBatch_rowsFit (some 2)) (oneBatch_endsAfter (some 2))
  have hmem : batchAnswer 1 (some 2) ∈ [batchAnswer 1 (some 2), endAnswer none].take
      (fetchStream .words .floatless [] preparedEmptyV3.state
        [batchAnswer 1 (some 2), endAnswer none]).requests.length := by
    rw [hrequests]
    exact List.mem_cons_self
  have hlength := h hending _ hmem 2 rfl
  change (fetchedBatches _ _ _ _ _).length = 2 at hlength
  cases hbatches.symm.trans hlength

end QuackProtocol
