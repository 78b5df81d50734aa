import QuackProtocol.DecoderSafety
import QuackProtocol.DecodingExtension

/-! The accepted messages are prefix-free. Every reader depends only on the bytes that it consumes, the
one that peeks at a field included, so a longer byte string is decoded to the same message at the same
place, and there the end of the input is missing. -/

open Decoding Decode QuackProtocol

namespace Decoding.Follows

variable {α : Type} {layout : Layout} {more : Bytes} {read read' : Decoder α}

theorem ensureAt {c : Cursor} (length : Nat) : FollowsAt layout more c (ensure length) (ensure length)
    (fun _ _ c' => c = c' ∧ c.offset + length ≤ c.bytes.length) := by
  apply FollowsAt.cursor.bind
  rintro _ _ _ ⟨rfl, rfl, rfl⟩
  refine (FollowsAt.usizeAdd _ _).bind ?_
  rintro _ _ _ ⟨rfl, rfl, rfl⟩
  by_cases hroom : c.bytes.length < c.offset + length
  · rw [if_pos hroom]
    exact .throw _
  · have hlonger : ¬ (c.bytes ++ more).length < c.offset + length := by
      rw [List.length_append]
      omega
    rw [if_neg hroom, Cursor.extend, if_neg hlonger]
    exact .pure ⟨rfl, by omega⟩

theorem peekFieldIdAt (c : Cursor) : FollowsAt layout more c peekFieldId peekFieldId
    (fun id id' c' => id = id' ∧ c = c' ∧ c.offset + 2 ≤ c.bytes.length) := by
  refine (ensureAt 2).bind ?_
  rintro _ _ _ ⟨rfl, hroom⟩
  apply FollowsAt.cursor.bind
  rintro _ _ _ ⟨rfl, rfl, rfl⟩
  refine (FollowsAt.index (by omega)).bind ?_
  rintro low _ _ ⟨rfl, rfl⟩
  refine (FollowsAt.usizeAdd _ _).bind ?_
  rintro _ _ _ ⟨rfl, rfl, rfl⟩
  refine (FollowsAt.index (by omega)).bind ?_
  rintro high _ _ ⟨rfl, rfl⟩
  exact .pure ⟨rfl, rfl, hroom⟩

theorem peekFieldId : Follows layout more peekFieldId peekFieldId := by
  intro c hc
  refine (peekFieldIdAt c).weaken ?_
  rintro id _ _ ⟨rfl, rfl, -⟩
  exact ⟨rfl, hc⟩

/-- What is left to do once the bytes are known to be there. -/
theorem skipAt {c : Cursor} {length : Nat} {f f' : Nat → Unit → Decoder α}
    {post : α → α → Cursor → Prop}
    (hf : FollowsAt layout more (c.advance length) (f (c.offset + length) ())
      (f' (c.offset + length) ()) post) :
    FollowsAt layout more c (Decode.usizeAdd c.offset length >>= fun stop => setOffset stop >>= f stop)
      (Decode.usizeAdd c.offset length >>= fun stop => setOffset stop >>= f' stop) post := by
  refine (FollowsAt.usizeAdd _ _).bind ?_
  rintro _ _ _ ⟨rfl, rfl, rfl⟩
  refine (FollowsAt.setOffset _).bind ?_
  rintro _ _ _ rfl
  exact hf

theorem insideAdvance {c : Cursor} {length : Nat} (h : c.offset + length ≤ c.bytes.length) :
    (c.advance length).Inside := h

theorem readFieldId : Follows layout more readFieldId readFieldId := by
  intro c hc
  refine (peekFieldIdAt c).bind ?_
  rintro id _ _ ⟨rfl, rfl, hroom⟩
  apply FollowsAt.cursor.bind
  rintro _ _ _ ⟨rfl, rfl, rfl⟩
  exact skipAt (.pure ⟨rfl, insideAdvance hroom⟩)

theorem readByte : Follows layout more readByte readByte := by
  intro c hc
  refine (ensureAt 1).bind ?_
  rintro _ _ _ ⟨rfl, hroom⟩
  apply FollowsAt.cursor.bind
  rintro _ _ _ ⟨rfl, rfl, rfl⟩
  refine (FollowsAt.index (by omega)).bind ?_
  rintro value _ _ ⟨rfl, rfl⟩
  exact skipAt (.pure ⟨rfl, insideAdvance hroom⟩)

/-- The bytes up to the new position. -/
theorem windowAt {c : Cursor} {length : Nat} (hroom : c.offset + length ≤ c.bytes.length) :
    FollowsAt layout more c
      (Decode.usizeAdd c.offset length >>= fun stop => setOffset stop >>= fun _ =>
        Decode.slice c.bytes c.offset stop : Decoder Bytes)
      (Decode.usizeAdd c.offset length >>= fun stop => setOffset stop >>= fun _ =>
        Decode.slice (c.bytes ++ more) c.offset stop)
      (fun bytes bytes' c' => bytes = bytes' ∧ c'.Inside) := by
  apply skipAt
  refine (FollowsAt.slice (Nat.le_add_right _ _) hroom).weaken ?_
  rintro bytes _ _ ⟨rfl, rfl⟩
  exact ⟨rfl, insideAdvance hroom⟩

theorem readArray (size : Nat) : Follows layout more (readArray size) (readArray size) := by
  intro c hc
  refine (ensureAt size).bind ?_
  rintro _ _ _ ⟨rfl, hroom⟩
  apply FollowsAt.cursor.bind
  rintro _ _ _ ⟨rfl, rfl, rfl⟩
  exact windowAt hroom

theorem readBytes (length : Nat) : Follows layout more (readBytes length) (readBytes length) := by
  intro c hc
  apply FollowsAt.cursor.bind
  rintro _ _ _ ⟨rfl, rfl, rfl⟩
  refine (FollowsAt.audit (ensureAt length)).bind ?_
  rintro _ _ _ ⟨rfl, hroom⟩
  exact windowAt hroom

theorem mismatch (message : Cursor → String) :
    Follows layout more (do let reader ← cursor; protocolError (α := α) (message reader))
      (do let reader ← cursor; protocolError (message reader)) :=
  fun _ _ => FollowsAt.cursor.bind fun _ _ _ _ => .throw _

theorem readEndObject : Follows layout more readEndObject readEndObject :=
  readFieldId.bind fun _ => .ite (.pure _) (mismatch _)

theorem object (h : Follows layout more read read') :
    Follows layout more (readObject read) (readObject read') :=
  h.bind fun _ => readEndObject.bind fun _ => .pure _

theorem required (fieldId : Nat) (h : Follows layout more read read') :
    Follows layout more (readRequiredField fieldId read) (readRequiredField fieldId read') :=
  readFieldId.bind fun _ => .ite h (mismatch _)

/-- The field identifier that is peeked at lies inside the shorter byte string. -/
theorem optional (fieldId : Nat) (defaultValue : α) (h : Follows layout more read read') :
    Follows layout more (readOptionalField fieldId read defaultValue)
      (readOptionalField fieldId read' defaultValue) :=
  peekFieldId.bind fun _ => .ite (readFieldId.bind fun _ => h) (.pure _)

theorem capacity (element : Element) (count : Nat) :
    Follows layout more (withCapacity element count) (withCapacity element count) :=
  Follows.ask.bind fun _ => .audit (.check _ .capacity)

theorem readBool : Follows layout more readBool readBool :=
  readByte.bind fun _ => .ite (.pure _) (.ite (.pure _) (.throw _))

theorem shiftLeft128 (value : BitVec 128) (shift : Nat) :
    Follows layout more (shiftLeft128 value shift) (shiftLeft128 value shift) :=
  (Follows.check _ .overflow).bind fun _ => .pure _

theorem readUlebLoop (passes : Nat) (result : U128) (shift : Nat) :
    Follows layout more (readUlebLoop passes result shift) (readUlebLoop passes result shift) := by
  induction passes generalizing result shift with
  | zero => exact .throw _
  | succ passes ih =>
      exact readByte.bind fun _ => (shiftLeft128 _ _).bind fun _ => .ite (.pure _) (ih _ _)

theorem readSlebLoop (passes : Nat) (result : I128) (shift : Nat) :
    Follows layout more (readSlebLoop passes result shift) (readSlebLoop passes result shift) := by
  induction passes generalizing result shift with
  | zero => exact .throw _
  | succ passes ih =>
      refine readByte.bind fun _ => (shiftLeft128 _ _).bind fun _ => .ite (.ite (.pure _) ?_) (ih _ _)
      exact (Follows.audit (shiftLeft128 _ _)).bind fun _ => .pure _

theorem uleb : Follows layout more readUlebU64 readUlebU64 :=
  (readUlebLoop 19 0 0).bind fun _ => .ite (.pure _) (.throw _)

theorem usize : Follows layout more readUlebUsize readUlebUsize :=
  (readUlebLoop 19 0 0).bind fun _ => .ite (.pure _) (.throw _)

theorem blob : Follows layout more readBlob readBlob := usize.bind readBytes

theorem string : Follows layout more readString readString := blob.bind fun _ => .ofResult _

theorem list {readElement readElement' : Nat → Decoder α} (element : Element)
    (h : ∀ index, Follows layout more (readElement index) (readElement' index)) :
    Follows layout more (readList element readElement) (readList element readElement') :=
  usize.bind fun _ => (capacity _ _).bind fun _ => .collect h _ _

theorem nullable (h : Follows layout more read read') :
    Follows layout more (readNullable read) (readNullable read') :=
  readBool.bind fun _ => .ite (h.bind fun _ => .pure _) (.pure _)

theorem hugeIntParts : Follows layout more readHugeIntParts readHugeIntParts :=
  ((readSlebLoop 19 0 0).bind fun _ => .ite (.pure _) (.throw _)).bind fun _ =>
    uleb.bind fun _ => .pure _

theorem readOptionalString (fieldId : Nat) :
    Follows layout more (readOptionalString fieldId) (readOptionalString fieldId) :=
  .optional _ _ (string.bind fun _ => .pure _)

theorem rejectField (fieldId : Nat) (message : String) :
    Follows layout more (rejectField fieldId message) (rejectField fieldId message) :=
  peekFieldId.bind fun _ => .ite (.throw _) (.pure _)

theorem decodeInfoBody {decode decode' : Decoder LogicalType} (h : Follows layout more decode decode')
    (typeAlias : Option String) (typeId : ExtraTypeInfoType) :
    Follows layout more (decodeInfoBody decode typeAlias typeId)
      (decodeInfoBody decode' typeAlias typeId) := by
  cases typeId with
  | invalid => exact .pure _
  | generic => exact .pure _
  | decimal => exact (optional 200 _ uleb).bind fun _ => (optional 201 _ uleb).bind fun _ => .pure _
  | string => exact (optional 200 _ string).bind fun _ => .pure _
  | list => exact (required 200 h).bind fun _ => .pure _
  | struct =>
      have hchildren : Follows layout more (decodeChildTypes decode) (decodeChildTypes decode') :=
        list _ fun _ => object <| (required 0 string).bind fun _ => (required 1 h).bind fun _ =>
          .pure _
      exact (optional 200 _ hchildren).bind fun _ => .pure _
  | enum =>
      refine (required 200 usize).bind fun _ => ?_
      exact (required 201 (list _ fun _ => string)).bind fun _ => .ite (.throw _) (.pure _)
  | aggregateState =>
      refine (required 200 string).bind fun _ => (required 201 h).bind fun _ => ?_
      exact (required 202 (list _ fun _ => h)).bind fun _ => .pure _
  | array => exact (required 200 h).bind fun _ => (required 201 uleb).bind fun _ => .pure _
  | any => exact (required 200 h).bind fun _ => (required 201 uleb).bind fun _ => .pure _
  | template => exact (optional 200 _ string).bind fun _ => .pure _
  | integerLiteral => exact (rejectField _ _).bind fun _ => .pure _
  | geo =>
      have hcrs : Follows layout more decodeCoordinateReferenceSystem decodeCoordinateReferenceSystem :=
        object <| (readOptionalString 100).bind fun _ => .pure _
      exact (optional 200 _ hcrs).bind fun _ => .pure _
  | unbound =>
      refine (rejectField _ _).bind fun _ => (readOptionalString 200).bind fun _ => ?_
      exact (readOptionalString 201).bind fun _ => (readOptionalString 202).bind fun _ => .pure _

theorem decodeLogicalTypeWithin {budget budget' : Nat} (hle : budget ≤ budget') :
    Follows layout more (decodeLogicalTypeWithin budget) (decodeLogicalTypeWithin budget') := by
  induction budget generalizing budget' with
  | zero => exact .outOfBudget
  | succ budget ih =>
      obtain ⟨rest, rfl⟩ : ∃ rest, budget' = rest + 1 := ⟨budget' - 1, by omega⟩
      refine .nested (object <| (required 100 uleb).bind fun _ => (Follows.ofResult _).bind fun id => ?_) _ _ _ _
      refine (optional 101 _ (nullable <| object ?_)).bind fun _ => .pure _
      refine (required 100 uleb).bind fun _ => (Follows.ofResult _).bind fun typeId => ?_
      refine (readOptionalString 101).bind fun typeAlias => (rejectField _ _).bind fun _ => ?_
      exact decodeInfoBody (ih (by omega)) typeAlias typeId

theorem decodeLogicalType : Follows layout more decodeLogicalType decodeLogicalType :=
  .withBudget fun _ _ => decodeLogicalTypeWithin

/-! ### Vectors -/

theorem readMask (count : Nat) : Follows layout more (readMask count) (readMask count) := by
  have hmask : Follows layout more (readValidityMask count) (readValidityMask count) := by
    refine (Follows.usizeMul _ _).bind fun _ => blob.bind fun _ => .ite (.throw _) ?_
    exact (capacity _ _).bind fun _ => .pure _
  refine (required 100 readBool).bind fun _ => .ite ?_ (.pure _)
  exact (required 101 hmask).bind fun _ => .pure _

theorem isValid (validity : Option (List Bool)) (row : Nat) :
    Follows layout more (isValid validity row) (isValid validity row) := by
  cases validity with
  | none => exact .pure _
  | some mask => exact .index mask row

theorem maskedRow {value value' : Decoder Value} (validity : Option (List Bool)) (row : Nat)
    (h : Follows layout more value value') :
    Follows layout more (maskedRow validity row value) (maskedRow validity row value') :=
  (isValid validity row).bind fun _ => .ite h (.pure _)

theorem skipGeometryField (T : LogicalType) :
    Follows layout more (skipGeometryField T) (skipGeometryField T) := by
  refine .ite (peekFieldId.bind fun _ => .ite ?_ (.pure _)) (.pure _)
  exact (required 99 uleb).bind fun _ => .pure _

theorem readListEntries (count : Nat) :
    Follows layout more (readListEntries count) (readListEntries count) := by
  refine (list _ fun _ => object ?_).bind fun _ => .ite (.throw _) (.pure _)
  exact (required 100 usize).bind fun _ => (required 101 usize).bind fun _ => .pure _

theorem readSelectionVector (count : Nat) :
    Follows layout more (readSelectionVector count) (readSelectionVector count) := by
  refine (Follows.audit (.usizeMul _ _)).bind fun _ => blob.bind fun _ => .ite (.throw _) ?_
  exact (capacity _ _).bind fun _ => .pure _

theorem decodeSequenceVector (T : LogicalType) (count : Nat) :
    Follows layout more (decodeSequenceVector T count) (decodeSequenceVector T count) := by
  refine (required 91 (readSlebLoop 19 0 0)).bind fun start => ?_
  refine (required 92 (readSlebLoop 19 0 0)).bind fun increment => ?_
  refine (Follows.collect (fun position => ?_) 0 count).bind fun values => .pure _
  have hnumber : Follows layout more (sequenceNumber start increment position)
      (sequenceNumber start increment position) :=
    .audit ((Follows.check _ .overflow).bind fun _ => .pure _)
  refine hnumber.bind fun _ => (Follows.ofResult _).bind fun value => ?_
  exact (capacity _ _).bind fun _ => .pure value

/-- The words are read from a byte string of their own. -/
theorem decodeFixedVector (T : LogicalType) (physicalType : PhysicalType) (count : Nat)
    (validity : Option (List Bool)) :
    Follows layout more (decodeFixedVector T physicalType count validity)
      (decodeFixedVector T physicalType count validity) := by
  refine (Follows.ofResult _).bind fun size => (Follows.audit (.usizeMul _ _)).bind fun _ => ?_
  refine (required 102 blob).bind fun bytes => .ite (.throw _) ?_
  exact (capacity _ _).bind fun _ => .onBytes _ _

theorem decodeVarcharValues (T : LogicalType) (count : Nat) (validity : Option (List Bool)) :
    Follows layout more (decodeVarcharValues T count validity)
      (decodeVarcharValues T count validity) := by
  refine (required 102 (list _ fun _ => blob)).bind fun rawValues => (Follows.record _).bind fun _ => ?_
  refine .collect (fun row => (Follows.audit (isValid _ _)).bind fun _ => .ite ?_ (.pure _)) 0 _
  exact (Follows.index _ _).bind fun raw => .ofResult _

section
variable {decodeVector decodeVector' : LogicalType → Nat → Decoder DecodedVector}
  (h : ∀ T count, Follows layout more (decodeVector T count) (decodeVector' T count))
include h

theorem decodeStructValues (T : LogicalType) (count : Nat) (validity : Option (List Bool)) :
    Follows layout more (decodeStructValues decodeVector T count validity)
      (decodeStructValues decodeVector' T count validity) := by
  refine (Follows.ofResult _).bind fun children => ?_
  refine (required 103 (list .decodedVector fun childIndex => ?_)).bind fun childVectors => ?_
  · cases children[childIndex]? with
    | some child => exact h _ _
    | none => exact .throw _
  refine (capacity _ _).bind fun _ => .collect (fun row => maskedRow _ _ ?_) 0 count
  exact (Follows.ofResult _).bind fun _ => .pure _

theorem decodeListValues (T : LogicalType) (count : Nat) (validity : Option (List Bool)) :
    Follows layout more (decodeListValues decodeVector T count validity)
      (decodeListValues decodeVector' T count validity) := by
  refine (required 104 usize).bind fun listSize => ?_
  refine (required 105 (readListEntries count)).bind fun entries => ?_
  refine (Follows.ofResult _).bind fun childType => ?_
  refine (required 106 (h childType listSize)).bind fun childVector => ?_
  refine (capacity _ _).bind fun _ => .collect (fun row => ?_) 0 _
  refine (Follows.index _ _).bind fun entry => maskedRow _ _ ?_
  exact (Follows.audit (.usizeAdd _ _)).bind fun stop => (Follows.audit (.slice _ _ _)).bind fun _ =>
    .pure _

theorem decodeArrayValues (T : LogicalType) (count : Nat) (validity : Option (List Bool)) :
    Follows layout more (decodeArrayValues decodeVector T count validity)
      (decodeArrayValues decodeVector' T count validity) := by
  refine (required 103 usize).bind fun arraySize => (Follows.ofResult _).bind fun expected => ?_
  refine .ite (.throw _) ((Follows.ofResult _).bind fun childType => ?_)
  refine (required 104 ((Follows.audit (.usizeMul _ _)).bind fun _ => h childType _)).bind
    fun childVector => ?_
  refine (capacity _ _).bind fun _ => .collect (fun row => maskedRow _ _ ?_) 0 count
  refine (Follows.usizeMul _ _).bind fun offset => (Follows.usizeAdd _ _).bind fun stop => ?_
  exact (Follows.audit (.slice _ _ _)).bind fun _ => .pure _

theorem decodeFlatVectorBody (T : LogicalType) (count : Nat) (vectorType : VectorType) :
    Follows layout more (decodeFlatVectorBody decodeVector T count vectorType)
      (decodeFlatVectorBody decodeVector' T count vectorType) := by
  refine (skipGeometryField T).bind fun _ => (readMask count).bind fun validity => ?_
  refine (Follows.ofResult _).bind fun physicalType => .bind ?_ fun values => .pure _
  unfold decodeFlatData
  refine .ite (decodeFixedVector T physicalType count validity) ?_
  cases physicalType with
  | varchar => exact decodeVarcharValues T count validity
  | struct => exact decodeStructValues h T count validity
  | list => exact decodeListValues h T count validity
  | array => exact decodeArrayValues h T count validity
  | _ => exact .throw _

end

/-- The last step of every vector. -/
theorem recorded {data data' : Decoder DecodedVector} (count : Nat)
    (h : Follows layout more data data') :
    Follows layout more
      (data >>= fun vector => do
        Decode.record (.vector count vector.values.length)
        Pure.pure vector)
      (data' >>= fun vector => do
        Decode.record (.vector count vector.values.length)
        Pure.pure vector) :=
  h.bind fun vector => (Follows.record _).bind fun _ => .pure vector

/-- Every encoding, at every nesting. -/
theorem decodeVectorBody {budget budget' : Nat} (hle : budget ≤ budget') (T : LogicalType)
    (count : Nat) :
    Follows layout more (decodeVectorBody budget T count) (decodeVectorBody budget' T count) := by
  induction budget generalizing budget' T count with
  | zero => exact .outOfBudget
  | succ budget ih =>
      obtain ⟨rest, rfl⟩ : ∃ rest, budget' = rest + 1 := ⟨budget' - 1, by omega⟩
      have hinner : ∀ T count, Follows layout more (QuackProtocol.decodeVectorBody budget T count)
          (QuackProtocol.decodeVectorBody rest T count) := ih (by omega)
      refine .nested ((optional 90 _ uleb).bind fun code => (Follows.ofResult _).bind fun vectorType => ?_) _ _ _ _
      cases vectorType with
      | flat =>
          exact recorded count
            (decodeFlatVectorBody (fun T count => object (hinner T count)) T count .flat)
      | fsst => exact .throw _
      | constant =>
          exact recorded count ((hinner _ _).bind fun decoded => (capacity _ _).bind fun _ => .pure _)
      | dictionary =>
          apply recorded count
          refine (required 91 (readSelectionVector count)).bind fun selection => ?_
          refine (required 92 usize).bind fun dictionaryCount => ?_
          refine (hinner _ _).bind fun dictionary => (capacity _ _).bind fun _ => ?_
          exact (Follows.ofResult _).bind fun values => .pure _
      | sequence => exact recorded count (decodeSequenceVector T count)

theorem decodeVector (T : LogicalType) (count : Nat) :
    Follows layout more (decodeVector T count) (decodeVector T count) :=
  .withBudget fun _ _ hle => object (decodeVectorBody hle T count)

theorem decodeDataChunk : Follows layout more decodeDataChunk decodeDataChunk := by
  refine object <| (required 100 usize).bind fun rowCount => ?_
  refine (required 101 (list _ fun _ => decodeLogicalType)).bind fun types => ?_
  refine (required 102 (list .decodedVector fun index => ?_)).bind fun columns => ?_
  · cases types[index]? with
    | some T => exact decodeVector T rowCount
    | none => exact .throw _
  · exact .ite (.throw _) (.pure _)

theorem decodeDataChunkWrapper : Follows layout more decodeDataChunkWrapper decodeDataChunkWrapper :=
  object (required 300 decodeDataChunk)

theorem decodeHeader : Follows layout more decodeHeader decodeHeader := by
  refine object <| (required 1 uleb).bind fun code => (Follows.ofResult _).bind fun messageType => ?_
  exact (readOptionalString 2).bind fun _ => (required 3 uleb).bind fun _ => .pure _

theorem readChunkPointerList : Follows layout more readChunkPointerList readChunkPointerList :=
  list _ fun _ => (nullable decodeDataChunkWrapper).bind fun chunk => by
    cases chunk with
    | some chunk => exact .pure _
    | none => exact .throw _

theorem readText (fieldId : Nat) : Follows layout more (readText fieldId) (readText fieldId) :=
  optional _ _ string

theorem someIndex : Follows layout more readSomeIndex readSomeIndex := uleb.bind fun _ => .pure _

theorem readOptionalIndex (fieldId : Nat) :
    Follows layout more (readOptionalIndex fieldId) (readOptionalIndex fieldId) :=
  (optional _ _ someIndex).bind fun _ => .pure _

theorem decodePrepareResponse (header : MessageHeader) :
    Follows layout more (decodePrepareResponse header) (decodePrepareResponse header) := by
  refine object <| (optional 1 _ (list _ fun _ => decodeLogicalType)).bind fun resultTypes => ?_
  refine (optional 2 _ (list _ fun _ => string)).bind fun resultNames => ?_
  refine (optional 3 _ readBool).bind fun _ => (optional 4 _ readChunkPointerList).bind fun _ => ?_
  exact (required 5 hugeIntParts).bind fun _ => .pure _

theorem decodeErrorResponse (header : MessageHeader) :
    Follows layout more (decodeErrorResponse header) (decodeErrorResponse header) :=
  object <| (readText 1).bind fun _ => .pure _

theorem decodeBodyV1 (header : MessageHeader) :
    Follows layout more (decodeBodyV1 header) (decodeBodyV1 header) := by
  unfold QuackProtocol.decodeBodyV1
  cases header.messageType with
  | connectionRequest =>
      refine object <| (readOptionalString 1).bind fun _ => (readOptionalString 2).bind fun _ => ?_
      refine (readOptionalString 3).bind fun _ => (optional 4 _ uleb).bind fun _ => ?_
      exact (optional 5 _ uleb).bind fun _ => .pure _
  | connectionResponse =>
      refine object <| (readOptionalString 1).bind fun _ => (readOptionalString 2).bind fun _ => ?_
      exact (optional 3 _ someIndex).bind fun _ => .pure _
  | prepareRequest => exact object <| (readText 1).bind fun _ => .pure _
  | prepareResponse => exact decodePrepareResponse header
  | fetchRequest => exact object <| (required 1 hugeIntParts).bind fun _ => .pure _
  | fetchResponse =>
      refine object <| (optional 1 _ readChunkPointerList).bind fun _ => ?_
      exact (required 2 uleb).bind fun _ => .pure _
  | sendDataRequest =>
      refine object <| (readOptionalString 1).bind fun _ => (readText 2).bind fun _ => ?_
      refine (optional 3 _ (nullable decodeDataChunkWrapper)).bind fun appendChunk => ?_
      cases appendChunk with
      | some appendChunk => exact .pure _
      | none => exact .throw _
  | successResponse => exact object (.pure _)
  | disconnectMessage => exact object (.pure _)
  | errorResponse => exact decodeErrorResponse header
  | _ => exact .throw _

theorem decodeBodyV3 (header : MessageHeader) :
    Follows layout more (decodeBodyV3 header) (decodeBodyV3 header) := by
  unfold QuackProtocol.decodeBodyV3
  cases header.messageType with
  | connectionRequest =>
      refine object <| (readOptionalString 1).bind fun _ => (readOptionalString 2).bind fun _ => ?_
      refine (readOptionalString 3).bind fun _ => (optional 4 _ uleb).bind fun _ => ?_
      refine (optional 5 _ uleb).bind fun _ => (readOptionalString 6).bind fun _ => ?_
      exact (optional 7 _ uleb).bind fun _ => .pure _
  | connectionResponse =>
      refine object <| (readOptionalString 1).bind fun _ => (readOptionalString 2).bind fun _ => ?_
      exact (optional 3 _ someIndex).bind fun _ => (optional 4 _ someIndex).bind fun _ => .pure _
  | prepareRequest =>
      refine object <| (readText 1).bind fun _ => (required 2 hugeIntParts).bind fun _ => ?_
      exact (readOptionalIndex 3).bind fun _ => .pure _
  | prepareResponse => exact decodePrepareResponse header
  | fetchRequest =>
      refine object <| (required 1 hugeIntParts).bind fun _ => (readOptionalIndex 2).bind fun _ => ?_
      exact (optional 3 _ uleb).bind fun _ => .pure _
  | fetchResponse =>
      refine .bind (object <| (optional 1 _ uleb).bind fun _ => (readOptionalIndex 2).bind fun _ =>
        (readOptionalIndex 3).bind fun _ => .pure _) fun counts => ?_
      refine (capacity _ _).bind fun _ => .bind (.collect (fun _ => decodeDataChunk) 0 _) fun _ => ?_
      exact .pure _
  | successResponse => exact object (.pure _)
  | disconnectMessage => exact object (.pure _)
  | heartbeatRequest => exact object (.pure _)
  | errorResponse => exact decodeErrorResponse header
  | _ => exact .throw _

theorem decodeBody (quackVersion : U64) (header : MessageHeader) :
    Follows layout more (decodeBody quackVersion header) (decodeBody quackVersion header) :=
  .ite (decodeBodyV1 header) (.ite (decodeBodyV3 header) (.throw _))

end Decoding.Follows

namespace QuackProtocol

variable {layout : Layout} {quackVersion : U64} {bytes more : Bytes} {message : QuackMessage}

/-- A message, whatever follows it. -/
def decodeUnended (quackVersion : U64) : Decoder QuackMessage := do
  let header ← decodeHeader
  decodeBody quackVersion header

theorem decodeMessage_eq (quackVersion : U64) : decodeMessage quackVersion =
    decodeUnended quackVersion >>= fun message => assertEof >>= fun _ => pure message := by
  rw [decodeUnended, bind_assoc]
  rfl

theorem run_assertEof (layout : Layout) (c : Cursor) :
    (c.remaining = 0 ∧ assertEof.run layout c = .ok ((), c)) ∨
      (c.remaining ≠ 0 ∧ ∃ e, assertEof.run layout c = .err e) := by
  have hcursor : (cursor : Decoder Cursor).run layout c = .ok (c, c) := rfl
  rw [assertEof, run_bind_ok hcursor]
  by_cases hend : c.remaining = 0
  · rw [if_pos hend]
    exact .inl ⟨hend, rfl⟩
  · rw [if_neg hend]
    exact .inr ⟨hend, _, rfl⟩

/-- The message ends where the bytes do. -/
theorem decodeMessageForVersion_ok
    (h : decodeMessageForVersion layout bytes quackVersion = .ok message) :
    ∃ c, (decodeUnended quackVersion).run layout ⟨bytes, 0⟩ = .ok (message, c) ∧ c.remaining = 0 := by
  obtain ⟨⟨_, c⟩, hrun, hmessage⟩ := Outcome.bind_eq_ok h
  cases hmessage
  rw [decodeMessage_eq] at hrun
  obtain ⟨message', c', hbody, hrest⟩ := run_bind_eq_ok hrun
  rcases run_assertEof layout c' with ⟨hend, heof⟩ | ⟨-, e, heof⟩
  · rw [run_bind_ok heof] at hrest
    cases hrest
    exact ⟨c, hbody, hend⟩
  · rw [run_bind, heof] at hrest
    cases hrest

theorem followsAt_unended (layout : Layout) (quackVersion : U64) (bytes more : Bytes) :
    FollowsAt layout more ⟨bytes, 0⟩ (decodeUnended quackVersion) (decodeUnended quackVersion)
      fun message message' c' => message = message' ∧ c'.Inside :=
  (Follows.decodeHeader.bind fun header => .decodeBody quackVersion header) ⟨bytes, 0⟩ (Nat.zero_le _)

/-- Trailing bytes are found at the end of the message. -/
theorem longer_refused (h : decodeMessageForVersion layout bytes quackVersion = .ok message)
    (hmore : more ≠ []) :
    ∃ e, decodeMessageForVersion layout (bytes ++ more) quackVersion = .err e := by
  obtain ⟨c, hrun, hend⟩ := decodeMessageForVersion_ok h
  have hfollows := followsAt_unended layout quackVersion bytes more
  unfold FollowsAt at hfollows
  rw [hrun] at hfollows
  obtain ⟨_, hlonger, rfl, hinside⟩ := hfollows
  have hleft : (c.extend more).remaining ≠ 0 := by
    have hpos := List.length_pos_iff.mpr hmore
    rw [Cursor.remaining_extend hinside, hend]
    omega
  rcases run_assertEof layout (c.extend more) with ⟨hnone, -⟩ | ⟨-, e, heof⟩
  · exact absurd hnone hleft
  · refine ⟨e, ?_⟩
    have hwhole : (decodeMessage quackVersion).run layout (Cursor.extend ⟨bytes, 0⟩ more) = .err e := by
      rw [decodeMessage_eq, run_bind_ok hlonger, run_bind, heof]
    change (decodeMessage quackVersion).run layout ⟨bytes ++ more, 0⟩ = .err e at hwhole
    rw [decodeMessageForVersion, hwhole]
    rfl

/-- A decoder that a longer input does not make panic, does not panic on the shorter one. -/
theorem shorter_refused (hlen : bytes.length ≤ isizeMax)
    (h : decodeMessageForVersion layout (bytes ++ more) quackVersion = .ok message)
    (hmore : more ≠ []) : ∃ e, decodeMessageForVersion layout bytes quackVersion = .err e := by
  cases hshort : decodeMessageForVersion layout bytes quackVersion with
  | err e => exact ⟨e, rfl⟩
  | ok message' =>
      obtain ⟨e, he⟩ := longer_refused hshort hmore
      cases he.symm.trans h
  | panic p =>
      exfalso
      have hrecursion : p ≠ .recursion := by
        rintro rfl
        obtain ⟨e, -, -, hcause⟩ := (decodeMessageForVersion_panics_iff hlen _ _).mp hshort
        cases e <;> cases hcause
      obtain ⟨c, hlonger, -⟩ := decodeMessageForVersion_ok h
      have hfollows := followsAt_unended layout quackVersion bytes more
      have hrun := decodeMessageForVersion_panics.mp hshort
      unfold FollowsAt at hfollows
      rw [decodeMessage_eq, run_bind] at hrun
      cases hbody : (decodeUnended quackVersion).run layout ⟨bytes, 0⟩ with
      | ok out =>
          rw [hbody] at hrun
          rcases run_assertEof layout out.2 with ⟨-, heof⟩ | ⟨-, e, heof⟩ <;>
            simp only [run_bind, heof] at hrun <;> cases hrun
      | err e =>
          rw [hbody] at hrun
          cases hrun
      | panic q =>
          rw [hbody] at hrun hfollows
          cases hrun
          rcases hfollows with hbudget | hpanic
          · exact hrecursion hbudget
          · cases hpanic.symm.trans hlonger

/-- No message is the beginning of another: what is cut off and what has bytes behind it is refused. -/
theorem decodeMessage_prefixFree (layout : Layout) (quackVersion : U64)
    (hlen : bytes.length ≤ isizeMax)
    (h : decodeMessageForVersion layout bytes quackVersion = .ok message) :
    (∀ front back, bytes = front ++ back → back ≠ [] →
      ∃ e, decodeMessageForVersion layout front quackVersion = .err e) ∧
    ∀ more, more ≠ [] →
      ∃ e, decodeMessageForVersion layout (bytes ++ more) quackVersion = .err e := by
  refine ⟨?_, fun more hmore => longer_refused h hmore⟩
  rintro front back rfl hback
  rw [List.length_append] at hlen
  exact shorter_refused (by omega) h hback

/-- A message of one chunk, cut off or followed by a byte. -/
theorem listBatch_prefixFree :
    (∃ e, decodeMessageForVersion .words ((listBatch 0).take 30) quackV3 = .err e) ∧
      ∃ e, decodeMessageForVersion .words (listBatch 0 ++ [0]) quackV3 = .err e := by
  obtain ⟨message, hok⟩ : ∃ message,
      decodeMessageForVersion .words (listBatch 0) quackV3 = .ok message := ⟨_, rfl⟩
  obtain ⟨hfront, hmore⟩ := decodeMessage_prefixFree .words quackV3 (by decide) hok
  exact ⟨hfront _ _ (List.take_append_drop 30 _).symm (by decide), hmore [0] (by decide)⟩

end QuackProtocol
