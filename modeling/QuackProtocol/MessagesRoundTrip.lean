import QuackProtocol.ChunkRoundTrip
import QuackProtocol.Messages

/-! Messages in both protocol versions. A message that is encoded is decoded to itself up to what the
version leaves out, exactly when its chunks are read back as they were written. -/

open Decoding Decode

namespace QuackProtocol

/-- The greatest index stands for none. -/
def validIndex (index : Option U64) : Option U64 := index.filter fun index => index ≠ optionalIndexInvalid

def MessageHeader.asRead (header : MessageHeader) : MessageHeader :=
  ⟨header.messageType, nonEmptyText header.connectionId, validIndex header.clientQueryId⟩

namespace QuackMessage

/-- The message that is read back in a version, where a chunk is read back as `f` says. -/
def readWith (f : DataChunk → DataChunk) (quackVersion : U64) : QuackMessage → QuackMessage
  | connectionRequest header authString clientDuckdbVersion clientPlatform
      minSupportedQuackVersion maxSupportedQuackVersion clientId heartbeatTimeoutSeconds =>
    connectionRequest header.asRead (nonEmptyText authString) (nonEmptyText clientDuckdbVersion)
      (nonEmptyText clientPlatform) minSupportedQuackVersion maxSupportedQuackVersion
      (if quackVersion = quackV3 then nonEmptyText clientId else none)
      (if quackVersion = quackV3 then heartbeatTimeoutSeconds else 0)
  | connectionResponse header serverDuckdbVersion serverPlatform quackVersionField
      heartbeatTimeoutSeconds =>
    connectionResponse header.asRead (nonEmptyText serverDuckdbVersion)
      (nonEmptyText serverPlatform) quackVersionField
      (if quackVersion = quackV3 then heartbeatTimeoutSeconds else none)
  | prepareRequest header sql queryUuid inlineRows =>
    prepareRequest header.asRead sql (if quackVersion = quackV3 then queryUuid else none)
      (if quackVersion = quackV3 then validIndex inlineRows else none)
  | prepareResponse header resultTypes resultNames needsMoreFetch results resultUuid =>
    prepareResponse header.asRead (resultTypes.map LogicalType.asRead) resultNames needsMoreFetch
      (results.map f) resultUuid
  | fetchRequest header resultUuid batchIndex ackIndex =>
    fetchRequest header.asRead resultUuid
      (if quackVersion = quackV3 then validIndex batchIndex else none)
      (if quackVersion = quackV3 then some (ackIndex.getD 0) else none)
  | fetchResponse header results totalBatches batchIndex =>
    fetchResponse header.asRead (results.map f)
      (if quackVersion = quackV3 then validIndex totalBatches else none) (validIndex batchIndex)
  | heartbeatRequest header => heartbeatRequest header.asRead
  | appendRequest header schemaName tableName appendChunk =>
    appendRequest header.asRead (nonEmptyText schemaName) tableName (f appendChunk)
  | successResponse header => successResponse header.asRead
  | disconnect header => disconnect header.asRead
  | errorResponse header message => errorResponse header.asRead message

def chunks : QuackMessage → List DataChunk
  | prepareResponse _ _ _ _ results _ => results
  | fetchResponse _ results _ _ => results
  | appendRequest _ _ _ appendChunk => [appendChunk]
  | _ => []

def resultTypes : QuackMessage → List LogicalType
  | prepareResponse _ resultTypes .. => resultTypes
  | _ => []

def resultNames : QuackMessage → List String
  | prepareResponse _ _ resultNames .. => resultNames
  | _ => []

/-- The strings of the message outside its chunks. -/
def texts (message : QuackMessage) : List String :=
  message.header.connectionId.toList ++ match message with
    | connectionRequest _ authString clientDuckdbVersion clientPlatform _ _ clientId _ =>
      authString.toList ++ clientDuckdbVersion.toList ++ clientPlatform.toList ++ clientId.toList
    | connectionResponse _ serverDuckdbVersion serverPlatform .. =>
      serverDuckdbVersion.toList ++ serverPlatform.toList
    | prepareRequest _ sql .. => [sql]
    | prepareResponse _ _ resultNames .. => resultNames
    | appendRequest _ schemaName tableName _ => schemaName.toList ++ [tableName]
    | errorResponse _ message => [message]
    | _ => []

/-- The type that belongs in the header. -/
def variantType : QuackMessage → MessageType
  | connectionRequest .. => .connectionRequest
  | connectionResponse .. => .connectionResponse
  | prepareRequest .. => .prepareRequest
  | prepareResponse .. => .prepareResponse
  | fetchRequest .. => .fetchRequest
  | fetchResponse .. => .fetchResponse
  | heartbeatRequest .. => .heartbeatRequest
  | appendRequest .. => .sendDataRequest
  | successResponse .. => .successResponse
  | disconnect .. => .disconnectMessage
  | errorResponse .. => .errorResponse

/-- A FETCH_REQUEST of version 3 asks for a batch from 1 on. -/
def AsksFromOne (quackVersion : U64) : QuackMessage → Prop
  | fetchRequest _ _ (some batchIndex) _ => quackVersion = quackV3 → batchIndex ≠ 0
  | _ => True

/-- The version has the message, with the fields that it asks for. -/
def Supported (quackVersion : U64) : QuackMessage → Prop
  | heartbeatRequest _ => quackVersion = quackV3
  | appendRequest .. => quackVersion = quackV1
  | prepareRequest _ _ queryUuid _ => quackVersion = quackV3 → queryUuid ≠ none
  | fetchRequest _ _ batchIndex _ => quackVersion = quackV3 → batchIndex ≠ none
  | _ => True

/-- The message exists in memory, and its types can be written. -/
structure InMemory (layout : Layout) (message : QuackMessage) : Prop where
  texts : ∀ text ∈ message.texts, HeldText text
  types : ∀ T ∈ message.resultTypes, T.Writable layout
  typesFit : layout.Fits .logicalType message.resultTypes.length
  namesFit : layout.Fits .string message.resultNames.length
  chunksFit : layout.Fits .dataChunk message.chunks.length

end QuackMessage

section
variable {layout : Layout} {prims : Primitives}

theorem FieldTrip.someString {fieldId hi : Nat} {text : Option String}
    (h : ∀ content ∈ text, HeldText content) (hid : fieldId < hi) (hhi : hi ≤ 2 ^ 16) :
    FieldTrip layout fieldId hi (writeOptionalString fieldId text) (readOptionalString fieldId)
      (nonEmptyText text) := by
  refine .optionalString (fun content hmem => ?_) hid hhi
  exact h content (Option.mem_filter_iff.mp hmem).1

theorem FieldTrip.text {fieldId hi : Nat} {text : String} (h : HeldText text) (hid : fieldId < hi)
    (hhi : hi ≤ 2 ^ 16) :
    FieldTrip layout fieldId hi (writeOptionalString fieldId (some text)) (readText fieldId) text := by
  by_cases hempty : text = ""
  · subst hempty
    exact (FieldTrip.absent hid).weaken hid.le
  · have hwrite : writeOptionalString fieldId (some text) = writeField fieldId (writeString text) := by
      rw [writeOptionalString, Option.filter_some, if_pos (decide_eq_true hempty)]
      rfl
    rw [hwrite]
    exact .present (.string h) (by omega) ""

theorem FieldTrip.defaultZero {fieldId hi : Nat} (value : U64) (hid : fieldId < hi)
    (hhi : hi ≤ 2 ^ 16) :
    FieldTrip layout fieldId hi (writeOptionalIndexDefaultZero fieldId value)
      (readOptionalField fieldId readUlebU64 0) value :=
  .optional (fun _ => .uleb64 value) (fun hzero => not_not.mp hzero) hid hhi

theorem RoundTrips.someIndex (index : U64) :
    RoundTrips layout (writeUleb index.toNat) readSomeIndex (some index) :=
  (RoundTrips.uleb64 index).thenPure rfl

theorem FieldTrip.someIndex {fieldId hi : Nat} (index : Option U64) (hid : fieldId < hi)
    (hhi : hi ≤ 2 ^ 16) :
    FieldTrip layout fieldId hi (writeOptionalIndex fieldId index)
      (readOptionalField fieldId readSomeIndex none) index := by
  cases index with
  | some index => exact .present (.someIndex index) (by omega) none
  | none => exact (FieldTrip.absent hid).weaken hid.le

theorem FieldTrip.optionalIndex {fieldId hi : Nat} (index : Option U64) (hid : fieldId < hi)
    (hhi : hi ≤ 2 ^ 16) :
    FieldTrip layout fieldId hi (writeOptionalIndex fieldId index) (readOptionalIndex fieldId)
      (validIndex index) :=
  (FieldTrip.someIndex index hid hhi).thenReads (ReadsBefore.pure _)

/-- An index that is not zero is written by either rule. -/
theorem FieldTrip.nonzeroIndex {fieldId hi : Nat} {index : U64} (h : index ≠ 0) (hid : fieldId < hi)
    (hhi : hi ≤ 2 ^ 16) :
    FieldTrip layout fieldId hi (writeOptionalIndexDefaultZero fieldId index)
      (readOptionalIndex fieldId) (validIndex (some index)) := by
  rw [writeOptionalIndexDefaultZero, if_pos h]
  exact .optionalIndex (some index) hid hhi

theorem FieldTrip.unlessEmpty {α β : Type} {fieldId hi : Nat} {items : List α} {write : Encode}
    {read : Decoder (List β)} {f : α → β} (h : RoundTrips layout write read (items.map f))
    (hid : fieldId < hi) (hhi : hi ≤ 2 ^ 16) :
    FieldTrip layout fieldId hi (writeUnlessEmpty fieldId items write)
      (readOptionalField fieldId read []) (items.map f) := by
  refine .optional (fun _ => h) (fun hempty => ?_) hid hhi
  cases items with
  | nil => rfl
  | cons => exact absurd rfl hempty

theorem RoundTrips.chunkWrapper {chunk back : DataChunk}
    (h : RoundTrips layout (encodeDataChunk layout prims chunk) decodeDataChunk back) :
    RoundTrips layout (encodeDataChunkWrapper layout prims chunk) decodeDataChunkWrapper back :=
  FieldTrip.object 300 (FieldTrip.required h (by decide)).single

theorem RoundTrips.chunkPointerList {chunks : List DataChunk} {f : DataChunk → DataChunk}
    (hfits : layout.Fits .dataChunk chunks.length)
    (h : ∀ chunk ∈ chunks, RoundTrips layout (encodeDataChunk layout prims chunk) decodeDataChunk
      (f chunk)) :
    RoundTrips layout (writeChunkPointerList layout prims chunks) readChunkPointerList
      (chunks.map f) :=
  .listMap hfits fun chunk hmem => (RoundTrips.nullable (h chunk hmem).chunkWrapper).thenPure rfl

@[simp] theorem MessageType.tryFrom_code (messageType : MessageType) :
    MessageType.tryFrom (BitVec.ofNat 64 messageType.code) = .ok messageType := by
  cases messageType <;> rfl

theorem MessageType.code_lt (messageType : MessageType) : messageType.code < 2 ^ 64 := by
  cases messageType <;> decide

/-- The sentinel and the absent index are read alike. -/
theorem validIndex_eq (index : Option U64) :
    (if index.getD optionalIndexInvalid ≠ optionalIndexInvalid then
      some (index.getD optionalIndexInvalid) else none) = validIndex index := by
  cases index with
  | some index =>
      rw [validIndex, Option.filter_some, Option.getD_some]
      by_cases h : index = optionalIndexInvalid
      · rw [if_neg (not_not.mpr h), if_neg (by simpa using h)]
      · rw [if_pos h, if_pos (decide_eq_true h)]
  | none => exact if_neg (not_not.mpr rfl)

theorem roundTrips_header {header : MessageHeader}
    (h : ∀ text ∈ header.connectionId, HeldText text) :
    RoundTrips layout (encodeHeader header) decodeHeader header.asRead := by
  refine FieldTrip.object 1 <| .cons 2 (.required (.code header.messageType.code_lt) (by decide)) ?_
  refine .ofResult (MessageType.tryFrom_code _) <|
    .cons 3 (.someString h (by decide) (by decide)) <|
    .cons fieldEnd (.required (.uleb64 _) (by decide)) ?_
  rw [validIndex_eq, show (nonEmptyText header.connectionId).filter (fun value => value ≠ "") =
    nonEmptyText header.connectionId by simp [nonEmptyText, Option.filter_filter]]
  exact .nil _

/-! ### Bodies -/

theorem roundTrips_prepareResponse {header : MessageHeader} {resultTypes : List LogicalType}
    {resultNames : List String} {needsMoreFetch : Bool} {results : List DataChunk}
    {resultUuid : HugeIntParts} {f : DataChunk → DataChunk}
    (htypes : ∀ T ∈ resultTypes, T.Writable layout)
    (htypesFit : layout.Fits .logicalType resultTypes.length)
    (hnames : ∀ name ∈ resultNames, HeldText name)
    (hnamesFit : layout.Fits .string resultNames.length)
    (hchunksFit : layout.Fits .dataChunk results.length)
    (hchunks : ∀ chunk ∈ results, RoundTrips layout (encodeDataChunk layout prims chunk)
      decodeDataChunk (f chunk)) :
    RoundTrips layout
      (encodePrepareResponse layout prims resultTypes resultNames needsMoreFetch results resultUuid)
      (decodePrepareResponse header)
      (.prepareResponse header (resultTypes.map LogicalType.asRead) resultNames needsMoreFetch
        (results.map f) resultUuid) := by
  have htypesTrip : RoundTrips layout (writeList (resultTypes.map encodeLogicalType))
      (readList .logicalType fun _ => decodeLogicalType) (resultTypes.map LogicalType.asRead) :=
    .listMap htypesFit fun T hT => roundTrips_logicalType (htypes T hT)
  have hnamesTrip : RoundTrips layout (writeList (resultNames.map writeString))
      (readList .string fun _ => readString) (resultNames.map id) :=
    .listMap hnamesFit fun name hname => .string (hnames name hname)
  have hnamesField : FieldTrip layout 2 3
      (writeUnlessEmpty 2 resultNames (writeList (resultNames.map writeString)))
      (readOptionalField 2 (readList .string fun _ => readString) []) resultNames := by
    have hfield := FieldTrip.unlessEmpty hnamesTrip (by decide : 2 < 3) (by decide)
    rwa [List.map_id] at hfield
  have hmore : FieldTrip layout 3 4 (if needsMoreFetch then writeField 3 (writeBool true) else .ok [])
      (readOptionalField 3 readBool false) needsMoreFetch := by
    refine .optional (fun h => ?_) (fun h => by simpa using h) (by decide) (by decide)
    rw [h]
    exact .bool true
  exact FieldTrip.object 1 <| .cons 2 (.unlessEmpty htypesTrip (by decide) (by decide)) <|
    .cons 3 hnamesField <| .cons 4 hmore <|
    .cons 5 (.unlessEmpty (.chunkPointerList hchunksFit hchunks) (by decide) (by decide)) <|
    .cons fieldEnd (.required (.hugeIntParts resultUuid) (by decide)) (.nil _)

theorem roundTrips_errorResponse {header : MessageHeader} {message : String}
    (h : HeldText message) :
    RoundTrips layout (encodeErrorResponse message) (decodeErrorResponse header)
      (.errorResponse header message) :=
  FieldTrip.object 1 <| .cons fieldEnd (.text h (by decide) (by decide)) (.nil _)

theorem roundTrips_empty {message : QuackMessage} :
    RoundTrips layout (writeObject (Encode.all [])) (readObject (pure message)) message :=
  FieldTrip.object fieldEnd (.nil _)

variable {message : QuackMessage} {f : DataChunk → DataChunk}

/-- The body of a message in version 1. -/
theorem roundTrips_bodyV1 (hmemory : message.InMemory layout)
    (htype : message.messageType = message.variantType)
    (hchunks : ∀ chunk ∈ message.chunks, RoundTrips layout (encodeDataChunk layout prims chunk)
      decodeDataChunk (f chunk))
    (hsupported : message.Supported quackV1) :
    RoundTrips layout (encodeBodyV1 layout prims message) (decodeBodyV1 message.header.asRead)
      (message.readWith f quackV1) := by
  have htexts := hmemory.texts
  have hheader : message.header.asRead.messageType = message.variantType := htype
  have hversion : quackV1 ≠ quackV3 := by decide
  rw [decodeBodyV1, hheader]
  cases message <;>
    simp only [QuackMessage.texts, List.mem_append, Option.mem_toList, or_imp, forall_and,
      List.mem_singleton, forall_eq] at htexts <;>
    simp only [QuackMessage.readWith, if_neg hversion]
  case connectionRequest =>
    obtain ⟨-, ⟨⟨hauth, hversionText⟩, hplatform⟩, -⟩ := htexts
    exact FieldTrip.object 1 <| .cons 2 (.someString hauth (by decide) (by decide)) <|
      .cons 3 (.someString hversionText (by decide) (by decide)) <|
      .cons 4 (.someString hplatform (by decide) (by decide)) <|
      .cons 5 (.defaultZero _ (by decide) (by decide)) <|
      .cons fieldEnd (.defaultZero _ (by decide) (by decide)) (.nil _)
  case connectionResponse =>
    obtain ⟨-, hversionText, hplatform⟩ := htexts
    exact FieldTrip.object 1 <| .cons 2 (.someString hversionText (by decide) (by decide)) <|
      .cons 3 (.someString hplatform (by decide) (by decide)) <|
      .cons fieldEnd (.someIndex _ (by decide) (by decide)) (.nil _)
  case prepareRequest =>
    exact FieldTrip.object 1 <| .cons fieldEnd (.text htexts.2 (by decide) (by decide)) (.nil _)
  case prepareResponse =>
    exact roundTrips_prepareResponse hmemory.types hmemory.typesFit htexts.2 hmemory.namesFit
      hmemory.chunksFit hchunks
  case fetchRequest =>
    exact FieldTrip.object 1 <| .cons fieldEnd (.required (.hugeIntParts _) (by decide)) (.nil _)
  case fetchResponse =>
    refine FieldTrip.object 1 <| .cons 2 (.unlessEmpty (.chunkPointerList hmemory.chunksFit hchunks)
      (by decide) (by decide)) <| .cons fieldEnd (.required (.uleb64 _) (by decide)) ?_
    rw [validIndex_eq]
    exact .nil _
  case heartbeatRequest => cases hsupported
  case appendRequest =>
    have hchunk := RoundTrips.nullable (hchunks _ (List.mem_singleton_self _)).chunkWrapper
    exact FieldTrip.object 1 <| .cons 2 (.someString htexts.2.1 (by decide) (by decide)) <|
      .cons 3 (.text htexts.2.2 (by decide) (by decide)) <|
      .cons fieldEnd (.present hchunk (by decide) none) (.nil _)
  case successResponse | disconnect => exact roundTrips_empty
  case errorResponse => exact roundTrips_errorResponse htexts.2

/-- The body of a message in version 3. -/
theorem roundTrips_bodyV3 (hmemory : message.InMemory layout)
    (htype : message.messageType = message.variantType) (hasks : message.AsksFromOne quackV3)
    (hchunks : ∀ chunk ∈ message.chunks, RoundTrips layout (encodeDataChunk layout prims chunk)
      decodeDataChunk (f chunk))
    (hsupported : message.Supported quackV3) :
    RoundTrips layout (encodeBodyV3 layout prims message) (decodeBodyV3 message.header.asRead)
      (message.readWith f quackV3) := by
  have htexts := hmemory.texts
  have hheader : message.header.asRead.messageType = message.variantType := htype
  rw [decodeBodyV3, hheader]
  cases message <;>
    simp only [QuackMessage.texts, List.mem_append, Option.mem_toList, or_imp, forall_and,
      List.mem_singleton, forall_eq] at htexts <;>
    simp only [QuackMessage.readWith, if_true]
  case connectionRequest =>
    obtain ⟨-, ⟨⟨hauth, hversion⟩, hplatform⟩, hclient⟩ := htexts
    exact FieldTrip.object 1 <| .cons 2 (.someString hauth (by decide) (by decide)) <|
      .cons 3 (.someString hversion (by decide) (by decide)) <|
      .cons 4 (.someString hplatform (by decide) (by decide)) <|
      .cons 5 (.defaultZero _ (by decide) (by decide)) <|
      .cons 6 (.defaultZero _ (by decide) (by decide)) <|
      .cons 7 (.someString hclient (by decide) (by decide)) <|
      .cons fieldEnd (.defaultZero _ (by decide) (by decide)) (.nil _)
  case connectionResponse =>
    obtain ⟨-, hversion, hplatform⟩ := htexts
    exact FieldTrip.object 1 <| .cons 2 (.someString hversion (by decide) (by decide)) <|
      .cons 3 (.someString hplatform (by decide) (by decide)) <|
      .cons 4 (.someIndex _ (by decide) (by decide)) <|
      .cons fieldEnd (.someIndex _ (by decide) (by decide)) (.nil _)
  case prepareRequest header sql queryUuid inlineRows =>
    cases queryUuid with
    | some queryUuid =>
        exact FieldTrip.object 1 <| .cons 2 (.text htexts.2 (by decide) (by decide)) <|
          .cons 3 (.required (.hugeIntParts _) (by decide)) <|
          .cons fieldEnd (.optionalIndex _ (by decide) (by decide)) (.nil _)
    | none => exact absurd rfl (hsupported rfl)
  case prepareResponse =>
    exact roundTrips_prepareResponse hmemory.types hmemory.typesFit htexts.2 hmemory.namesFit
      hmemory.chunksFit hchunks
  case fetchRequest header resultUuid batchIndex ackIndex =>
    cases batchIndex with
    | some batchIndex =>
        exact FieldTrip.object 1 <| .cons 2 (.required (.hugeIntParts _) (by decide)) <|
          .cons 3 (.nonzeroIndex (hasks rfl) (by decide) (by decide)) <|
          .cons fieldEnd (.defaultZero _ (by decide) (by decide)) (.nil _)
    | none => exact absurd rfl (hsupported rfl)
  case fetchResponse header results totalBatches batchIndex =>
    have hfits := hmemory.chunksFit
    have hcount : (BitVec.ofNat 64 results.length).toNat = results.length := by
      rw [BitVec.toNat_ofNat]
      exact Nat.mod_eq_of_lt hfits.count_lt
    have hfields : RoundTrips layout
        (writeObject (Encode.all [
          writeOptionalIndexDefaultZero 1 (BitVec.ofNat 64 results.length),
          writeOptionalIndex 2 totalBatches,
          writeOptionalIndex 3 batchIndex]))
        (readObject do
          let chunkCount ← readOptionalField 1 readUlebU64 0
          let totalBatches ← readOptionalIndex 2
          let batchIndex ← readOptionalIndex 3
          pure (chunkCount, totalBatches, batchIndex))
        (BitVec.ofNat 64 results.length, validIndex totalBatches, validIndex batchIndex) :=
      FieldTrip.object 1 <| .cons 2 (.defaultZero _ (by decide) (by decide)) <|
        .cons 3 (.optionalIndex _ (by decide) (by decide)) <|
        .cons fieldEnd (.optionalIndex _ (by decide) (by decide)) (.nil _)
    have hall : RoundTrips layout (Encode.all (results.map (encodeDataChunk layout prims)))
        (collect (fun _ => decodeDataChunk) 0 (results.map f).length) (results.map f) := by
      refine .all 0 (by simp) fun i hw hv => ?_
      rw [List.getElem_map, List.getElem_map]
      exact hchunks _ (List.getElem_mem _)
    rw [List.length_map, ← hcount] at hall
    obtain ⟨bytes, hwrite, hread⟩ := hall
    have hcapacity : layout.Fits .dataChunk (min (BitVec.ofNat 64 results.length).toNat 1024) :=
      hfits.mono (by rw [hcount]; exact Nat.min_le_left _ _)
    exact hfields.append
      ⟨bytes, hwrite, (reads_withCapacity hcapacity).bind_nil (hread.thenPure rfl)⟩
  case heartbeatRequest | successResponse | disconnect => exact roundTrips_empty
  case appendRequest => cases hsupported
  case errorResponse => exact roundTrips_errorResponse htexts.2

/-- A canonical chunk as messages carry it: the columns repeat the types of the chunk. -/
structure DataChunk.Plain (layout : Layout) (chunk : DataChunk) : Prop where
  inMemory : chunk.InMemory layout
  canonical : chunk.Canonical
  flat : chunk.columns = chunk.parts.map fun part => ⟨part.1, .flat, part.2⟩

/-- The chunk that is meant to be read back. -/
def DataChunk.asRead (chunk : DataChunk) : DataChunk where
  rowCount := chunk.rowCount
  types := chunk.types.map LogicalType.asRead
  columns := chunk.columns.map fun column =>
    ⟨column.logicalType.asRead, column.vectorType, column.values⟩
  columnNames := none

structure DataChunk.Same (back chunk : DataChunk) : Prop where
  rowCount : back.rowCount = chunk.rowCount
  types : back.types = chunk.types
  columnNames : back.columnNames = chunk.columnNames
  columns : List.Forall₂ (fun column' column => column'.logicalType = column.logicalType ∧
    column'.vectorType = column.vectorType ∧ List.Forall₂ Value.Same column'.values column.values)
    back.columns chunk.columns

theorem DataChunk.Plain.same_iff {chunk : DataChunk} (h : chunk.Plain layout)
    (hfloat : ∀ bits, prims.f64ToF32 (prims.f32ToF64 bits) = bits) :
    (storedChunk prims chunk).Same chunk.asRead ↔ chunk.NarrowLabels := by
  have hcolumns : chunk.asRead.columns = chunk.parts.map fun part =>
      ⟨part.1.asRead, .flat, part.2⟩ := by
    rw [DataChunk.asRead, h.flat, List.map_map]
    rfl
  have hsame : List.Forall₂ (fun column' column => column'.logicalType = column.logicalType ∧
      column'.vectorType = column.vectorType ∧
      List.Forall₂ Value.Same column'.values column.values)
      (storedChunk prims chunk).columns chunk.asRead.columns ↔ chunk.NarrowLabels := by
    rw [hcolumns, storedChunk, List.forall₂_map_left_iff, List.forall₂_map_right_iff,
      List.forall₂_same]
    apply forall₂_congr
    intro part hpart
    rw [List.forall₂_map_left_iff, List.forall₂_same]
    refine ⟨fun hall value hmem => ?_, fun hall => ⟨rfl, rfl, fun value hmem => ?_⟩⟩
    · exact (h.canonical.storable hfloat h.inMemory hpart hmem).2.mp (hall.2.2 value hmem)
    · exact (h.canonical.storable hfloat h.inMemory hpart hmem).2.mpr (hall value hmem)
  exact ⟨fun hall => hsame.mp hall.columns, fun hall => ⟨rfl, rfl, rfl, hsame.mpr hall⟩⟩

namespace QuackMessage

/-- The message that is meant to be read back in a version. -/
def norm (quackVersion : U64) (message : QuackMessage) : QuackMessage :=
  message.readWith DataChunk.asRead quackVersion

/-- The message without what its chunks hold. -/
def frame : QuackMessage → QuackMessage
  | prepareResponse header resultTypes resultNames needsMoreFetch _ resultUuid =>
    prepareResponse header resultTypes resultNames needsMoreFetch [] resultUuid
  | fetchResponse header _ totalBatches batchIndex => fetchResponse header [] totalBatches batchIndex
  | appendRequest header schemaName tableName _ =>
    appendRequest header schemaName tableName ⟨0, [], [], none⟩
  | message => message

structure Same (back message : QuackMessage) : Prop where
  frame : back.frame = message.frame
  chunks : List.Forall₂ DataChunk.Same back.chunks message.chunks

theorem chunks_readWith (f : DataChunk → DataChunk) (quackVersion : U64) (message : QuackMessage) :
    (message.readWith f quackVersion).chunks = message.chunks.map f := by
  cases message <;> rfl

theorem frame_readWith (f g : DataChunk → DataChunk) (quackVersion : U64) (message : QuackMessage) :
    (message.readWith f quackVersion).frame = (message.readWith g quackVersion).frame := by
  cases message <;> rfl

end QuackMessage

theorem chunkPointer_within {chunk : DataChunk} {chunks : List DataChunk} (h : chunk ∈ chunks) :
    Encode.Within (encodeDataChunk layout prims chunk) (writeChunkPointerList layout prims chunks)
      0 := by
  have hwrapper : Encode.Within (encodeDataChunk layout prims chunk)
      (encodeDataChunkWrapper layout prims chunk) 0 :=
    (Encode.Within.object (.field (.refl _) 300) (List.mem_singleton_self _)).fewer (by decide)
  exact .list (hwrapper.right _) (List.mem_map.mpr ⟨chunk, h, rfl⟩)

theorem unlessEmpty_within {α : Type} {part write : Encode} {items : List α}
    (h : part.Within write 0) (hne : items ≠ []) (fieldId : Nat) :
    part.Within (writeUnlessEmpty fieldId items write) 0 := by
  cases items with
  | nil => exact absurd rfl hne
  | cons => exact h.field fieldId

/-- A message that is encoded has its chunks encoded in it. -/
theorem chunk_within {chunk : DataChunk} (h : chunk ∈ message.chunks) (quackVersion : U64) :
    Encode.Within (encodeDataChunk layout prims chunk)
      (encodeMessageForVersion layout prims message quackVersion) 0 := by
  have hnone (e : QuackError) : Encode.Within (encodeDataChunk layout prims chunk) (.err e) 0 :=
    fun _ hok => by cases hok
  have hlist {results : List DataChunk} (hmem : chunk ∈ results) (fieldId : Nat) :
      Encode.Within (encodeDataChunk layout prims chunk)
        (writeUnlessEmpty fieldId results (writeChunkPointerList layout prims results)) 0 :=
    unlessEmpty_within (chunkPointer_within hmem) (List.ne_nil_of_mem hmem) fieldId
  have hresponse {resultTypes : List LogicalType} {resultNames : List String}
      {needsMoreFetch : Bool} {results : List DataChunk} {resultUuid : HugeIntParts}
      (hmem : chunk ∈ results) :
      Encode.Within (encodeDataChunk layout prims chunk) (encodePrepareResponse layout prims
        resultTypes resultNames needsMoreFetch results resultUuid) 0 := by
    refine ((hlist hmem 4).object ?_).fewer (Nat.zero_le _)
    simp
  refine .right ?_ _
  split
  · cases message with
    | prepareResponse => exact hresponse h
    | fetchResponse =>
        exact ((hlist h 1).object (List.mem_cons_self ..)).fewer (Nat.zero_le _)
    | appendRequest header schemaName tableName appendChunk =>
        obtain rfl := List.mem_singleton.mp h
        have hwrapper : Encode.Within (encodeDataChunk layout prims chunk)
            (encodeDataChunkWrapper layout prims chunk) 0 :=
          (Encode.Within.object (.field (.refl _) 300) (List.mem_singleton_self _)).fewer (by decide)
        have hfield := (hwrapper.right (writeBool true)).field 3
        refine (hfield.object ?_).fewer (Nat.zero_le _)
        exact List.mem_cons_of_mem _ (List.mem_cons_of_mem _ (List.mem_singleton_self _))
    | _ => cases h
  · split
    · cases message with
      | prepareResponse => exact hresponse h
      | fetchResponse => exact .right (.all (.refl _) (List.mem_map.mpr ⟨chunk, h, rfl⟩)) _
      | appendRequest => exact hnone _
      | _ => cases h
    · exact hnone _

/-- A chunk whose values can be stored in its columns. -/
structure DataChunk.Stores (layout : Layout) (prims : Primitives) (chunk : DataChunk) : Prop where
  inMemory : chunk.InMemory layout
  storable : ∀ part ∈ chunk.parts, ∀ value ∈ part.2, Storable prims part.1 value

theorem DataChunk.Plain.stores {chunk : DataChunk} (h : chunk.Plain layout)
    (hfloat : ∀ bits, prims.f64ToF32 (prims.f32ToF64 bits) = bits) : chunk.Stores layout prims :=
  ⟨h.inMemory, fun _ hpart _ hvalue => (h.canonical.storable hfloat h.inMemory hpart hvalue).1⟩

/-- A message that its version has is written, and decoded to what its version keeps of it. -/
theorem message_stored {quackVersion : U64} (hversion : quackVersion = quackV1 ∨ quackVersion = quackV3)
    (hmemory : message.InMemory layout) (htype : message.messageType = message.variantType)
    (hasks : message.AsksFromOne quackVersion) (hsupported : message.Supported quackVersion)
    (hchunks : ∀ chunk ∈ message.chunks, RoundTrips layout (encodeDataChunk layout prims chunk) decodeDataChunk
      (storedChunk prims chunk)) :
    ∃ bytes, encodeMessageForVersion layout prims message quackVersion = .ok bytes ∧
      (Held bytes → decodeMessageForVersion layout bytes quackVersion =
        .ok (message.readWith (storedChunk prims) quackVersion)) := by
  have hheader : RoundTrips layout (encodeHeader message.header) decodeHeader
      message.header.asRead := by
    refine roundTrips_header fun text htext => hmemory.texts text ?_
    exact List.mem_append_left _ (Option.mem_toList.mpr htext)
  obtain ⟨front, hfront, hreadHeader⟩ := hheader
  obtain ⟨back, hback, hbody⟩ : ∃ back,
      (if quackVersion = quackV1 then encodeBodyV1 layout prims message
        else if quackVersion = quackV3 then encodeBodyV3 layout prims message
        else .err (.protocol s!"unsupported Quack protocol version {quackVersion.toNat}")) = .ok back ∧
      Reads layout (decodeBody quackVersion message.header.asRead) back
        (message.readWith (storedChunk prims) quackVersion) := by
    unfold decodeBody
    rcases hversion with rfl | rfl
    · rw [if_pos rfl, if_pos rfl]
      exact roundTrips_bodyV1 hmemory htype hchunks hsupported
    · rw [if_neg (by decide), if_pos rfl, if_neg (by decide), if_pos rfl]
      exact roundTrips_bodyV3 hmemory htype hasks hchunks hsupported
  refine ⟨front ++ back, ?_, fun hheld => ?_⟩
  · rw [encodeMessageForVersion, hfront, hback]
    rfl
  have hend (back : QuackMessage) :
      ReadsBefore layout (fun rest => rest = []) (assertEof >>= fun _ => pure back) [] back :=
    ReadsBefore.bind reads_assertEof (ReadsBefore.pure _) fun rest h => h
  have hrest : ReadsBefore layout (fun rest => rest = [])
      (decodeBody quackVersion message.header.asRead >>= fun back => assertEof >>= fun _ => pure back)
      (back ++ []) (message.readWith (storedChunk prims) quackVersion) :=
    ReadsBefore.bind hbody (hend _) fun _ _ => trivial
  have hall : ReadsBefore layout (fun rest => rest = []) (decodeMessage quackVersion)
      (front ++ (back ++ [])) (message.readWith (storedChunk prims) quackVersion) :=
    ReadsBefore.bind hreadHeader hrest fun _ _ => trivial
  rw [List.append_nil] at hall
  have hreader : Cursor.Valid ⟨front ++ back, 0⟩ := ⟨Nat.zero_le _, hheld⟩
  have hrun := hall ⟨front ++ back, 0⟩ hreader [] rfl (by simp [Cursor.unread])
  rw [decodeMessageForVersion, hrun]
  rfl

/-- Only a message that its version has is written. -/
theorem supported_of_encode {quackVersion : U64} {bytes : Bytes}
    (hversion : quackVersion = quackV1 ∨ quackVersion = quackV3)
    (hok : encodeMessageForVersion layout prims message quackVersion = .ok bytes) :
    message.Supported quackVersion := by
  obtain ⟨-, back, -, hback, -⟩ := Encode.append_eq_ok hok
  rcases hversion with rfl | rfl
  · rw [if_pos rfl] at hback
    cases message <;> try exact trivial
    case prepareRequest | fetchRequest => exact fun h => absurd h (by decide)
    case heartbeatRequest => cases hback
    case appendRequest => exact rfl
  · rw [if_neg (by decide), if_pos rfl] at hback
    cases message <;> try exact trivial
    case prepareRequest header sql queryUuid inlineRows =>
      rintro - rfl
      cases hback
    case fetchRequest header resultUuid batchIndex ackIndex =>
      rintro - rfl
      cases hback
    case heartbeatRequest => exact rfl
    case appendRequest => cases hback

/-- What is decoded from an encoded message of storable chunks. -/
theorem decodeMessage_stored {quackVersion : U64} {bytes : Bytes}
    (hversion : quackVersion = quackV1 ∨ quackVersion = quackV3)
    (hmemory : message.InMemory layout) (htype : message.messageType = message.variantType)
    (hasks : message.AsksFromOne quackVersion) (hchunks : ∀ chunk ∈ message.chunks, chunk.Stores layout prims)
    (hok : encodeMessageForVersion layout prims message quackVersion = .ok bytes)
    (hheld : Held bytes) :
    decodeMessageForVersion layout bytes quackVersion =
      .ok (message.readWith (storedChunk prims) quackVersion) := by
  have htrips : ∀ chunk ∈ message.chunks, RoundTrips layout (encodeDataChunk layout prims chunk)
      decodeDataChunk (storedChunk prims chunk) := fun chunk hmem => by
    obtain ⟨inner, hinner, -⟩ := chunk_within hmem quackVersion bytes hok
    have hstores := hchunks chunk hmem
    exact roundTrips_dataChunk hstores.inMemory (fitsMemory_of_encodeDataChunk hstores.inMemory hinner)
      hstores.storable
  obtain ⟨written, hwritten, hread⟩ := message_stored hversion hmemory htype hasks
    (supported_of_encode hversion hok) htrips
  cases hok.symm.trans hwritten
  exact hread hheld

/-- What is decoded from an encoded message. -/
theorem decodeMessage_encode {quackVersion : U64} {bytes : Bytes}
    (hversion : quackVersion = quackV1 ∨ quackVersion = quackV3)
    (hfloat : ∀ bits, prims.f64ToF32 (prims.f32ToF64 bits) = bits)
    (hmemory : message.InMemory layout) (htype : message.messageType = message.variantType)
    (hasks : message.AsksFromOne quackVersion) (hchunks : ∀ chunk ∈ message.chunks, chunk.Plain layout)
    (hok : encodeMessageForVersion layout prims message quackVersion = .ok bytes)
    (hheld : Held bytes) :
    decodeMessageForVersion layout bytes quackVersion =
      .ok (message.readWith (storedChunk prims) quackVersion) :=
  decodeMessage_stored hversion hmemory htype hasks (fun chunk hmem => (hchunks chunk hmem).stores hfloat)
    hok hheld

/-- An encoded message is decoded to what its version keeps of it exactly when the place of each ENUM
label in its chunks fits the stored index. -/
theorem message_trips_iff {quackVersion : U64} {bytes : Bytes}
    (hversion : quackVersion = quackV1 ∨ quackVersion = quackV3)
    (hfloat : ∀ bits, prims.f64ToF32 (prims.f32ToF64 bits) = bits)
    (hmemory : message.InMemory layout) (htype : message.messageType = message.variantType)
    (hasks : message.AsksFromOne quackVersion) (hchunks : ∀ chunk ∈ message.chunks, chunk.Plain layout)
    (hok : encodeMessageForVersion layout prims message quackVersion = .ok bytes)
    (hheld : Held bytes) :
    (∃ back, decodeMessageForVersion layout bytes quackVersion = .ok back ∧
      back.Same (message.norm quackVersion)) ↔ ∀ chunk ∈ message.chunks, chunk.NarrowLabels := by
  have hdecode := decodeMessage_encode hversion hfloat hmemory htype hasks hchunks hok hheld
  have hsame : (message.readWith (storedChunk prims) quackVersion).Same
      (message.norm quackVersion) ↔ ∀ chunk ∈ message.chunks, chunk.NarrowLabels := by
    have hlists : List.Forall₂ DataChunk.Same
        (message.readWith (storedChunk prims) quackVersion).chunks
        (message.norm quackVersion).chunks ↔ ∀ chunk ∈ message.chunks, chunk.NarrowLabels := by
      rw [QuackMessage.norm, QuackMessage.chunks_readWith, QuackMessage.chunks_readWith,
        List.forall₂_map_left_iff, List.forall₂_map_right_iff, List.forall₂_same]
      exact forall₂_congr fun chunk hmem => (hchunks chunk hmem).same_iff hfloat
    exact ⟨fun h => hlists.mp h.chunks,
      fun h => ⟨QuackMessage.frame_readWith _ _ _ _, hlists.mpr h⟩⟩
  rw [hdecode]
  constructor
  · rintro ⟨back, hback, h⟩
    cases hback
    exact hsame.mp h
  · exact fun h => ⟨_, rfl, hsame.mpr h⟩

end

/-- A reply of one chunk. -/
def chunkReply (chunk : DataChunk) : QuackMessage :=
  .fetchResponse ⟨.fetchResponse, none, some 7⟩ [chunk] none (some 1)

theorem chunkReply_inMemory (chunk : DataChunk) : (chunkReply chunk).InMemory .words := by
  have hfits (element : Element) {count : Nat} (h : count ≤ 1) : Layout.words.Fits element count := by
    refine ⟨by simp only [usizeLimit]; omega, ?_⟩
    simp only [Layout.words, isizeMax]
    omega
  refine ⟨fun text htext => ?_, fun T hT => ?_, hfits _ (Nat.zero_le _), hfits _ (Nat.zero_le _),
    hfits _ le_rfl⟩
  · cases htext
  · cases hT

/-- The reply is written around its chunk. -/
theorem chunkReply_encode {chunk : DataChunk} {bytes : Bytes}
    (h : encodeDataChunk .words .floatless chunk = .ok bytes) :
    ∃ whole, encodeMessageForVersion .words .floatless (chunkReply chunk) quackV3 = .ok whole ∧
      whole.length ≤ bytes.length + 128 := by
  have hwhole : ∃ whole, encodeMessageForVersion .words .floatless (chunkReply chunk) quackV3 =
      .ok whole := by
    rw [encodeMessageForVersion, if_neg (by decide), if_pos rfl, chunkReply]
    simp only [encodeBodyV3, List.map_cons, List.map_nil, h]
    exact ⟨_, rfl⟩
  obtain ⟨whole, hok⟩ := hwhole
  have hchunk : (encodeDataChunk .words .floatless chunk).AtMost bytes.length := by
    rw [h]
    exact .ok le_rfl
  have hheader : (encodeHeader ⟨.fetchResponse, none, some 7⟩).AtMost
      (2 + 9 + (0 + (2 + 9 + 0)) + 2) :=
    ((Encode.AtMost.field (.uleb (by decide)) 1).append ((Encode.AtMost.ok le_rfl).append
      ((Encode.AtMost.field (.uleb (by decide)) 3).append .nothing))).object
  have hfields : (writeObject (Encode.all [
      writeOptionalIndexDefaultZero 1 (BitVec.ofNat 64 [chunk].length),
      writeOptionalIndex 2 none, writeOptionalIndex 3 (some 1)])).AtMost
        (2 + 9 + (0 + (2 + 9 + 0)) + 2) := by
    rw [writeOptionalIndexDefaultZero, if_pos (by simp)]
    exact ((Encode.AtMost.field (.uleb (by simp)) 1).append ((Encode.AtMost.ok le_rfl).append
      ((Encode.AtMost.field (.uleb (by decide)) 3).append .nothing))).object
  have hall := hheader.append (hfields.append (hchunk.append .nothing))
  refine ⟨whole, hok, (hall whole hok).trans ?_⟩
  omega

theorem columnChunk_plain {layout : Layout} {T : LogicalType} {values : List Value}
    (h : (columnChunk T values).InMemory layout) (hcanonical : (columnChunk T values).Canonical) :
    (columnChunk T values).Plain layout := ⟨h, hcanonical, rfl⟩

theorem message_trips_booleans : ∃ bytes back,
    encodeMessageForVersion .words .floatless (chunkReply booleanChunk) quackV3 = .ok bytes ∧
      decodeMessageForVersion .words bytes quackV3 = .ok back ∧
      back.Same ((chunkReply booleanChunk).norm quackV3) := by
  have hplain := columnChunk_plain booleanChunk_inMemory booleanChunk_canonical
  obtain ⟨inner, hinner, -⟩ := roundTrips_dataChunk booleanChunk_inMemory booleanChunk_fits
    fun part hpart value hmem => (booleanChunk_canonical.storable Primitives.floatless_back
      booleanChunk_inMemory hpart hmem).1
  obtain ⟨bytes, hok, hlen⟩ := chunkReply_encode hinner
  have hsize := atMost_booleanChunk inner hinner
  have hheld : Held bytes := by
    simp only [Held, isizeMax]
    omega
  obtain ⟨back, hback, hsame⟩ := (message_trips_iff (.inr rfl) Primitives.floatless_back
    (chunkReply_inMemory _) rfl trivial (fun chunk hmem => by
      obtain rfl := List.mem_singleton.mp hmem
      exact hplain) hok hheld).mpr fun chunk hmem => by
      obtain rfl := List.mem_singleton.mp hmem
      exact booleanChunk_narrow
  exact ⟨bytes, back, hok, hback, hsame⟩

/-- A reply with a label out of reach is encoded, and decoded to another message. -/
theorem not_message_trips_wideEnum :
    (chunkReply wideChunk).InMemory .words ∧ wideChunk.Plain .words ∧ ∃ bytes,
      encodeMessageForVersion .words .floatless (chunkReply wideChunk) quackV3 = .ok bytes ∧
        ¬ ∃ back, decodeMessageForVersion .words bytes quackV3 = .ok back ∧
          back.Same ((chunkReply wideChunk).norm quackV3) := by
  have hplain := columnChunk_plain wideChunk_inMemory wideChunk_canonical
  obtain ⟨inner, hinner, -⟩ := roundTrips_dataChunk wideChunk_inMemory wideChunk_fits
    fun part hpart value hmem => (wideChunk_canonical.storable Primitives.floatless_back
      wideChunk_inMemory hpart hmem).1
  obtain ⟨bytes, hok, hlen⟩ := chunkReply_encode hinner
  have hsize := atMost_wideChunk inner hinner
  have hheld : Held bytes := by
    simp only [Held, isizeMax]
    omega
  refine ⟨chunkReply_inMemory _, hplain, bytes, hok, ?_⟩
  rintro ⟨back, hback, hsame⟩
  have hdecode := decodeMessage_encode (.inr rfl) Primitives.floatless_back (chunkReply_inMemory _)
    rfl trivial (fun chunk hmem => by
      obtain rfl := List.mem_singleton.mp hmem
      exact hplain) hok hheld
  cases hback.symm.trans hdecode
  have hchunks := hsame.chunks
  rw [QuackMessage.norm, QuackMessage.chunks_readWith, QuackMessage.chunks_readWith,
    List.forall₂_map_left_iff, List.forall₂_map_right_iff, List.forall₂_same] at hchunks
  exact wideChunk_wide ((hplain.same_iff Primitives.floatless_back).mp
    (hchunks _ (List.mem_singleton_self _)))

end QuackProtocol
