import QuackProtocol.Vectors

/-! Protocol messages (`messages.rs`): a header, then a body whose layout depends on the protocol
version. -/

open Decoding Decode

namespace QuackProtocol

inductive MessageType where
  | invalid | connectionRequest | connectionResponse | prepareRequest | prepareResponse
  | fetchRequest | fetchResponse | sendDataRequest | successResponse | disconnectMessage
  | cancelRequest | sendDataResponse | acknowledgement | heartbeatRequest | errorResponse
  deriving DecidableEq

namespace MessageType

def code : MessageType → Nat
  | invalid => 0 | connectionRequest => 1 | connectionResponse => 2 | prepareRequest => 3
  | prepareResponse => 4 | fetchRequest => 7 | fetchResponse => 8 | sendDataRequest => 9
  | successResponse => 10 | disconnectMessage => 11 | cancelRequest => 12 | sendDataResponse => 14
  | acknowledgement => 15 | heartbeatRequest => 16 | errorResponse => 100

def tryFrom (value : U64) : Result MessageType :=
  match value.toNat with
  | 0 => .ok .invalid | 1 => .ok .connectionRequest | 2 => .ok .connectionResponse
  | 3 => .ok .prepareRequest | 4 => .ok .prepareResponse | 7 => .ok .fetchRequest
  | 8 => .ok .fetchResponse | 9 => .ok .sendDataRequest | 10 => .ok .successResponse
  | 11 => .ok .disconnectMessage | 12 => .ok .cancelRequest | 14 => .ok .sendDataResponse
  | 15 => .ok .acknowledgement | 16 => .ok .heartbeatRequest | 100 => .ok .errorResponse
  | _ => .error (.protocol s!"unknown message type {value.toNat}")

/-- `{:?}`. -/
def debug : MessageType → String
  | invalid => "Invalid" | connectionRequest => "ConnectionRequest"
  | connectionResponse => "ConnectionResponse" | prepareRequest => "PrepareRequest"
  | prepareResponse => "PrepareResponse" | fetchRequest => "FetchRequest"
  | fetchResponse => "FetchResponse" | sendDataRequest => "SendDataRequest"
  | successResponse => "SuccessResponse" | disconnectMessage => "DisconnectMessage"
  | cancelRequest => "CancelRequest" | sendDataResponse => "SendDataResponse"
  | acknowledgement => "Acknowledgement" | heartbeatRequest => "HeartbeatRequest"
  | errorResponse => "ErrorResponse"

end MessageType

structure MessageHeader where
  messageType : MessageType
  connectionId : Option String
  clientQueryId : Option U64
  deriving DecidableEq

inductive QuackMessage where
  | connectionRequest (header : MessageHeader)
      (authString clientDuckdbVersion clientPlatform : Option String)
      (minSupportedQuackVersion maxSupportedQuackVersion : U64) (clientId : Option String)
      (heartbeatTimeoutSeconds : U64)
  | connectionResponse (header : MessageHeader) (serverDuckdbVersion serverPlatform : Option String)
      (quackVersion heartbeatTimeoutSeconds : Option U64)
  | prepareRequest (header : MessageHeader) (sql : String) (queryUuid : Option HugeIntParts)
      (inlineRows : Option U64)
  | prepareResponse (header : MessageHeader) (resultTypes : List LogicalType)
      (resultNames : List String) (needsMoreFetch : Bool) (results : List DataChunk)
      (resultUuid : HugeIntParts)
  | fetchRequest (header : MessageHeader) (resultUuid : HugeIntParts)
      (batchIndex ackIndex : Option U64)
  | fetchResponse (header : MessageHeader) (results : List DataChunk)
      (totalBatches batchIndex : Option U64)
  | heartbeatRequest (header : MessageHeader)
  | appendRequest (header : MessageHeader) (schemaName : Option String) (tableName : String)
      (appendChunk : DataChunk)
  | successResponse (header : MessageHeader)
  | disconnect (header : MessageHeader)
  | errorResponse (header : MessageHeader) (message : String)

namespace QuackMessage

def header : QuackMessage → MessageHeader
  | connectionRequest header .. | connectionResponse header .. | prepareRequest header ..
  | prepareResponse header .. | fetchRequest header .. | fetchResponse header ..
  | heartbeatRequest header | appendRequest header .. | successResponse header
  | disconnect header | errorResponse header _ => header

def messageType (message : QuackMessage) : MessageType := message.header.messageType

end QuackMessage

def writeOptionalIndexDefaultZero (fieldId : Nat) (value : U64) : Encode :=
  if value ≠ 0 then writeField fieldId (writeUleb value.toNat) else .ok []

def writeOptionalIndex (fieldId : Nat) (value : Option U64) : Encode :=
  match value with
  | some index => writeField fieldId (writeUleb index.toNat)
  | none => .ok []

def readSomeIndex : Decoder (Option U64) := do
  let index ← readUlebU64
  pure (some index)

def readOptionalIndex (fieldId : Nat) : Decoder (Option U64) := do
  let value ← readOptionalField fieldId readSomeIndex none
  pure (value.filter fun index => index ≠ optionalIndexInvalid)

/-- A list that is left out where it is empty. -/
def writeUnlessEmpty {α : Type} (fieldId : Nat) (items : List α) (write : Encode) : Encode :=
  if !items.isEmpty then writeField fieldId write else .ok []

/-! ### Encoding -/

def encodeHeader (header : MessageHeader) : Encode :=
  writeObject (Encode.all [
    writeField 1 (writeUleb header.messageType.code),
    writeOptionalString 2 header.connectionId,
    writeField 3 (writeUleb (header.clientQueryId.getD optionalIndexInvalid).toNat)])

section
variable (layout : Layout) (prims : Primitives)

def writeChunkPointerList (chunks : List DataChunk) : Encode :=
  writeList (chunks.map fun chunk =>
    writeNullable (some (encodeDataChunkWrapper layout prims chunk)))

/-- The body of a PREPARE_RESPONSE, which both versions write alike. -/
def encodePrepareResponse (resultTypes : List LogicalType) (resultNames : List String)
    (needsMoreFetch : Bool) (results : List DataChunk) (resultUuid : HugeIntParts) : Encode :=
  writeObject (Encode.all [
    writeUnlessEmpty 1 resultTypes (writeList (resultTypes.map encodeLogicalType)),
    writeUnlessEmpty 2 resultNames (writeList (resultNames.map writeString)),
    if needsMoreFetch then writeField 3 (writeBool true) else .ok [],
    writeUnlessEmpty 4 results (writeChunkPointerList layout prims results),
    writeField 5 (writeHugeIntParts resultUuid)])

def encodeErrorResponse (message : String) : Encode :=
  writeObject (Encode.all [writeOptionalString 1 (some message)])

def encodeBodyV1 : QuackMessage → Encode
  | .connectionRequest _ authString clientDuckdbVersion clientPlatform minSupportedQuackVersion
      maxSupportedQuackVersion _ _ =>
    writeObject (Encode.all [
      writeOptionalString 1 authString,
      writeOptionalString 2 clientDuckdbVersion,
      writeOptionalString 3 clientPlatform,
      writeOptionalIndexDefaultZero 4 minSupportedQuackVersion,
      writeOptionalIndexDefaultZero 5 maxSupportedQuackVersion])
  | .connectionResponse _ serverDuckdbVersion serverPlatform quackVersion _ =>
    writeObject (Encode.all [
      writeOptionalString 1 serverDuckdbVersion,
      writeOptionalString 2 serverPlatform,
      writeOptionalIndex 3 quackVersion])
  | .prepareRequest _ sql _ _ => writeObject (Encode.all [writeOptionalString 1 (some sql)])
  | .prepareResponse _ resultTypes resultNames needsMoreFetch results resultUuid =>
    encodePrepareResponse layout prims resultTypes resultNames needsMoreFetch results resultUuid
  | .fetchRequest _ resultUuid _ _ =>
    writeObject (Encode.all [writeField 1 (writeHugeIntParts resultUuid)])
  | .fetchResponse _ results _ batchIndex =>
    writeObject (Encode.all [
      writeUnlessEmpty 1 results (writeChunkPointerList layout prims results),
      writeField 2 (writeUleb (batchIndex.getD optionalIndexInvalid).toNat)])
  | .appendRequest _ schemaName tableName appendChunk =>
    writeObject (Encode.all [
      writeOptionalString 1 schemaName,
      writeOptionalString 2 (some tableName),
      writeField 3 (writeNullable (some (encodeDataChunkWrapper layout prims appendChunk)))])
  | .heartbeatRequest _ =>
    .err (.protocol "HEARTBEAT_REQUEST is not supported by Quack protocol v1")
  | .successResponse _ | .disconnect _ => writeObject (Encode.all [])
  | .errorResponse _ message => encodeErrorResponse message

def encodeBodyV3 : QuackMessage → Encode
  | .connectionRequest _ authString clientDuckdbVersion clientPlatform minSupportedQuackVersion
      maxSupportedQuackVersion clientId heartbeatTimeoutSeconds =>
    writeObject (Encode.all [
      writeOptionalString 1 authString,
      writeOptionalString 2 clientDuckdbVersion,
      writeOptionalString 3 clientPlatform,
      writeOptionalIndexDefaultZero 4 minSupportedQuackVersion,
      writeOptionalIndexDefaultZero 5 maxSupportedQuackVersion,
      writeOptionalString 6 clientId,
      writeOptionalIndexDefaultZero 7 heartbeatTimeoutSeconds])
  | .connectionResponse _ serverDuckdbVersion serverPlatform quackVersion heartbeatTimeoutSeconds =>
    writeObject (Encode.all [
      writeOptionalString 1 serverDuckdbVersion,
      writeOptionalString 2 serverPlatform,
      writeOptionalIndex 3 quackVersion,
      writeOptionalIndex 4 heartbeatTimeoutSeconds])
  | .prepareRequest _ sql queryUuid inlineRows =>
    match queryUuid with
    | some queryUuid =>
      writeObject (Encode.all [
        writeOptionalString 1 (some sql),
        writeField 2 (writeHugeIntParts queryUuid),
        writeOptionalIndex 3 inlineRows])
    | none => .err (.protocol "protocol v3 PREPARE_REQUEST requires query_uuid")
  | .prepareResponse _ resultTypes resultNames needsMoreFetch results resultUuid =>
    encodePrepareResponse layout prims resultTypes resultNames needsMoreFetch results resultUuid
  | .fetchRequest _ resultUuid batchIndex ackIndex =>
    match batchIndex with
    | some batchIndex =>
      writeObject (Encode.all [
        writeField 1 (writeHugeIntParts resultUuid),
        writeOptionalIndexDefaultZero 2 batchIndex,
        writeOptionalIndexDefaultZero 3 (ackIndex.getD 0)])
    | none => .err (.protocol "protocol v3 FETCH_REQUEST requires batch_index")
  | .fetchResponse _ results totalBatches batchIndex =>
    writeObject (Encode.all [
      writeOptionalIndexDefaultZero 1 (BitVec.ofNat 64 results.length),
      writeOptionalIndex 2 totalBatches,
      writeOptionalIndex 3 batchIndex]) ++
    Encode.all (results.map (encodeDataChunk layout prims))
  | .appendRequest .. =>
    .err (.protocol "APPEND_REQUEST is not supported by Quack protocol v3")
  | .successResponse _ | .disconnect _ | .heartbeatRequest _ => writeObject (Encode.all [])
  | .errorResponse _ message => encodeErrorResponse message

def encodeMessageForVersion (message : QuackMessage) (quackVersion : U64) : Encode :=
  encodeHeader message.header ++
    if quackVersion = quackV1 then encodeBodyV1 layout prims message
    else if quackVersion = quackV3 then encodeBodyV3 layout prims message
    else .err (.protocol s!"unsupported Quack protocol version {quackVersion.toNat}")

end

def decodeHeader : Decoder MessageHeader := readObject do
  let code ← readRequiredField 1 readUlebU64
  let messageType ← ofResult (MessageType.tryFrom code)
  let connectionId ← readOptionalString 2
  let clientQueryIdRaw ← readRequiredField 3 readUlebU64
  pure ⟨messageType, connectionId.filter fun value => value ≠ "",
    if clientQueryIdRaw ≠ optionalIndexInvalid then some clientQueryIdRaw else none⟩

def readChunkPointerList : Decoder (List DataChunk) :=
  readList .dataChunk fun _ => do
    let chunk ← readNullable decodeDataChunkWrapper
    match chunk with
    | some chunk => pure chunk
    | none => protocolError "encountered null DataChunk pointer in result list"

/-- A text that is left out where it is empty. -/
def readText (fieldId : Nat) : Decoder String := readOptionalField fieldId readString ""

def decodePrepareResponse (header : MessageHeader) : Decoder QuackMessage := readObject do
  let resultTypes ← readOptionalField 1 (readList .logicalType fun _ => decodeLogicalType) []
  let resultNames ← readOptionalField 2 (readList .string fun _ => readString) []
  let needsMoreFetch ← readOptionalField 3 readBool false
  let results ← readOptionalField 4 readChunkPointerList []
  let resultUuid ← readRequiredField 5 readHugeIntParts
  pure (.prepareResponse header resultTypes resultNames needsMoreFetch results resultUuid)

def decodeErrorResponse (header : MessageHeader) : Decoder QuackMessage := readObject do
  let message ← readText 1
  pure (.errorResponse header message)

def decodeBodyV1 (header : MessageHeader) : Decoder QuackMessage :=
  match header.messageType with
  | .connectionRequest => readObject do
    let authString ← readOptionalString 1
    let clientDuckdbVersion ← readOptionalString 2
    let clientPlatform ← readOptionalString 3
    let minSupportedQuackVersion ← readOptionalField 4 readUlebU64 0
    let maxSupportedQuackVersion ← readOptionalField 5 readUlebU64 0
    pure (.connectionRequest header authString clientDuckdbVersion clientPlatform
      minSupportedQuackVersion maxSupportedQuackVersion none 0)
  | .connectionResponse => readObject do
    let serverDuckdbVersion ← readOptionalString 1
    let serverPlatform ← readOptionalString 2
    let quackVersion ← readOptionalField 3 readSomeIndex none
    pure (.connectionResponse header serverDuckdbVersion serverPlatform quackVersion none)
  | .prepareRequest => readObject do
    let sql ← readText 1
    pure (.prepareRequest header sql none none)
  | .prepareResponse => decodePrepareResponse header
  | .fetchRequest => readObject do
    let resultUuid ← readRequiredField 1 readHugeIntParts
    pure (.fetchRequest header resultUuid none none)
  | .fetchResponse => readObject do
    let results ← readOptionalField 1 readChunkPointerList []
    let batchIndex ← readRequiredField 2 readUlebU64
    pure (.fetchResponse header results none
      (if batchIndex ≠ optionalIndexInvalid then some batchIndex else none))
  | .sendDataRequest => readObject do
    let schemaName ← readOptionalString 1
    let tableName ← readText 2
    let appendChunk ← readOptionalField 3 (readNullable decodeDataChunkWrapper) none
    match appendChunk with
    | some appendChunk => pure (.appendRequest header schemaName tableName appendChunk)
    | none => protocolError "APPEND_REQUEST is missing append_chunk"
  | .successResponse => readObject (pure (.successResponse header))
  | .disconnectMessage => readObject (pure (.disconnect header))
  | .errorResponse => decodeErrorResponse header
  | other => protocolError s!"cannot decode unsupported protocol-v1 message type {other.debug}"

def decodeBodyV3 (header : MessageHeader) : Decoder QuackMessage :=
  match header.messageType with
  | .connectionRequest => readObject do
    let authString ← readOptionalString 1
    let clientDuckdbVersion ← readOptionalString 2
    let clientPlatform ← readOptionalString 3
    let minSupportedQuackVersion ← readOptionalField 4 readUlebU64 0
    let maxSupportedQuackVersion ← readOptionalField 5 readUlebU64 0
    let clientId ← readOptionalString 6
    let heartbeatTimeoutSeconds ← readOptionalField 7 readUlebU64 0
    pure (.connectionRequest header authString clientDuckdbVersion clientPlatform
      minSupportedQuackVersion maxSupportedQuackVersion clientId heartbeatTimeoutSeconds)
  | .connectionResponse => readObject do
    let serverDuckdbVersion ← readOptionalString 1
    let serverPlatform ← readOptionalString 2
    let quackVersion ← readOptionalField 3 readSomeIndex none
    let heartbeatTimeoutSeconds ← readOptionalField 4 readSomeIndex none
    pure (.connectionResponse header serverDuckdbVersion serverPlatform quackVersion
      heartbeatTimeoutSeconds)
  | .prepareRequest => readObject do
    let sql ← readText 1
    let queryUuid ← readRequiredField 2 readHugeIntParts
    let inlineRows ← readOptionalIndex 3
    pure (.prepareRequest header sql (some queryUuid) inlineRows)
  | .prepareResponse => decodePrepareResponse header
  | .fetchRequest => readObject do
    let resultUuid ← readRequiredField 1 readHugeIntParts
    let batchIndex ← readOptionalIndex 2
    let ackIndex ← readOptionalField 3 readUlebU64 0
    pure (.fetchRequest header resultUuid batchIndex (some ackIndex))
  | .fetchResponse => do
    let (chunkCount, totalBatches, batchIndex) ← readObject do
      let chunkCount ← readOptionalField 1 readUlebU64 0
      let totalBatches ← readOptionalIndex 2
      let batchIndex ← readOptionalIndex 3
      pure (chunkCount, totalBatches, batchIndex)
    -- A `u64` always fits the 64 bits of a `usize`.
    withCapacity .dataChunk (min chunkCount.toNat 1024)
    let results ← collect (fun _ => decodeDataChunk) 0 chunkCount.toNat
    pure (.fetchResponse header results totalBatches batchIndex)
  | .successResponse => readObject (pure (.successResponse header))
  | .disconnectMessage => readObject (pure (.disconnect header))
  | .heartbeatRequest => readObject (pure (.heartbeatRequest header))
  | .errorResponse => decodeErrorResponse header
  | other => protocolError s!"cannot decode unsupported message type {other.debug}"

def decodeBody (quackVersion : U64) (header : MessageHeader) : Decoder QuackMessage :=
  if quackVersion = quackV1 then decodeBodyV1 header
  else if quackVersion = quackV3 then decodeBodyV3 header
  else protocolError s!"unsupported Quack protocol version {quackVersion.toNat}"

/-- The whole message, with nothing after it. -/
def decodeMessage (quackVersion : U64) : Decoder QuackMessage := do
  let header ← decodeHeader
  let message ← decodeBody quackVersion header
  assertEof
  pure message

def decodeMessageForVersion (layout : Layout) (bytes : Bytes) (quackVersion : U64) :
    Outcome QuackError QuackMessage := do
  let (message, _) ← (decodeMessage quackVersion).run layout ⟨bytes, 0⟩
  pure message

end QuackProtocol
