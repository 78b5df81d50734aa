import QuackProtocol.DecodingRules
import QuackProtocol.Varint

/-! The binary reader and writer (`binary.rs`), with the errors and constants they use. A writer
action is its outcome, the bytes it appends if it succeeds; a reader action is a decoder. Arithmetic
is that of a build with overflow checks, so an overflow is a panic; memory itself is unbounded, and
only an explicit reservation of more than `isize::MAX` bytes fails. A `usize` is a natural number,
the fixed-width integers are bit vectors (a signed one is read with `toInt`), and `f32` and `f64`
are their bit patterns. -/

open Decoding Varint

namespace QuackProtocol

abbrev Bytes := List UInt8
abbrev I8 := BitVec 8
abbrev U16 := BitVec 16
abbrev I16 := BitVec 16
abbrev U32 := BitVec 32
abbrev I32 := BitVec 32
abbrev U64 := BitVec 64
abbrev I64 := BitVec 64
abbrev U128 := BitVec 128
abbrev I128 := BitVec 128
abbrev F32 := BitVec 32
abbrev F64 := BitVec 64

inductive QuackError where
  | protocol (message : String)
  | server (message : String)
  | unsupportedType (message : String)
  | http
  | url
  | utf8
  deriving DecidableEq

abbrev Result (α : Type) := Except QuackError α

def quackV1 : U64 := 1
def quackV3 : U64 := 3
def fieldEnd : Nat := 0xffff
def optionalIndexInvalid : U64 := BitVec.allOnes 64

def utf8Bytes (text : String) : Bytes := text.toUTF8.data.toList

/-- `String::from_utf8`. -/
def fromUtf8 (bytes : Bytes) : Result String :=
  match String.fromUTF8? ⟨bytes.toArray⟩ with
  | some text => .ok text
  | none => .error .utf8

/-- The UTF-8 encoding, undone. -/
@[simp] theorem fromUtf8_utf8Bytes (text : String) : fromUtf8 (utf8Bytes text) = .ok text := by
  have hbytes : (⟨(utf8Bytes text).toArray⟩ : ByteArray) = text.toByteArray := by
    simp [utf8Bytes]
  rw [fromUtf8, hbytes, String.fromUTF8?, dif_pos text.isValidUTF8]
  rfl

structure HugeIntParts where
  upper : I64
  lower : U64
  deriving DecidableEq

def splitSignedHugeInt (value : I128) : HugeIntParts where
  upper := (value.sshiftRight 64).setWidth 64
  lower := value.setWidth 64

def combineSignedHugeInt (parts : HugeIntParts) : I128 :=
  (parts.upper.signExtend 128 <<< 64) ||| parts.lower.setWidth 128

def combineUnsignedHugeInt (parts : HugeIntParts) : U128 :=
  (parts.upper.setWidth 128 <<< 64) ||| parts.lower.setWidth 128

def hexDigit (digit : Nat) : Char :=
  if digit < 10 then Char.ofNat (48 + digit) else Char.ofNat (87 + digit)

/-- `{:0width$x}`, for a number that fits the width. -/
def paddedHex : Nat → Nat → List Char
  | 0, _ => []
  | width + 1, v => paddedHex width (v / 16) ++ [hexDigit (v % 16)]

/-- The UUID text of a HUGEINT: the most significant bit is stored flipped. -/
def HugeIntParts.display (parts : HugeIntParts) : String :=
  let upper := (parts.upper ^^^ ((1 : I64) <<< 63)).toNat
  let lower := parts.lower.toNat
  String.ofList (paddedHex 8 (upper >>> 32) ++ ['-'] ++ paddedHex 4 ((upper >>> 16) % 2 ^ 16) ++
    ['-'] ++ paddedHex 4 (upper % 2 ^ 16) ++ ['-'] ++ paddedHex 4 (lower >>> 48) ++ ['-'] ++
    paddedHex 12 (lower % 2 ^ 48))

abbrev Encode := Outcome QuackError Bytes

def Encode.append (first second : Encode) : Encode := do
  let front ← first
  let back ← second
  pure (front ++ back)

instance : Append Encode := ⟨Encode.append⟩

/-- The actions of a list, one after the other. -/
def Encode.all : List Encode → Encode
  | [] => .ok []
  | action :: actions => action ++ Encode.all actions

def writeFieldId (fieldId : Nat) : Encode := .ok (toLe 2 fieldId)

def writeObject (write : Encode) : Encode := write ++ writeFieldId fieldEnd

def writeField (fieldId : Nat) (write : Encode) : Encode := writeFieldId fieldId ++ write

def writeByte (value : UInt8) : Encode := .ok [value]

def writeBytes (value : Bytes) : Encode := .ok value

def writeBool (value : Bool) : Encode := writeByte (if value then 1 else 0)

def writeUleb (value : Nat) : Encode := .ok (uleb value)

def writeSleb (value : Int) : Encode := .ok (sleb value)

def writeStringBytes (value : Bytes) : Encode := writeUleb value.length ++ writeBytes value

def writeString (value : String) : Encode := writeStringBytes (utf8Bytes value)

def writeBlob (value : Bytes) : Encode := writeUleb value.length ++ writeBytes value

/-- The elements are given by their actions. -/
def writeList (elements : List Encode) : Encode := writeUleb elements.length ++ Encode.all elements

def writeNullable (value : Option Encode) : Encode :=
  match value with
  | some write => writeBool true ++ write
  | none => writeBool false

def writeHugeIntParts (value : HugeIntParts) : Encode :=
  writeSleb value.upper.toInt ++ writeUleb value.lower.toNat

def writeFixedI8 (value : I8) : Encode := .ok (toLe 1 value.toNat)
def writeFixedU8 (value : BitVec 8) : Encode := .ok (toLe 1 value.toNat)
def writeFixedI16 (value : I16) : Encode := .ok (toLe 2 value.toNat)
def writeFixedU16 (value : U16) : Encode := .ok (toLe 2 value.toNat)
def writeFixedI32 (value : I32) : Encode := .ok (toLe 4 value.toNat)
def writeFixedU32 (value : U32) : Encode := .ok (toLe 4 value.toNat)
def writeFixedI64 (value : I64) : Encode := .ok (toLe 8 value.toNat)
def writeFixedU64 (value : U64) : Encode := .ok (toLe 8 value.toNat)
def writeFixedF32 (value : F32) : Encode := .ok (toLe 4 value.toNat)
def writeFixedF64 (value : F64) : Encode := .ok (toLe 8 value.toNat)

/-- The types a decoder allocates vectors of. -/
inductive Element where
  | bool
  | usize
  | string
  | blob
  | logicalType
  | childType
  | listEntry
  | value
  | decodedVector
  | dataChunk
  deriving DecidableEq

/-- The sizes of the element types, which the language leaves to the compiler. A value has room for
a 128-bit integer, a byte vector and two indices. -/
structure Layout where
  sizeOf : Element → Nat
  sixteen_le_value : 16 ≤ sizeOf .value
  le_value : ∀ element ∈ [Element.bool, .usize, .blob, .listEntry], sizeOf element ≤ sizeOf .value

/-- One possible layout. -/
def Layout.words : Layout := ⟨fun _ => 32, by decide, by decide⟩

/-- The functions of the decoder that call themselves on a part of their input. -/
inductive Recursive where
  | logicalType
  | vector
  deriving DecidableEq

/-- What a decoder enters in its trace: each quantity taken from the wire, at the step that depends
on it, for every vector the row count asked for and the number of values it got, and where the calls
that nest begin and end. -/
inductive Event where
  /-- A byte string of a declared length, from the given offset. -/
  | bytes (offset length : Nat)
  | reserve (element : Element) (count : Nat)
  | product (left right : Nat)
  /-- The sign of a signed LEB128 number is extended from this bit. -/
  | signExtension (shift : Nat)
  | sequence (start increment : I128) (index : Nat)
  /-- A string of a VARCHAR vector, under a validity mask of the given length if there is one. -/
  | stringRow (mask : Option Nat) (index : Nat)
  | entryEnd (offset length : Nat)
  /-- A list entry, over a child vector of the given length. -/
  | entry (values offset length : Nat)
  | arrayRow (values arraySize row : Nat)
  /-- A flat VARCHAR vector: the row count asked for and the number of strings declared. -/
  | strings (count declared : Nat)
  | vector (count values : Nat)
  | enter (callee : Recursive)
  | leave
  deriving DecidableEq

/-- The range of an `i128`. -/
def InI128 (v : Int) : Prop := -2 ^ 127 ≤ v ∧ v < 2 ^ 127

instance (v : Int) : Decidable (InI128 v) := inferInstanceAs (Decidable (_ ∧ _))

namespace Event

def Sound (layout : Layout) : Event → Prop
  | bytes offset length => offset + length < usizeLimit
  | reserve element count => count * layout.sizeOf element ≤ isizeMax
  | product left right => left * right < usizeLimit
  | signExtension shift => shift < 128
  | sequence start increment index =>
      InI128 (increment.toInt * index) ∧ InI128 (start.toInt + increment.toInt * index)
  | stringRow mask index => ∀ length ∈ mask, index < length
  | entryEnd offset length => offset + length < usizeLimit
  | entry values offset length => offset + length ≤ values
  | arrayRow values arraySize row => row * arraySize + arraySize ≤ values
  | strings _ _ => True
  | vector _ _ => True
  | enter _ => True
  | leave => True

instance (layout : Layout) (event : Event) : Decidable (event.Sound layout) := by
  cases event <;> unfold Sound <;> infer_instance

/-- The panic of an unsound entry. -/
def cause : Event → Panic
  | reserve _ _ => .capacity
  | stringRow _ _ => .bounds
  | entry _ _ _ => .bounds
  | arrayRow _ _ _ => .bounds
  | _ => .overflow

end Event

instance : Audit Layout Event := ⟨Event.Sound, Event.cause⟩

abbrev Decoder (α : Type) := Decode Layout Event QuackError α

/-! ### The reader -/

open Decode

/-- A call that can nest. -/
def recursive {α : Type} (callee : Recursive) (body : Decoder α) : Decoder α := nested (.enter callee) .leave body

def protocolError {α : Type} (message : String) : Decoder α := throw (.protocol message)

/-- `Vec::with_capacity`, and any other exact allocation. -/
def withCapacity (element : Element) (count : Nat) : Decoder Unit := do
  let layout ← ask
  audit (.reserve element count) (reserve (count * layout.sizeOf element))

def ensure (length : Nat) : Decoder Unit := do
  let reader ← cursor
  let stop ← usizeAdd reader.offset length
  if reader.bytes.length < stop then
    protocolError s!"unexpected end of input at offset {reader.offset}; needed {length} byte(s), have {reader.remaining}"
  else
    pure ()

def assertEof : Decoder Unit := do
  let reader ← cursor
  if reader.remaining = 0 then
    pure ()
  else
    protocolError s!"unexpected trailing bytes at offset {reader.offset}"

/-- The two bytes at the cursor, as a little-endian number. -/
def peekFieldId : Decoder Nat := do
  ensure 2
  let reader ← cursor
  let low ← index reader.bytes reader.offset
  let high ← index reader.bytes (← usizeAdd reader.offset 1)
  pure (ofLe [low, high])

def readFieldId : Decoder Nat := do
  let value ← peekFieldId
  let reader ← cursor
  setOffset (← usizeAdd reader.offset 2)
  pure value

def readEndObject : Decoder Unit := do
  let fieldId ← readFieldId
  if fieldId = fieldEnd then
    pure ()
  else do
    let reader ← cursor
    protocolError s!"expected end of object at offset {reader.offset - 2}, got field {fieldId}"

section
variable {α : Type}

def readObject (read : Decoder α) : Decoder α := do
  let result ← read
  readEndObject
  pure result

def readRequiredField (fieldId : Nat) (read : Decoder α) : Decoder α := do
  let actual ← readFieldId
  if actual = fieldId then
    read
  else do
    let reader ← cursor
    protocolError s!"expected field {fieldId} at offset {reader.offset - 2}, got {actual}"

def readOptionalField (fieldId : Nat) (read : Decoder α) (defaultValue : α) : Decoder α := do
  let actual ← peekFieldId
  if actual = fieldId then do
    let _ ← readFieldId
    read
  else
    pure defaultValue

end

def readByte : Decoder UInt8 := do
  ensure 1
  let reader ← cursor
  let value ← index reader.bytes reader.offset
  setOffset (← usizeAdd reader.offset 1)
  pure value

/-- A byte string whose length was read from the wire. -/
def readBytes (length : Nat) : Decoder Bytes := do
  let reader ← cursor
  audit (.bytes reader.offset length) (ensure length)
  let stop ← usizeAdd reader.offset length
  setOffset stop
  slice reader.bytes reader.offset stop

def readBool : Decoder Bool := do
  let value ← readByte
  if value = 0 then
    pure false
  else if value = 1 then
    pure true
  else
    protocolError s!"invalid boolean byte {value.toNat}"

/-- `value << shift` on a 128-bit integer. -/
def shiftLeft128 (value : BitVec 128) (shift : Nat) : Decoder (BitVec 128) := do
  check (shift < 128) .overflow
  pure (value <<< shift)

/-- The loop of `read_uleb_u128`, with the passes left. -/
def readUlebLoop : Nat → U128 → Nat → Decoder U128
  | 0, _, _ => protocolError "unsigned LEB128 value is too long"
  | passes + 1, result, shift => do
    let byte ← readByte
    let group ← shiftLeft128 (BitVec.ofNat 128 (byte &&& 0x7f).toNat) shift
    if byte &&& 0x80 = 0 then
      pure (result ||| group)
    else
      readUlebLoop passes (result ||| group) (shift + 7)

def readUlebU128 : Decoder U128 := readUlebLoop 19 0 0

def readUlebU64 : Decoder U64 := do
  let value ← readUlebU128
  if value.toNat < 2 ^ 64 then
    pure (BitVec.ofNat 64 value.toNat)
  else
    protocolError "unsigned LEB128 value exceeds u64"

def readUlebUsize : Decoder Nat := do
  let value ← readUlebU128
  if value.toNat < usizeLimit then
    pure value.toNat
  else
    protocolError "unsigned LEB128 value exceeds usize"

/-- The loop of `read_sleb_i128`. The sign is extended by `-1 << shift`, for which the last shift
can be too large. -/
def readSlebLoop : Nat → I128 → Nat → Decoder I128
  | 0, _, _ => protocolError "signed LEB128 value is too long"
  | passes + 1, result, shift => do
    let byte ← readByte
    let group ← shiftLeft128 (BitVec.ofNat 128 (byte &&& 0x7f).toNat) shift
    if byte &&& 0x80 = 0 then
      if byte &&& 0x40 = 0 then
        pure (result ||| group)
      else do
        let sign ← audit (.signExtension (shift + 7)) (shiftLeft128 (BitVec.allOnes 128) (shift + 7))
        pure (result ||| group ||| sign)
    else
      readSlebLoop passes (result ||| group) (shift + 7)

def readSlebI128 : Decoder I128 := readSlebLoop 19 0 0

def readSlebI64 : Decoder I64 := do
  let value ← readSlebI128
  if -2 ^ 63 ≤ value.toInt ∧ value.toInt < 2 ^ 63 then
    pure (BitVec.ofInt 64 value.toInt)
  else
    protocolError "signed LEB128 value exceeds i64"

def readStringBytes : Decoder Bytes := do
  let length ← readUlebUsize
  readBytes length

def readString : Decoder String := do
  let bytes ← readStringBytes
  ofResult (fromUtf8 bytes)

def readBlob : Decoder Bytes := do
  let length ← readUlebUsize
  readBytes length

section
variable {α : Type}

def readList (element : Element) (readElement : Nat → Decoder α) : Decoder (List α) := do
  let length ← readUlebUsize
  withCapacity element length
  collect readElement 0 length

def readNullable (readValue : Decoder α) : Decoder (Option α) := do
  let present ← readBool
  if present then do
    let value ← readValue
    pure (some value)
  else
    pure none

end

def readHugeIntParts : Decoder HugeIntParts := do
  let upper ← readSlebI64
  let lower ← readUlebU64
  pure ⟨upper, lower⟩

def readArray (size : Nat) : Decoder Bytes := do
  ensure size
  let reader ← cursor
  let stop ← usizeAdd reader.offset size
  setOffset stop
  slice reader.bytes reader.offset stop

/-- A little-endian word of `size` bytes. -/
def readFixed (size : Nat) : Decoder (BitVec (8 * size)) := do
  let bytes ← readArray size
  pure (BitVec.ofNat (8 * size) (ofLe bytes))

def readFixedI8 : Decoder I8 := readFixed 1
def readFixedU8 : Decoder (BitVec 8) := readFixed 1
def readFixedI16 : Decoder I16 := readFixed 2
def readFixedU16 : Decoder U16 := readFixed 2
def readFixedI32 : Decoder I32 := readFixed 4
def readFixedU32 : Decoder U32 := readFixed 4
def readFixedI64 : Decoder I64 := readFixed 8
def readFixedU64 : Decoder U64 := readFixed 8
def readFixedF32 : Decoder F32 := readFixed 4
def readFixedF64 : Decoder F64 := readFixed 8

end QuackProtocol
