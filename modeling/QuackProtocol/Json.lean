import QuackProtocol.Sql

/-! Values as JSON (`json.rs`). A JSON object is the list of its entries in the order of their keys, as the
library keeps them. -/

open Decoding

namespace QuackProtocol

inductive JsonNumber where
  | posInt (value : U64)
  | negInt (value : I64)
  | float (value : F64)
  deriving DecidableEq

inductive JsonValue where
  | null
  | bool (value : Bool)
  | number (value : JsonNumber)
  | string (value : String)
  | array (values : List JsonValue)
  | object (entries : List (String × JsonValue))

/-- `Map::insert`: a known key has its value replaced, a new one goes to its place. -/
def insertEntry (entries : List (String × JsonValue)) (key : String) (value : JsonValue) :
    List (String × JsonValue) :=
  match entries with
  | [] => [(key, value)]
  | (first, old) :: rest =>
    if key = first then (key, value) :: rest
    else if key < first then (key, value) :: (first, old) :: rest
    else (first, old) :: insertEntry rest key value

/-- `json!` of an object. -/
def JsonValue.ofEntries (entries : List (String × JsonValue)) : JsonValue :=
  .object (entries.foldl (fun found entry => insertEntry found entry.1 entry.2) [])

def JsonNumber.ofInt (value : I64) : JsonNumber :=
  if value.toInt < 0 then .negInt value else .posInt value

/-- `Number::from_f64` and null where there is none. -/
def JsonValue.ofF64 (value : F64) : JsonValue :=
  if F64.isFinite value then .number (.float value) else .null

inductive BigIntJsonMode where
  | string
  | number
  deriving DecidableEq

inductive BytesJsonMode where
  | base64
  | hex
  | array
  deriving DecidableEq

inductive TaggedJsonMode where
  | default
  | tagged
  deriving DecidableEq

structure JsonOptions where
  bigint : BigIntJsonMode
  bytes : BytesJsonMode
  decimal : TaggedJsonMode
  date : TaggedJsonMode
  time : TaggedJsonMode
  timestamp : TaggedJsonMode
  deriving DecidableEq

/-- `JsonOptions::default`. -/
def JsonOptions.standard : JsonOptions where
  bigint := .string
  bytes := .base64
  decimal := .default
  date := .default
  time := .default
  timestamp := .default

/-! ### Conversion -/

def bigintToJson (value : I128) (mode : BigIntJsonMode) : Result JsonValue :=
  match mode with
  | .string => .ok (.string (displayInt value))
  | .number =>
    if -2 ^ 63 ≤ value.toInt ∧ value.toInt < 2 ^ 63 then
      .ok (.number (.ofInt (value.setWidth 64)))
    else
      .error (.protocol s!"bigint value {displayInt value} exceeds JSON number range")

def unsignedBigintToJson (value : U128) (mode : BigIntJsonMode) : Result JsonValue :=
  match mode with
  | .string => .ok (.string (toString value.toNat))
  | .number =>
    if value.toNat < 2 ^ 64 then
      .ok (.number (.posInt (value.setWidth 64)))
    else
      .error (.protocol s!"bigint value {value.toNat} exceeds JSON number range")

/-- What the base64 library encodes is given. -/
def bytesToJson (base64 : Bytes → String) (value : Bytes) (mode : BytesJsonMode) : JsonValue :=
  match mode with
  | .base64 => .string (base64 value)
  | .hex => .string (String.ofList (bytesToHex value))
  | .array => .array (value.map fun byte => .number (.posInt (BitVec.ofNat 64 byte.toNat)))

def TimeUnit.name : TimeUnit → String
  | micros => "micros"
  | nanos => "nanos"

def TimestampUnit.name : TimestampUnit → String
  | seconds => "seconds"
  | millis => "millis"
  | micros => "micros"
  | nanos => "nanos"

section
variable (prims : Primitives) (calendar : Calendar) (base64 : Bytes → String) (options : JsonOptions)

def decimalToJson (value : DecimalValue) : Outcome QuackError JsonValue :=
  match options.decimal with
  | .tagged => pure (.ofEntries [("kind", .string "decimal"), ("value", .string (displayInt value.value)),
      ("width", .number (.posInt value.width)), ("scale", .number (.posInt value.scale))])
  | .default => do
    let text ← decimalToString value
    pure (.string text)

def dateToJson (value : DateValue) : Outcome QuackError JsonValue :=
  match options.date with
  | .tagged => pure (.ofEntries [("kind", .string "date"),
      ("days", .number (.ofInt (value.days.signExtend 64)))])
  | .default => do
    let text ← dateFromDays calendar value.days
    pure (.string (String.ofList text))

def timeToJson (value : TimeValue) : JsonValue :=
  match options.time with
  | .tagged => .ofEntries [("kind", .string "time"), ("unit", .string value.unit.name),
      ("value", .string (displayInt value.value))]
  | .default => .string (String.ofList (timeToString value.value value.unit))

def timestampToJson (value : TimestampValue) : Result JsonValue :=
  match options.timestamp with
  | .tagged =>
    let entries := [("kind", .string "timestamp"), ("unit", .string value.unit.name),
      ("value", .string (displayInt value.value))]
    .ok (.ofEntries (if value.timezoneUtc then entries ++ [("timezone", .string "utc")] else entries))
  | .default => do
    let text ← timestampToIso calendar value.value value.unit
    pure (.string (String.ofList text))

mutual

def toJsonValue : Value → Outcome QuackError JsonValue
  | .null => pure .null
  | .bool value => pure (.bool value)
  | .int value => liftM (bigintToJson (value.signExtend 128) options.bigint)
  | .uint value => liftM (unsignedBigintToJson (value.setWidth 128) options.bigint)
  | .hugeInt value => liftM (bigintToJson value options.bigint)
  | .uhugeInt value => liftM (unsignedBigintToJson value options.bigint)
  | .float value => pure (.ofF64 (prims.f32ToF64 value))
  | .double value => pure (.ofF64 value)
  | .string value => pure (.string value)
  | .bytes value => pure (bytesToJson base64 value options.bytes)
  | .decimal value => decimalToJson options value
  | .date value => dateToJson calendar options value
  | .time value => pure (timeToJson options value)
  | .timeTz value => pure (.ofEntries [("kind", .string "time_tz"), ("bits", .string (displayInt value.bits))])
  | .timestamp value => liftM (timestampToJson calendar options value)
  | .interval value => pure (.ofEntries [("kind", .string "interval"),
      ("months", .number (.ofInt (value.months.signExtend 64))),
      ("days", .number (.ofInt (value.days.signExtend 64))), ("micros", .string (displayInt value.micros))])
  | .list values => do
    let values ← toJsonValues values
    pure (.array values)
  | .struct row => do
    let entries ← toJsonEntries [] row
    pure (.object entries)

def toJsonValues : List Value → Outcome QuackError (List JsonValue)
  | [] => pure []
  | value :: values => do
    let json ← toJsonValue value
    let rest ← toJsonValues values
    pure (json :: rest)

/-- The loop over the fields, with the object so far. -/
def toJsonEntries (object : List (String × JsonValue)) :
    List (String × Value) → Outcome QuackError (List (String × JsonValue))
  | [] => pure object
  | (key, value) :: row => do
    let json ← toJsonValue value
    toJsonEntries (insertEntry object key json) row

end

def toJsonRow (row : Row) : Outcome QuackError JsonValue := do
  let entries ← toJsonEntries prims calendar base64 options [] row
  pure (.object entries)

def toJsonRows : List Row → Outcome QuackError (List JsonValue)
  | [] => pure []
  | row :: rows => do
    let json ← toJsonRow prims calendar base64 options row
    let rest ← toJsonRows rows
    pure (json :: rest)

end

end QuackProtocol
