import QuackProtocol.LogicalTypes

/-! Values and their conversions (`vector.rs`). An `IndexMap` is the list of its entries in order; two
rows are compared as the library compares them, by key. -/

open Decoding

namespace QuackProtocol

inductive TimeUnit where
  | micros
  | nanos
  deriving DecidableEq

inductive TimestampUnit where
  | seconds
  | millis
  | micros
  | nanos
  deriving DecidableEq

structure DecimalValue where
  value : I128
  width : U64
  scale : U64
  deriving DecidableEq

structure DateValue where
  days : I32
  deriving DecidableEq

structure TimeValue where
  unit : TimeUnit
  value : I64
  deriving DecidableEq

structure TimeTzValue where
  bits : I64
  deriving DecidableEq

structure TimestampValue where
  unit : TimestampUnit
  value : I64
  timezoneUtc : Bool
  deriving DecidableEq

structure IntervalValue where
  months : I32
  days : I32
  micros : I64
  deriving DecidableEq

inductive Value where
  | null
  | bool (value : Bool)
  | int (value : I64)
  | uint (value : U64)
  | hugeInt (value : I128)
  | uhugeInt (value : U128)
  | float (value : F32)
  | double (value : F64)
  | string (value : String)
  | bytes (value : Bytes)
  | decimal (value : DecimalValue)
  | date (value : DateValue)
  | time (value : TimeValue)
  | timeTz (value : TimeTzValue)
  | timestamp (value : TimestampValue)
  | interval (value : IntervalValue)
  | list (items : List Value)
  | struct (row : List (String × Value))

namespace Value

def isNull : Value → Bool
  | null => true
  | _ => false

/-- `matches!(value, Value::Bool(true))`. -/
def isTrue : Value → Bool
  | bool true => true
  | _ => false

@[simp] theorem isNull_null : null.isNull = true := rfl

theorem isNull_eq_false {value : Value} (h : value ≠ null) : value.isNull = false := by
  cases value <;> first | rfl | exact absurd rfl h

end Value

abbrev Row := List (String × Value)

namespace Row

/-- `IndexMap::get`. -/
def get (row : Row) (name : String) : Option Value :=
  match row with
  | [] => none
  | (key, value) :: rest => if key = name then some value else get rest name

/-- `IndexMap::insert`: the entry of a known key keeps its place. -/
def insert (row : Row) (name : String) (value : Value) : Row :=
  match row with
  | [] => [(name, value)]
  | (key, old) :: rest =>
    if key = name then (key, value) :: rest else (key, old) :: insert rest name value

end Row

/-- The primitives of the language that the codec passes floating-point numbers and texts through:
conversions, parsing and display of floats, lossy decoding of UTF-8, and debug texts. -/
structure Primitives where
  f32ToF64 : F32 → F64
  f64ToF32 : F64 → F32
  i64ToF64 : I64 → F64
  u64ToF64 : U64 → F64
  parseF64 : String → Option F64
  displayF32 : F32 → String
  displayF64 : F64 → String
  fromUtf8Lossy : Bytes → String
  debug : Value → String

/-- Primitives that will do where no float is converted or displayed. -/
def Primitives.floatless : Primitives where
  f32ToF64 bits := bits.setWidth 64
  f64ToF32 bits := bits.setWidth 32
  i64ToF64 _ := 0
  u64ToF64 _ := 0
  parseF64 _ := none
  displayF32 _ := ""
  displayF64 _ := ""
  fromUtf8Lossy _ := ""
  debug _ := ""

def parseDigits (digits : List Char) : Option Nat :=
  if digits ≠ [] ∧ digits.all Char.isDigit then
    some (digits.foldl (fun n digit => 10 * n + (digit.toNat - 48)) 0)
  else
    none

/-- The sign of a number and its digits. -/
def splitSign : List Char → Bool × List Char
  | '-' :: digits => (true, digits)
  | '+' :: digits => (false, digits)
  | digits => (false, digits)

/-- `str::parse::<i128>`. -/
def parseI128 (text : List Char) : Option I128 := do
  let (negative, digits) := splitSign text
  let magnitude ← parseDigits digits
  let value : Int := if negative then -magnitude else magnitude
  if InI128 value then some (BitVec.ofInt 128 value) else none

/-- `str::parse::<u128>`. -/
def parseU128 (text : List Char) : Option U128 := do
  let digits := match text with
    | '+' :: digits => digits
    | digits => digits
  let value ← parseDigits digits
  if value < 2 ^ 128 then some (BitVec.ofNat 128 value) else none

/-- `char::is_whitespace`. -/
def isWhitespace (c : Char) : Bool :=
  let n := c.toNat
  (9 ≤ n ∧ n ≤ 13) ∨ n = 0x20 ∨ n = 0x85 ∨ n = 0xa0 ∨ n = 0x1680 ∨ (0x2000 ≤ n ∧ n ≤ 0x200a) ∨
    n = 0x2028 ∨ n = 0x2029 ∨ n = 0x202f ∨ n = 0x205f ∨ n = 0x3000

/-- `str::trim`. -/
def trim (text : List Char) : List Char :=
  ((text.dropWhile isWhitespace).reverse.dropWhile isWhitespace).reverse

def utf8Length (text : List Char) : Nat := (text.map Char.utf8Size).sum

/-- `String::truncate`, which panics inside a character. -/
def truncate : List Char → Nat → Outcome QuackError (List Char)
  | [], _ => pure []
  | _, 0 => pure []
  | c :: text, length => do
    Outcome.check (c.utf8Size ≤ length) .bounds
    let front ← truncate text (length - c.utf8Size)
    pure (c :: front)

/-- `str::split_once('.')`, with an empty second half where there is no point. -/
def splitPoint (text : List Char) : List Char × List Char :=
  (text.takeWhile fun c => c ≠ '.', (text.dropWhile fun c => c ≠ '.').tail)

/-- The negation of an `i128`. -/
def negateI128 (value : I128) : Outcome QuackError I128 := do
  Outcome.check (InI128 (-value.toInt)) .overflow
  pure (-value)

def decimalFromUnscaled (T : LogicalType) (value : I128) : Result DecimalValue :=
  match T.typeInfo with
  | some (.decimal _ width scale) => .ok ⟨value, width, scale⟩
  | _ => .error (.protocol "DECIMAL value is missing DecimalTypeInfo")

/-- The unscaled integer of a decimal text at a scale. -/
def unscaledOfText (scale : Nat) (text : List Char) : Outcome QuackError (Option I128) := do
  let trimmed := trim text
  let (negative, unsigned) := splitSign trimmed
  let (integer, fraction) := splitPoint unsigned
  let padded ← truncate (fraction ++ List.replicate (scale - utf8Length fraction) '0') scale
  match parseI128 ((if integer = [] then ['0'] else integer) ++ padded) with
  | some unscaled => if negative then some <$> negateI128 unscaled else pure (some unscaled)
  | none => pure none

def parseDecimalString (T : LogicalType) (value : String) : Outcome QuackError I128 := do
  match T.typeInfo with
  | some (.decimal _ _ scale) =>
    match ← unscaledOfText scale.toNat value.toList with
    | some unscaled => pure unscaled
    | none => .err (.protocol s!"invalid decimal value {value}")
  | _ => .err (.protocol "DECIMAL value is missing DecimalTypeInfo")

/-- `{}` of a signed integer. -/
def displayInt {w : Nat} (value : BitVec w) : String := toString value.toInt

def decimalToString (decimal : DecimalValue) : Outcome QuackError String := do
  let negative := decimal.value.toInt < 0
  let abs ← if negative then negateI128 decimal.value else pure decimal.value
  let sign := if negative then "-" else ""
  if decimal.scale = 0 then
    pure s!"{sign}{abs.toInt}"
  else do
    -- The largest power of ten in an `i128` is the 38th.
    let exponent := decimal.scale.toNat % 2 ^ 32
    Outcome.check (exponent ≤ 38) .overflow
    let integer := abs.toNat / 10 ^ exponent
    let fraction := toString (abs.toNat % 10 ^ exponent)
    -- The width of a formatted argument is a `u16`.
    Outcome.check (decimal.scale.toNat ≤ 65535) .bounds
    let zeros := String.ofList (List.replicate (decimal.scale.toNat - fraction.length) '0')
    pure s!"{sign}{integer}.{zeros}{fraction}"

/-! ### Conversions -/

section
variable (prims : Primitives)

def valueToI128 : Value → Result I128
  | .bool value => .ok (if value then 1 else 0)
  | .int value => .ok (value.signExtend 128)
  | .uint value => .ok (value.setWidth 128)
  | .hugeInt value => .ok value
  | .uhugeInt value =>
    if value.toNat < 2 ^ 127 then .ok value
    else .error (.protocol "unsigned integer does not fit i128")
  | .string value =>
    match parseI128 value.toList with
    | some number => .ok number
    | none => .error (.protocol s!"cannot convert {value} to integer")
  | value => .error (.protocol s!"cannot convert {prims.debug value} to integer")

def valueToU128 (value : Value) : Result U128 :=
  match value with
  | .bool b => .ok (if b then 1 else 0)
  | .int v => if 0 ≤ v.toInt then .ok (v.setWidth 128) else notUnsigned
  | .uint v => .ok (v.setWidth 128)
  | .hugeInt v => if 0 ≤ v.toInt then .ok v else notUnsigned
  | .uhugeInt v => .ok v
  | .string v =>
    match parseU128 v.toList with
    | some number => .ok number
    | none => .error (.protocol s!"cannot convert {v} to unsigned integer")
  | _ => notUnsigned
where
  notUnsigned : Result U128 :=
    .error (.protocol s!"cannot convert {prims.debug value} to unsigned integer")

def valueToF64 : Value → Result F64
  | .float value => .ok (prims.f32ToF64 value)
  | .double value => .ok value
  | .int value => .ok (prims.i64ToF64 value)
  | .uint value => .ok (prims.u64ToF64 value)
  | .string value =>
    match prims.parseF64 value with
    | some number => .ok number
    | none => .error (.protocol s!"cannot convert {value} to float")
  | value => .error (.protocol s!"cannot convert {prims.debug value} to float")

def decimalToUnscaled (T : LogicalType) : Value → Outcome QuackError I128
  | .decimal value => pure value.value
  | .string value => parseDecimalString T value
  | value => liftM (valueToI128 prims value)

def valueToStringLossy : Value → Outcome QuackError String
  | .null => pure ""
  | .bool value => pure (if value then "true" else "false")
  | .int value => pure (displayInt value)
  | .uint value => pure (toString value.toNat)
  | .hugeInt value => pure (displayInt value)
  | .uhugeInt value => pure (toString value.toNat)
  | .float value => pure (prims.displayF32 value)
  | .double value => pure (prims.displayF64 value)
  | .string value => pure value
  | .bytes value => pure (prims.fromUtf8Lossy value)
  | .decimal value => decimalToString value
  | .date value => pure (displayInt value.days)
  | .time value => pure (displayInt value.value)
  | .timeTz value => pure (displayInt value.bits)
  | .timestamp value => pure (displayInt value.value)
  | .interval value =>
    pure s!"{displayInt value.months} {displayInt value.days} {displayInt value.micros}"
  | .list _ | .struct _ => pure ""

end

def hexValue (c : Char) : Option Nat :=
  if c.isDigit then some (c.toNat - 48)
  else if 'a' ≤ c ∧ c ≤ 'f' then some (c.toNat - 87)
  else none

/-- A number in hexadecimal digits. -/
def ofHex (digits : List Char) : Nat :=
  digits.foldl (fun n digit => 16 * n + (hexValue digit).getD 0) 0

def uuidToHugeIntParts (uuid : String) : Result HugeIntParts :=
  let hex := (uuid.toList.filter fun c => c ≠ '-').map Char.toLower
  if hex.length = 32 ∧ hex.all fun c => (hexValue c).isSome then
    .ok ⟨BitVec.ofNat 64 (ofHex (hex.take 16)) ^^^ ((1 : I64) <<< 63),
      BitVec.ofNat 64 (ofHex (hex.drop 16))⟩
  else
    .error (.protocol s!"invalid UUID string {uuid}")

end QuackProtocol
