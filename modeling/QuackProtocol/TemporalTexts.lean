import QuackProtocol.Values

/-! Dates, times and timestamps in text (`sql.rs` and `json.rs`). What the calendar library prints is given;
the rest is the arithmetic around it. -/

open Decoding

namespace QuackProtocol

/-- What the calendar library prints: a day in the format %Y-%m-%d, and a second in the formats
%Y-%m-%d %H:%M:%S and %Y-%m-%dT%H:%M:%S, both counted from the epoch. -/
structure Calendar where
  date : Int → List Char
  dateTime : Int → List Char
  isoDateTime : Int → List Char

/-- A calendar that will do where no date is printed. -/
def Calendar.blank : Calendar := ⟨fun _ => [], fun _ => [], fun _ => []⟩

/-- The days of the years −262143 to 262142, counted from the epoch. -/
def InCalendar (day : Int) : Prop := -96465292 ≤ day ∧ day ≤ 95026236

instance (day : Int) : Decidable (InCalendar day) := inferInstanceAs (Decidable (_ ∧ _))

/-- `DateTime::from_timestamp`, which knows the seconds of the days in the calendar. -/
def fromTimestamp (seconds : Int) : Option Int :=
  if InCalendar (seconds / 86400) then some seconds else none

/-- A number with zeros in front, up to the given width with its sign. -/
def padded (width : Nat) (number : Int) : List Char :=
  let sign := if number < 0 then ['-'] else []
  let digits := Nat.toDigits 10 number.natAbs
  sign ++ List.replicate (width - sign.length - digits.length) '0' ++ digits

/-- `trim_end_matches('0')`. -/
def trimZeros (text : List Char) : List Char := (text.reverse.dropWhile fun c => c = '0').reverse

/-- The fraction of a second, without the zeros at its end. -/
def fractionText (fraction : Int) : List Char :=
  if fraction = 0 then [] else trimZeros ('.' :: padded 9 fraction)

def timeNanos (value : I64) (unit : TimeUnit) : Int :=
  match unit with
  | .micros => value.toInt * 1000
  | .nanos => value.toInt

/-- Hours, minutes and seconds; the divisions round towards zero. -/
def clockText (totalSeconds : Int) : List Char :=
  padded 2 (totalSeconds.tdiv 3600) ++ ':' :: padded 2 ((totalSeconds.tmod 3600).tdiv 60) ++
    ':' :: padded 2 (totalSeconds.tmod 60)

/-- `format_time`. -/
def formatTime (value : I64) (unit : TimeUnit) : List Char :=
  let nanos := timeNanos value unit
  clockText (nanos.tdiv 1000000000) ++ fractionText (nanos.tmod 1000000000)

/-- `time_to_string`, which takes a time before midnight for the day before. -/
def timeToString (value : I64) (unit : TimeUnit) : List Char :=
  let nanos := timeNanos value unit
  clockText (nanos / 1000000000) ++ fractionText (nanos % 1000000000)

section
variable (calendar : Calendar)

/-- `date_from_days` and `date_to_iso`: the addition of days panics outside the calendar. -/
def dateFromDays (days : I32) : Outcome QuackError (List Char) := do
  Outcome.check (InCalendar days.toInt) .overflow
  pure (calendar.date days.toInt)

/-- A product of `i64`s. -/
def timesI64 (value : I64) (factor : Int) : Outcome QuackError Int := do
  Outcome.check (-2 ^ 63 ≤ value.toInt * factor ∧ value.toInt * factor < 2 ^ 63) .overflow
  pure (value.toInt * factor)

def timestampMicros (value : I64) (unit : TimestampUnit) : Outcome QuackError Int :=
  match unit with
  | .seconds => timesI64 value 1000000
  | .millis => timesI64 value 1000
  | .micros => pure value.toInt
  | .nanos => pure (value.toInt.tdiv 1000)

/-- `format_timestamp`. -/
def formatTimestamp (value : I64) (unit : TimestampUnit) (timezoneUtc : Bool) :
    Outcome QuackError (List Char) := do
  let micros ← timestampMicros value unit
  let seconds := micros / 1000000
  let microFraction := micros % 1000000
  match fromTimestamp seconds with
  | some seconds =>
    pure (calendar.dateTime seconds ++ '.' :: padded 3 (microFraction / 1000) ++
      if timezoneUtc then ['+', '0', '0'] else [])
  | none => .panic .bounds

def timestampNanos (value : I64) (unit : TimestampUnit) : Int :=
  match unit with
  | .seconds => value.toInt * 1000000000
  | .millis => value.toInt * 1000000
  | .micros => value.toInt * 1000
  | .nanos => value.toInt

/-- `timestamp_to_iso`. -/
def timestampToIso (value : I64) (unit : TimestampUnit) : Result (List Char) :=
  let nanos := timestampNanos value unit
  match fromTimestamp (nanos / 1000000000) with
  | some seconds => .ok (calendar.isoDateTime seconds ++ fractionText (nanos % 1000000000) ++ ['Z'])
  | none => .error (.protocol s!"timestamp value {value.toInt} is outside range")

end

end QuackProtocol
