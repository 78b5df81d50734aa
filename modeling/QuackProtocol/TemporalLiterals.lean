import QuackProtocol.Rendering
import QuackProtocol.SqlLiterals

/-! What the texts of dates, times and timestamps tell. The texts of days and times are exact, in SQL and in
JSON; the SQL literal of a timestamp has its milliseconds only, and two timestamps within one millisecond
have the same literal. -/

open Decoding DecimalDigits

namespace QuackProtocol

/-- What the calendar library prints tells days and seconds apart, and has no fraction in it. -/
structure PrintsDistinct (calendar : Calendar) : Prop where
  date : ∀ {d e}, InCalendar d → InCalendar e → calendar.date d = calendar.date e → d = e
  dateTime : ∀ {s t}, InCalendar (s / 86400) → InCalendar (t / 86400) →
    calendar.dateTime s = calendar.dateTime t → s = t
  isoDateTime : ∀ {s t}, InCalendar (s / 86400) → InCalendar (t / 86400) →
    calendar.isoDateTime s = calendar.isoDateTime t → s = t
  whole : ∀ second, '.' ∉ calendar.isoDateTime second

section
variable {m n : Int} {width : Nat}

theorem padded_eq (h : 0 ≤ n) : padded width n = fractionDigits n.natAbs width := by
  have hsign : (if n < 0 then ['-'] else []) = [] := if_neg (by omega)
  simp only [padded, hsign, List.nil_append, List.length_nil, Nat.sub_zero]
  rfl

theorem padded_injective (hm : 0 ≤ m) (hn : 0 ≤ n) (h : padded width m = padded width n) : m = n := by
  rw [padded_eq hm, padded_eq hn] at h
  have hvalue := congrArg value h
  rw [value_fractionDigits, value_fractionDigits] at hvalue
  omega

theorem length_padded (hwidth : 0 < width) (hn : 0 ≤ n) (hlt : n < 10 ^ width) :
    (padded width n).length = width := by
  rw [padded_eq hn, length_fractionDigits hwidth]
  have hcast : (n.natAbs : Int) < 10 ^ width := by omega
  exact_mod_cast hcast

/-- The zeros that are trimmed. -/
theorem trimZeros_append (text : List Char) :
    ∃ k, text = trimZeros text ++ List.replicate k '0' := by
  refine ⟨(text.reverse.takeWhile fun c => c = '0').length, ?_⟩
  have hzeros : text.reverse.takeWhile (fun c => decide (c = '0')) =
      List.replicate (text.reverse.takeWhile fun c => decide (c = '0')).length '0' :=
    List.eq_replicate_iff.mpr ⟨rfl, fun c hc => by simpa using List.mem_takeWhile_imp hc⟩
  have hsplit := congrArg List.reverse
    (List.takeWhile_append_dropWhile (p := fun c => decide (c = '0')) (l := text.reverse))
  rw [List.reverse_append, List.reverse_reverse] at hsplit
  rw [trimZeros, ← List.reverse_replicate, ← hzeros]
  exact hsplit.symm

theorem trimZeros_injective {front back : List Char} (hlength : front.length = back.length)
    (h : trimZeros front = trimZeros back) : front = back := by
  obtain ⟨k, hfront⟩ := trimZeros_append front
  obtain ⟨l, hback⟩ := trimZeros_append back
  rw [hfront, hback, h, List.length_append, List.length_append, List.length_replicate,
    List.length_replicate] at hlength
  rw [hfront, hback, h, Nat.add_left_cancel hlength]

/-- A text that does not begin with a zero keeps its first character. -/
theorem trimZeros_cons {c : Char} (hc : c ≠ '0') (text : List Char) :
    ∃ rest, trimZeros (c :: text) = c :: rest := by
  obtain ⟨k, h⟩ := trimZeros_append (c :: text)
  cases htrim : trimZeros (c :: text) with
  | nil =>
      rw [htrim, List.nil_append] at h
      exact absurd (List.eq_of_mem_replicate (h ▸ List.mem_cons_self ..)) hc
  | cons d rest =>
      rw [htrim, List.cons_append] at h
      obtain ⟨rfl, -⟩ := List.cons.inj h
      exact ⟨rest, rfl⟩

theorem fractionText_injective (hm : 0 ≤ m ∧ m < 1000000000) (hn : 0 ≤ n ∧ n < 1000000000)
    (h : fractionText m = fractionText n) : m = n := by
  have hpoint : ∀ fraction, ∃ rest, trimZeros ('.' :: padded 9 fraction) = '.' :: rest :=
    fun fraction => trimZeros_cons (by decide) _
  rw [fractionText, fractionText] at h
  by_cases hzero : m = 0
  · by_cases hzero' : n = 0
    · rw [hzero, hzero']
    · rw [if_pos hzero, if_neg hzero'] at h
      obtain ⟨rest, hrest⟩ := hpoint n
      rw [hrest] at h
      cases h
  · by_cases hzero' : n = 0
    · rw [if_neg hzero, if_pos hzero'] at h
      obtain ⟨rest, hrest⟩ := hpoint m
      rw [hrest] at h
      cases h
    · rw [if_neg hzero, if_neg hzero'] at h
      have hlength : ('.' :: padded 9 m).length = ('.' :: padded 9 n).length := by
        rw [List.length_cons, List.length_cons, length_padded (by decide) hm.1 hm.2,
          length_padded (by decide) hn.1 hn.2]
      have hsame := trimZeros_injective hlength h
      exact padded_injective hm.1 hn.1 (List.cons.inj hsame).2

/-- Hours of two digits, minutes and seconds. -/
theorem clockText_eq (h : 0 ≤ n) : clockText n =
    padded 2 (n / 3600) ++ ':' :: padded 2 (n % 3600 / 60) ++ ':' :: padded 2 (n % 60) := by
  rw [clockText, Int.tdiv_eq_ediv_of_nonneg h, Int.tmod_eq_emod_of_nonneg h, Int.tmod_eq_emod_of_nonneg h,
    Int.tdiv_eq_ediv_of_nonneg (Int.emod_nonneg _ (by decide))]

theorem length_clockText (h : 0 ≤ n) (hlt : n < 360000) : (clockText n).length = 8 := by
  rw [clockText_eq h]
  simp only [List.length_append, List.length_cons]
  rw [length_padded (by decide) (by omega) (by omega), length_padded (by decide) (by omega) (by omega),
    length_padded (by decide) (by omega) (by omega)]

theorem clockText_injective (hm : 0 ≤ m ∧ m < 360000) (hn : 0 ≤ n ∧ n < 360000)
    (h : clockText m = clockText n) : m = n := by
  have hlength : ∀ k : Int, 0 ≤ k → k < 100 → (padded 2 k).length = 2 :=
    fun k h0 hlt => length_padded (by decide) h0 hlt
  rw [clockText_eq hm.1, clockText_eq hn.1, List.append_assoc, List.append_assoc] at h
  obtain ⟨hhours, h⟩ := List.append_inj h
    (by rw [hlength _ (by omega) (by omega), hlength _ (by omega) (by omega)])
  obtain ⟨-, h⟩ := List.cons.inj h
  obtain ⟨hminutes, h⟩ := List.append_inj h
    (by rw [hlength _ (by omega) (by omega), hlength _ (by omega) (by omega)])
  obtain ⟨-, hseconds⟩ := List.cons.inj h
  have hhours := padded_injective (by omega) (by omega) hhours
  have hminutes := padded_injective (by omega) (by omega) hminutes
  have hseconds := padded_injective (by omega) (by omega) hseconds
  omega

end

/-! ### Temporal values -/

inductive Temporal where
  | date (value : DateValue)
  | time (value : TimeValue)
  | timestamp (value : TimestampValue)

namespace Temporal

def toValue : Temporal → Value
  | date value => .date value
  | time value => .time value
  | timestamp value => .timestamp value

/-- The quantity in nanoseconds: since midnight for a time, since the epoch otherwise. -/
def nanos : Temporal → Int
  | date value => value.days.toInt * 86400000000000
  | time value => timeNanos value.value value.unit
  | timestamp value => timestampNanos value.value value.unit

/-- A day or an instant of the calendar, or a time of day. -/
def InRange : Temporal → Prop
  | date value => InCalendar value.days.toInt
  | time value => 0 ≤ timeNanos value.value value.unit ∧ timeNanos value.value value.unit ≤ 86400000000000
  | timestamp value => InCalendar value.day

instance (v : Temporal) : Decidable v.InRange :=
  match v with
  | date _ => inferInstanceAs (Decidable (InCalendar _))
  | time _ => inferInstanceAs (Decidable (_ ∧ _))
  | timestamp _ => inferInstanceAs (Decidable (InCalendar _))

end Temporal

/-- Values of one kind, unit and timezone flag. -/
inductive SameKind : Temporal → Temporal → Prop where
  | date (d e : DateValue) : SameKind (.date d) (.date e)
  | time (unit : TimeUnit) (v w : I64) : SameKind (.time ⟨unit, v⟩) (.time ⟨unit, w⟩)
  | timestamp (unit : TimestampUnit) (v w : I64) (timezoneUtc : Bool) :
      SameKind (.timestamp ⟨unit, v, timezoneUtc⟩) (.timestamp ⟨unit, w, timezoneUtc⟩)

/-- The microseconds that a literal is made from: those of nanoseconds are rounded towards zero. -/
def TimestampValue.literalMicros (timestamp : TimestampValue) : Int :=
  match timestamp.unit with
  | .nanos => timestamp.value.toInt.tdiv 1000
  | unit => timestampNanos timestamp.value unit / 1000

/-- Timestamps of different milliseconds; other values are all told apart. -/
def MillisDiffer : Temporal → Temporal → Prop
  | .timestamp s, .timestamp t => s.literalMicros / 1000 ≠ t.literalMicros / 1000
  | _, _ => True

/-- The two values have different literals, and different JSON texts by default. -/
structure ToldApart (prims : Primitives) (calendar : Calendar) (base64 : Bytes → String) (v w : Temporal) :
    Prop where
  literal : sqlLiteral prims calendar (.value v.toValue) ≠ sqlLiteral prims calendar (.value w.toValue)
  json : toJsonValue prims calendar base64 .standard v.toValue ≠
    toJsonValue prims calendar base64 .standard w.toValue

section
variable {prims : Primitives} {calendar : Calendar} {base64 : Bytes → String}

theorem toldApart_date (hcalendar : PrintsDistinct calendar) {d e : DateValue}
    (hd : InCalendar d.days.toInt) (he : InCalendar e.days.toInt) (h : d.days.toInt ≠ e.days.toInt) :
    ToldApart prims calendar base64 (.date d) (.date e) := by
  have htext : ∀ {date : DateValue}, InCalendar date.days.toInt →
      dateFromDays calendar date.days = .ok (calendar.date date.days.toInt) := by
    intro date hdate
    rw [dateFromDays, Outcome.check, if_pos hdate]
    rfl
  have hne : calendar.date d.days.toInt ≠ calendar.date e.days.toInt := fun heq =>
    h (hcalendar.date hd he heq)
  constructor
  · intro heq
    rw [sqlLiteral, sqlLiteral, Temporal.toValue, Temporal.toValue, valueLiteral, valueLiteral, htext hd,
      htext he] at heq
    have htexts := Outcome.ok.inj heq
    simp only [List.append_assoc, List.append_cancel_left_eq, List.append_cancel_right_eq] at htexts
    exact hne htexts
  · intro heq
    rw [Temporal.toValue, Temporal.toValue, toJsonValue, toJsonValue, dateToJson, dateToJson, htext hd,
      htext he] at heq
    have hstrings := JsonValue.string.inj (Outcome.ok.inj heq)
    exact hne (String.ofList_injective hstrings)

theorem formatTime_eq {value : TimeValue} (h : 0 ≤ timeNanos value.value value.unit) :
    formatTime value.value value.unit = timeToString value.value value.unit := by
  simp only [formatTime, timeToString]
  rw [Int.tdiv_eq_ediv_of_nonneg h, Int.tmod_eq_emod_of_nonneg h]

theorem timeToString_injective {v w : TimeValue} (hv : Temporal.InRange (.time v))
    (hw : Temporal.InRange (.time w))
    (h : timeToString v.value v.unit = timeToString w.value w.unit) :
    timeNanos v.value v.unit = timeNanos w.value w.unit := by
  obtain ⟨hv, hv'⟩ := hv
  obtain ⟨hw, hw'⟩ := hw
  simp only [timeToString] at h
  generalize timeNanos v.value v.unit = m at *
  generalize timeNanos w.value w.unit = n at *
  obtain ⟨hclock, hfraction⟩ := List.append_inj h
    (by rw [length_clockText (by omega) (by omega), length_clockText (by omega) (by omega)])
  have hseconds := clockText_injective (by omega) (by omega) hclock
  have hnanos := fractionText_injective (by omega) (by omega) hfraction
  omega

theorem toldApart_time {v w : TimeValue} (hv : Temporal.InRange (.time v))
    (hw : Temporal.InRange (.time w)) (h : timeNanos v.value v.unit ≠ timeNanos w.value w.unit) :
    ToldApart prims calendar base64 (.time v) (.time w) := by
  have hne : timeToString v.value v.unit ≠ timeToString w.value w.unit := fun heq =>
    h (timeToString_injective hv hw heq)
  constructor
  · intro heq
    have htexts := Outcome.ok.inj heq
    rw [formatTime_eq hv.1, formatTime_eq hw.1] at htexts
    simp only [List.append_assoc, List.append_cancel_left_eq, List.append_cancel_right_eq] at htexts
    exact hne htexts
  · intro heq
    exact hne (String.ofList_injective (JsonValue.string.inj (Outcome.ok.inj heq)))

theorem timestampMicros_eq {timestamp : TimestampValue} {micros : Int}
    (h : timestampMicros timestamp.value timestamp.unit = .ok micros) : micros = timestamp.literalMicros := by
  obtain ⟨unit, value, timezoneUtc⟩ := timestamp
  have htimes : ∀ {factor : Int}, timesI64 value factor = .ok micros → micros = value.toInt * factor := by
    intro factor h
    obtain ⟨_, -, h⟩ := Outcome.bind_eq_ok h
    cases h
    rfl
  cases unit with
  | seconds =>
      have hmicros := htimes h
      show micros = value.toInt * 1000000000 / 1000
      omega
  | millis =>
      have hmicros := htimes h
      show micros = value.toInt * 1000000 / 1000
      omega
  | micros =>
      have hmicros : value.toInt = micros := Outcome.ok.inj h
      show micros = value.toInt * 1000 / 1000
      omega
  | nanos => exact (Outcome.ok.inj h).symm

/-- The text of an instant of the calendar, up to its milliseconds. -/
theorem formatTimestamp_eq {timestamp : TimestampValue} (h : InCalendar timestamp.day) :
    InCalendar (timestamp.literalMicros / 1000000 / 86400) ∧
      formatTimestamp calendar timestamp.value timestamp.unit timestamp.timezoneUtc =
        .ok (calendar.dateTime (timestamp.literalMicros / 1000000) ++
          '.' :: padded 3 (timestamp.literalMicros % 1000000 / 1000) ++
          if timestamp.timezoneUtc then ['+', '0', '0'] else []) := by
  rcases timestampMicros_cases timestamp.value timestamp.unit with
    ⟨-, micros, hmicros, hin⟩ | ⟨hday, -⟩
  · rw [formatTimestamp, hmicros, Outcome.ok_bind, ← timestampMicros_eq hmicros]
    simp only [fromTimestamp, if_pos hin]
    exact ⟨hin, rfl⟩
  · exact absurd h hday

theorem timestampLiteral_eq_iff (hcalendar : PrintsDistinct calendar) {s t : TimestampValue}
    (hs : InCalendar s.day) (ht : InCalendar t.day) (hzone : s.timezoneUtc = t.timezoneUtc) :
    sqlLiteral prims calendar (.value (.timestamp s)) = sqlLiteral prims calendar (.value (.timestamp t)) ↔
      s.literalMicros / 1000 = t.literalMicros / 1000 := by
  obtain ⟨hsIn, hsText⟩ := @formatTimestamp_eq calendar s hs
  obtain ⟨htIn, htText⟩ := @formatTimestamp_eq calendar t ht
  have hlength : ∀ micros : Int, ('.' :: padded 3 (micros % 1000000 / 1000)).length = 4 := fun micros => by
    rw [List.length_cons, length_padded (by decide) (by omega) (by omega)]
  rw [sqlLiteral, sqlLiteral, valueLiteral, valueLiteral, hsText, htText, ← hzone]
  generalize s.literalMicros = m at *
  generalize t.literalMicros = n at *
  constructor
  · intro heq
    have htexts := Outcome.ok.inj heq
    simp only [List.append_assoc, List.append_cancel_left_eq] at htexts
    simp only [← List.append_assoc, List.append_cancel_right_eq] at htexts
    obtain ⟨hseconds, hfraction⟩ := List.append_inj' htexts (by rw [hlength, hlength])
    have hseconds := hcalendar.dateTime hsIn htIn hseconds
    have hmillis := padded_injective (by omega) (by omega) (List.cons.inj hfraction).2
    omega
  · intro heq
    have hseconds : m / 1000000 = n / 1000000 := by omega
    have hmillis : m % 1000000 / 1000 = n % 1000000 / 1000 := by omega
    rw [hseconds, hmillis]

/-- A text ends before its point. -/
theorem append_fraction_injective {front front' : List Char} {m n : Int} (hfront : '.' ∉ front)
    (hfront' : '.' ∉ front') (hm : 0 ≤ m ∧ m < 1000000000) (hn : 0 ≤ n ∧ n < 1000000000)
    (h : front ++ fractionText m = front' ++ fractionText n) : front = front' ∧ m = n := by
  have htake : ∀ {text : List Char} (fraction : Int), '.' ∉ text →
      (text ++ fractionText fraction).takeWhile (fun c => decide (c ≠ '.')) = text := by
    intro text fraction htext
    have htext : ∀ c ∈ text, decide (c ≠ '.') = true := fun c hc =>
      decide_eq_true fun heq => htext (heq ▸ hc)
    rw [List.takeWhile_append_of_pos htext]
    rw [fractionText]
    split
    · simp
    · obtain ⟨rest, hrest⟩ := trimZeros_cons (c := '.') (by decide) (padded 9 fraction)
      rw [hrest]
      simp
  have hsame : front = front' := by
    rw [← htake m hfront, h, htake n hfront']
  subst hsame
  exact ⟨rfl, fractionText_injective hm hn (List.append_cancel_left h)⟩

theorem timestampToIso_injective (hcalendar : PrintsDistinct calendar) {s t : TimestampValue}
    (hs : InCalendar s.day) (ht : InCalendar t.day)
    (h : timestampToIso calendar s.value s.unit = timestampToIso calendar t.value t.unit) :
    timestampNanos s.value s.unit = timestampNanos t.value t.unit := by
  have hday : ∀ {timestamp : TimestampValue}, InCalendar timestamp.day →
      InCalendar (timestampNanos timestamp.value timestamp.unit / 1000000000 / 86400) := by
    intro timestamp hin
    rw [Int.ediv_ediv_of_nonneg (by decide)]
    exact hin
  have hs := hday hs
  have ht := hday ht
  rw [timestampToIso, timestampToIso] at h
  simp only [fromTimestamp, if_pos hs, if_pos ht] at h
  generalize timestampNanos s.value s.unit = m at *
  generalize timestampNanos t.value t.unit = n at *
  have htexts := List.append_cancel_right (Except.ok.inj h)
  obtain ⟨hseconds, hnanos⟩ := append_fraction_injective (hcalendar.whole _) (hcalendar.whole _)
    (by omega) (by omega) htexts
  have hseconds := hcalendar.isoDateTime hs ht hseconds
  omega

theorem timestampJson_ne (hcalendar : PrintsDistinct calendar) {s t : TimestampValue}
    (hs : InCalendar s.day) (ht : InCalendar t.day)
    (h : timestampNanos s.value s.unit ≠ timestampNanos t.value t.unit) :
    toJsonValue prims calendar base64 .standard (.timestamp s) ≠
      toJsonValue prims calendar base64 .standard (.timestamp t) := by
  obtain ⟨text, htext⟩ := (@timestampToIso_ok_iff calendar s).mpr hs
  obtain ⟨text', htext'⟩ := (@timestampToIso_ok_iff calendar t).mpr ht
  intro heq
  rw [toJsonValue, toJsonValue, timestampToJson, timestampToJson] at heq
  simp only [JsonOptions.standard, htext, htext'] at heq
  have hstrings := JsonValue.string.inj (Outcome.ok.inj heq)
  have hsame := String.ofList_injective hstrings
  exact h (timestampToIso_injective hcalendar hs ht (by rw [htext, htext', hsame]))

/-- Values at least one microsecond apart are told apart by JSON texts, and by literals but for timestamps
within one millisecond. -/
theorem toldApart_iff (hcalendar : PrintsDistinct calendar) {v w : Temporal} (hkind : SameKind v w)
    (hv : v.InRange) (hw : w.InRange) (hfar : 1000 ≤ |v.nanos - w.nanos|) :
    ToldApart prims calendar base64 v w ↔ MillisDiffer v w := by
  have hne : v.nanos ≠ w.nanos := by
    intro heq
    rw [heq, sub_self, abs_zero] at hfar
    omega
  cases hkind with
  | date d e =>
      refine iff_of_true (toldApart_date hcalendar hv hw fun heq => hne ?_) trivial
      rw [Temporal.nanos, Temporal.nanos, heq]
  | time unit v w => exact iff_of_true (toldApart_time hv hw hne) trivial
  | timestamp unit v w timezoneUtc =>
      have hliteral := @timestampLiteral_eq_iff prims calendar hcalendar ⟨unit, v, timezoneUtc⟩
        ⟨unit, w, timezoneUtc⟩ hv hw rfl
      constructor
      · exact fun h heq => h.literal (hliteral.mpr heq)
      · exact fun h => ⟨fun heq => h (hliteral.mp heq), timestampJson_ne hcalendar hv hw hne⟩

end

theorem toString_int_injective {m n : Int} (h : (toString m).toList = (toString n).toList) : m = n := by
  have hminus : ∀ k : Nat, '-' ∉ Nat.toDigits 10 k := fun k hmem => by
    cases isDigits_toDigits k '-' hmem
  have hvalue : ∀ {k l : Nat}, Nat.toDigits 10 k = Nat.toDigits 10 l → k = l := by
    intro k l heq
    rw [← value_toDigits k, heq, value_toDigits]
  rw [toList_toString_int, toList_toString_int] at h
  by_cases hm : m < 0
  · by_cases hn : n < 0
    · rw [if_pos hm, if_pos hn] at h
      have habs := hvalue (List.append_cancel_left h)
      omega
    · rw [if_pos hm, if_neg hn, List.nil_append] at h
      exact absurd (h ▸ List.mem_cons_self ..) (hminus n.natAbs)
  · by_cases hn : n < 0
    · rw [if_neg hm, if_pos hn, List.nil_append] at h
      exact absurd (h ▸ List.mem_cons_self ..) (hminus m.natAbs)
    · rw [if_neg hm, if_neg hn] at h
      have habs := hvalue (List.append_cancel_left h)
      omega

/-- The number in decimal, with the given text for zero. -/
def numbered (zero : List Char) (n : Int) : List Char := if n = 0 then zero else (toString n).toList

theorem numbered_injective {zero : List Char} (hzero : ¬ NumberText zero) {m n : Int}
    (h : numbered zero m = numbered zero n) : m = n := by
  rw [numbered, numbered] at h
  by_cases hm : m = 0
  · by_cases hn : n = 0
    · rw [hm, hn]
    · rw [if_pos hm, if_neg hn] at h
      exact absurd (h ▸ numberText_int n) hzero
  · by_cases hn : n = 0
    · rw [if_neg hm, if_pos hn] at h
      exact absurd (h ▸ numberText_int m) hzero
    · rw [if_neg hm, if_neg hn] at h
      exact toString_int_injective h

theorem NumberText.minus_notMem {c : Char} {text : List Char} (h : NumberText (c :: text)) : '-' ∉ text := by
  obtain ⟨sign, digits, heq, hsign, -, hdigits⟩ := h
  have hminus : '-' ∉ digits := fun hmem => by
    rcases hdigits '-' hmem with h | h <;> cases h
  rcases hsign with rfl | rfl
  · rw [List.nil_append] at heq
    exact fun hmem => hminus (heq ▸ List.mem_cons_of_mem _ hmem)
  · obtain ⟨-, rfl⟩ := List.cons.inj heq
    exact hminus

/-- A calendar that knows the epoch, and numbers everything else. -/
def Calendar.epoch : Calendar where
  date := numbered "1970-01-01".toList
  dateTime := numbered "1970-01-01 00:00:00".toList
  isoDateTime := numbered "1970-01-01T00:00:00".toList

theorem Calendar.epoch_distinct : PrintsDistinct .epoch := by
  have hnot : ∀ text : List Char, '-' ∈ text → ¬ NumberText ('1' :: text) := fun text hmem h =>
    h.minus_notMem hmem
  refine ⟨fun _ _ => numbered_injective (hnot _ (by decide)), fun _ _ => numbered_injective (hnot _ (by decide)),
    fun _ _ => numbered_injective (hnot _ (by decide)), fun second hmem => ?_⟩
  change '.' ∈ numbered _ second at hmem
  rw [numbered] at hmem
  split at hmem
  · revert hmem
    decide
  · rw [toList_toString_int, List.mem_append] at hmem
    rcases hmem with hmem | hmem
    · split at hmem
      · revert hmem
        decide
      · cases hmem
    · cases isDigits_toDigits _ '.' hmem

/-- An instant in microseconds after the epoch. -/
def afterEpoch (micros : I64) : Temporal := .timestamp ⟨.micros, micros, false⟩

theorem toldApart_iff_afterEpoch : ToldApart .floatless .epoch (fun _ => "") (afterEpoch 0) (afterEpoch 2000) ↔
    MillisDiffer (afterEpoch 0) (afterEpoch 2000) :=
  toldApart_iff Calendar.epoch_distinct (.timestamp .micros 0 2000 false) (by decide) (by decide) (by decide)

theorem literal_afterEpoch : sqlLiteral .floatless .epoch (.value (afterEpoch 0).toValue) =
      .ok "TIMESTAMP '1970-01-01 00:00:00.000'".toList ∧
    sqlLiteral .floatless .epoch (.value (afterEpoch 1).toValue) =
      .ok "TIMESTAMP '1970-01-01 00:00:00.000'".toList := ⟨rfl, rfl⟩

/-- One microsecond is lost. -/
theorem not_toldApart_afterEpoch : PrintsDistinct .epoch ∧ SameKind (afterEpoch 0) (afterEpoch 1) ∧
    (afterEpoch 0).InRange ∧ (afterEpoch 1).InRange ∧ 1000 ≤ |(afterEpoch 0).nanos - (afterEpoch 1).nanos| ∧
    ¬ ToldApart .floatless .epoch (fun _ => "") (afterEpoch 0) (afterEpoch 1) :=
  ⟨Calendar.epoch_distinct, .timestamp .micros 0 1 false, by decide, by decide, by decide,
    fun h => h.literal (literal_afterEpoch.1.trans literal_afterEpoch.2.symm)⟩

end QuackProtocol
