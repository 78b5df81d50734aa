import QuackProtocol.ChunkRoundTrip
import QuackProtocol.DecimalParsers
import QuackProtocol.Json

/-! Which values are rendered without a panic. A value is rendered leaf by leaf, up to the first leaf that has no
text; what matters is whether that leaf is refused with an error or the renderer computes outside its
range there. -/

open Decoding

namespace QuackProtocol

mutual

/-- The values without parts, in the order in which they are rendered. -/
def leaves : Value → List Value
  | .list values => itemLeaves values
  | .struct row => fieldLeaves row
  | value => [value]

def itemLeaves : List Value → List Value
  | [] => []
  | value :: values => leaves value ++ itemLeaves values

def fieldLeaves : List (String × Value) → List Value
  | [] => []
  | (_, value) :: row => leaves value ++ fieldLeaves row

end

section
variable {fits prints : Value → Prop} {α β : Type}

/-- Each leaf that is reached, where all before it fit, is one that the renderer can deal with. -/
def Reaches (fits prints : Value → Prop) (leaves : List Value) : Prop :=
  ∀ front leaf back, leaves = front ++ leaf :: back → (∀ u ∈ front, fits u) → prints leaf

theorem reaches_nil : Reaches fits prints [] := by
  intro front leaf back h
  cases front <;> cases h

theorem reaches_cons_iff {leaf : Value} {leaves : List Value} :
    Reaches fits prints (leaf :: leaves) ↔ prints leaf ∧ (fits leaf → Reaches fits prints leaves) := by
  constructor
  · intro h
    refine ⟨h [] leaf leaves rfl nofun, fun hfits front next back hleaves hfront => ?_⟩
    exact h (leaf :: front) next back (by rw [hleaves]; rfl) (List.forall_mem_cons.mpr ⟨hfits, hfront⟩)
  · rintro ⟨hprints, hrest⟩ front next back hleaves hfront
    cases front with
    | nil =>
        cases hleaves
        exact hprints
    | cons first front =>
        cases hleaves
        obtain ⟨hfirst, hfront⟩ := List.forall_mem_cons.mp hfront
        exact hrest hfirst front next back rfl hfront

theorem reaches_append_iff {front back : List Value} : Reaches fits prints (front ++ back) ↔
    Reaches fits prints front ∧ ((∀ u ∈ front, fits u) → Reaches fits prints back) := by
  induction front with
  | nil => simp [reaches_nil]
  | cons leaf front ih =>
      rw [List.cons_append, reaches_cons_iff, reaches_cons_iff, ih, List.forall_mem_cons]
      tauto

/-- What becomes of a run over the given leaves. -/
structure Walks (fits prints : Value → Prop) (x : Outcome QuackError α) (leaves : List Value) : Prop where
  ok : (∃ a, x = .ok a) ↔ ∀ leaf ∈ leaves, fits leaf
  returns : x.Returns ↔ Reaches fits prints leaves

theorem Walks.pure (a : α) : Walks fits prints (pure a) [] :=
  ⟨iff_of_true ⟨a, rfl⟩ nofun, iff_of_true trivial reaches_nil⟩

theorem Walks.leaf {x : Outcome QuackError α} {value : Value} (hok : (∃ a, x = .ok a) ↔ fits value)
    (hreturns : x.Returns ↔ prints value) : Walks fits prints x [value] := by
  refine ⟨by rw [hok, List.forall_mem_singleton], ?_⟩
  rw [hreturns, reaches_cons_iff, and_iff_left fun _ => reaches_nil]

theorem Walks.bind {x : Outcome QuackError α} {f : α → Outcome QuackError β} {front back : List Value}
    (hx : Walks fits prints x front) (hf : ∀ a, Walks fits prints (f a) back) :
    Walks fits prints (x >>= f) (front ++ back) := by
  constructor
  · rw [List.forall_mem_append, ← hx.ok]
    constructor
    · rintro ⟨b, h⟩
      obtain ⟨a, ha, hb⟩ := Outcome.bind_eq_ok h
      exact ⟨⟨a, ha⟩, (hf a).ok.mp ⟨b, hb⟩⟩
    · rintro ⟨⟨a, rfl⟩, hback⟩
      exact (hf a).ok.mpr hback
  · rw [Outcome.returns_bind_iff, reaches_append_iff, hx.returns, ← hx.ok]
    apply and_congr_right
    intro _
    constructor
    · rintro h ⟨a, ha⟩
      exact (hf a).returns.mp (h a ha)
    · exact fun h a ha => (hf a).returns.mpr (h ⟨a, ha⟩)

theorem Walks.map {x : Outcome QuackError α} {front : List Value} (hx : Walks fits prints x front)
    (f : α → β) : Walks fits prints (do let a ← x; Pure.pure (f a)) front := by
  have h := hx.bind fun a => Walks.pure (f a)
  rwa [List.append_nil] at h

end

/-- The value has an absolute value, and a power of ten for its scale. -/
def DecimalValue.Printable (decimal : DecimalValue) : Prop :=
  decimal.value ≠ BitVec.intMin 128 ∧ decimal.scale.toNat ≤ 38

/-- The day of an instant. -/
def TimestampValue.day (timestamp : TimestampValue) : Int :=
  timestampNanos timestamp.value timestamp.unit / 86400000000000

/-- The converter to JSON computes within its ranges. -/
def JsonPrints (options : JsonOptions) : Value → Prop
  | .decimal decimal => options.decimal = .default → decimal.Printable
  | .date date => options.date = .default → InCalendar date.days.toInt
  | _ => True

/-- The value has a JSON text. -/
def JsonFits (options : JsonOptions) : Value → Prop
  | .hugeInt value => options.bigint = .number → -2 ^ 63 ≤ value.toInt ∧ value.toInt < 2 ^ 63
  | .uhugeInt value => options.bigint = .number → value.toNat < 2 ^ 64
  | .timestamp timestamp => options.timestamp = .default → InCalendar timestamp.day
  | value => JsonPrints options value

/-- The literal of the value is made within the ranges. -/
def LiteralPrints : Value → Prop
  | .decimal decimal => decimal.Printable
  | .date date => InCalendar date.days.toInt
  | .timestamp timestamp => InCalendar timestamp.day
  | _ => True

theorem inI128_neg_iff (value : I128) : InI128 (-value.toInt) ↔ value ≠ BitVec.intMin 128 := by
  have hlower := @BitVec.le_toInt 128 value
  have hupper := @BitVec.toInt_lt 128 value
  have hmin : (BitVec.intMin 128).toInt = -2 ^ 127 := rfl
  rw [InI128, ne_eq, ← BitVec.toInt_inj, hmin]
  omega

theorem decimalToString_ok_of_printable {decimal : DecimalValue} (h : decimal.Printable) :
    ∃ s, decimalToString decimal = .ok s := by
  obtain ⟨hvalue, hscale⟩ := h
  obtain ⟨abs, habs, -⟩ := exists_abs hvalue
  rw [decimalToString_eq habs]
  by_cases hzero : decimal.scale = 0
  · rw [decimalText, if_pos hzero]
    exact ⟨_, rfl⟩
  · obtain ⟨s, htext, -⟩ := toList_decimalText hzero hscale
      (if decimal.value.toInt < 0 then "-" else "") abs
    exact ⟨s, htext⟩

theorem returns_decimalToString_iff {decimal : DecimalValue} :
    (decimalToString decimal).Returns ↔ decimal.Printable := by
  constructor
  · intro h
    have hvalue : decimal.value ≠ BitVec.intMin 128 := by
      intro heq
      have hneg : decimal.value.toInt < 0 := by
        rw [heq]
        decide
      have hpanic : negateI128 decimal.value = .panic .overflow := by
        rw [negateI128, Outcome.check, if_neg ((inI128_neg_iff _).not.mpr (not_not.mpr heq))]
        rfl
      unfold decimalToString at h
      simp only [if_pos hneg, hpanic] at h
      exact h
    refine ⟨hvalue, ?_⟩
    obtain ⟨abs, habs, -⟩ := exists_abs hvalue
    rw [decimalToString_eq habs] at h
    by_cases hzero : decimal.scale = 0
    · rw [hzero]
      exact Nat.zero_le _
    · exact (returns_decimalText_iff hzero).mp h
  · intro h
    obtain ⟨s, hs⟩ := decimalToString_ok_of_printable h
    rw [hs]
    exact trivial

theorem decimalToString_ok_iff {decimal : DecimalValue} :
    (∃ s, decimalToString decimal = .ok s) ↔ decimal.Printable := by
  refine ⟨fun ⟨s, hs⟩ => returns_decimalToString_iff.mp ?_, decimalToString_ok_of_printable⟩
  rw [hs]
  exact trivial

section
variable {calendar : Calendar}

theorem walks_dateFromDays {fits prints : Value → Prop} {date : DateValue} (hfits : fits (.date date) ↔
    InCalendar date.days.toInt) (hprints : prints (.date date) ↔ InCalendar date.days.toInt) :
    Walks fits prints (dateFromDays calendar date.days) [.date date] := by
  refine .leaf ?_ ?_
  · rw [hfits]
    constructor
    · rintro ⟨text, h⟩
      obtain ⟨_, hcheck, -⟩ := Outcome.bind_eq_ok h
      exact Outcome.check_eq_ok hcheck
    · intro h
      rw [dateFromDays, Outcome.check, if_pos h]
      exact ⟨_, rfl⟩
  · rw [hprints, dateFromDays, Outcome.returns_bind_iff, Outcome.returns_check_iff]
    exact and_iff_left fun _ _ => trivial

/-- The microseconds of an instant of the calendar are in range and in the calendar, and only those. -/
theorem timestampMicros_cases (value : I64) (unit : TimestampUnit) :
    (InCalendar (timestampNanos value unit / 86400000000000) ∧
      ∃ micros, timestampMicros value unit = .ok micros ∧ InCalendar (micros / 1000000 / 86400)) ∨
    (¬ InCalendar (timestampNanos value unit / 86400000000000) ∧
      ((∃ micros, timestampMicros value unit = .ok micros ∧ ¬ InCalendar (micros / 1000000 / 86400)) ∨
        timestampMicros value unit = .panic .overflow)) := by
  have hlower := @BitVec.le_toInt 64 value
  have hupper := @BitVec.toInt_lt 64 value
  have htimes : ∀ factor : Int, 0 < factor →
      (timesI64 value factor = .ok (value.toInt * factor)) ∨
        (¬ (-2 ^ 63 ≤ value.toInt * factor ∧ value.toInt * factor < 2 ^ 63) ∧
          timesI64 value factor = .panic .overflow) := by
    intro factor _
    by_cases h : -2 ^ 63 ≤ value.toInt * factor ∧ value.toInt * factor < 2 ^ 63
    · left
      rw [timesI64, Outcome.check, if_pos h]
      rfl
    · right
      rw [timesI64, Outcome.check, if_neg h]
      exact ⟨h, rfl⟩
  cases unit with
  | seconds =>
      rw [timestampMicros, timestampNanos]
      rcases htimes 1000000 (by decide) with h | ⟨hrange, h⟩
      · rw [h]
        by_cases hday : InCalendar (value.toInt * 1000000000 / 86400000000000)
        · exact .inl ⟨hday, _, rfl, by unfold InCalendar at *; omega⟩
        · exact .inr ⟨hday, .inl ⟨_, rfl, by unfold InCalendar at *; omega⟩⟩
      · rw [h]
        exact .inr ⟨by unfold InCalendar at *; omega, .inr rfl⟩
  | millis =>
      rw [timestampMicros, timestampNanos]
      rcases htimes 1000 (by decide) with h | ⟨hrange, h⟩
      · rw [h]
        by_cases hday : InCalendar (value.toInt * 1000000 / 86400000000000)
        · exact .inl ⟨hday, _, rfl, by unfold InCalendar at *; omega⟩
        · exact .inr ⟨hday, .inl ⟨_, rfl, by unfold InCalendar at *; omega⟩⟩
      · rw [h]
        exact .inr ⟨by unfold InCalendar at *; omega, .inr rfl⟩
  | micros =>
      rw [timestampMicros, timestampNanos]
      by_cases hday : InCalendar (value.toInt * 1000 / 86400000000000)
      · exact .inl ⟨hday, _, rfl, by unfold InCalendar at *; omega⟩
      · exact .inr ⟨hday, .inl ⟨_, rfl, by unfold InCalendar at *; omega⟩⟩
  | nanos =>
      have hdiv : -2 ^ 63 ≤ value.toInt.tdiv 1000 * 1000 ∧ value.toInt.tdiv 1000 * 1000 < 2 ^ 63 := by
        rcases Int.le_total 0 value.toInt with h | h
        · rw [Int.tdiv_eq_ediv_of_nonneg h]
          omega
        · have hneg : value.toInt.tdiv 1000 = -(-value.toInt / 1000) := by
            rw [← Int.tdiv_eq_ediv_of_nonneg (by omega), Int.neg_tdiv, neg_neg]
          rw [hneg]
          omega
      rw [timestampMicros, timestampNanos]
      exact .inl ⟨by unfold InCalendar at *; omega, _, rfl, by unfold InCalendar at *; omega⟩

theorem walks_formatTimestamp {fits prints : Value → Prop} {timestamp : TimestampValue}
    (hfits : fits (.timestamp timestamp) ↔ InCalendar timestamp.day)
    (hprints : prints (.timestamp timestamp) ↔ InCalendar timestamp.day) :
    Walks fits prints (formatTimestamp calendar timestamp.value timestamp.unit timestamp.timezoneUtc)
      [.timestamp timestamp] := by
  have hcases : (InCalendar timestamp.day ∧ ∃ text, formatTimestamp calendar timestamp.value timestamp.unit
        timestamp.timezoneUtc = .ok text) ∨
      (¬ InCalendar timestamp.day ∧ ∃ cause, formatTimestamp calendar timestamp.value timestamp.unit
        timestamp.timezoneUtc = .panic cause) := by
    rcases timestampMicros_cases timestamp.value timestamp.unit with
      ⟨hday, micros, hmicros, hin⟩ | ⟨hday, ⟨micros, hmicros, hout⟩ | hpanic⟩
    · refine .inl ⟨hday, ?_⟩
      rw [formatTimestamp, hmicros, Outcome.ok_bind]
      simp only [fromTimestamp, if_pos hin]
      exact ⟨_, rfl⟩
    · refine .inr ⟨hday, .bounds, ?_⟩
      rw [formatTimestamp, hmicros, Outcome.ok_bind]
      simp only [fromTimestamp, if_neg hout]
    · refine .inr ⟨hday, .overflow, ?_⟩
      rw [formatTimestamp, hpanic]
      rfl
  rcases hcases with ⟨hday, text, h⟩ | ⟨hday, cause, h⟩
  · rw [h]
    exact .leaf (iff_of_true ⟨text, rfl⟩ (hfits.mpr hday)) (iff_of_true trivial (hprints.mpr hday))
  · rw [h]
    exact .leaf (iff_of_false nofun (hfits.not.mpr hday)) (iff_of_false id (hprints.not.mpr hday))

theorem timestampToIso_ok_iff {timestamp : TimestampValue} :
    (∃ text, timestampToIso calendar timestamp.value timestamp.unit = .ok text) ↔
      InCalendar timestamp.day := by
  have hday : timestampNanos timestamp.value timestamp.unit / 1000000000 / 86400 = timestamp.day := by
    rw [Int.ediv_ediv_of_nonneg (by decide)]
    rfl
  rw [timestampToIso]
  by_cases h : InCalendar timestamp.day
  · simp only [fromTimestamp, hday, if_pos h]
    exact iff_of_true ⟨_, rfl⟩ h
  · simp only [fromTimestamp, hday, if_neg h]
    exact iff_of_false nofun h

/-! ### Conversion to JSON -/

section
variable (prims : Primitives) (base64 : Bytes → String) (options : JsonOptions)

/-- What refuses a value with an error never panics. -/
theorem walks_lift {fits prints : Value → Prop} {α : Type} {x : Result α} {value : Value}
    (hfits : (∃ a, x = .ok a) ↔ fits value) (hprints : prints value) :
    Walks fits prints (liftM x : Outcome QuackError α) [value] := by
  refine .leaf ?_ (iff_of_true (Outcome.returns_lift x) hprints)
  rw [← hfits]
  constructor
  · rintro ⟨a, h⟩
    exact ⟨a, Outcome.lift_eq_ok h⟩
  · rintro ⟨a, rfl⟩
    exact ⟨a, rfl⟩

theorem walks_pure_leaf {fits prints : Value → Prop} {α : Type} {a : α} {value : Value}
    (hfits : fits value) (hprints : prints value) :
    Walks fits prints (pure a : Outcome QuackError α) [value] :=
  .leaf (iff_of_true ⟨a, rfl⟩ hfits) (iff_of_true trivial hprints)

/-- An integer that is printed as a number has to be in the range of one. -/
theorem bigintMode_ok_iff {inRange : Prop} [Decidable inRange] {text number : JsonValue} {e : QuackError}
    {mode : BigIntJsonMode} : (∃ json, (match mode with
      | .string => .ok text
      | .number => if inRange then .ok number else .error e : Result JsonValue) = .ok json) ↔
      (mode = .number → inRange) := by
  cases mode with
  | string => exact iff_of_true ⟨_, rfl⟩ nofun
  | number =>
      by_cases h : inRange
      · exact iff_of_true ⟨_, if_pos h⟩ fun _ => h
      · refine iff_of_false ?_ fun hin => h (hin rfl)
        rintro ⟨json, hjson⟩
        cases (if_neg h).symm.trans hjson

theorem bigintToJson_ok_iff {value : I128} {mode : BigIntJsonMode} :
    (∃ json, bigintToJson value mode = .ok json) ↔
      (mode = .number → -2 ^ 63 ≤ value.toInt ∧ value.toInt < 2 ^ 63) := bigintMode_ok_iff

theorem unsignedBigintToJson_ok_iff {value : U128} {mode : BigIntJsonMode} :
    (∃ json, unsignedBigintToJson value mode = .ok json) ↔ (mode = .number → value.toNat < 2 ^ 64) :=
  bigintMode_ok_iff

mutual

theorem walks_toJsonValue : ∀ value, Walks (JsonFits options) (JsonPrints options)
    (toJsonValue prims calendar base64 options value) (leaves value)
  | .null | .bool _ | .float _ | .double _ | .string _ | .bytes _ | .time _ | .timeTz _ | .interval _ =>
    walks_pure_leaf trivial trivial
  | .int value => by
      refine walks_lift (iff_of_true (bigintToJson_ok_iff.mpr fun _ => ?_) trivial) trivial
      have hlower := @BitVec.le_toInt 64 value
      have hupper := @BitVec.toInt_lt 64 value
      rw [BitVec.toInt_signExtend_of_le (by decide)]
      exact ⟨hlower, hupper⟩
  | .uint value => by
      refine walks_lift (iff_of_true (unsignedBigintToJson_ok_iff.mpr fun _ => ?_) trivial) trivial
      rw [BitVec.toNat_setWidth_of_le (by decide)]
      exact value.isLt
  | .hugeInt value => walks_lift bigintToJson_ok_iff trivial
  | .uhugeInt value => walks_lift unsignedBigintToJson_ok_iff trivial
  | .decimal value => by
      rw [toJsonValue, decimalToJson]
      cases hmode : options.decimal with
      | tagged => exact walks_pure_leaf (fun h => by cases hmode.symm.trans h) (fun h => by cases hmode.symm.trans h)
      | default =>
          have hwalk : Walks (JsonFits options) (JsonPrints options) (decimalToString value) [.decimal value] := by
            refine .leaf (decimalToString_ok_iff.trans ?_) (returns_decimalToString_iff.trans ?_)
            · exact ⟨fun h _ => h, fun h => h hmode⟩
            · exact ⟨fun h _ => h, fun h => h hmode⟩
          exact hwalk.map JsonValue.string
  | .date value => by
      rw [toJsonValue, dateToJson]
      cases hmode : options.date with
      | tagged => exact walks_pure_leaf (fun h => by cases hmode.symm.trans h) (fun h => by cases hmode.symm.trans h)
      | default =>
          have hfits : JsonFits options (.date value) ↔ InCalendar value.days.toInt :=
            ⟨fun h => h hmode, fun h _ => h⟩
          have hprints : JsonPrints options (.date value) ↔ InCalendar value.days.toInt := hfits
          exact (walks_dateFromDays hfits hprints).map fun text => JsonValue.string (String.ofList text)
  | .timestamp value => by
      refine walks_lift ?_ trivial
      rw [timestampToJson]
      cases hmode : options.timestamp with
      | tagged => exact iff_of_true ⟨_, rfl⟩ fun h => by cases hmode.symm.trans h
      | default =>
          have hiff : JsonFits options (.timestamp value) ↔ InCalendar value.day :=
            ⟨fun h => h hmode, fun h _ => h⟩
          rw [hiff, ← timestampToIso_ok_iff]
          constructor
          · rintro ⟨json, h⟩
            obtain ⟨text, htext, -⟩ := Except.bind_eq_ok h
            exact ⟨text, htext⟩
          · rintro ⟨text, htext⟩
            simp only [htext]
            exact ⟨_, rfl⟩
  | .list values => by
      rw [toJsonValue, leaves]
      exact (walks_toJsonValues values).map JsonValue.array
  | .struct row => by
      rw [toJsonValue, leaves]
      exact (walks_toJsonEntries [] row).map JsonValue.object

theorem walks_toJsonValues : ∀ values, Walks (JsonFits options) (JsonPrints options)
    (toJsonValues prims calendar base64 options values) (itemLeaves values)
  | [] => .pure []
  | value :: values => (walks_toJsonValue value).bind fun json => (walks_toJsonValues values).map (json :: ·)

theorem walks_toJsonEntries : ∀ (object : List (String × JsonValue)) (row : List (String × Value)),
    Walks (JsonFits options) (JsonPrints options)
      (toJsonEntries prims calendar base64 options object row) (fieldLeaves row)
  | object, [] => .pure object
  | object, (key, value) :: row =>
    (walks_toJsonValue value).bind fun json => walks_toJsonEntries (insertEntry object key json) row

end

end

/-- A literal has one leaf: lists and structs are refused whole. -/
theorem returns_valueLiteral_iff (prims : Primitives) (value : Value) :
    (valueLiteral prims calendar value).Returns ↔ LiteralPrints value := by
  cases value with
  | null | bool _ | int _ | uint _ | hugeInt _ | uhugeInt _ | string _ | bytes _ | time _ | timeTz _
      | interval _ | list _ | struct _ => exact iff_of_true trivial trivial
  | float value =>
      rw [valueLiteral]
      split <;> exact iff_of_true trivial trivial
  | double value =>
      rw [valueLiteral]
      split <;> exact iff_of_true trivial trivial
  | decimal value =>
      refine Iff.trans ?_ returns_decimalToString_iff
      rw [valueLiteral]
      cases decimalToString value <;> exact Iff.rfl
  | date value =>
      have hwalk := @walks_dateFromDays calendar LiteralPrints LiteralPrints value Iff.rfl Iff.rfl
      have hliteral := hwalk.map fun text => "DATE '".toList ++ text ++ ['\'']
      refine hliteral.returns.trans (reaches_cons_iff.trans ?_)
      exact and_iff_left fun _ => reaches_nil
  | timestamp value =>
      have hwalk := @walks_formatTimestamp calendar LiteralPrints LiteralPrints value Iff.rfl Iff.rfl
      have hliteral := hwalk.map fun text =>
        (if value.timezoneUtc then "TIMESTAMPTZ" else "TIMESTAMP").toList ++ " '".toList ++ text ++ ['\'']
      refine hliteral.returns.trans (reaches_cons_iff.trans ?_)
      exact and_iff_left fun _ => reaches_nil

/-- Both renderers return. -/
structure Renders (prims : Primitives) (calendar : Calendar) (base64 : Bytes → String) (options : JsonOptions)
    (value : Value) : Prop where
  json : (toJsonValue prims calendar base64 options value).Returns
  literal : (sqlLiteral prims calendar (.value value)).Returns

theorem renders_iff (prims : Primitives) (base64 : Bytes → String) (options : JsonOptions) (value : Value) :
    Renders prims calendar base64 options value ↔
      Reaches (JsonFits options) (JsonPrints options) (leaves value) ∧ LiteralPrints value := by
  have hjson := (@walks_toJsonValue calendar prims base64 options value).returns
  have hliteral : (sqlLiteral prims calendar (.value value)).Returns ↔ LiteralPrints value := by
    rw [sqlLiteral]
    exact returns_valueLiteral_iff prims value
  constructor
  · exact fun h => ⟨hjson.mp h.json, hliteral.mp h.literal⟩
  · exact fun h => ⟨hjson.mpr h.1, hliteral.mpr h.2⟩

end

/-- Some bytes are decoded to a chunk with the value in it. -/
def IsRead (layout : Layout) (value : Value) : Prop :=
  ∃ bytes chunk reader, decodeDataChunk.run layout ⟨bytes, 0⟩ = .ok (chunk, reader) ∧
    ∃ column ∈ chunk.columns, value ∈ column.values

def dateType : LogicalType := ⟨.date, none⟩

/-- Any day count can be read. -/
theorem isRead_date (days : I32) : IsRead .words (.date ⟨days⟩) := by
  have hone : Layout.words.Fits .value 1 := ⟨by decide, by decide⟩
  have hscalar : ScalarOf dateType (.date ⟨days⟩) := ⟨⟨days⟩, rfl⟩
  have hphysical : getPhysicalType dateType = .ok .int32 := rfl
  have hT : Encodable dateType := .fixed hphysical rfl fun h => by cases h
  have hwritable : dateType.Writable .words := by
    refine .intro ⟨?_, ?_⟩ fun _ hchild => by cases hchild
    · exact fun _ hinfo => by cases hinfo
    · exact fun _ hinfo => by cases hinfo
  have hmemory : (columnChunk dateType [.date ⟨days⟩]).InMemory .words :=
    columnChunk_inMemory hT hwritable ⟨by decide, by decide⟩ ⟨by decide, by decide⟩ hone
  have hfits : ∀ part ∈ (columnChunk dateType [.date ⟨days⟩]).parts, FitsMemory .words part.1 part.2 := by
    intro part hpart
    obtain rfl := List.mem_singleton.mp hpart
    refine .intro hone fun part hmem => ?_
    cases hmem
  have hstorable : ∀ part ∈ (columnChunk dateType [.date ⟨days⟩]).parts, ∀ value ∈ part.2,
      Storable .floatless part.1 value := by
    intro part hpart value hvalue
    obtain rfl := List.mem_singleton.mp hpart
    obtain rfl := List.mem_singleton.mp hvalue
    exact (storable_scalar Primitives.floatless_back hscalar).1
  have htype : (encodeLogicalType dateType).AtMost 13 := by
    rw [dateType, encodeLogicalType]
    exact ((Encode.AtMost.field (.uleb (by decide)) 100).append
      ((Encode.AtMost.ok le_rfl).append .nothing)).object
  have hshort : [Value.date ⟨days⟩].length < 2 ^ 58 := show 1 < 2 ^ 58 by decide
  have hsize : (encodeDataChunk .words .floatless (columnChunk dateType [.date ⟨days⟩])).AtMost
      (13 + (17 * 1 + 128)) := atMost_columnChunk hphysical rfl (by decide) hshort htype hmemory
  obtain ⟨bytes, hbytes, hreads⟩ := roundTrips_dataChunk hmemory hfits hstorable
  have hheld : Held bytes := (hsize bytes hbytes).trans (by decide)
  have hrun := hreads ⟨bytes, 0⟩ ⟨Nat.zero_le _, hheld⟩ [] trivial (by simp [Cursor.unread])
  have hstored : stored .floatless dateType (.date ⟨days⟩) = .date ⟨days⟩ := by
    have hid : dateType.id ≠ .enum := by decide
    exact stored_fixed hphysical rfl (fun h => by cases h)
      (storedFixed_scalar hphysical rfl hid hscalar Primitives.floatless_back)
  refine ⟨bytes, _, _, hrun, _, List.mem_singleton_self _, ?_⟩
  exact List.mem_singleton.mpr hstored.symm

/-- The day of DATE 'infinity' has neither a JSON text nor a literal. -/
theorem not_renders_latestDate : IsRead .words (.date ⟨BitVec.intMax 32⟩) ∧
    toJsonValue .floatless .blank (fun _ => "") .standard (.date ⟨BitVec.intMax 32⟩) = .panic .overflow ∧
    ¬ Renders .floatless .blank (fun _ => "") .standard (.date ⟨BitVec.intMax 32⟩) := by
  refine ⟨isRead_date _, rfl, fun h => h.json⟩

end QuackProtocol
