import QuackProtocol.ArrowSlots
import QuackProtocol.Copies
import QuackProtocol.JsonTexts

/-! What JSON keeps of rows. Two rows of the same columns have the same JSON exactly when their values are the
same, whatever the options, but for the floating-point numbers that JSON has no number for: those become null. -/

open Decoding

namespace QuackProtocol

section
variable (prims : Primitives)

mutual

/-- The value with null for the floating-point numbers that JSON has no number for. -/
def shown : Value → Value
  | .float bits => if F64.isFinite (prims.f32ToF64 bits) then .float bits else .null
  | .double bits => if F64.isFinite bits then .double bits else .null
  | .list values => .list (shownItems values)
  | .struct row => .struct (shownFields row)
  | value => value

def shownItems : List Value → List Value
  | [] => []
  | value :: values => shown value :: shownItems values

def shownFields : List (String × Value) → List (String × Value)
  | [] => []
  | (key, value) :: row => (key, shown value) :: shownFields row

end

end

section
variable {prims : Primitives}

theorem shownItems_eq (values : List Value) : shownItems prims values = values.map (shown prims) := by
  induction values with
  | nil => rfl
  | cons value values ih => rw [shownItems, ih, List.map_cons]

theorem get_shownFields (row : Row) (name : String) :
    Row.get (shownFields prims row) name = (Row.get row name).map (shown prims) := by
  induction row with
  | nil => rfl
  | cons field row ih =>
      obtain ⟨key, value⟩ := field
      rw [shownFields, Row.get, Row.get]
      split
      · rfl
      · exact ih

theorem same_null_iff {value : Value} : Value.Same .null value ↔ value = .null := by
  constructor
  · rintro ⟨⟩
    rfl
  · rintro rfl
    exact .refl _

theorem same_iff_null {value : Value} : Value.Same value .null ↔ value = .null := by
  constructor
  · rintro ⟨⟩
    rfl
  · rintro rfl
    exact .refl _

theorem same_list_iff {values values' : List Value} :
    Value.Same (.list values) (.list values') ↔ List.Forall₂ Value.Same values values' := by
  constructor
  · intro h
    have hlength : values.length = values'.length := by
      cases h with
      | refl => rfl
      | list length => exact length
    exact List.forall₂_iff_get.mpr ⟨hlength, h.items⟩
  · intro h
    obtain ⟨hlength, hitems⟩ := List.forall₂_iff_get.mp h
    exact .list hlength hitems

/-- Lists that come of other lists, item by item, are equal where the items they come of are alike. -/
theorem forall₂_eq_iff {α β γ : Type} {R : α → γ → Prop} {R' : β → γ → Prop} {S : α → β → Prop}
    {items : List α} {items' : List β} {results results' : List γ} (h : List.Forall₂ R items results)
    (h' : List.Forall₂ R' items' results')
    (hitems : ∀ item ∈ items, ∀ item' ∈ items', ∀ result result', R item result → R' item' result' →
      (result = result' ↔ S item item')) : results = results' ↔ List.Forall₂ S items items' := by
  induction h generalizing items' results' with
  | nil => cases h' <;> simp
  | cons hfirst hrest ih =>
      cases h' with
      | nil => simp
      | cons hfirst' hrest' =>
          rw [List.cons.injEq, List.forall₂_cons, ih hrest' fun item hmem item' hmem' =>
              hitems item (List.mem_cons_of_mem _ hmem) item' (List.mem_cons_of_mem _ hmem'),
            hitems _ (List.mem_cons_self ..) _ (List.mem_cons_self ..) _ _ hfirst hfirst']

end

/-- Values of one kind. -/
inductive Alike : Value → Value → Prop where
  | bool (b c : Bool) : Alike (.bool b) (.bool c)
  | int (m n : I64) : Alike (.int m) (.int n)
  | uint (m n : U64) : Alike (.uint m) (.uint n)
  | hugeInt (m n : I128) : Alike (.hugeInt m) (.hugeInt n)
  | uhugeInt (m n : U128) : Alike (.uhugeInt m) (.uhugeInt n)
  | float (m n : F32) : Alike (.float m) (.float n)
  | double (m n : F64) : Alike (.double m) (.double n)
  | string (s t : String) : Alike (.string s) (.string t)
  | bytes (raw raw' : Bytes) : Alike (.bytes raw) (.bytes raw')
  | decimal (width scale : U64) (m n : I128) : Alike (.decimal ⟨m, width, scale⟩) (.decimal ⟨n, width, scale⟩)
  | date (d e : DateValue) : Alike (.date d) (.date e)
  | time (unit : TimeUnit) (m n : I64) : Alike (.time ⟨unit, m⟩) (.time ⟨unit, n⟩)
  | timeTz (m n : TimeTzValue) : Alike (.timeTz m) (.timeTz n)
  | timestamp (unit : TimestampUnit) (timezoneUtc : Bool) (m n : I64) :
      Alike (.timestamp ⟨unit, m, timezoneUtc⟩) (.timestamp ⟨unit, n, timezoneUtc⟩)
  | interval (m n : IntervalValue) : Alike (.interval m) (.interval n)

/-- The values of a scalar column are of one kind. -/
theorem ScalarOf.alike {T : LogicalType} {v w : Value} (hv : ScalarOf T v) (hw : ScalarOf T w) : Alike v w := by
  unfold ScalarOf at hv hw
  cases hid : T.id <;> simp only [hid] at hv hw
  case enum =>
    obtain ⟨s, _, rfl, -⟩ := hv
    obtain ⟨t, _, rfl, -⟩ := hw
    exact .string s t
  case decimal =>
    obtain ⟨m, width, scale, _, _, rfl, hscale, -⟩ := hv
    obtain ⟨n, _, _, _, _, rfl, hscale', -⟩ := hw
    cases hscale.symm.trans hscale'
    exact .decimal width scale m n
  all_goals
    first
    | obtain ⟨m, rfl⟩ := hv
      obtain ⟨n, rfl⟩ := hw
    | obtain ⟨m, rfl, -⟩ := hv
      obtain ⟨n, rfl, -⟩ := hw
    constructor

section
variable {prims : Primitives} {calendar : Calendar} {base64 : Bytes → String} {options : JsonOptions}

/-- Values of one kind that have one JSON are shown as one. -/
theorem alike_shown (hcalendar : PrintsDistinct calendar) (hbase64 : Function.Injective base64)
    (hfloat : ∀ bits, prims.f64ToF32 (prims.f32ToF64 bits) = bits) {v w : Value} {json : JsonValue}
    (h : Alike v w) (hv : toJsonValue prims calendar base64 options v = .ok json)
    (hw : toJsonValue prims calendar base64 options w = .ok json) : shown prims v = shown prims w := by
  cases h with
  | bool b c =>
      cases hv
      cases hw
      rfl
  | int m n =>
      have hsame := bigintToJson_injective (Outcome.lift_eq_ok hv) (Outcome.lift_eq_ok hw)
      have hwidth := congrArg (BitVec.setWidth 64) hsame
      rw [setWidth_signExtend_i64, setWidth_signExtend_i64] at hwidth
      rw [hwidth]
  | uint m n =>
      have hsame := unsignedBigintToJson_injective (Outcome.lift_eq_ok hv) (Outcome.lift_eq_ok hw)
      have hwidth := congrArg (BitVec.setWidth 64) hsame
      rw [toNat_setWidth_u64, toNat_setWidth_u64] at hwidth
      rw [hwidth]
  | hugeInt m n => rw [bigintToJson_injective (Outcome.lift_eq_ok hv) (Outcome.lift_eq_ok hw)]
  | uhugeInt m n => rw [unsignedBigintToJson_injective (Outcome.lift_eq_ok hv) (Outcome.lift_eq_ok hw)]
  | float m n =>
      obtain ⟨hfinite, hsame⟩ := ofF64_shown (Outcome.ok.inj (hv.trans hw.symm))
      rw [shown, shown]
      by_cases h : F64.isFinite (prims.f32ToF64 m) = true
      · have hbits := congrArg prims.f64ToF32 (hsame h)
        rw [hfloat, hfloat] at hbits
        rw [hbits]
      · rw [if_neg h, if_neg (hfinite.not.mp h)]
  | double m n =>
      obtain ⟨hfinite, hsame⟩ := ofF64_shown (Outcome.ok.inj (hv.trans hw.symm))
      rw [shown, shown]
      by_cases h : F64.isFinite m = true
      · rw [hsame h]
      · rw [if_neg h, if_neg (hfinite.not.mp h)]
  | string s t =>
      cases hv
      cases hw
      rfl
  | bytes raw raw' => rw [bytesToJson_injective hbase64 (Outcome.ok.inj (hv.trans hw.symm))]
  | decimal width scale m n => rw [decimalToJson_injective hv hw]
  | date d e => rw [dateToJson_injective hcalendar hv hw]
  | time unit m n => rw [timeToJson_injective (Outcome.ok.inj (hv.trans hw.symm))]
  | timeTz m n =>
      obtain ⟨m⟩ := m
      obtain ⟨n⟩ := n
      have hvalues := ofEntries_values (Outcome.ok.inj (hv.trans hw.symm)) (by simp) (by simp)
      simp only [List.map_cons, List.cons.injEq, JsonValue.string.injEq] at hvalues
      rw [displayInt_injective hvalues.2.1]
  | timestamp unit timezoneUtc m n =>
      rw [timestampToJson_injective hcalendar (Outcome.lift_eq_ok hv) (Outcome.lift_eq_ok hw)]
  | interval m n =>
      obtain ⟨months, days, micros⟩ := m
      obtain ⟨months', days', micros'⟩ := n
      have hvalues := ofEntries_values (Outcome.ok.inj (hv.trans hw.symm)) (by simp) (by simp)
      simp only [List.map_cons, List.cons.injEq] at hvalues
      obtain ⟨-, hmonths, hdays, hmicros, -⟩ := hvalues
      rw [widened_injective hmonths, widened_injective hdays, displayInt_injective (JsonValue.string.inj hmicros)]

theorem toJsonValues_ok {values : List Value} {jsons : List JsonValue}
    (h : toJsonValues prims calendar base64 options values = .ok jsons) :
    List.Forall₂ (fun value json => toJsonValue prims calendar base64 options value = .ok json) values jsons := by
  induction values generalizing jsons with
  | nil =>
      cases h
      exact .nil
  | cons value values ih =>
      obtain ⟨json, hvalue, h⟩ := Outcome.bind_eq_ok h
      obtain ⟨rest, hrest, h⟩ := Outcome.bind_eq_ok h
      cases h
      exact .cons hvalue (ih hrest)

/-- The loop over the fields inserts the entries that they are converted to. -/
theorem toJsonEntries_ok {object entries : List (String × JsonValue)} {row : Row}
    (h : toJsonEntries prims calendar base64 options object row = .ok entries) : ∃ converted,
      List.Forall₂ (fun field entry => entry.1 = field.1 ∧
        toJsonValue prims calendar base64 options field.2 = .ok entry.2) row converted ∧
      entries = inserted object converted := by
  induction row generalizing object with
  | nil =>
      cases h
      exact ⟨[], .nil, rfl⟩
  | cons field row ih =>
      obtain ⟨key, value⟩ := field
      obtain ⟨json, hvalue, h⟩ := Outcome.bind_eq_ok h
      obtain ⟨converted, hconverted, rfl⟩ := ih h
      exact ⟨(key, json) :: converted, .cons ⟨rfl, hvalue⟩ hconverted, rfl⟩

theorem exists_of_forall₂ {α β : Type} {R : α → β → Prop} {items : List α} {results : List β}
    (h : List.Forall₂ R items results) {item : α} (hmem : item ∈ items) : ∃ result ∈ results, R item result := by
  induction h with
  | nil => cases hmem
  | cons hfirst _ ih =>
      rcases List.mem_cons.mp hmem with rfl | hmem
      · exact ⟨_, List.mem_cons_self .., hfirst⟩
      · obtain ⟨result, hresult, hrelated⟩ := ih hmem
        exact ⟨result, List.mem_cons_of_mem _ hresult, hrelated⟩

/-- An object that a row is converted to: its entries are the fields of the row. -/
structure ShowsRow (prims : Primitives) (calendar : Calendar) (base64 : Bytes → String) (options : JsonOptions)
    (row : Row) (entries : List (String × JsonValue)) : Prop where
  ascending : Ascending entries
  shows : ∀ key value, Row.get row key = some value →
    ∃ json, toJsonValue prims calendar base64 options value = .ok json ∧ (key, json) ∈ entries
  only : ∀ key json, (key, json) ∈ entries → ∃ value, Row.get row key = some value ∧
    toJsonValue prims calendar base64 options value = .ok json

theorem showsRow_toJsonEntries {entries : List (String × JsonValue)} {row : Row}
    (hkeys : (row.map Prod.fst).Nodup)
    (h : toJsonEntries prims calendar base64 options [] row = .ok entries) :
    ShowsRow prims calendar base64 options row entries := by
  obtain ⟨converted, hconverted, rfl⟩ := toJsonEntries_ok h
  have hsame : row.map Prod.fst = converted.map Prod.fst := by
    rw [← List.forall₂_eq_eq_eq, List.forall₂_map_left_iff, List.forall₂_map_right_iff]
    exact hconverted.imp fun _ _ hentry => hentry.1.symm
  have hmem := mem_inserted_nil (hsame ▸ hkeys)
  refine ⟨ascending_inserted .nil, fun key value hvalue => ?_, fun key json hjson => ?_⟩
  · obtain ⟨⟨_, json⟩, hentry, rfl, hvalue⟩ := exists_of_forall₂ hconverted (Row.mem_of_get hvalue)
    exact ⟨json, hvalue, (hmem _).mpr hentry⟩
  · obtain ⟨⟨_, value⟩, hfield, rfl, hvalue⟩ := exists_of_forall₂ hconverted.flip ((hmem _).mp hjson)
    exact ⟨value, Row.get_of_mem hkeys hfield, hvalue⟩

section
variable {row row' : Row} {entries entries' : List (String × JsonValue)}

/-- Rows with one object have the same fields, with the same JSON. -/
theorem ShowsRow.shared (h : ShowsRow prims calendar base64 options row entries)
    (h' : ShowsRow prims calendar base64 options row' entries) {key : String} {value : Value}
    (hvalue : Row.get row key = some value) : ∃ value' json, Row.get row' key = some value' ∧
      toJsonValue prims calendar base64 options value = .ok json ∧
      toJsonValue prims calendar base64 options value' = .ok json := by
  obtain ⟨json, hjson, hmem⟩ := h.shows key value hvalue
  obtain ⟨value', hvalue', hjson'⟩ := h'.only key json hmem
  exact ⟨value', json, hvalue', hjson, hjson'⟩

theorem ShowsRow.isSome (h : ShowsRow prims calendar base64 options row entries)
    (h' : ShowsRow prims calendar base64 options row' entries) (key : String) :
    (Row.get row key).isSome = (Row.get row' key).isSome := by
  rw [Bool.eq_iff_iff, Option.isSome_iff_exists, Option.isSome_iff_exists]
  constructor
  · rintro ⟨value, hvalue⟩
    obtain ⟨value', -, hvalue', -⟩ := h.shared h' hvalue
    exact ⟨value', hvalue'⟩
  · rintro ⟨value, hvalue⟩
    obtain ⟨value', -, hvalue', -⟩ := h'.shared h hvalue
    exact ⟨value', hvalue'⟩

/-- Where the fields of a row have the JSON of the same fields of another row, so do the entries. -/
theorem ShowsRow.subset (h : ShowsRow prims calendar base64 options row entries)
    (h' : ShowsRow prims calendar base64 options row' entries')
    (hnames : ∀ key, (Row.get row key).isSome → (Row.get row' key).isSome)
    (hequal : ∀ key value value' json json', Row.get row key = some value → Row.get row' key = some value' →
      toJsonValue prims calendar base64 options value = .ok json →
      toJsonValue prims calendar base64 options value' = .ok json' → json = json') : entries ⊆ entries' := by
  rintro ⟨key, json⟩ hmem
  obtain ⟨value, hvalue, hjson⟩ := h.only key json hmem
  have hname := hnames key (Option.isSome_iff_exists.mpr ⟨value, hvalue⟩)
  obtain ⟨value', hvalue'⟩ := Option.isSome_iff_exists.mp hname
  obtain ⟨json', hjson', hmem'⟩ := h'.shows key value' hvalue'
  rwa [hequal key value value' json json' hvalue hvalue' hjson hjson']

theorem isSome_shownFields (row : Row) (key : String) :
    (Row.get (shownFields prims row) key).isSome = (Row.get row key).isSome := by
  rw [get_shownFields, Option.isSome_map]

/-- Where field for field the JSON tells what is shown, so do the objects. -/
theorem ShowsRow.eq_iff (h : ShowsRow prims calendar base64 options row entries)
    (h' : ShowsRow prims calendar base64 options row' entries')
    (hfields : ∀ key value value' json json', Row.get row key = some value → Row.get row' key = some value' →
      toJsonValue prims calendar base64 options value = .ok json →
      toJsonValue prims calendar base64 options value' = .ok json' →
        (json = json' ↔ Value.Same (shown prims value) (shown prims value'))) :
    entries = entries' ↔
      Value.Same (.struct (shownFields prims row)) (.struct (shownFields prims row')) := by
  constructor
  · rintro rfl
    refine .struct (fun key => ?_) fun key field field' hfield hfield' => ?_
    · rw [isSome_shownFields, isSome_shownFields, h.isSome h']
    · rw [get_shownFields, Option.map_eq_some_iff] at hfield hfield'
      obtain ⟨value, hvalue, rfl⟩ := hfield
      obtain ⟨value', hvalue', rfl⟩ := hfield'
      obtain ⟨other, json, hother, hjson, hjson'⟩ := h.shared h' hvalue
      cases hvalue'.symm.trans hother
      exact (hfields key value value' json json hvalue hvalue' hjson hjson').mp rfl
  · intro hsame
    have hnames : ∀ key, (Row.get row key).isSome ↔ (Row.get row' key).isSome := fun key => by
      rw [← @isSome_shownFields prims, Row.get_isSome, hsame.names, ← Row.get_isSome, isSome_shownFields]
    have hequal : ∀ key value value' json json', Row.get row key = some value → Row.get row' key = some value' →
        toJsonValue prims calendar base64 options value = .ok json →
        toJsonValue prims calendar base64 options value' = .ok json' → json = json' := by
      intro key value value' json json' hvalue hvalue' hjson hjson'
      apply (hfields key value value' json json' hvalue hvalue' hjson hjson').mpr
      refine @Value.Same.fields _ _ hsame key _ _ ?_ ?_
      · rw [get_shownFields, hvalue, Option.map_some]
      · rw [get_shownFields, hvalue', Option.map_some]
    have hsub := h.subset h' (fun key => (hnames key).mp) hequal
    have hsup := h'.subset h (fun key => (hnames key).mpr)
      fun key value value' json json' hvalue hvalue' hjson hjson' =>
        (hequal key value' value json' json hvalue' hvalue hjson' hjson).symm
    exact ascending_ext h.ascending h'.ascending fun entry => ⟨@hsub entry, @hsup entry⟩

end

theorem bigintToJson_ne_null {value : I128} {mode : BigIntJsonMode} : bigintToJson value mode ≠ .ok .null := by
  intro h
  cases mode with
  | string => cases h
  | number =>
      rw [bigintToJson] at h
      split at h <;> cases h

theorem unsignedBigintToJson_ne_null {value : U128} {mode : BigIntJsonMode} :
    unsignedBigintToJson value mode ≠ .ok .null := by
  intro h
  cases mode with
  | string => cases h
  | number =>
      rw [unsignedBigintToJson] at h
      split at h <;> cases h

/-- What has null for its JSON is shown as null. -/
theorem toJsonValue_null_iff {value : Value} {json : JsonValue}
    (h : toJsonValue prims calendar base64 options value = .ok json) :
    json = .null ↔ shown prims value = .null := by
  have hnone : json ≠ .null → shown prims value = value → value ≠ .null →
      (json = .null ↔ shown prims value = .null) := fun hjson hshown hvalue =>
    iff_of_false hjson fun heq => hvalue (hshown.symm.trans heq)
  cases value with
  | null =>
      cases h
      exact iff_of_true rfl rfl
  | float bits =>
      cases h
      rw [JsonValue.ofF64, shown]
      split <;> simp
  | double bits =>
      cases h
      rw [JsonValue.ofF64, shown]
      split <;> simp
  | int value | hugeInt value =>
      refine hnone (fun heq => ?_) rfl (fun heq => by cases heq)
      exact bigintToJson_ne_null (heq ▸ Outcome.lift_eq_ok h)
  | uint value | uhugeInt value =>
      refine hnone (fun heq => ?_) rfl (fun heq => by cases heq)
      exact unsignedBigintToJson_ne_null (heq ▸ Outcome.lift_eq_ok h)
  | bytes raw =>
      cases h
      refine hnone (fun heq => ?_) rfl (fun heq => by cases heq)
      cases hmode : options.bytes <;> rw [hmode] at heq <;> cases heq
  | decimal value =>
      refine hnone (fun heq => ?_) rfl (fun heq => by cases heq)
      subst heq
      rw [toJsonValue, decimalToJson] at h
      cases hmode : options.decimal <;> simp only [hmode] at h
      · obtain ⟨_, -, h⟩ := Outcome.bind_eq_ok h
        cases h
      · cases h
  | date value =>
      refine hnone (fun heq => ?_) rfl (fun heq => by cases heq)
      subst heq
      rw [toJsonValue, dateToJson] at h
      cases hmode : options.date <;> simp only [hmode] at h
      · obtain ⟨_, -, h⟩ := Outcome.bind_eq_ok h
        cases h
      · cases h
  | time value =>
      cases h
      refine hnone (fun heq => ?_) rfl (fun heq => by cases heq)
      rw [timeToJson] at heq
      cases hmode : options.time <;> simp only [hmode] at heq <;> cases heq
  | timestamp value =>
      refine hnone (fun heq => ?_) rfl (fun heq => by cases heq)
      subst heq
      have h := Outcome.lift_eq_ok h
      rw [timestampToJson] at h
      cases hmode : options.timestamp <;> simp only [hmode] at h
      · obtain ⟨_, -, h⟩ := Except.bind_eq_ok h
        cases h
      · cases h
  | list values =>
      obtain ⟨jsons, -, h⟩ := Outcome.bind_eq_ok h
      cases h
      exact iff_of_false (fun heq => by cases heq) fun heq => by cases heq
  | struct row =>
      obtain ⟨entries, -, h⟩ := Outcome.bind_eq_ok h
      cases h
      exact iff_of_false (fun heq => by cases heq) fun heq => by cases heq
  | bool | string | timeTz | interval =>
      cases h
      exact hnone (fun heq => by cases heq) rfl (fun heq => by cases heq)

/-- A leaf and what is shown of it have the same JSON. -/
theorem toJsonValue_shown {value : Value} (hflat : (∀ items, value ≠ .list items) ∧ ∀ row, value ≠ .struct row) :
    toJsonValue prims calendar base64 options (shown prims value) =
      toJsonValue prims calendar base64 options value := by
  cases value with
  | float bits =>
      rw [shown]
      split
      · rfl
      · rename_i hfinite
        rw [toJsonValue, toJsonValue, JsonValue.ofF64, if_neg hfinite]
  | double bits =>
      rw [shown]
      split
      · rfl
      · rename_i hfinite
        rw [toJsonValue, toJsonValue, JsonValue.ofF64, if_neg hfinite]
  | list items => exact absurd rfl (hflat.1 items)
  | struct row => exact absurd rfl (hflat.2 row)
  | _ => rfl

theorem same_flat_iff {v w : Value} (hflat : (∀ items, v ≠ .list items) ∧ ∀ row, v ≠ .struct row) :
    Value.Same v w ↔ v = w := by
  constructor
  · rintro ⟨⟩
    · rfl
    · exact absurd rfl (hflat.1 _)
    · exact absurd rfl (hflat.2 _)
  · rintro rfl
    exact .refl _

theorem shown_flat {v : Value} (hflat : (∀ items, v ≠ .list items) ∧ ∀ row, v ≠ .struct row) :
    (∀ items, shown prims v ≠ .list items) ∧ ∀ row, shown prims v ≠ .struct row := by
  cases v with
  | float bits | double bits =>
      rw [shown]
      split <;> exact ⟨fun _ heq => (by cases heq), fun _ heq => (by cases heq)⟩
  | list items => exact absurd rfl (hflat.1 items)
  | struct row => exact absurd rfl (hflat.2 row)
  | _ => exact hflat

/-- Where item for item the JSON tells what is shown, so do the arrays. -/
theorem toJsonValue_list_eq_iff {items items' : List Value} {json json' : JsonValue}
    (h : toJsonValue prims calendar base64 options (.list items) = .ok json)
    (h' : toJsonValue prims calendar base64 options (.list items') = .ok json')
    (hitems : ∀ item ∈ items, ∀ item' ∈ items', ∀ json json',
      toJsonValue prims calendar base64 options item = .ok json →
      toJsonValue prims calendar base64 options item' = .ok json' →
        (json = json' ↔ Value.Same (shown prims item) (shown prims item'))) :
    json = json' ↔ Value.Same (shown prims (.list items)) (shown prims (.list items')) := by
  obtain ⟨jsons, hjsons, h⟩ := Outcome.bind_eq_ok h
  obtain ⟨jsons', hjsons', h'⟩ := Outcome.bind_eq_ok h'
  cases h
  cases h'
  rw [JsonValue.array.injEq, forall₂_eq_iff (toJsonValues_ok hjsons) (toJsonValues_ok hjsons') hitems, shown,
    shown, same_list_iff, shownItems_eq, shownItems_eq, List.forall₂_map_left_iff, List.forall₂_map_right_iff]

/-- Two values of a column have one JSON exactly when they are shown as the same value. -/
theorem toJsonValue_eq_iff (hcalendar : PrintsDistinct calendar) (hbase64 : Function.Injective base64)
    (hfloat : ∀ bits, prims.f64ToF32 (prims.f32ToF64 bits) = bits) {T : LogicalType} {v w : Value}
    {json json' : JsonValue} (hT : Encodable T) (hv : Canonical T v) (hw : Canonical T w)
    (h : toJsonValue prims calendar base64 options v = .ok json)
    (h' : toJsonValue prims calendar base64 options w = .ok json') :
    json = json' ↔ Value.Same (shown prims v) (shown prims w) := by
  induction hv generalizing w json json' with
  | null T =>
      cases h
      rw [eq_comm, @toJsonValue_null_iff prims _ _ _ _ _ h']
      exact same_null_iff.symm
  | @scalar T v scalarOf =>
      cases hw with
      | null =>
          cases h'
          rw [@toJsonValue_null_iff prims _ _ _ _ _ h]
          exact same_iff_null.symm
      | scalar scalarOf' =>
          rw [same_flat_iff (shown_flat scalarOf.flat)]
          constructor
          · rintro rfl
            exact alike_shown hcalendar hbase64 hfloat (scalarOf.alike scalarOf') h h'
          · intro hshown
            rw [← toJsonValue_shown scalarOf.flat, hshown, toJsonValue_shown scalarOf'.flat, h'] at h
            exact (Outcome.ok.inj h).symm
      | struct physical => exact absurd physical scalarOf.flatType.1
      | list physical => exact absurd physical scalarOf.flatType.2.1
      | array physical => exact absurd physical scalarOf.flatType.2.2
  | @struct T children row physical structChildren names fields ih =>
      cases hw with
      | null =>
          cases h'
          rw [@toJsonValue_null_iff prims _ _ _ _ _ h]
          exact same_iff_null.symm
      | scalar scalarOf => exact absurd physical scalarOf.flatType.1
      | @struct _ _ row' _ structChildren' names' fields' =>
          cases structChildren.symm.trans structChildren'
          obtain ⟨distinct, hinside⟩ := hT.fields physical structChildren
          obtain ⟨entries, hentries, h⟩ := Outcome.bind_eq_ok h
          obtain ⟨entries', hentries', h'⟩ := Outcome.bind_eq_ok h'
          cases h
          cases h'
          rw [JsonValue.object.injEq]
          refine (showsRow_toJsonEntries (names.nodup_iff.mpr distinct) hentries).eq_iff
            (showsRow_toJsonEntries (names'.nodup_iff.mpr distinct) hentries') ?_
          intro key value value' json json' hvalue hvalue' hjson hjson'
          have hname := names.mem_iff.mp (Row.get_isSome.mp (Option.isSome_iff_exists.mpr ⟨value, hvalue⟩))
          obtain ⟨child, hchild, rfl⟩ := List.mem_map.mp hname
          exact ih child hchild value hvalue (hinside child hchild) (fields' child hchild value' hvalue') hjson
            hjson'
      | list physical' | array physical' => cases physical.symm.trans physical'
  | @list T childType items physical child inside ih =>
      cases hw with
      | null =>
          cases h'
          rw [@toJsonValue_null_iff prims _ _ _ _ _ h]
          exact same_iff_null.symm
      | scalar scalarOf => exact absurd physical scalarOf.flatType.2.1
      | struct physical' | array physical' => cases physical.symm.trans physical'
      | list _ child' inside' =>
          cases child.symm.trans child'
          exact toJsonValue_list_eq_iff h h' fun item hmem item' hmem' _ _ =>
            ih item hmem (hT.items (.inl physical) child) (inside' item' hmem')
  | @array T childType size items physical child arraySize length inside ih =>
      cases hw with
      | null =>
          cases h'
          rw [@toJsonValue_null_iff prims _ _ _ _ _ h]
          exact same_iff_null.symm
      | scalar scalarOf => exact absurd physical scalarOf.flatType.2.2
      | struct physical' | list physical' => cases physical.symm.trans physical'
      | array _ child' _ _ inside' =>
          cases child.symm.trans child'
          exact toJsonValue_list_eq_iff h h' fun item hmem item' hmem' _ _ =>
            ih item hmem (hT.items (.inr physical) child) (inside' item' hmem')

/-! ### Rows -/

/-- A row of the columns, with values that belong to them. -/
structure RowOf (columns : List ColumnDefinition) (row : Row) : Prop where
  names : row.map Prod.fst = columns.map ColumnDefinition.name
  values : ∀ column ∈ columns, ∀ value, Row.get row column.name = some value → Canonical column.logicalType value

theorem toJsonRows_ok {rows : List Row} {jsons : List JsonValue}
    (h : toJsonRows prims calendar base64 options rows = .ok jsons) :
    List.Forall₂ (fun row json => toJsonRow prims calendar base64 options row = .ok json) rows jsons := by
  induction rows generalizing jsons with
  | nil =>
      cases h
      exact .nil
  | cons row rows ih =>
      obtain ⟨json, hrow, h⟩ := Outcome.bind_eq_ok h
      obtain ⟨rest, hrest, h⟩ := Outcome.bind_eq_ok h
      cases h
      exact .cons hrow (ih hrest)

/-- Whatever the options, rows of the same columns have the same JSON exactly when their values are the same,
but for the floating-point numbers that JSON has no number for. -/
theorem toJsonRows_eq_iff (hcalendar : PrintsDistinct calendar) (hbase64 : Function.Injective base64)
    (hfloat : ∀ bits, prims.f64ToF32 (prims.f32ToF64 bits) = bits) {columns : List ColumnDefinition}
    {rows rows' : List Row} {jsons jsons' : List JsonValue}
    (hnames : (columns.map ColumnDefinition.name).Nodup)
    (htypes : ∀ column ∈ columns, Encodable column.logicalType)
    (hrows : ∀ row ∈ rows, RowOf columns row) (hrows' : ∀ row ∈ rows', RowOf columns row)
    (h : toJsonRows prims calendar base64 options rows = .ok jsons)
    (h' : toJsonRows prims calendar base64 options rows' = .ok jsons') :
    jsons = jsons' ↔ List.Forall₂ (fun row row' =>
      Value.Same (.struct (shownFields prims row)) (.struct (shownFields prims row'))) rows rows' := by
  refine forall₂_eq_iff (toJsonRows_ok h) (toJsonRows_ok h') ?_
  intro row hrow row' hrow' json json' h h'
  have hrow := hrows row hrow
  have hrow' := hrows' row' hrow'
  obtain ⟨entries, hentries, h⟩ := Outcome.bind_eq_ok h
  obtain ⟨entries', hentries', h'⟩ := Outcome.bind_eq_ok h'
  cases h
  cases h'
  rw [JsonValue.object.injEq]
  refine (showsRow_toJsonEntries (hrow.names ▸ hnames) hentries).eq_iff
    (showsRow_toJsonEntries (hrow'.names ▸ hnames) hentries') ?_
  intro key value value' json json' hvalue hvalue' hjson hjson'
  have hname := Row.get_isSome.mp (Option.isSome_iff_exists.mpr ⟨value, hvalue⟩)
  rw [hrow.names] at hname
  obtain ⟨column, hcolumn, rfl⟩ := List.mem_map.mp hname
  exact toJsonValue_eq_iff hcalendar hbase64 hfloat (htypes column hcolumn)
    (hrow.values column hcolumn value hvalue) (hrow'.values column hcolumn value' hvalue') hjson hjson'

end

/-- A BIGINT and a list of DOUBLEs. -/
def measuredColumns : List ColumnDefinition :=
  [⟨"n", LogicalTypes.scalar .bigInt⟩, ⟨"a", LogicalTypes.list (LogicalTypes.scalar .double)⟩]

def measuredRow (number : I64) (ratios : List Value) : Row := [("n", .int number), ("a", .list ratios)]

/-- The bits of a number that is none. -/
def notANumber : F64 := 0x7ff8000000000000

theorem rowOf_measured {number : I64} {ratios : List Value}
    (h : ∀ ratio ∈ ratios, ratio = .null ∨ ∃ bits, ratio = .double bits) :
    RowOf measuredColumns (measuredRow number ratios) := by
  refine ⟨rfl, fun column hcolumn value hvalue => ?_⟩
  simp only [measuredColumns, List.mem_cons, List.not_mem_nil, or_false] at hcolumn
  rcases hcolumn with rfl | rfl
  · cases hvalue
    exact .scalar ⟨number, rfl⟩
  · cases hvalue
    refine .list rfl rfl fun ratio hmem => ?_
    rcases h ratio hmem with rfl | ⟨bits, rfl⟩
    · exact .null _
    · exact .scalar ⟨bits, rfl⟩

theorem encodable_measured : ∀ column ∈ measuredColumns, Encodable column.logicalType := by
  have hscalar (id : LogicalTypeId) (hid : id ≠ .enum) {physicalType : PhysicalType}
      (physical : getPhysicalType (LogicalTypes.scalar id) = .ok physicalType)
      (size : isConstantSizePhysicalType physicalType = true) : Encodable (LogicalTypes.scalar id) :=
    .fixed physical size fun h => absurd h hid
  intro column hcolumn
  simp only [measuredColumns, List.mem_cons, List.not_mem_nil, or_false] at hcolumn
  rcases hcolumn with rfl | rfl
  · exact hscalar .bigInt (by decide) rfl rfl
  · exact .list rfl rfl (hscalar .double (by decide) rfl rfl)

/-- A list with a number that is none has the JSON of the list with NULL in its place, and the other values are
what they were. -/
theorem toJsonRows_eq_iff_notANumber : List.Forall₂ (fun row row' =>
      Value.Same (.struct (shownFields .floatless row)) (.struct (shownFields .floatless row')))
    [measuredRow 9007199254740993 [.double notANumber, .double 1, .null], measuredRow (-7) []]
    [measuredRow 9007199254740993 [.null, .double 1, .null], measuredRow (-7) []] := by
  have hrow (number : I64) (first : Value) (hfirst : first = .null ∨ ∃ bits, first = .double bits) :
      ∀ row ∈ [measuredRow number [first, .double 1, .null], measuredRow (-7) []], RowOf measuredColumns row := by
    refine List.forall_mem_cons.mpr ⟨rowOf_measured fun ratio hmem => ?_, List.forall_mem_singleton.mpr ?_⟩
    · simp only [List.mem_cons, List.not_mem_nil, or_false] at hmem
      rcases hmem with rfl | rfl | rfl
      · exact hfirst
      · exact .inr ⟨1, rfl⟩
      · exact .inl rfl
    · exact rowOf_measured fun _ hmem => absurd hmem List.not_mem_nil
  have hsame : toJsonRows .floatless .epoch (fun raw => String.ofList (bytesToHex raw)) .standard
      [measuredRow 9007199254740993 [.double notANumber, .double 1, .null], measuredRow (-7) []] =
    toJsonRows .floatless .epoch (fun raw => String.ofList (bytesToHex raw)) .standard
      [measuredRow 9007199254740993 [.null, .double 1, .null], measuredRow (-7) []] := rfl
  obtain ⟨jsons, hjsons⟩ : ∃ jsons, toJsonRows .floatless .epoch (fun raw => String.ofList (bytesToHex raw))
      .standard [measuredRow 9007199254740993 [.null, .double 1, .null], measuredRow (-7) []] = .ok jsons :=
    ⟨_, rfl⟩
  exact (toJsonRows_eq_iff Calendar.epoch_distinct (fun _ _ h => bytesToHex_injective (String.ofList_injective h))
    (fun bits => by simp [Primitives.floatless]) (by decide) encodable_measured
    (hrow _ _ (.inr ⟨notANumber, rfl⟩)) (hrow _ _ (.inl rfl)) (hsame.trans hjsons) hjsons).mp rfl

end QuackProtocol
