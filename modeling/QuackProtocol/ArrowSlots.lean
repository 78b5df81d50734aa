import Mathlib.Data.List.Forall2
import QuackProtocol.Arrow
import QuackProtocol.CanonicalValues

/-! What the Arrow arrays of the bridge hold, slot by slot, and the values that the slots are read back
as. The children of many rows lie one after the other in one child array, so a row finds its own by
the rows before it. -/

open Decoding Narrowing

namespace QuackProtocol

inductive Slot where
  | null
  | scalar (value : Scalar)
  | list (items : List Slot)
  | struct (fields : List Slot)

namespace ArrowArray

/-- The slots of an array: a list slot is the child's between two offsets, a slot of fixed size the
child's window, and a struct slot has the children's slots at its own place. -/
def slots : ArrowArray → List Slot
  | null length => List.replicate length .null
  | scalar _ slots => slots.map fun
    | some value => .scalar value
    | none => .null
  | list _ offsets child validity => validity.zipIdx.map fun (valid, i) =>
    if valid then .list (child.slots.extract (offsets.getD i 0) (offsets.getD (i + 1) 0)) else .null
  | fixedSizeList _ size child validity => validity.zipIdx.map fun (valid, i) =>
    if valid then .list (child.slots.extract (i * size.toNat) ((i + 1) * size.toNat)) else .null
  | struct _ children validity _ => validity.zipIdx.map fun (valid, i) =>
    if valid then .struct (children.attach.map fun child => child.val.slots.getD i .null) else .null
termination_by array => sizeOf array
decreasing_by
  all_goals simp_wf
  all_goals first
    | omega
    | (have hlt := List.sizeOf_lt_of_mem child.property; omega)

end ArrowArray

/-- The value of a scalar slot. -/
def readScalar (T : LogicalType) : Scalar → Option Value
  | .bool value => some (.bool value)
  | .float bits => some (.float bits)
  | .double bits => some (.double bits)
  | .text value => some (.string value)
  | .bytes value => some (.bytes value)
  | .interval months days nanoseconds =>
    some (.interval ⟨months, days, BitVec.ofInt 64 (nanoseconds / 1000)⟩)
  | .int n =>
    match T.id with
    | .tinyInt | .smallInt | .integer | .bigInt => some (.int (BitVec.ofInt 64 n))
    | .uTinyInt | .uSmallInt | .uInteger | .uBigInt => some (.uint (BitVec.ofInt 64 n))
    | .hugeInt => some (.hugeInt (BitVec.ofInt 128 n))
    | .uHugeInt => some (.uhugeInt (BitVec.ofInt 128 n))
    | .date => some (.date ⟨BitVec.ofInt 32 n⟩)
    | .time => some (.time ⟨.micros, BitVec.ofInt 64 n⟩)
    | .timeNs => some (.time ⟨.nanos, BitVec.ofInt 64 n⟩)
    | .timestampSec => some (.timestamp ⟨.seconds, BitVec.ofInt 64 n, false⟩)
    | .timestampMs => some (.timestamp ⟨.millis, BitVec.ofInt 64 n, false⟩)
    | .timestamp => some (.timestamp ⟨.micros, BitVec.ofInt 64 n, false⟩)
    | .timestampNs => some (.timestamp ⟨.nanos, BitVec.ofInt 64 n, false⟩)
    | .timestampTz => some (.timestamp ⟨.micros, BitVec.ofInt 64 n, true⟩)
    | _ => none

/-- A slot is read back as a value of the column's type; a decimal as its unscaled integer, and a
struct field by field, without further fields. -/
inductive ReadsBack : LogicalType → Slot → Value → Prop where
  | null (T : LogicalType) : ReadsBack T .null .null
  | scalar {T : LogicalType} {scalar : Scalar} {value : Value}
      (read : readScalar T scalar = some value) : ReadsBack T (.scalar scalar) value
  | decimal {T : LogicalType} (decimal : DecimalValue) (id : T.id = .decimal) :
      ReadsBack T (.scalar (.int decimal.value.toInt)) (.decimal decimal)
  | list {T childType : LogicalType} {slots : List Slot} {items : List Value}
      (child : getChildType T = .ok childType) (length : slots.length = items.length)
      (inside : ∀ i (h : i < slots.length) (h' : i < items.length),
        ReadsBack childType slots[i] items[i]) : ReadsBack T (.list slots) (.list items)
  | struct {T : LogicalType} {children : List ChildType} {slots : List Slot} {row : Row}
      (structChildren : getStructChildren T = .ok children) (length : slots.length = children.length)
      (declared : ∀ name ∈ row.map Prod.fst, name ∈ children.map ChildType.name)
      (value : ChildType → Value)
      (fields : ∀ child ∈ children, Row.get row child.name = some (value child))
      (inside : ∀ j (h : j < slots.length) (h' : j < children.length),
        ReadsBack children[j].logicalType slots[j] (value children[j])) :
      ReadsBack T (.struct slots) (.struct row)

/-- A value with a struct that has a field its type does not declare, at any depth. -/
inductive HasUndeclared : LogicalType → Value → Prop where
  | here {T : LogicalType} {children : List ChildType} {row : Row} {name : String}
      (structChildren : getStructChildren T = .ok children) (member : name ∈ row.map Prod.fst)
      (undeclared : name ∉ children.map ChildType.name) : HasUndeclared T (.struct row)
  | field {T : LogicalType} {children : List ChildType} {child : ChildType} {row : Row} {value : Value}
      (structChildren : getStructChildren T = .ok children) (member : child ∈ children)
      (field : Row.get row child.name = some value)
      (inside : HasUndeclared child.logicalType value) : HasUndeclared T (.struct row)
  | item {T childType : LogicalType} {items : List Value} {item : Value}
      (child : getChildType T = .ok childType) (member : item ∈ items)
      (inside : HasUndeclared childType item) : HasUndeclared T (.list items)

/-- What a built array says of a row. -/
def SlotOf (T : LogicalType) (slot : Slot) (value : Value) : Prop :=
  (slot = .null ↔ value = .null) ∧ (ReadsBack T slot value ↔ ¬ HasUndeclared T value)

/-- The keys of an `IndexMap` are distinct, in every row of a value. -/
inductive Value.Keyed : Value → Prop where
  | scalar {value : Value} (items : ∀ items, value ≠ .list items) (row : ∀ row, value ≠ .struct row) :
      Keyed value
  | list {items : List Value} (inside : ∀ item ∈ items, Keyed item) : Keyed (.list items)
  | struct {row : Row} (keys : (row.map Prod.fst).Nodup)
      (inside : ∀ field ∈ row, Keyed field.2) : Keyed (.struct row)

/-- The constructors of the Arrow library store what they are given. -/
structure ArrowLibrary.Stores (arrow : ArrowLibrary) : Prop where
  list : ∀ {item offsets child validity array},
    arrow.tryNewList item offsets child validity = .ok array → array = .list item offsets child validity
  fixedSizeList : ∀ {item size child validity array},
    arrow.tryNewFixedSizeList item size child validity = .ok array →
      array = .fixedSizeList item size child validity
  struct : ∀ {fields children validity length array},
    arrow.tryNewStruct fields children validity length = .ok array →
      array = .struct fields children validity length

section
variable {T : LogicalType} {D : DataType} {values : List Value} {array : ArrowArray}

/-- A scalar slot is no value with fields. -/
theorem ReadsBack.not_hasUndeclared {scalar : Scalar} {value : Value}
    (h : ReadsBack T (.scalar scalar) value) : ¬ HasUndeclared T value := by
  intro hundeclared
  cases h with
  | scalar read =>
      cases hundeclared <;> cases scalar <;> simp only [readScalar] at read <;>
        first | cases read | (split at read <;> cases read)
  | decimal => cases hundeclared

/-- The extractor gives slots that are read back as the values. -/
def Extracts (T : LogicalType) (extract : Value → Build Scalar) : Prop :=
  ∀ value scalar, extract value = .ok scalar → ReadsBack T (.scalar scalar) value

theorem collect_slots {extract : Value → Build Scalar} {slots : List (Option Scalar)}
    (hextract : Extracts T extract) (h : collectSlots extract values = .ok slots) :
    List.Forall₂ (SlotOf T) (ArrowArray.scalar D slots).slots values := by
  have hrows := Except.mapM_ok_iff.mp h
  rw [ArrowArray.slots]
  clear h
  induction hrows with
  | nil => exact .nil
  | @cons value slot values slots hvalue _ ih =>
      refine .cons ?_ ih
      by_cases hnull : value = .null
      · subst hnull
        cases hvalue
        exact ⟨iff_of_true rfl rfl, iff_of_true (.null T) fun h => by cases h⟩
      · obtain ⟨scalar, hscalar, rfl⟩ : ∃ scalar, extract value = .ok scalar ∧ slot = some scalar := by
          cases value <;> first | exact absurd rfl hnull | exact Except.map_eq_ok hvalue
        have hread := hextract value scalar hscalar
        exact ⟨iff_of_false (fun h => by cases h) hnull,
          iff_of_true hread hread.not_hasUndeclared⟩

/-- The array of a column of scalars. -/
def ScalarArray (T : LogicalType) (D : DataType) (values : List Value) (array : ArrowArray) : Prop :=
  array.dataType = D ∧ array.length = array.slots.length ∧ List.Forall₂ (SlotOf T) array.slots values

theorem length_scalar (slots : List (Option Scalar)) :
    (ArrowArray.scalar D slots).length = (ArrowArray.scalar D slots).slots.length := by
  rw [ArrowArray.slots, List.length_map]
  rfl

theorem scalarArray_collect {extract : Value → Build Scalar} (hextract : Extracts T extract)
    (h : (do let slots ← collectSlots extract values; pure (ArrowArray.scalar D slots)) = .ok array) :
    ScalarArray T D values array := by
  obtain ⟨slots, hslots, h⟩ := Except.bind_eq_ok h
  cases h
  exact ⟨rfl, length_scalar slots, collect_slots hextract hslots⟩

theorem scalarArray_ints {extract : Value → Build Int}
    (hextract : ∀ value n, extract value = .ok n → ReadsBack T (.scalar (.int n)) value)
    (h : buildInts D extract values = .ok array) : ScalarArray T D values array := by
  refine scalarArray_collect (fun value scalar hscalar => ?_) h
  obtain ⟨n, hn, rfl⟩ := Except.map_eq_ok hscalar
  exact hextract value n hn

theorem withLimits_ok {limits : Except String Unit} {x : Build ArrowArray}
    (h : (do let array ← x; withLimits limits array) = .ok array) : x = .ok array := by
  obtain ⟨built, hbuilt, h⟩ := Except.bind_eq_ok h
  obtain ⟨⟨⟩, -, h⟩ := Except.bind_eq_ok h
  cases h
  exact hbuilt

theorem asInt_ok {id : LogicalTypeId} {value : Value} {n : I64} (h : asInt id value = .ok n) :
    value = .int n := by
  cases value <;> cases h
  rfl

theorem asUint_ok {id : LogicalTypeId} {value : Value} {n : U64} (h : asUint id value = .ok n) :
    value = .uint n := by
  cases value <;> cases h
  rfl

theorem narrowInt_ok {id : LogicalTypeId} {width : Nat} {value : Value} {n : Int}
    (h : narrowInt id width value = .ok n) : ∃ v, value = .int v ∧ n = v.toInt := by
  obtain ⟨v, hv, h⟩ := Except.bind_eq_ok h
  split at h <;> cases h
  exact ⟨v, asInt_ok hv, rfl⟩

theorem narrowUint_ok {id : LogicalTypeId} {width : Nat} {value : Value} {n : Int}
    (h : narrowUint id width value = .ok n) : ∃ v, value = .uint v ∧ n = v.toNat := by
  obtain ⟨v, hv, h⟩ := Except.bind_eq_ok h
  split at h <;> cases h
  exact ⟨v, asUint_ok hv, rfl⟩

theorem asTime_ok {id : LogicalTypeId} {unit : TimeUnit} {value : Value} {n : I64}
    (h : asTime id unit value = .ok n) : value = .time ⟨unit, n⟩ := by
  cases value with
  | time time =>
      obtain ⟨timeUnit, v⟩ := time
      unfold asTime at h
      by_cases hunit : timeUnit = unit
      · subst hunit
        cases timeUnit <;> simp only [if_true] at h <;> split at h <;> cases h <;> rfl
      · simp only [if_neg hunit] at h
        cases h
  | _ => cases h

theorem asTimestamp_ok {id : LogicalTypeId} {unit : TimestampUnit} {utc : Bool} {value : Value} {n : I64}
    (h : asTimestamp id unit utc value = .ok n) : value = .timestamp ⟨unit, n, utc⟩ := by
  cases value with
  | timestamp timestamp =>
      obtain ⟨timestampUnit, v, timezone⟩ := timestamp
      unfold asTimestamp at h
      by_cases hunit : timestampUnit = unit ∧ timezone = utc
      · simp only [if_pos hunit] at h
        obtain ⟨rfl, rfl⟩ := hunit
        cases h
        rfl
      · simp only [if_neg hunit] at h
        cases h
  | _ => cases h

theorem collect_map {α β : Type} {f : α → β} {extract : Value → Build α} {slots : List (Option α)}
    (h : collectSlots extract values = .ok slots) :
    collectSlots (fun value => f <$> extract value) values = .ok (slots.map (Option.map f)) := by
  rw [collectSlots] at h ⊢
  induction values generalizing slots with
  | nil =>
      cases h
      rfl
  | cons value values ih =>
      rw [List.mapM_cons] at h ⊢
      obtain ⟨slot, hslot, h⟩ := Except.bind_eq_ok h
      obtain ⟨rest, hrest, h⟩ := Except.bind_eq_ok h
      cases h
      rw [ih hrest]
      cases value <;> first
        | (cases hslot; rfl)
        | (obtain ⟨a, ha, rfl⟩ := Except.map_eq_ok hslot
           simp only [ha]
           rfl)

theorem scalarArray_texts {id : LogicalTypeId} (h : buildTexts id values = .ok array) :
    ScalarArray T .utf8 values array := by
  obtain ⟨strings, hstrings, h⟩ := Except.bind_eq_ok h
  obtain ⟨⟨⟩, -, h⟩ := Except.bind_eq_ok h
  cases h
  refine ⟨rfl, length_scalar _, collect_slots (fun value scalar hscalar => ?_)
    (collect_map (f := Scalar.text) hstrings)⟩
  obtain ⟨text, htext, rfl⟩ := Except.map_eq_ok hscalar
  cases value <;> cases htext
  exact .scalar rfl

theorem scalarArray_blobs {id : LogicalTypeId} (h : buildBlobs id values = .ok array) :
    ScalarArray T .binary values array := by
  obtain ⟨blobs, hblobs, h⟩ := Except.bind_eq_ok h
  obtain ⟨⟨⟩, -, h⟩ := Except.bind_eq_ok h
  cases h
  refine ⟨rfl, length_scalar _, collect_slots (fun value scalar hscalar => ?_)
    (collect_map (f := Scalar.bytes) hblobs)⟩
  obtain ⟨raw, hraw, rfl⟩ := Except.map_eq_ok hscalar
  cases value <;> cases hraw
  exact .scalar rfl

theorem scalarArray_nulls (h : (values.find? fun value => !value.isNull) = none) :
    ScalarArray T .null values (.null values.length) := by
  refine ⟨rfl, by rw [ArrowArray.slots, List.length_replicate]; rfl, ?_⟩
  rw [ArrowArray.slots]
  induction values with
  | nil => exact .nil
  | cons value values ih =>
      rw [List.find?_cons] at h
      cases hnull : value.isNull
      · rw [hnull] at h
        cases h
      · rw [hnull] at h
        have hvalue : value = .null := by cases value <;> first | rfl | cases hnull
        subst hvalue
        exact .cons ⟨iff_of_true rfl rfl, iff_of_true (.null T) fun h => by cases h⟩ (ih h)

theorem ofInt_toNat {w : Nat} (v : BitVec w) : BitVec.ofInt w (v.toNat : Int) = v := by
  rw [BitVec.ofInt_natCast, BitVec.ofNat_toNat, BitVec.setWidth_eq]

/-- The array of a scalar column has the column's type and a slot for every row. -/
theorem buildScalar_ok {arrow : ArrowLibrary} (hD : arrowScalarType T = .ok D)
    (h : buildScalar arrow T values = .ok array) : ScalarArray T D values array := by
  cases hid : T.id <;> simp only [arrowScalarType, hid] at hD <;> simp only [buildScalar, hid] at h <;>
    try cases hD
  case sqlNull =>
    split at h <;> cases h
    exact scalarArray_nulls ‹_›
  case boolean =>
    refine scalarArray_collect (fun value scalar hscalar => ?_) h
    obtain ⟨b, hb, rfl⟩ := Except.map_eq_ok hscalar
    cases value <;> cases hb
    exact .scalar rfl
  case tinyInt | smallInt | integer =>
    refine scalarArray_ints (fun value n hn => ?_) h
    obtain ⟨v, rfl, rfl⟩ := narrowInt_ok hn
    exact .scalar (by simp only [readScalar, hid, BitVec.ofInt_toInt])
  case bigInt =>
    refine scalarArray_ints (fun value n hn => ?_) h
    obtain ⟨v, hv, rfl⟩ := Except.map_eq_ok hn
    obtain rfl := asInt_ok hv
    exact .scalar (by simp only [readScalar, hid, BitVec.ofInt_toInt])
  case uTinyInt | uSmallInt | uInteger =>
    refine scalarArray_ints (fun value n hn => ?_) h
    obtain ⟨v, rfl, rfl⟩ := narrowUint_ok hn
    exact .scalar (by simp only [readScalar, hid, ofInt_toNat])
  case uBigInt =>
    refine scalarArray_ints (fun value n hn => ?_) h
    obtain ⟨v, hv, rfl⟩ := Except.map_eq_ok hn
    obtain rfl := asUint_ok hv
    exact .scalar (by simp only [readScalar, hid, ofInt_toNat])
  case hugeInt =>
    refine scalarArray_ints (fun value n hn => ?_) (withLimits_ok h)
    cases value <;> cases hn
    exact .scalar (by simp only [readScalar, hid, BitVec.ofInt_toInt])
  case uHugeInt =>
    refine scalarArray_ints (fun value n hn => ?_) (withLimits_ok h)
    cases value <;> cases hn
    exact .scalar (by simp only [readScalar, hid, ofInt_toNat])
  case float | double =>
    refine scalarArray_collect (fun value scalar hscalar => ?_) h
    obtain ⟨b, hb, rfl⟩ := Except.map_eq_ok hscalar
    cases value <;> cases hb
    exact .scalar rfl
  case decimal =>
    obtain ⟨⟨precision, scale⟩, hlimits, hD⟩ := Except.bind_eq_ok hD
    cases hD
    rw [hlimits] at h
    refine scalarArray_ints (fun value n hn => ?_) (withLimits_ok h)
    obtain ⟨decimal, hdecimal, rfl⟩ := Except.map_eq_ok hn
    cases value <;> cases hdecimal
    exact .decimal _ hid
  case varchar | char | enum | uuid => exact scalarArray_texts h
  case blob | geometry | bit => exact scalarArray_blobs h
  case date =>
    refine scalarArray_ints (fun value n hn => ?_) h
    obtain ⟨v, hv, rfl⟩ := Except.map_eq_ok hn
    cases value <;> cases hv
    exact .scalar (by simp only [readScalar, hid, BitVec.ofInt_toInt])
  case time | timeNs =>
    refine scalarArray_ints (fun value n hn => ?_) h
    obtain ⟨v, hv, rfl⟩ := Except.map_eq_ok hn
    obtain rfl := asTime_ok hv
    exact .scalar (by simp only [readScalar, hid, BitVec.ofInt_toInt])
  case timestampSec | timestampMs | timestamp | timestampNs | timestampTz =>
    refine scalarArray_ints (fun value n hn => ?_) h
    obtain ⟨v, hv, rfl⟩ := Except.map_eq_ok hn
    obtain rfl := asTimestamp_ok hv
    exact .scalar (by simp only [readScalar, hid, BitVec.ofInt_toInt])
  case interval =>
    refine scalarArray_collect (fun value scalar hscalar => ?_) h
    cases value with
    | interval interval =>
        by_cases hrange : SignedRange 64 (interval.micros.toInt * 1000)
        · simp only [asInterval, if_pos hrange] at hscalar
          cases hscalar
          refine .scalar ?_
          rw [readScalar, Int.mul_ediv_cancel _ (by decide), BitVec.ofInt_toInt]
        · simp only [asInterval, if_neg hrange] at hscalar
          cases hscalar
    | _ => cases hscalar

end

section
variable {T childType : LogicalType} {D : DataType}

theorem listItemField_ok {item : ArrowField} (h : listItemField T = .ok item) :
    ∃ childType itemType, getChildType T = .ok childType ∧ arrowType childType = .ok itemType ∧
      item = listField itemType := by
  rw [listItemField] at h
  split at h
  · rename_i childType hchild
    obtain ⟨itemType, hitemType, h⟩ := Except.bind_eq_ok h
    cases h
    exact ⟨childType, itemType, hchild, hitemType, rfl⟩
  · cases h

/-- The field of a struct column for a child. -/
def FieldOf (child : ChildType) (field : ArrowField) : Prop :=
  ∃ dataType, arrowType child.logicalType = .ok dataType ∧ field = ⟨child.name, dataType, true⟩

theorem structFields_eq {children : List ChildType} (hchildren : getStructChildren T = .ok children) :
    structFields T = children.mapM fun child =>
      arrowType child.logicalType >>= fun dataType => pure ⟨child.name, dataType, true⟩ := by
  rw [structFields]
  split
  · rename_i children' hchildren'
    cases hchildren.symm.trans hchildren'
    rw [← List.attach_map_subtype_val children, List.mapM_map, List.attach_map_subtype_val]
    rfl
  · rename_i e he
    cases hchildren.symm.trans he

theorem structFields_ok {fields : List ArrowField} (h : structFields T = .ok fields) :
    ∃ children, getStructChildren T = .ok children ∧ List.Forall₂ FieldOf children fields := by
  cases hchildren : getStructChildren T with
  | error e =>
      rw [structFields] at h
      split at h
      · rename_i hchildren'
        cases hchildren.symm.trans hchildren'
      · cases h
  | ok children =>
      rw [structFields_eq hchildren] at h
      refine ⟨children, rfl, (Except.mapM_ok_iff.mp h).imp fun child field hfield => ?_⟩
      obtain ⟨dataType, hdataType, hfield⟩ := Except.bind_eq_ok hfield
      cases hfield
      exact ⟨dataType, hdataType, rfl⟩

/-- How the Arrow type of a column comes about. -/
inductive ArrowTyped : LogicalType → DataType → Prop where
  | scalar {T : LogicalType} {D : DataType} (flat : T.id ∉ [LogicalTypeId.list, .map, .array, .struct, .variant])
      (scalarType : arrowScalarType T = .ok D) : ArrowTyped T D
  | list {T childType : LogicalType} {itemType : DataType} (id : T.id = .list ∨ T.id = .map)
      (child : getChildType T = .ok childType) (item : arrowType childType = .ok itemType) :
      ArrowTyped T (.list (listField itemType))
  | array {T childType : LogicalType} {itemType : DataType} {size : Int} (id : T.id = .array)
      (child : getChildType T = .ok childType) (item : arrowType childType = .ok itemType)
      (arraySize : arraySize T = .ok size) : ArrowTyped T (.fixedSizeList (listField itemType) size)
  | struct {T : LogicalType} {children : List ChildType} {fields : List ArrowField}
      (id : T.id = .struct ∨ T.id = .variant) (structChildren : getStructChildren T = .ok children)
      (fieldTypes : List.Forall₂ FieldOf children fields) : ArrowTyped T (.struct fields)

theorem arrowTyped (h : arrowType T = .ok D) : ArrowTyped T D := by
  by_cases hflat : T.id ∈ [LogicalTypeId.list, .map, .array, .struct, .variant]
  case neg =>
    refine .scalar hflat ?_
    rw [arrowType] at h
    cases hid : T.id <;> simp only [hid] at h hflat <;> first | exact h | exact absurd (by decide) hflat
  rw [arrowType] at h
  simp only [List.mem_cons, List.not_mem_nil, or_false] at hflat
  rcases hflat with hid | hid | hid | hid | hid <;> simp only [hid] at h <;>
    obtain ⟨inner, hinner, h⟩ := Except.bind_eq_ok h
  · obtain ⟨childType, itemType, hchild, hitem, rfl⟩ := listItemField_ok hinner
    cases h
    exact .list (.inl hid) hchild hitem
  · obtain ⟨childType, itemType, hchild, hitem, rfl⟩ := listItemField_ok hinner
    cases h
    exact .list (.inr hid) hchild hitem
  · obtain ⟨childType, itemType, hchild, hitem, rfl⟩ := listItemField_ok hinner
    obtain ⟨size, hsize, h⟩ := Except.bind_eq_ok h
    cases h
    exact .array hid hchild hitem hsize
  · obtain ⟨children, hchildren, hfields⟩ := structFields_ok hinner
    cases h
    exact .struct (.inl hid) hchildren hfields
  · obtain ⟨children, hchildren, hfields⟩ := structFields_ok hinner
    cases h
    exact .struct (.inr hid) hchildren hfields

/-- One row of a list column. -/
theorem gatherItems_cons {id : LogicalTypeId} {count : Nat} {value : Value} {values items : List Value}
    {offsets : List Nat} {validity : List Bool}
    (h : gatherItems id count (value :: values) = .ok (offsets, validity, items)) :
    ∃ own rest, items = own ++ rest ∧ ∃ offsets' validity' valid,
      offsets = (count + own.length) :: offsets' ∧ validity = valid :: validity' ∧
      gatherItems id (count + own.length) values = .ok (offsets', validity', rest) ∧
      (value = .null ∧ own = [] ∧ valid = false ∨ value = .list own ∧ valid = true) := by
  cases value with
  | null =>
      obtain ⟨offset, hoffset, h⟩ := Except.bind_eq_ok h
      obtain ⟨⟨offsets', validity', rest⟩, hrest, h⟩ := Except.bind_eq_ok h
      rw [gatherItems.offsetOf] at hoffset
      split at hoffset <;> cases hoffset
      cases h
      exact ⟨[], _, rfl, _, _, _, rfl, rfl, hrest, .inl ⟨rfl, rfl, rfl⟩⟩
  | list entries =>
      obtain ⟨offset, hoffset, h⟩ := Except.bind_eq_ok h
      obtain ⟨⟨offsets', validity', rest⟩, hrest, h⟩ := Except.bind_eq_ok h
      rw [gatherItems.offsetOf] at hoffset
      split at hoffset <;> cases hoffset
      cases h
      exact ⟨entries, _, rfl, _, _, _, rfl, rfl, hrest, .inr ⟨rfl, rfl⟩⟩
  | _ => cases h

/-- The rows of a list column, each with the items before its own. -/
theorem gatherItems_rows {id : LogicalTypeId} {count : Nat} {values items : List Value}
    {offsets : List Nat} {validity : List Bool}
    (h : gatherItems id count values = .ok (offsets, validity, items)) :
    offsets.length = values.length ∧ validity.length = values.length ∧
      ∀ i (hi : i < values.length), ∃ before own after, items = before ++ own ++ after ∧
        (count :: offsets)[i]? = some (count + before.length) ∧
        offsets[i]? = some (count + before.length + own.length) ∧
        (values[i] = .null ∧ own = [] ∧ validity[i]? = some false ∨
          values[i] = .list own ∧ validity[i]? = some true) := by
  induction values generalizing count items offsets validity with
  | nil =>
      cases h
      exact ⟨rfl, rfl, fun i hi => absurd hi (Nat.not_lt_zero i)⟩
  | cons value values ih =>
      obtain ⟨own, rest, rfl, offsets', validity', valid, rfl, rfl, hrest, hvalue⟩ := gatherItems_cons h
      obtain ⟨hoffsets, hvalidity, hrows⟩ := ih hrest
      refine ⟨by rw [List.length_cons, List.length_cons, hoffsets],
        by rw [List.length_cons, List.length_cons, hvalidity], fun i hi => ?_⟩
      cases i with
      | zero =>
          refine ⟨[], own, rest, rfl, rfl, rfl, ?_⟩
          rcases hvalue with ⟨hnull, hown, rfl⟩ | ⟨hlist, rfl⟩
          · exact .inl ⟨hnull, hown, rfl⟩
          · exact .inr ⟨hlist, rfl⟩
      | succ i =>
          obtain ⟨before, own', after, rfl, hstart, hstop, hrow⟩ := hrows i (Nat.lt_of_succ_lt_succ hi)
          refine ⟨own ++ before, own', after, by simp only [List.append_assoc], ?_, ?_, hrow⟩
          · rw [List.getElem?_cons_succ, List.length_append, ← Nat.add_assoc]
            exact hstart
          · rw [List.getElem?_cons_succ, List.length_append, ← Nat.add_assoc]
            exact hstop

/-- One row of an array column. -/
theorem gatherWindows_cons {id : LogicalTypeId} {width : Nat} {value : Value} {values items : List Value}
    {validity : List Bool} (h : gatherWindows id width (value :: values) = .ok (validity, items)) :
    ∃ own rest, items = own ++ rest ∧ own.length = width ∧ ∃ validity' valid,
      validity = valid :: validity' ∧ gatherWindows id width values = .ok (validity', rest) ∧
      (value = .null ∧ own = List.replicate width .null ∧ valid = false ∨
        value = .list own ∧ valid = true) := by
  cases value with
  | null =>
      obtain ⟨⟨validity', rest⟩, hrest, h⟩ := Except.bind_eq_ok h
      cases h
      exact ⟨_, _, rfl, List.length_replicate, _, _, rfl, hrest, .inl ⟨rfl, rfl, rfl⟩⟩
  | list entries =>
      rw [gatherWindows] at h
      split at h
      · cases h
      · rename_i hwidth
        obtain ⟨⟨validity', rest⟩, hrest, h⟩ := Except.bind_eq_ok h
        cases h
        exact ⟨_, _, rfl, not_not.mp hwidth, _, _, rfl, hrest, .inr ⟨rfl, rfl⟩⟩
  | _ => cases h

/-- The rows of an array column, each with its window of the items. -/
theorem gatherWindows_rows {id : LogicalTypeId} {width : Nat} {values items : List Value}
    {validity : List Bool} (h : gatherWindows id width values = .ok (validity, items)) :
    validity.length = values.length ∧ items.length = values.length * width ∧
      ∀ i (hi : i < values.length), ∃ before own after, items = before ++ own ++ after ∧
        before.length = i * width ∧ own.length = width ∧
        (values[i] = .null ∧ own = List.replicate width .null ∧ validity[i]? = some false ∨
          values[i] = .list own ∧ validity[i]? = some true) := by
  induction values generalizing items validity with
  | nil =>
      cases h
      exact ⟨rfl, by simp, fun i hi => absurd hi (Nat.not_lt_zero i)⟩
  | cons value values ih =>
      obtain ⟨own, rest, rfl, hown, validity', valid, rfl, hrest, hvalue⟩ := gatherWindows_cons h
      obtain ⟨hvalidity, hitems, hrows⟩ := ih hrest
      refine ⟨by rw [List.length_cons, List.length_cons, hvalidity], ?_, fun i hi => ?_⟩
      · rw [List.length_append, hown, hitems, List.length_cons, Nat.succ_mul, Nat.add_comm]
      cases i with
      | zero =>
          refine ⟨[], own, rest, rfl, by simp, hown, ?_⟩
          rcases hvalue with ⟨hnull, hnulls, rfl⟩ | ⟨hlist, rfl⟩
          · exact .inl ⟨hnull, hnulls, rfl⟩
          · exact .inr ⟨hlist, rfl⟩
      | succ i =>
          obtain ⟨before, own', after, rfl, hbefore, hown', hrow⟩ := hrows i (Nat.lt_of_succ_lt_succ hi)
          refine ⟨own ++ before, own', after, by simp only [List.append_assoc], ?_, hown', hrow⟩
          rw [List.length_append, hown, hbefore, Nat.succ_mul, Nat.add_comm]

/-! ### Nested columns -/

variable {arrow : ArrowLibrary} {item : ArrowField} {values : List Value}

theorem buildArray_scalar (flat : T.id ∉ [LogicalTypeId.list, .map, .array, .struct, .variant]) :
    buildArray arrow T D values = liftM (buildScalar arrow T values) := by
  rw [buildArray]
  cases hid : T.id <;> simp only [hid] at flat ⊢ <;> exact absurd (by decide) flat

theorem buildArray_list (id : T.id = .list ∨ T.id = .map) :
    buildArray arrow T (.list item) values = buildList arrow T item values := by
  rw [buildArray]
  rcases id with hid | hid <;> simp only [hid] <;> rfl

theorem buildArray_array {size : Int} (id : T.id = .array) :
    buildArray arrow T (.fixedSizeList item size) values = buildFixedSizeList arrow T item size values := by
  rw [buildArray]
  simp only [id]
  rfl

theorem buildArray_struct {fields : List ArrowField} (id : T.id = .struct ∨ T.id = .variant) :
    buildArray arrow T (.struct fields) values = buildStruct arrow T fields values := by
  rw [buildArray]
  rcases id with hid | hid <;> simp only [hid] <;> rfl

theorem buildList_eq (child : getChildType T = .ok childType) :
    buildList arrow T item values = (do
      let (offsets, validity, items) ← gatherItems T.id 0 values
      let child ← buildArray arrow childType item.dataType items
      liftM ((arrow.tryNewList item (0 :: offsets) child validity).mapError BuildError.rejected)) := by
  rw [buildList]
  refine congrArg _ (funext fun gathered => ?_)
  obtain ⟨offsets, validity, items⟩ := gathered
  dsimp only
  split
  · rename_i child' hchild
    cases child.symm.trans hchild
    rfl
  · rename_i e he
    cases child.symm.trans he

theorem buildFixedSizeList_eq {size : Int} (child : getChildType T = .ok childType) (hsize : 0 ≤ size) :
    buildFixedSizeList arrow T item size values = (do
      Outcome.check (values.length * size.toNat < usizeLimit) .overflow
      Outcome.check (values.length * size.toNat * wordSize ≤ isizeMax) .capacity
      let (validity, items) ← gatherWindows T.id size.toNat values
      let child ← buildArray arrow childType item.dataType items
      liftM ((arrow.tryNewFixedSizeList item size child validity).mapError BuildError.rejected)) := by
  rw [buildFixedSizeList, if_neg (by omega)]
  refine congrArg _ (funext fun _ => congrArg _ (funext fun _ => congrArg _ (funext fun gathered => ?_)))
  obtain ⟨validity, items⟩ := gathered
  dsimp only
  split
  · rename_i child' hchild
    cases child.symm.trans hchild
    rfl
  · rename_i e he
    cases child.symm.trans he

/-- The array of a child of a struct column. -/
def buildChild (arrow : ArrowLibrary) (id : LogicalTypeId) (values : List Value) :
    (ChildType × ArrowField) × Nat → Outcome BuildError ArrowArray
  | ((child, field), childIndex) => do
    let childValues ← (values.mapM (structSlot id child childIndex) : Build (List Value))
    buildArray arrow child.logicalType field.dataType childValues

theorem buildStruct_eq {children : List ChildType} {fields : List ArrowField}
    (structChildren : getStructChildren T = .ok children) (hlen : children.length = fields.length) :
    buildStruct arrow T fields values = (do
      let validity ← (values.mapM (structValidity T.id children.length) : Build (List Bool))
      let arrays ← sequence ((children.zip fields).zipIdx.map (buildChild arrow T.id values))
      liftM ((arrow.tryNewStruct fields arrays validity values.length).mapError BuildError.rejected)) := by
  rw [buildStruct]
  split
  · rename_i children' hchildren
    cases structChildren.symm.trans hchildren
    rw [if_neg (not_not.mpr hlen)]
    refine congrArg _ (funext fun validity => ?_)
    apply congrArg (fun actions => sequence actions >>= _)
    apply List.ext_getElem (by simp)
    intro i hi hi'
    simp only [List.getElem_map, List.getElem_zipIdx, List.getElem_zip, List.getElem_attach]
    rfl
  · rename_i e he
    cases structChildren.symm.trans he

theorem slotOf_null : SlotOf T .null .null :=
  ⟨iff_of_true rfl rfl, iff_of_true (.null T) fun h => by cases h⟩

/-- The slots of a part of the items lie where the part does. -/
theorem forall₂_part {R : Slot → Value → Prop} {slots : List Slot} {before own after : List Value}
    (h : List.Forall₂ R slots (before ++ own ++ after)) :
    List.Forall₂ R (slots.extract before.length (before.length + own.length)) own := by
  rw [List.append_assoc] at h
  have hown := List.forall₂_take_append _ _ _ (List.forall₂_drop_append _ _ _ h)
  rwa [List.extract_eq_take_drop, Nat.add_sub_cancel_left]

theorem slotOf_list {slots : List Slot} {items : List Value} (child : getChildType T = .ok childType)
    (h : List.Forall₂ (SlotOf childType) slots items) : SlotOf T (.list slots) (.list items) := by
  refine ⟨iff_of_false (fun h => by cases h) (fun h => by cases h), ?_⟩
  constructor
  · intro hread hundeclared
    cases hread with
    | list child' length inside =>
        cases child.symm.trans child'
        cases hundeclared with
        | item child'' member hitem =>
            cases child.symm.trans child''
            obtain ⟨i, hi, rfl⟩ := List.getElem_of_mem member
            have hi' : i < slots.length := by rwa [length]
            exact (h.get hi' hi).2.mp (inside i hi' hi) hitem
  · intro hnot
    refine .list child h.length_eq fun i hi hi' => ?_
    exact (h.get hi hi').2.mpr fun hitem => hnot (.item child (List.getElem_mem hi') hitem)

theorem slotOf_struct {children : List ChildType} {row : Row} {slots : List Slot}
    (value : ChildType → Value) (structChildren : getStructChildren T = .ok children)
    (hlen : slots.length = children.length)
    (fields : ∀ child ∈ children, Row.get row child.name = some (value child))
    (h : ∀ j (hj : j < slots.length) (hj' : j < children.length),
      SlotOf children[j].logicalType slots[j] (value children[j])) :
    SlotOf T (.struct slots) (.struct row) := by
  refine ⟨iff_of_false (fun h => by cases h) (fun h => by cases h), ?_⟩
  constructor
  · intro hread hundeclared
    cases hread with
    | struct structChildren' length declared value' fields' inside =>
        cases structChildren.symm.trans structChildren'
        cases hundeclared with
        | here structChildren'' member undeclared =>
            cases structChildren.symm.trans structChildren''
            exact undeclared (declared _ member)
        | field structChildren'' member field hfield =>
            cases structChildren.symm.trans structChildren''
            obtain ⟨j, hj, rfl⟩ := List.getElem_of_mem member
            have hj' : j < slots.length := by rwa [length]
            cases (fields _ member).symm.trans field
            have hread := inside j hj' hj
            rw [Option.some.inj ((fields' _ member).symm.trans (fields _ member))] at hread
            exact (h j hj' hj).2.mp hread hfield
  · intro hnot
    refine .struct structChildren hlen (fun name hname => ?_) value fields fun j hj hj' => ?_
    · by_contra hundeclared
      exact hnot (.here structChildren hname hundeclared)
    · exact (h j hj hj').2.mpr fun hfield =>
        hnot (.field structChildren (List.getElem_mem hj') (fields _ (List.getElem_mem hj')) hfield)

/-- The slots of a list column, given those of its items. -/
theorem list_slots {offsets : List Nat} {validity : List Bool} {items : List Value} {child : ArrowArray}
    (childOf : getChildType T = .ok childType)
    (hgather : gatherItems T.id 0 values = .ok (offsets, validity, items))
    (hchild : List.Forall₂ (SlotOf childType) child.slots items) :
    List.Forall₂ (SlotOf T) (ArrowArray.list item (0 :: offsets) child validity).slots values := by
  obtain ⟨hoffsets, hvalidity, hrows⟩ := gatherItems_rows hgather
  rw [ArrowArray.slots]
  refine List.forall₂_iff_get.mpr ⟨by simp [hvalidity], fun i hi hi' => ?_⟩
  obtain ⟨before, own, after, rfl, hstart, hstop, hrow⟩ := hrows i hi'
  simp only [List.get_eq_getElem, List.getElem_map, List.getElem_zipIdx, Nat.zero_add,
    List.getD_cons_succ]
  rcases hrow with ⟨hnull, -, hvalid⟩ | ⟨hlist, hvalid⟩
  · rw [(List.getElem?_eq_some_iff.mp hvalid).2, if_neg (by decide), hnull]
    exact slotOf_null
  · rw [(List.getElem?_eq_some_iff.mp hvalid).2, if_pos rfl, hlist, List.getD_eq_getElem?_getD,
      List.getD_eq_getElem?_getD, hstart, hstop]
    simp only [Option.getD_some, Nat.zero_add]
    exact slotOf_list childOf (forall₂_part hchild)

theorem fixedSizeList_slots {size : Int} {validity : List Bool} {items : List Value} {child : ArrowArray}
    (childOf : getChildType T = .ok childType)
    (hgather : gatherWindows T.id size.toNat values = .ok (validity, items))
    (hchild : List.Forall₂ (SlotOf childType) child.slots items) :
    List.Forall₂ (SlotOf T) (ArrowArray.fixedSizeList item size child validity).slots values := by
  obtain ⟨hvalidity, -, hrows⟩ := gatherWindows_rows hgather
  rw [ArrowArray.slots]
  refine List.forall₂_iff_get.mpr ⟨by simp [hvalidity], fun i hi hi' => ?_⟩
  obtain ⟨before, own, after, rfl, hbefore, hown, hrow⟩ := hrows i hi'
  simp only [List.get_eq_getElem, List.getElem_map, List.getElem_zipIdx, Nat.zero_add]
  rcases hrow with ⟨hnull, -, hvalid⟩ | ⟨hlist, hvalid⟩
  · rw [(List.getElem?_eq_some_iff.mp hvalid).2, if_neg (by decide), hnull]
    exact slotOf_null
  · rw [(List.getElem?_eq_some_iff.mp hvalid).2, if_pos rfl, hlist, Nat.succ_mul]
    rw [← hbefore]
    rw [show before.length + size.toNat = before.length + own.length by rw [hown]]
    exact slotOf_list childOf (forall₂_part hchild)

theorem sequence_ok {ε α : Type} {actions : List (Outcome ε α)} {results : List α}
    (h : sequence actions = .ok results) :
    List.Forall₂ (fun action result => action = .ok result) actions results := by
  induction actions generalizing results with
  | nil =>
      cases h
      exact .nil
  | cons action actions ih =>
      obtain ⟨result, hresult, h⟩ := Outcome.bind_eq_ok h
      obtain ⟨rest, hrest, h⟩ := Outcome.bind_eq_ok h
      cases h
      exact .cons hresult (ih hrest)

theorem structSlot_ok {id : LogicalTypeId} {child : ChildType} {childIndex : Nat} {row : Row}
    {value : Value} (keys : (row.map Prod.fst).Nodup)
    (h : structSlot id child childIndex (.struct row) = .ok value) :
    Row.get row child.name = some value := by
  have hname (h : structSlot.byName id child row = .ok value) : Row.get row child.name = some value := by
    rw [structSlot.byName] at h
    split at h <;> cases h
    assumption
  rw [structSlot] at h
  split at h
  · rename_i name field hfield
    split at h
    · rename_i heq
      cases h
      rw [← heq]
      exact Row.get_of_mem keys (List.mem_of_getElem? hfield)
    · exact hname h
  · exact hname h

theorem structValidity_ok {id : LogicalTypeId} {arity : Nat} {value : Value} {valid : Bool}
    (h : structValidity id arity value = .ok valid) :
    value = .null ∧ valid = false ∨ ∃ row, value = .struct row ∧ valid = true := by
  cases value with
  | null =>
      cases h
      exact .inl ⟨rfl, rfl⟩
  | struct row =>
      rw [structValidity] at h
      split at h <;> cases h
      exact .inr ⟨row, rfl, rfl⟩
  | _ => cases h

/-- The columns of a struct's children, one field of every row. -/
def FieldColumn (id : LogicalTypeId) (values : List Value) (child : ChildType) (childIndex : Nat)
    (array : ArrowArray) : Prop :=
  ∃ childValues, List.Forall₂ (fun value field => structSlot id child childIndex value = .ok field)
      values childValues ∧
    List.Forall₂ (SlotOf child.logicalType) array.slots childValues

theorem struct_slots {children : List ChildType} {fields : List ArrowField} {arrays : List ArrowArray}
    {validity : List Bool} (structChildren : getStructChildren T = .ok children)
    (hkeyed : ∀ value ∈ values, value.Keyed)
    (hvalidity : List.Forall₂ (fun value valid => structValidity T.id children.length value = .ok valid)
      values validity) (hlen : arrays.length = children.length)
    (harrays : ∀ j (hj : j < arrays.length) (hj' : j < children.length),
      FieldColumn T.id values children[j] j arrays[j]) :
    List.Forall₂ (SlotOf T) (ArrowArray.struct fields arrays validity values.length).slots values := by
  rw [ArrowArray.slots]
  refine List.forall₂_iff_get.mpr ⟨by simp [hvalidity.length_eq], fun i hi hi' => ?_⟩
  have hi'' : i < validity.length := by rwa [← hvalidity.length_eq]
  simp only [List.get_eq_getElem, List.getElem_map, List.getElem_zipIdx, Nat.zero_add]
  rcases structValidity_ok (hvalidity.get hi' hi'') with ⟨hnull, hvalid⟩ | ⟨row, hstruct, hvalid⟩
  · rw [List.get_eq_getElem] at hnull hvalid
    rw [hvalid, if_neg (by decide), hnull]
    exact slotOf_null
  · rw [List.get_eq_getElem] at hstruct hvalid
    rw [hvalid, if_pos rfl, hstruct]
    have keys : (row.map Prod.fst).Nodup := by
      have h := hkeyed _ (List.getElem_mem hi')
      rw [hstruct] at h
      cases h with
      | scalar _ hrow => exact absurd rfl (hrow row)
      | struct keys _ => exact keys
    have hfield (j : Nat) (hj : j < arrays.length) (hj' : j < children.length) :
        ∃ value, Row.get row children[j].name = some value ∧
          SlotOf children[j].logicalType (arrays[j].slots.getD i .null) value := by
      obtain ⟨childValues, hcolumn, hslots⟩ := harrays j hj hj'
      have hiv : i < childValues.length := by rwa [← hcolumn.length_eq]
      have his : i < arrays[j].slots.length := by rwa [hslots.length_eq]
      have hvalue := hcolumn.get hi' hiv
      rw [List.get_eq_getElem, hstruct] at hvalue
      refine ⟨_, structSlot_ok keys hvalue, ?_⟩
      rw [List.getD_eq_getElem?_getD, List.getElem?_eq_getElem his]
      exact hslots.get his hiv
    refine slotOf_struct (fun child => (Row.get row child.name).getD .null) structChildren
      (by simp [hlen]) (fun child hmem => ?_) fun j hj hj' => ?_
    · obtain ⟨j, hj, rfl⟩ := List.getElem_of_mem hmem
      obtain ⟨value, hvalue, -⟩ := hfield j (by rwa [hlen]) hj
      rw [hvalue]
      rfl
    · have hj'' : j < arrays.length := by rwa [hlen]
      obtain ⟨value, hvalue, hslot⟩ := hfield j hj'' hj'
      simp only [List.getElem_map, List.getElem_attach, hvalue, Option.getD_some]
      exact hslot

theorem Value.Keyed.items {items : List Value} (h : Value.Keyed (.list items)) :
    ∀ item ∈ items, item.Keyed := by
  cases h with
  | scalar items _ => exact absurd rfl (items _)
  | list inside => exact inside

theorem gatherItems_keyed {id : LogicalTypeId} {count : Nat} {values items : List Value}
    {offsets : List Nat} {validity : List Bool}
    (h : gatherItems id count values = .ok (offsets, validity, items))
    (hkeyed : ∀ value ∈ values, value.Keyed) : ∀ item ∈ items, item.Keyed := by
  induction values generalizing count items offsets validity with
  | nil =>
      cases h
      exact fun item hmem => absurd hmem List.not_mem_nil
  | cons value values ih =>
      obtain ⟨hvalue, hvalues⟩ := List.forall_mem_cons.mp hkeyed
      obtain ⟨own, rest, rfl, _, _, _, _, _, hrest, hcase⟩ := gatherItems_cons h
      intro item hmem
      rcases List.mem_append.mp hmem with hown | hlater
      · rcases hcase with ⟨-, rfl, -⟩ | ⟨rfl, -⟩
        · cases hown
        · exact hvalue.items item hown
      · exact ih hrest hvalues item hlater

theorem keyed_null : Value.Keyed .null := .scalar (fun _ h => by cases h) fun _ h => by cases h

theorem gatherWindows_keyed {id : LogicalTypeId} {width : Nat} {values items : List Value}
    {validity : List Bool} (h : gatherWindows id width values = .ok (validity, items))
    (hkeyed : ∀ value ∈ values, value.Keyed) : ∀ item ∈ items, item.Keyed := by
  induction values generalizing items validity with
  | nil =>
      cases h
      exact fun item hmem => absurd hmem List.not_mem_nil
  | cons value values ih =>
      obtain ⟨hvalue, hvalues⟩ := List.forall_mem_cons.mp hkeyed
      obtain ⟨own, rest, rfl, -, _, _, -, hrest, hcase⟩ := gatherWindows_cons h
      intro item hmem
      rcases List.mem_append.mp hmem with hown | hlater
      · rcases hcase with ⟨-, rfl, -⟩ | ⟨rfl, -⟩
        · rw [List.eq_of_mem_replicate hown]
          exact keyed_null
        · exact hvalue.items item hown
      · exact ih hrest hvalues item hlater

theorem Row.mem_of_get {row : Row} {name : String} {value : Value} (h : Row.get row name = some value) :
    (name, value) ∈ row := by
  induction row with
  | nil => cases h
  | cons field row ih =>
      obtain ⟨key, first⟩ := field
      rw [Row.get] at h
      split at h
      · rename_i heq
        cases h
        rw [heq]
        exact List.mem_cons_self
      · exact List.mem_cons_of_mem _ (ih h)

theorem structSlot_keyed {id : LogicalTypeId} {child : ChildType} {childIndex : Nat}
    {value field : Value} (hkeyed : value.Keyed)
    (h : structSlot id child childIndex value = .ok field) : field.Keyed := by
  cases hkeyed with
  | struct keys inside => exact inside _ (Row.mem_of_get (structSlot_ok keys h))
  | list =>
      cases h
      exact keyed_null
  | scalar items row =>
      cases value with
      | struct fields => exact absurd rfl (row fields)
      | _ =>
        cases h
        exact keyed_null

theorem mapError_ok {ε ε' α : Type} {f : ε → ε'} {x : Except ε α} {a : α}
    (h : x.mapError f = .ok a) : x = .ok a := by
  cases x with
  | error e => cases h
  | ok b =>
      cases h
      rfl

theorem arraySize_nonneg {size : Int} (h : arraySize T = .ok size) : 0 ≤ size := by
  obtain ⟨n, -, h⟩ := Except.bind_eq_ok h
  split at h <;> cases h
  exact Int.natCast_nonneg _

/-- A built array has the column's type and a slot for every row. -/
theorem buildArray_shape {array : ArrowArray} (harrow : arrow.Stores) (hD : arrowType T = .ok D)
    (h : buildArray arrow T D values = .ok array) :
    array.dataType = D ∧ array.length = values.length := by
  cases arrowTyped hD with
  | scalar flat scalarType =>
      rw [buildArray_scalar flat] at h
      obtain ⟨hdataType, hlength, hslots⟩ := buildScalar_ok scalarType (Outcome.lift_eq_ok h)
      exact ⟨hdataType, hlength.trans hslots.length_eq⟩
  | list id child item =>
      rw [buildArray_list id, buildList_eq child] at h
      obtain ⟨⟨offsets, validity, items⟩, hgather, h⟩ := Outcome.bind_eq_ok h
      obtain ⟨inner, -, h⟩ := Outcome.bind_eq_ok h
      obtain rfl := harrow.list (mapError_ok (Outcome.lift_eq_ok h))
      exact ⟨rfl, (gatherItems_rows (Outcome.lift_eq_ok hgather)).2.1⟩
  | array id child item hsize =>
      rw [buildArray_array id, buildFixedSizeList_eq child (arraySize_nonneg hsize)] at h
      obtain ⟨⟨⟩, -, h⟩ := Outcome.bind_eq_ok h
      obtain ⟨⟨⟩, -, h⟩ := Outcome.bind_eq_ok h
      obtain ⟨⟨validity, items⟩, hgather, h⟩ := Outcome.bind_eq_ok h
      obtain ⟨inner, -, h⟩ := Outcome.bind_eq_ok h
      obtain rfl := harrow.fixedSizeList (mapError_ok (Outcome.lift_eq_ok h))
      exact ⟨rfl, (gatherWindows_rows (Outcome.lift_eq_ok hgather)).1⟩
  | struct id structChildren fieldTypes =>
      rw [buildArray_struct id, buildStruct_eq structChildren fieldTypes.length_eq] at h
      obtain ⟨validity, -, h⟩ := Outcome.bind_eq_ok h
      obtain ⟨arrays, -, h⟩ := Outcome.bind_eq_ok h
      obtain rfl := harrow.struct (mapError_ok (Outcome.lift_eq_ok h))
      exact ⟨rfl, rfl⟩

/-- A built array says of every row what there is to say. -/
theorem buildArray_slots {array : ArrowArray} (harrow : arrow.Stores)
    (hkeyed : ∀ value ∈ values, value.Keyed) (hD : arrowType T = .ok D)
    (h : buildArray arrow T D values = .ok array) :
    List.Forall₂ (SlotOf T) array.slots values := by
  induction T using LogicalType.childInduction generalizing D values array with
  | step T ih =>
      cases arrowTyped hD with
      | scalar flat scalarType =>
          rw [buildArray_scalar flat] at h
          exact (buildScalar_ok scalarType (Outcome.lift_eq_ok h)).2.2
      | @list childType itemType id child item =>
          rw [buildArray_list id, buildList_eq child] at h
          obtain ⟨⟨offsets, validity, items⟩, hgather, h⟩ := Outcome.bind_eq_ok h
          obtain ⟨inner, hinner, h⟩ := Outcome.bind_eq_ok h
          obtain rfl := harrow.list (mapError_ok (Outcome.lift_eq_ok h))
          have hgather := Outcome.lift_eq_ok hgather
          exact list_slots child hgather
            (ih childType (getChildType_mem child) (gatherItems_keyed hgather hkeyed) item hinner)
      | @array childType itemType size id child item hsize =>
          rw [buildArray_array id, buildFixedSizeList_eq child (arraySize_nonneg hsize)] at h
          obtain ⟨⟨⟩, -, h⟩ := Outcome.bind_eq_ok h
          obtain ⟨⟨⟩, -, h⟩ := Outcome.bind_eq_ok h
          obtain ⟨⟨validity, items⟩, hgather, h⟩ := Outcome.bind_eq_ok h
          obtain ⟨inner, hinner, h⟩ := Outcome.bind_eq_ok h
          obtain rfl := harrow.fixedSizeList (mapError_ok (Outcome.lift_eq_ok h))
          have hgather := Outcome.lift_eq_ok hgather
          exact fixedSizeList_slots child hgather
            (ih childType (getChildType_mem child) (gatherWindows_keyed hgather hkeyed) item hinner)
      | @struct children fields id structChildren fieldTypes =>
          rw [buildArray_struct id, buildStruct_eq structChildren fieldTypes.length_eq] at h
          obtain ⟨validity, hvalidity, h⟩ := Outcome.bind_eq_ok h
          obtain ⟨arrays, harrays, h⟩ := Outcome.bind_eq_ok h
          obtain rfl := harrow.struct (mapError_ok (Outcome.lift_eq_ok h))
          have hsequence := sequence_ok harrays
          have hlen : arrays.length = children.length := by
            rw [← hsequence.length_eq]
            simp [fieldTypes.length_eq]
          refine struct_slots structChildren hkeyed
            (Except.mapM_ok_iff.mp (Outcome.lift_eq_ok hvalidity)) hlen fun j hj hj' => ?_
          have hf : j < fields.length := by rwa [← fieldTypes.length_eq]
          have harray := hsequence.get (by simp [hf, hj']) hj
          simp only [List.get_eq_getElem, List.getElem_map, List.getElem_zipIdx, List.getElem_zip,
            Nat.zero_add] at harray
          obtain ⟨childValues, hvalues, harray⟩ := Outcome.bind_eq_ok harray
          have hcolumn := Except.mapM_ok_iff.mp (Outcome.lift_eq_ok hvalues)
          obtain ⟨dataType, hdataType, hfield⟩ := fieldTypes.get hj' hf
          rw [List.get_eq_getElem] at hdataType hfield
          rw [hfield] at harray
          refine ⟨childValues, hcolumn, ih _ (getStructChildren_mem structChildren (List.getElem_mem hj'))
            (fun value hmem => ?_) hdataType harray⟩
          obtain ⟨i, hi, rfl⟩ := List.getElem_of_mem hmem
          have hi' : i < values.length := by rwa [hcolumn.length_eq]
          exact structSlot_keyed (hkeyed _ (List.getElem_mem hi')) (hcolumn.get hi' hi)

theorem hasUndeclared_unread {slots : List Slot} {value : Value}
    (hslots : List.Forall₂ (SlotOf T) slots values) (hreads : List.Forall₂ (ReadsBack T) slots values)
    (hmem : value ∈ values) : ¬ HasUndeclared T value := by
  obtain ⟨i, hi, rfl⟩ := List.getElem_of_mem hmem
  have hi' : i < slots.length := by rwa [hslots.length_eq]
  exact (hslots.get hi' hi).2.mp (hreads.get hi' hi)

/-- The array has the column's type and length, is null where the column is, and is read back as the
column. -/
structure Lossless (T : LogicalType) (D : DataType) (values : List Value) (array : ArrowArray) : Prop where
  dataType : array.dataType = D
  length : array.length = values.length
  nulls : List.Forall₂ (fun slot value => slot = .null ↔ value = .null) array.slots values
  reads : List.Forall₂ (ReadsBack T) array.slots values

/-- The bridge loses exactly the fields that a struct's type does not declare. -/
theorem buildArray_lossless_iff {array : ArrowArray} (harrow : arrow.Stores)
    (hkeyed : ∀ value ∈ values, value.Keyed) (hD : arrowType T = .ok D)
    (h : buildArray arrow T D values = .ok array) :
    Lossless T D values array ↔ ∀ value ∈ values, ¬ HasUndeclared T value := by
  obtain ⟨hdataType, hlength⟩ := buildArray_shape harrow hD h
  have hslots := buildArray_slots harrow hkeyed hD h
  constructor
  · rintro ⟨-, -, -, hreads⟩ value hmem
    exact hasUndeclared_unread hslots hreads hmem
  · intro hdeclared
    refine ⟨hdataType, hlength, hslots.imp fun _ _ h => h.1, ?_⟩
    refine List.forall₂_iff_get.mpr ⟨hslots.length_eq, fun i hi hi' => ?_⟩
    exact (hslots.get hi hi').2.mpr (hdeclared _ (List.getElem_mem hi'))

end

/-- Constructors that find nothing to refuse. -/
def ArrowLibrary.accepting : ArrowLibrary where
  decimal128Limits _ _ := .ok ()
  decimal256Limits _ _ := .ok ()
  tryNewList item offsets child validity := .ok (.list item offsets child validity)
  tryNewFixedSizeList item size child validity := .ok (.fixedSizeList item size child validity)
  tryNewStruct fields children validity length := .ok (.struct fields children validity length)

theorem ArrowLibrary.accepting_stores : ArrowLibrary.accepting.Stores where
  list h := (Except.ok.inj h).symm
  fixedSizeList h := (Except.ok.inj h).symm
  struct h := (Except.ok.inj h).symm

def integerType : LogicalType := ⟨.integer, none⟩

def integerPair (first second : String) : LogicalType :=
  ⟨.struct, some (.struct none [⟨first, integerType⟩, ⟨second, integerType⟩])⟩

def integerPairData (first second : String) : DataType :=
  .struct [⟨first, .int32, true⟩, ⟨second, .int32, true⟩]

def pairRow : Value := .struct [("a", .int 1), ("b", .int 2)]

theorem pairRow_keyed : ∀ value ∈ [pairRow], value.Keyed := by
  intro value hmem
  obtain rfl := List.mem_singleton.mp hmem
  refine .struct (by decide) fun field hfield => .scalar (fun items h => ?_) fun row h => ?_
  all_goals
    rcases List.mem_cons.mp hfield with rfl | hfield
    · cases h
    · obtain rfl := List.mem_singleton.mp hfield
      cases h

theorem arrowType_integer : arrowType integerType = .ok .int32 := by
  rw [arrowType]
  rfl

theorem arrowType_integerPair (first second : String) :
    arrowType (integerPair first second) = .ok (integerPairData first second) := by
  have hfields : structFields (integerPair first second) =
      .ok [⟨first, .int32, true⟩, ⟨second, .int32, true⟩] := by
    rw [structFields_eq rfl]
    simp only [List.mapM_cons, List.mapM_nil, arrowType_integer]
    rfl
  rw [arrowType]
  simp only [integerPair] at hfields ⊢
  rw [hfields]
  rfl

section
variable {arrow : ArrowLibrary}

theorem buildArray_integer (n : I64) (h : SignedRange 32 n.toInt) :
    buildArray arrow integerType .int32 [.int n] = .ok (.scalar .int32 [some (.int n.toInt)]) := by
  have hscalar : buildScalar arrow integerType [.int n] = .ok (.scalar .int32 [some (.int n.toInt)]) := by
    have hnarrow : narrowInt .integer 32 (.int n) = .ok n.toInt := if_pos h
    simp only [buildScalar, integerType, buildInts, collectSlots, List.mapM_cons, List.mapM_nil, hnarrow]
    rfl
  rw [buildArray_scalar (by decide), hscalar]
  rfl

/-- The array of a row under the names `a` and `second`, whose second field is `n`, with the names of the
schema. -/
theorem buildArray_integerPair {array : ArrowArray} (second first' second' : String) (n : I64)
    (hrange : SignedRange 32 n.toInt)
    (hslot : structSlot .struct ⟨second, integerType⟩ 1 pairRow = .ok (.int n))
    (hnew : arrow.tryNewStruct [⟨first', .int32, true⟩, ⟨second', .int32, true⟩]
      [.scalar .int32 [some (.int 1)], .scalar .int32 [some (.int n.toInt)]] [true] 1 = .ok array) :
    buildArray arrow (integerPair "a" second) (integerPairData first' second') [pairRow] = .ok array := by
  have hfirst : buildChild arrow .struct [pairRow]
      ((⟨"a", integerType⟩, ⟨first', .int32, true⟩), 0) = .ok (.scalar .int32 [some (.int 1)]) :=
    buildArray_integer 1 (by decide)
  have hsecond : buildChild arrow .struct [pairRow]
      ((⟨second, integerType⟩, ⟨second', .int32, true⟩), 1) = .ok (.scalar .int32 [some (.int n.toInt)]) := by
    rw [buildChild, List.mapM_cons, hslot]
    exact buildArray_integer n hrange
  have hcolumns : sequence (([⟨"a", integerType⟩, ⟨second, integerType⟩].zip
        [⟨first', .int32, true⟩, ⟨second', .int32, true⟩]).zipIdx.map
          (buildChild arrow .struct [pairRow])) =
      .ok [.scalar .int32 [some (.int 1)], .scalar .int32 [some (.int n.toInt)]] := by
    simp only [List.zip_cons_cons, List.zip_nil_right, List.zipIdx_cons, List.zipIdx_nil, List.map_cons,
      List.map_nil, sequence, Nat.zero_add, hfirst, hsecond]
    rfl
  rw [integerPairData, buildArray_struct (.inl rfl), buildStruct_eq rfl rfl]
  show (sequence _ >>= _) = _
  rw [show (integerPair "a" second).id = .struct from rfl, hcolumns]
  show liftM ((arrow.tryNewStruct _ _ [true] 1).mapError BuildError.rejected) = _
  rw [hnew]
  rfl

end

theorem buildArray_lossless_pair : ∃ array,
    buildArray .accepting (integerPair "a" "b") (integerPairData "a" "b") [pairRow] = .ok array ∧
      Lossless (integerPair "a" "b") (integerPairData "a" "b") [pairRow] array := by
  have h := @buildArray_integerPair .accepting _ "b" "a" "b" 2 (by decide) rfl rfl
  refine ⟨_, h, (buildArray_lossless_iff ArrowLibrary.accepting_stores pairRow_keyed
    (arrowType_integerPair "a" "b") h).mpr fun value hmem hundeclared => ?_⟩
  obtain rfl := List.mem_singleton.mp hmem
  cases hundeclared with
  | here structChildren member undeclared =>
      cases structChildren
      exact undeclared (by simpa using member)
  | field structChildren member field inside =>
      cases structChildren
      rcases List.mem_cons.mp member with rfl | member
      · cases field
        cases inside
      · obtain rfl := List.mem_singleton.mp member
        cases field
        cases inside

/-- Under a type that declares `a` twice the field `b` is lost. -/
theorem not_buildArray_lossless_pair :
    arrowType (integerPair "a" "a") = .ok (integerPairData "a" "a") ∧ ∃ array,
      buildArray .accepting (integerPair "a" "a") (integerPairData "a" "a") [pairRow] = .ok array ∧
        ¬ Lossless (integerPair "a" "a") (integerPairData "a" "a") [pairRow] array := by
  have h := @buildArray_integerPair .accepting _ "a" "a" "a" 1 (by decide) rfl rfl
  refine ⟨arrowType_integerPair "a" "a", _, h, fun hlossless => ?_⟩
  have hslots := buildArray_slots ArrowLibrary.accepting_stores pairRow_keyed
    (arrowType_integerPair "a" "a") h
  have hstructChildren : getStructChildren (integerPair "a" "a") =
      .ok [⟨"a", integerType⟩, ⟨"a", integerType⟩] := rfl
  have hundeclared : HasUndeclared (integerPair "a" "a") pairRow :=
    .here hstructChildren (List.mem_cons_of_mem _ List.mem_cons_self) (by simp)
  exact hasUndeclared_unread hslots hlossless.reads List.mem_cons_self hundeclared

end QuackProtocol
