import QuackProtocol.ArrowFits
import QuackProtocol.DecodingMirrors
import QuackProtocol.Relays

/-! What the bytes of a vector hold, before any of it becomes a value: for each row whether it is stored, with
what the limits of its type measure, or the number that a sequence counts for it. -/

open Decoding Decode Narrowing

namespace QuackProtocol

/-- A row of a vector on the wire. The measure of stored data is the number of a TIME, the microseconds of
an INTERVAL, or the length of a text or a blob in bytes. -/
inductive Cell where
  | null
  | stored (measure : Int)
  | counted (number : I128)
  | items (cells : List Cell)
  | fields (cells : List Cell)

def labelLength (T : LogicalType) (index : Nat) : Int :=
  match getEnumValues T with
  | .ok labels => ((labels[index]?).map fun label => ((utf8Bytes label).length : Int)).getD 0
  | .error _ => 0

/-- An index of a label, or a number that nothing limits. -/
def indexCell (T : LogicalType) (index : Nat) : Cell :=
  .stored (if T.id = .enum then labelLength T index else 0)

def fixedCell (T : LogicalType) : PhysicalType → Decoder Cell
  | .bool | .int8 => do
    let _ ← readFixed 1
    pure (.stored 0)
  | .uint8 => do
    let index ← readFixedU8
    pure (indexCell T index.toNat)
  | .int16 => do
    let _ ← readFixed 2
    pure (.stored 0)
  | .uint16 => do
    let index ← readFixedU16
    pure (indexCell T index.toNat)
  | .int32 | .float => do
    let _ ← readFixed 4
    pure (.stored 0)
  | .uint32 => do
    let index ← readFixedU32
    pure (indexCell T index.toNat)
  | .int64 => do
    let word ← readFixedI64
    pure (.stored (if T.id = .time ∨ T.id = .timeNs then word.toInt else 0))
  | .uint64 | .double => do
    let _ ← readFixed 8
    pure (.stored 0)
  | .int128 => do
    let lower ← readFixedU64
    let upper ← readFixedI64
    pure (.stored (if T.id = .uuid then (utf8Bytes (HugeIntParts.display ⟨upper, lower⟩)).length else 0))
  | .uint128 => do
    let _ ← readFixed 8
    let _ ← readFixed 8
    pure (.stored 0)
  | .interval => do
    let _ ← readFixedI32
    let _ ← readFixedI32
    let micros ← readFixedI64
    pure (.stored micros.toInt)
  | other => throw (.unsupportedType other.debug)

def maskCells (validity : Option (List Bool)) (count : Nat) (cell : Nat → Cell) : List Cell :=
  (List.range count).map fun row => if rowValid validity row then cell row else .null

def fixedCells (T : LogicalType) (physicalType : PhysicalType) (count : Nat)
    (validity : Option (List Bool)) : Decoder (List Cell) := do
  let bytes ← readRequiredField 102 readBlob
  let cells ← onBytes bytes (collect (fun _ => fixedCell T physicalType) 0 count)
  pure (maskCells validity count fun row => cells.getD row .null)

def textCells (validity : Option (List Bool)) : Decoder (List Cell) := do
  let texts ← readRequiredField 102 (readList .blob fun _ => readStringBytes)
  pure (maskCells validity texts.length fun row => .stored (texts.getD row []).length)

section
variable (vectorCells : LogicalType → Nat → Decoder (List Cell))

def structCells (T : LogicalType) (count : Nat) (validity : Option (List Bool)) : Decoder (List Cell) := do
  let children ← ofResult (getStructChildren T)
  let columns ← readRequiredField 103 (readList .decodedVector fun childIndex =>
    match children[childIndex]? with
    | some child => vectorCells child.logicalType count
    | none => protocolError "no matching type metadata")
  pure (maskCells validity count fun row => .fields (columns.map fun column => column.getD row .null))

def listCells (T : LogicalType) (count : Nat) (validity : Option (List Bool)) : Decoder (List Cell) := do
  let listSize ← readRequiredField 104 readUlebUsize
  let entries ← readRequiredField 105 (readListEntries count)
  let childType ← ofResult (getChildType T)
  let cells ← readRequiredField 106 (vectorCells childType listSize)
  pure (maskCells validity entries.length fun row =>
    let entry := entries.getD row ⟨0, 0⟩
    .items ((cells.drop entry.offset).take entry.length))

def arrayCells (T : LogicalType) (count : Nat) (validity : Option (List Bool)) : Decoder (List Cell) := do
  let arraySize ← readRequiredField 103 readUlebUsize
  let childType ← ofResult (getChildType T)
  let cells ← readRequiredField 104 (vectorCells childType (arraySize * count))
  pure (maskCells validity count fun row => .items ((cells.drop (row * arraySize)).take arraySize))

def flatDataCells (T : LogicalType) (physicalType : PhysicalType) (count : Nat)
    (validity : Option (List Bool)) : Decoder (List Cell) :=
  if isConstantSizePhysicalType physicalType then
    fixedCells T physicalType count validity
  else
    match physicalType with
    | .varchar => textCells validity
    | .struct => structCells vectorCells T count validity
    | .list => listCells vectorCells T count validity
    | .array => arrayCells vectorCells T count validity
    | other => throw (.unsupportedType other.debug)

def flatCells (T : LogicalType) (count : Nat) : Decoder (List Cell) := do
  skipGeometryField T
  let validity ← readMask count
  let physicalType ← ofResult (getPhysicalType T)
  flatDataCells vectorCells T physicalType count validity

end

/-- The body of a vector: flat, one cell for all rows, cells selected from a dictionary, or numbers counted
from a start. -/
def cellsWithin : Nat → LogicalType → Nat → Decoder (List Cell)
  | 0, _, _ => panic .recursion
  | budget + 1, T, count => do
    let code ← readOptionalField 90 readUlebU64 0
    let vectorType ← ofResult (VectorType.tryFrom code)
    match vectorType with
    | .flat => flatCells (fun child length => readObject (cellsWithin budget child length)) T count
    | .fsst => throw (.unsupportedType "FSST-compressed vectors are not supported")
    | .constant => do
      let cells ← cellsWithin budget T (if 0 < count then 1 else 0)
      pure (List.replicate count (cells.head?.getD .null))
    | .dictionary => do
      let selection ← readRequiredField 91 (readSelectionVector count)
      let dictionaryCount ← readRequiredField 92 readUlebUsize
      let cells ← cellsWithin budget T dictionaryCount
      pure (selection.map fun position => cells.getD position .null)
    | .sequence => do
      let start ← readRequiredField 91 readSlebI128
      let increment ← readRequiredField 92 readSlebI128
      pure ((List.range count).map fun (index : Nat) =>
        .counted (BitVec.ofInt 128 (start.toInt + increment.toInt * index)))

def vectorCells (T : LogicalType) (count : Nat) : Decoder (List Cell) :=
  withBudget fun budget => readObject (cellsWithin budget T count)

/-! ### What the cells stand for -/

def measureOf : Value → Int
  | .time time => time.value.toInt
  | .interval interval => interval.micros.toInt
  | .string text => (utf8Bytes text).length
  | .bytes raw => raw.length
  | _ => 0

/-- The value that the decoder makes of a cell. -/
inductive StandsFor : LogicalType → Cell → Value → Prop where
  | null (T : LogicalType) : StandsFor T .null .null
  | stored {T : LogicalType} {value : Value} (flat : T.id ∉ nestedIds) (kind : FlatValue T value)
      (fits : ∀ n, value = .int n → T.id = .sqlNull ∨ IntFits T.id n) :
      StandsFor T (.stored (measureOf value)) value
  | counted {T : LogicalType} {number : I128} {value : Value} (made : decodeSequenceValue T number = .ok value) :
      StandsFor T (.counted number) value
  | items {T childType : LogicalType} {cells : List Cell} {items : List Value}
      (physical : getPhysicalType T = .ok .list ∨ getPhysicalType T = .ok .array)
      (child : getChildType T = .ok childType) (length : cells.length = items.length)
      (inside : ∀ pair ∈ cells.zip items, StandsFor childType pair.1 pair.2) :
      StandsFor T (.items cells) (.list items)
  | fields {T : LogicalType} {children : List ChildType} {cells : List Cell} {row : Row}
      (physical : getPhysicalType T = .ok .struct) (structChildren : getStructChildren T = .ok children)
      (inside : (children.map ChildType.name).Nodup → ∀ i (hi : i < children.length),
        StandsFor children[i].logicalType (cells.getD i .null) (structField children[i].name (.struct row))) :
      StandsFor T (.fields cells) (.struct row)

abbrev CellsOf (T : LogicalType) (values : List Value) (cells : List Cell) : Prop :=
  List.Forall₂ (StandsFor T) cells values

section
variable {layout : Layout} {T : LogicalType} {α β : Type} {physicalType : PhysicalType}

theorem measureOf_decimal {n : I128} {value : Value}
    (h : (do let decimal ← decimalFromUnscaled T n; pure (Value.decimal decimal) : Result Value) = .ok value) :
    measureOf value = 0 ∧ ∀ n, value ≠ .int n := by
  obtain ⟨decimal, -, h⟩ := Except.bind_eq_ok h
  cases h
  exact ⟨rfl, fun n h => by cases h⟩

/-- A stored word and its measure. -/
def Measured (T : LogicalType) (value : Value) (cell : Cell) : Prop :=
  cell = .stored (measureOf value) ∧ ∀ n, value = .int n → T.id = .sqlNull ∨ IntFits T.id n

theorem measured_indexCell {word : U64} {index : Nat} (hindex : word.toNat = index) {value : Value}
    (h : decodeEnumOrNumber T word = .ok value) : Measured T value (indexCell T index) := by
  rw [decodeEnumOrNumber] at h
  rw [indexCell]
  by_cases hid : T.id = .enum
  · rw [if_neg (not_not.mpr hid)] at h
    obtain ⟨labels, hlabels, h⟩ := Except.bind_eq_ok h
    rw [if_pos hid, labelLength, hlabels, ← hindex]
    cases hlabel : labels[word.toNat]? with
    | none =>
        rw [hlabel] at h
        cases h
    | some label =>
        rw [hlabel] at h
        cases h
        refine ⟨?_, fun n h => by cases h⟩
        simp only [hlabel, Option.map_some, Option.getD_some, measureOf]
  · rw [if_pos hid] at h
    cases h
    rw [if_neg hid]
    exact ⟨rfl, fun n h => by cases h⟩

theorem measured_decimalOrInt {number : I128} {value : Value}
    (hint : T.id ≠ .decimal → T.id = .sqlNull ∨ IntFits T.id (number.setWidth 64))
    (h : decodeDecimalOrInt T number = .ok value) : Measured T value (.stored 0) := by
  rw [decodeDecimalOrInt] at h
  by_cases hid : T.id = .decimal
  · rw [if_pos hid] at h
    obtain ⟨hmeasure, hnot⟩ := measureOf_decimal h
    exact ⟨by rw [hmeasure], fun n hn => absurd hn (hnot n)⟩
  · rw [if_neg hid] at h
    cases h
    refine ⟨rfl, fun n hn => ?_⟩
    cases hn
    exact hint hid

theorem measured_dateDecimalOrInt {number : I32} {value : Value}
    (hint : T.id ≠ .date → T.id ≠ .decimal →
      T.id = .sqlNull ∨ IntFits T.id ((number.signExtend 128).setWidth 64))
    (h : decodeDateDecimalOrInt T number = .ok value) : Measured T value (.stored 0) := by
  rw [decodeDateDecimalOrInt] at h
  by_cases hid : T.id = .date
  · rw [if_pos hid] at h
    cases h
    exact ⟨rfl, fun n hn => by cases hn⟩
  · rw [if_neg hid] at h
    exact measured_decimalOrInt (hint hid) h

theorem measured_int64 {number : I64} {value : Value} (physical : getPhysicalType T = .ok .int64)
    (h : decodeInt64LogicalValue T number = .ok value) :
    Measured T value (.stored (if T.id = .time ∨ T.id = .timeNs then number.toInt else 0)) := by
  cases hid : T.id <;> simp only [getPhysicalType, hid] at physical <;>
    simp only [decodeInt64LogicalValue, hid] at h
  case decimal =>
    obtain ⟨hmeasure, hnot⟩ := measureOf_decimal h
    exact ⟨by rw [hmeasure]; rfl, fun n hn => absurd hn (hnot n)⟩
  case enum => rcases enumPhysicalType_cases physical with h | h | h <;> cases h
  all_goals cases physical
  all_goals
    cases h
    refine ⟨rfl, fun n hn => ?_⟩
    cases hn
  exact .inr (by rw [hid]; trivial)

theorem measured_int128 {parts : HugeIntParts} {value : Value} (h : decodeInt128Parts T parts = .ok value) :
    Measured T value (.stored (if T.id = .uuid then (utf8Bytes parts.display).length else 0)) := by
  rw [decodeInt128Parts] at h
  by_cases hid : T.id = .uuid
  · rw [if_pos hid] at h
    cases h
    rw [if_pos hid]
    exact ⟨rfl, fun n hn => by cases hn⟩
  · rw [if_neg hid] at h ⊢
    split at h
    · obtain ⟨hmeasure, hnot⟩ := measureOf_decimal h
      exact ⟨by rw [hmeasure], fun n hn => absurd hn (hnot n)⟩
    · cases h
      exact ⟨rfl, fun n hn => by cases hn⟩

/-- The plain integers of a column fit it. -/
theorem intFits_word (physical : getPhysicalType T = .ok physicalType) :
    (physicalType = .int8 → T.id = .tinyInt) ∧
      (physicalType = .int16 → T.id = .decimal ∨ T.id = .smallInt) ∧
      (physicalType = .int32 → T.id = .decimal ∨ T.id = .date ∨ T.id = .sqlNull ∨ T.id = .integer) := by
  cases hid : T.id <;> simp only [getPhysicalType, hid] at physical
  case decimal => rcases decimalPhysicalType_cases physical with rfl | rfl | rfl | rfl <;> simp
  case enum => rcases enumPhysicalType_cases physical with rfl | rfl | rfl <;> simp
  all_goals
    cases physical
    simp

theorem fixedCell_mirrors (physical : getPhysicalType T = .ok physicalType) :
    Mirrors layout (decodeFixedValue T physicalType) (fixedCell T physicalType) (Measured T) := by
  obtain ⟨hint8, hint16, hint32⟩ := intFits_word physical
  have plain {value : Value} (hmeasure : measureOf value = 0) (hnot : ∀ n, value ≠ .int n) :
      Measured T value (.stored 0) := ⟨by rw [hmeasure], fun n hn => absurd hn (hnot n)⟩
  cases physicalType with
  | bool => exact .same fun word => .pure (plain rfl fun n h => by cases h)
  | int8 =>
      refine .same fun word => .pure ⟨rfl, fun n hn => .inr ?_⟩
      cases hn
      rw [hint8 rfl, IntFits, toInt_signExtend _ (by decide)]
      exact signedRange_toInt word (by decide)
  | uint8 =>
      refine .same fun word => .still (.ofResult fun value h => measured_indexCell ?_ h)
      exact BitVec.toNat_setWidth_of_le (by decide)
  | int16 =>
      refine .same fun word => .still (.ofResult fun value h => measured_decimalOrInt (fun hid => ?_) h)
      rw [(hint16 rfl).resolve_left hid]
      exact .inr (signedRange_word word (by decide) (by decide))
  | uint16 =>
      refine .same fun word => .still (.ofResult fun value h => measured_indexCell ?_ h)
      exact BitVec.toNat_setWidth_of_le (by decide)
  | int32 =>
      refine .same fun word => .still (.ofResult fun value h => measured_dateDecimalOrInt (fun hdate hid => ?_) h)
      rcases ((hint32 rfl).resolve_left hid).resolve_left hdate with h | h
      · exact .inl h
      · rw [h]
        exact .inr (signedRange_word word (by decide) (by decide))
  | uint32 =>
      refine .same fun word => .still (.ofResult fun value h => measured_indexCell ?_ h)
      exact BitVec.toNat_setWidth_of_le (by decide)
  | int64 => exact .same fun word => .still (.ofResult fun value h => measured_int64 physical h)
  | uint64 => exact .same fun word => .pure (plain rfl fun n h => by cases h)
  | float => exact .same fun word => .pure (plain rfl fun n h => by cases h)
  | double => exact .same fun word => .pure (plain rfl fun n h => by cases h)
  | int128 =>
      exact .same fun lower => .same fun upper => .still (.ofResult fun value h => measured_int128 h)
  | uint128 => exact .same fun lower => .same fun upper => .pure (plain rfl fun n h => by cases h)
  | interval =>
      exact .same fun months => .same fun days => .same fun micros => .pure ⟨rfl, fun n hn => by cases hn⟩
  | _ => exact .throw _

/-- The data of a text or a blob. -/
theorem decodeStringLikeValue_stored {raw : Bytes} {value : Value}
    (physical : getPhysicalType T = .ok .varchar) (h : decodeStringLikeValue T raw = .ok value) :
    T.id ∉ nestedIds ∧ FlatValue T value ∧ measureOf value = raw.length ∧ ∀ n, value ≠ .int n := by
  obtain ⟨flat, kind⟩ := decodeStringLikeValue_flat physical h
  refine ⟨flat, kind, ?_⟩
  have htext (h : (do let text ← fromUtf8 raw; pure (Value.string text) : Result Value) = .ok value) :
      measureOf value = raw.length ∧ ∀ n, value ≠ .int n := by
    obtain ⟨text, htext, h⟩ := Except.bind_eq_ok h
    cases h
    exact ⟨by rw [measureOf, utf8Bytes_fromUtf8 htext], fun n h => by cases h⟩
  rw [decodeStringLikeValue] at h
  split at h
  · cases h
    exact ⟨rfl, fun n h => by cases h⟩
  · cases h
    exact ⟨rfl, fun n h => by cases h⟩
  · cases h
    exact ⟨rfl, fun n h => by cases h⟩
  · exact htext h

theorem still_withCapacity (element : Element) (count : Nat) :
    Still layout (withCapacity element count) fun _ => True :=
  .bind .ask fun _ _ => .audit fun _ _ _ hrun => ⟨(Still.check _ _ _ _ _ hrun).1, trivial⟩

theorem still_isValid (validity : Option (List Bool)) (row : Nat) :
    Still layout (isValid validity row) fun valid => valid = rowValid validity row := by
  cases validity with
  | none => exact .pure rfl
  | some mask =>
      intro c valid c' hrun
      obtain ⟨hc, hvalid⟩ := Still.index mask row c valid c' hrun
      refine ⟨hc, ?_⟩
      rw [rowValid, List.getD_eq_getElem?_getD, hvalid]
      rfl

theorem still_assertEof : Still layout assertEof fun _ => True := by
  intro c a c' hrun
  obtain ⟨reader, c₁, hcursor, hrest⟩ := Decode.run_bind_eq_ok hrun
  cases hcursor
  split at hrest
  · cases hrest
    exact ⟨rfl, trivial⟩
  · cases hrest

/-- A row of a nested vector, where its value stands under a cell. -/
theorem still_maskedRow {validity : Option (List Bool)} {row : Nat} {value : Decoder Value} {cell : Cell}
    (h : Still layout value (StandsFor T cell)) : Still layout (maskedRow validity row value)
      (StandsFor T (if rowValid validity row then cell else .null)) := by
  refine (still_isValid validity row).bind fun valid hvalid => ?_
  rw [← hvalid]
  cases valid with
  | false => exact .pure (.null T)
  | true => exact h

/-- The rows of a column, each under its cell. -/
theorem cellsOf_rows {cell : Nat → Cell} {values : List Value} {count : Nat}
    (h : List.Forall₂ (fun row value => StandsFor T (cell row) value) (List.range' 0 count) values) :
    CellsOf T values ((List.range count).map cell) := by
  rw [← List.range_eq_range'] at h
  exact List.forall₂_map_left_iff.mpr h

theorem CellsOf.getD {values : List Value} {cells : List Cell} (h : CellsOf T values cells) (row : Nat) :
    StandsFor T (cells.getD row .null) ((values[row]?).getD .null) := by
  rw [List.getD_eq_getElem?_getD]
  by_cases hrow : row < cells.length
  · have hrow' : row < values.length := by rwa [← h.length_eq]
    rw [List.getElem?_eq_getElem hrow, List.getElem?_eq_getElem hrow']
    exact h.get hrow hrow'
  · have hrow' : values.length ≤ row := by
      rw [← h.length_eq]
      omega
    rw [List.getElem?_eq_none (by omega), List.getElem?_eq_none hrow']
    exact .null T

theorem CellsOf.window {values : List Value} {cells : List Cell} (h : CellsOf T values cells)
    (offset length : Nat) : CellsOf T ((values.drop offset).take length) ((cells.drop offset).take length) :=
  List.forall₂_take length (List.forall₂_drop offset h)

section
variable {m : Decoder α} {s : Decoder β} {rel : α → β → Prop}

theorem mirrors_object (h : Mirrors layout m s rel) : Mirrors layout (readObject m) (readObject s) rel :=
  h.bind fun _ _ hab => .same fun _ => .pure hab

theorem mirrors_required (fieldId : Nat) (h : Mirrors layout m s rel) :
    Mirrors layout (readRequiredField fieldId m) (readRequiredField fieldId s) rel :=
  .same fun _ => .ite (fun _ => h) fun _ => .same fun _ => .throw _

end

theorem fixedCells_mirrors {count : Nat} {validity : Option (List Bool)}
    (physical : getPhysicalType T = .ok physicalType)
    (size : isConstantSizePhysicalType physicalType = true) :
    Mirrors layout (decodeFixedVector T physicalType count validity) (fixedCells T physicalType count validity)
      (CellsOf T) := by
  obtain ⟨flat, hflat⟩ := @decodeFixedValue_flat layout _ _ physical size
  have hrow (row : Nat) : Mirrors layout (do
      let value ← decodeFixedValue T physicalType
      let valid ← isValid validity row
      pure (if valid then value else .null)) (fixedCell T physicalType) fun value cell =>
        StandsFor T (if rowValid validity row then cell else .null) value := by
    refine Mirrors.finish ((fixedCell_mirrors physical).gives hflat) fun value cell hvalue => ?_
    obtain ⟨⟨rfl, fits⟩, kind⟩ := hvalue
    refine (still_isValid validity row).bind fun valid hvalid => .pure ?_
    rw [← hvalid]
    cases valid with
    | false => exact .null T
    | true => exact .stored flat kind fits
  refine .skip (.ofResult fun _ _ => trivial) fun size _ => .skip (.audit (.usizeMul _ _)) fun byteLength _ => ?_
  refine .same fun bytes => .guarded fun _ => ?_
  rw [decodeFixedValues]
  refine .skip (still_withCapacity _ _) fun _ _ => ?_
  refine (Mirrors.onBytes ((Mirrors.collect hrow 0 count).finish fun values cells hrows =>
    still_assertEof.bind fun _ _ => .pure hrows)).mapped fun values cells hrows => ?_
  obtain ⟨hvalues, hcells, hpairs⟩ := hrows
  refine List.forall₂_iff_get.mpr ⟨by simp [maskCells, hvalues], fun i hi hi' => ?_⟩
  have hcell : i < cells.length := by rwa [hcells, ← hvalues]
  have hpair := hpairs i hi' hcell
  rw [Nat.zero_add] at hpair
  simpa [maskCells, List.getD_eq_getElem?_getD, List.getElem?_eq_getElem hcell] using hpair

theorem textCells_mirrors {count : Nat} {validity : Option (List Bool)}
    (physical : getPhysicalType T = .ok .varchar) :
    Mirrors layout (decodeVarcharValues T count validity) (textCells validity) (CellsOf T) := by
  refine .same fun rawValues => .skip (.record _) fun _ _ => .still ?_
  have hrow (row : Nat) : Still layout (do
      let valid ← audit (.stringRow (validity.map List.length) row) (isValid validity row)
      if valid then do
        let raw ← index rawValues row
        ofResult (decodeStringLikeValue T raw)
      else
        pure .null) (StandsFor T
          (if rowValid validity row then .stored (rawValues.getD row []).length else .null)) := by
    refine (Still.audit (still_isValid validity row)).bind fun valid hvalid => ?_
    rw [← hvalid]
    cases valid with
    | false => exact .pure (.null T)
    | true =>
        refine (Still.index rawValues row).bind fun raw hraw => .ofResult fun value hvalue => ?_
        rw [List.getD_eq_getElem?_getD, hraw, Option.getD_some, if_pos rfl]
        obtain ⟨flat, kind, hmeasure, hnot⟩ := decodeStringLikeValue_stored physical hvalue
        rw [← hmeasure]
        exact .stored flat kind fun n hn => absurd hn (hnot n)
  intro c values c' hrun
  obtain ⟨hc, hrows⟩ := Still.collect hrow 0 rawValues.length c values c' hrun
  exact ⟨hc, cellsOf_rows hrows⟩

theorem structRow_standsFor {children : List ChildType} {vectors : List DecodedVector}
    {columns : List (List Cell)} {row : Nat} {fields : Row} (physical : getPhysicalType T = .ok .struct)
    (structChildren : getStructChildren T = .ok children) (hlen : columns.length = vectors.length)
    (hcolumns : ∀ i (hi : i < vectors.length) (hi' : i < columns.length) (hchild : i < children.length),
      CellsOf children[i].logicalType vectors[i].values columns[i])
    (hrow : structRow children vectors row = .ok fields) :
    StandsFor T (.fields (columns.map fun column => column.getD row .null)) (.struct fields) := by
  have hcomplete := structRow_complete hrow
  obtain rfl := structRow_fields hrow
  refine .fields physical structChildren fun distinct i hi => ?_
  have hi' : i < vectors.length := by omega
  have hcolumn : i < columns.length := by omega
  have hnames : ((children.zip vectors).map (fieldOf row)).map Prod.fst = children.map ChildType.name := by
    rw [List.map_map]
    show (children.zip vectors).map (ChildType.name ∘ Prod.fst) = _
    rw [← List.map_map, List.map_fst_zip hcomplete]
  have hkeys : (((children.zip vectors).map (fieldOf row)).map Prod.fst).Nodup := by rwa [hnames]
  have hfield : fieldOf row (children[i], vectors[i]) ∈ (children.zip vectors).map (fieldOf row) := by
    apply List.mem_map_of_mem
    rw [← List.getElem_zip (h := by rw [List.length_zip]; omega)]
    exact List.getElem_mem _
  have hget : structField children[i].name (.struct (Row.ofFields ((children.zip vectors).map (fieldOf row)))) =
      (vectors[i].values[row]?).getD .null := by
    rw [structField, Row.ofFields_of_nodup hkeys, Row.get_of_mem hkeys hfield]
    rfl
  rw [hget, List.getD_eq_getElem?_getD, List.getElem?_map, List.getElem?_eq_getElem hcolumn]
  exact (hcolumns i hi' hcolumn hi).getD row

theorem CellsOf.item {childType : LogicalType} {cells : List Cell} {items : List Value}
    (physical : getPhysicalType T = .ok .list ∨ getPhysicalType T = .ok .array)
    (child : getChildType T = .ok childType) (hitems : CellsOf childType items cells) :
    StandsFor T (.items cells) (.list items) :=
  .items physical child hitems.length_eq fun _ hmem => (List.forall₂_zip hitems hmem)

section
variable {decodeVector : LogicalType → Nat → Decoder DecodedVector}
  {cellsAt : LogicalType → Nat → Decoder (List Cell)}
  (h : ∀ T count, Mirrors layout (decodeVector T count) (cellsAt T count) fun vector => CellsOf T vector.values)
include h

theorem structCells_mirrors {count : Nat} {validity : Option (List Bool)}
    (physical : getPhysicalType T = .ok .struct) :
    Mirrors layout (decodeStructValues decodeVector T count validity) (structCells cellsAt T count validity)
      (CellsOf T) := by
  apply Mirrors.result
  intro children structChildren
  have hread (i : Nat) : Mirrors layout
      (match children[i]? with
        | some child => decodeVector child.logicalType count
        | none => protocolError s!"STRUCT child vector {i} has no matching type metadata")
      (match children[i]? with
        | some child => cellsAt child.logicalType count
        | none => protocolError "no matching type metadata") fun vector cells =>
          ∀ hi : i < children.length, CellsOf children[i].logicalType vector.values cells := by
    by_cases hi : i < children.length
    · rw [List.getElem?_eq_getElem hi]
      exact (h _ count).weaken fun vector cells hcells _ => hcells
    · rw [List.getElem?_eq_none (by omega)]
      exact .throw _
  have hlist : Mirrors layout (readList .decodedVector fun i => match children[i]? with
        | some child => decodeVector child.logicalType count
        | none => protocolError s!"STRUCT child vector {i} has no matching type metadata")
      (readList .decodedVector fun i => match children[i]? with
        | some child => cellsAt child.logicalType count
        | none => protocolError "no matching type metadata") fun vectors columns =>
          columns.length = vectors.length ∧ ∀ i (hi : i < vectors.length) (hi' : i < columns.length)
            (hchild : i < children.length), CellsOf children[i].logicalType vectors[i].values columns[i] := by
    refine .same fun length => .same fun _ => (Mirrors.collect hread 0 length).weaken ?_
    rintro vectors columns ⟨hvectors, hcolumns, hpairs⟩
    refine ⟨hcolumns.trans hvectors.symm, fun i hi hi' hchild => ?_⟩
    have hpair := hpairs i hi hi'
    simp only [Nat.zero_add] at hpair
    exact hpair hchild
  refine (mirrors_required 103 hlist).bind ?_
  rintro vectors columns ⟨hlen, hcolumns⟩
  refine .skip (still_withCapacity _ _) fun _ _ => .still ?_
  have hrow (row : Nat) : Still layout (maskedRow validity row do
      let fields ← ofResult (structRow children vectors row)
      pure (.struct fields)) (StandsFor T (if rowValid validity row then
        .fields (columns.map fun column => column.getD row .null) else .null)) := by
    refine still_maskedRow ((Still.ofResult fun fields hfields => hfields).bind fun fields hfields => .pure ?_)
    exact structRow_standsFor physical structChildren hlen hcolumns hfields
  intro c values c' hrun
  obtain ⟨hc, hrows⟩ := Still.collect hrow 0 count c values c' hrun
  exact ⟨hc, cellsOf_rows hrows⟩

theorem listCells_mirrors {count : Nat} {validity : Option (List Bool)}
    (physical : getPhysicalType T = .ok .list) :
    Mirrors layout (decodeListValues decodeVector T count validity) (listCells cellsAt T count validity)
      (CellsOf T) := by
  refine .same fun listSize => .same fun entries => Mirrors.result fun childType child => ?_
  refine (mirrors_required 106 (h childType listSize)).bind fun childVector cells hcells => ?_
  refine .skip (still_withCapacity _ _) fun _ _ => .still ?_
  have hrow (row : Nat) : Still layout (do
      let entry ← index entries row
      maskedRow validity row do
        let stop ← audit (.entryEnd entry.offset entry.length) (usizeAdd entry.offset entry.length)
        let items ← audit (.entry childVector.values.length entry.offset entry.length)
          (slice childVector.values entry.offset stop)
        pure (.list items)) (StandsFor T (if rowValid validity row then
          .items ((cells.drop (entries.getD row ⟨0, 0⟩).offset).take (entries.getD row ⟨0, 0⟩).length)
        else .null)) := by
    refine (Still.index entries row).bind fun entry hentry => ?_
    rw [List.getD_eq_getElem?_getD, hentry, Option.getD_some]
    refine still_maskedRow ((Still.audit (.usizeAdd _ _)).bind fun stop hstop => ?_)
    refine (Still.audit (.slice _ _ _)).bind fun items hitems => .pure ?_
    rw [hitems, hstop, Nat.add_sub_cancel_left]
    exact (hcells.window _ _).item (.inl physical) child
  intro c values c' hrun
  obtain ⟨hc, hrows⟩ := Still.collect hrow 0 entries.length c values c' hrun
  exact ⟨hc, cellsOf_rows hrows⟩

theorem arrayCells_mirrors {count : Nat} {validity : Option (List Bool)}
    (physical : getPhysicalType T = .ok .array) :
    Mirrors layout (decodeArrayValues decodeVector T count validity) (arrayCells cellsAt T count validity)
      (CellsOf T) := by
  refine .same fun arraySize => .skip (.ofResult fun _ _ => trivial) fun expected _ => .guarded fun _ => ?_
  apply Mirrors.result
  intro childType child
  have hchild : Mirrors layout (do
      let childCount ← audit (.product arraySize count) (usizeMul arraySize count)
      decodeVector childType childCount) (cellsAt childType (arraySize * count))
        fun vector => CellsOf childType vector.values := by
    refine .skip (.audit (.usizeMul _ _)) fun childCount hcount => ?_
    rw [hcount]
    exact h childType _
  refine (mirrors_required 104 hchild).bind fun childVector cells hcells => ?_
  refine .skip (still_withCapacity _ _) fun _ _ => .still ?_
  have hrow (row : Nat) : Still layout (maskedRow validity row do
      let offset ← usizeMul row arraySize
      let stop ← usizeAdd offset arraySize
      let items ← audit (.arrayRow childVector.values.length arraySize row)
        (slice childVector.values offset stop)
      pure (.list items)) (StandsFor T (if rowValid validity row then
        .items ((cells.drop (row * arraySize)).take arraySize) else .null)) := by
    refine still_maskedRow ((Still.usizeMul _ _).bind fun offset hoffset => ?_)
    refine (Still.usizeAdd _ _).bind fun stop hstop => ?_
    refine (Still.audit (.slice _ _ _)).bind fun items hitems => .pure ?_
    rw [hitems, hstop, Nat.add_sub_cancel_left, hoffset]
    exact (hcells.window _ _).item (.inr physical) child
  intro c values c' hrun
  obtain ⟨hc, hrows⟩ := Still.collect hrow 0 count c values c' hrun
  exact ⟨hc, cellsOf_rows hrows⟩

theorem flatCells_mirrors {count : Nat} {vectorType : VectorType} :
    Mirrors layout (decodeFlatVectorBody decodeVector T count vectorType) (flatCells cellsAt T count)
      fun vector => CellsOf T vector.values := by
  refine .same fun _ => .same fun validity => Mirrors.result fun physicalType physical => ?_
  have hdata : Mirrors layout (decodeFlatData decodeVector T physicalType count validity)
      (flatDataCells cellsAt T physicalType count validity) (CellsOf T) := by
    refine .ite (fun size => fixedCells_mirrors physical size) fun _ => ?_
    cases physicalType with
    | varchar => exact textCells_mirrors physical
    | struct => exact structCells_mirrors h physical
    | list => exact listCells_mirrors h physical
    | array => exact arrayCells_mirrors h physical
    | _ => exact .throw _
  exact hdata.finish fun values cells hcells => .pure hcells

end

theorem constantCells {values : List Value} {cells : List Cell} (count : Nat) (h : CellsOf T values cells) :
    CellsOf T (List.replicate count (values.head?.getD .null))
      (List.replicate count (cells.head?.getD .null)) := by
  have hhead : StandsFor T (cells.head?.getD .null) (values.head?.getD .null) := by
    cases h with
    | nil => exact .null T
    | cons hfirst _ => exact hfirst
  exact List.forall₂_iff_get.mpr ⟨by simp, fun i hi hi' => by simpa using hhead⟩

theorem dictionaryCells {dictionary values : List Value} {cells : List Cell} {selection : List Nat}
    (h : CellsOf T dictionary cells)
    (hselect : (selection.mapM fun position => match dictionary[position]? with
      | some value => .ok value
      | none => .error (.protocol s!"dictionary selection {position} is out of range") : Result _) =
        .ok values) : CellsOf T values (selection.map fun position => cells.getD position .null) := by
  refine List.forall₂_map_left_iff.mpr ((Except.mapM_ok_iff.mp hselect).imp fun position value hvalue => ?_)
  have hcell := h.getD position
  cases hposition : dictionary[position]? with
  | none =>
      rw [hposition] at hvalue
      cases hvalue
  | some chosen =>
      rw [hposition] at hvalue hcell
      cases hvalue
      exact hcell

theorem still_sequenceNumber (start increment : I128) (index : Nat) :
    Still layout (sequenceNumber start increment index) fun number =>
      number = BitVec.ofInt 128 (start.toInt + increment.toInt * index) :=
  .audit ((Still.check _ _).bind fun _ _ => .pure rfl)

theorem sequenceCells_still (start increment : I128) (count : Nat) :
    Still layout (collect (fun position => do
      let number ← sequenceNumber start increment position
      let value ← ofResult (decodeSequenceValue T number)
      withCapacity .value (position + 1)
      pure value) 0 count) fun values => CellsOf T values ((List.range count).map fun (index : Nat) =>
        .counted (BitVec.ofInt 128 (start.toInt + increment.toInt * index))) := by
  have hrow (position : Nat) : Still layout (do
      let number ← sequenceNumber start increment position
      let value ← ofResult (decodeSequenceValue T number)
      withCapacity .value (position + 1)
      pure value) (StandsFor T (.counted (BitVec.ofInt 128 (start.toInt + increment.toInt * position)))) := by
    refine (still_sequenceNumber start increment position).bind fun number hnumber => ?_
    refine (Still.ofResult fun value made => made).bind fun value made => ?_
    refine (still_withCapacity _ _).bind fun _ _ => .pure ?_
    rw [← hnumber]
    exact .counted made
  intro c values c' hrun
  obtain ⟨hc, hrows⟩ := Still.collect hrow 0 count c values c' hrun
  exact ⟨hc, cellsOf_rows hrows⟩

/-- The cells that are read from the bytes of a vector stand for the values that are decoded from them. -/
theorem cellsWithin_mirrors (budget : Nat) (T : LogicalType) (count : Nat) :
    Mirrors layout (decodeVectorBody budget T count) (cellsWithin budget T count)
      fun vector => CellsOf T vector.values := by
  induction budget generalizing T count with
  | zero => exact .panic .recursion
  | succ budget ih =>
      refine Mirrors.nested (.same fun code => .same fun vectorType => ?_) _ _
      have recorded {data : Decoder DecodedVector} {cells : Decoder (List Cell)}
          (hdata : Mirrors layout data cells fun vector => CellsOf T vector.values) :
          Mirrors layout (data >>= fun vector => do
            record (.vector count vector.values.length)
            pure vector) cells fun vector => CellsOf T vector.values :=
        hdata.finish fun vector cells hcells => (Still.record _).bind fun _ _ => .pure hcells
      cases vectorType with
      | flat => exact recorded (flatCells_mirrors fun T count => mirrors_object (ih T count))
      | fsst => exact recorded (.throw _)
      | constant =>
          refine recorded ((ih T _).bind fun decoded cells hcells => ?_)
          exact .skip (still_withCapacity _ _) fun _ _ => .pure (constantCells count hcells)
      | dictionary =>
          refine recorded (.same fun selection => .same fun dictionaryCount => ?_)
          refine (ih T dictionaryCount).bind fun dictionary cells hcells => ?_
          refine .skip (still_withCapacity _ _) fun _ _ => ?_
          refine .skip (.ofResult fun values hvalues => hvalues) fun values hvalues => .pure ?_
          exact dictionaryCells hcells hvalues
      | sequence =>
          refine recorded (.same fun start => .same fun increment => ?_)
          exact .skip (sequenceCells_still start increment count) fun values hvalues => .pure hvalues

theorem vectorCells_mirrors (T : LogicalType) (count : Nat) :
    Mirrors layout (decodeVector T count) (vectorCells T count) fun vector => CellsOf T vector.values :=
  .withBudget fun budget => mirrors_object (cellsWithin_mirrors budget T count)

end

end QuackProtocol
