import QuackProtocol.Narrowing
import QuackProtocol.Uuid
import QuackProtocol.VectorRoundTrip

/-! Canonical values: the values a column of a type gives back unchanged. The one exception is an ENUM
label beyond the range of the index that the column stores. -/

open Decoding Narrowing

namespace QuackProtocol

namespace Row

theorem insert_of_notMem {row : Row} {name : String} (h : name ∉ row.map Prod.fst) (value : Value) :
    Row.insert row name value = row ++ [(name, value)] := by
  induction row with
  | nil => rfl
  | cons field row ih =>
      obtain ⟨key, old⟩ := field
      rw [List.map_cons, List.mem_cons, not_or] at h
      rw [Row.insert, if_neg (Ne.symm h.1), ih h.2, List.cons_append]

/-- Fields of distinct names are the row itself. -/
theorem ofFields_of_nodup {fields : Row} (h : (fields.map Prod.fst).Nodup) :
    Row.ofFields fields = fields := by
  have hfold : ∀ row : Row, ((row ++ fields).map Prod.fst).Nodup →
      fields.foldl (fun row field => Row.insert row field.1 field.2) row = row ++ fields := by
    clear h
    induction fields with
    | nil => exact fun row _ => (List.append_nil row).symm
    | cons field fields ih =>
        intro row hrow
        have hnew : field.1 ∉ row.map Prod.fst := fun hmem => by
          rw [List.map_append, List.map_cons, List.nodup_append] at hrow
          exact hrow.2.2 _ hmem _ (List.mem_cons_self ..) rfl
        rw [List.append_cons] at hrow ⊢
        rw [List.foldl_cons, insert_of_notMem hnew, ih _ hrow]
  exact hfold [] h

theorem get_of_mem {row : Row} {name : String} {value : Value} (h : (row.map Prod.fst).Nodup)
    (hmem : (name, value) ∈ row) : Row.get row name = some value := by
  induction row with
  | nil => cases hmem
  | cons field row ih =>
      obtain ⟨key, old⟩ := field
      rw [List.map_cons, List.nodup_cons] at h
      rw [Row.get]
      rcases List.mem_cons.mp hmem with heq | hrest
      · cases heq
        rw [if_pos rfl]
      · have hne : key ≠ name := fun heq => h.1 (List.mem_map.mpr ⟨_, hrest, heq.symm⟩)
        rw [if_neg hne, ih h.2 hrest]

theorem get_isSome {row : Row} {name : String} :
    (Row.get row name).isSome ↔ name ∈ row.map Prod.fst := by
  induction row with
  | nil => exact ⟨fun h => (by cases h), fun h => (by cases h)⟩
  | cons field row ih =>
      obtain ⟨key, value⟩ := field
      rw [Row.get, List.map_cons, List.mem_cons]
      by_cases h : key = name
      · rw [if_pos h]
        exact ⟨fun _ => .inl h.symm, fun _ => rfl⟩
      · rw [if_neg h, ih]
        exact ⟨.inr, fun hmem => hmem.resolve_left (Ne.symm h)⟩

end Row

/-- The values that the library's comparison takes for equal: rows are compared by key, and
floating-point numbers as their bits. -/
inductive Value.Same : Value → Value → Prop where
  | refl (value : Value) : Same value value
  | list {items items' : List Value} (length : items.length = items'.length)
      (inside : ∀ i (h : i < items.length) (h' : i < items'.length), Same items[i] items'[i]) :
      Same (.list items) (.list items')
  | struct {row row' : Row} (names : ∀ name, (Row.get row name).isSome = (Row.get row' name).isSome)
      (fields : ∀ name value value', Row.get row name = some value →
        Row.get row' name = some value' → Same value value') : Same (.struct row) (.struct row')

theorem Value.Same.items {items items' : List Value} (h : Same (.list items) (.list items')) :
    ∀ i (h : i < items.length) (h' : i < items'.length), Same items[i] items'[i] := by
  cases h with
  | refl => exact fun i _ _ => .refl _
  | list _ inside => exact inside

theorem Value.Same.fields {row row' : Row} (h : Same (.struct row) (.struct row')) {name : String}
    {value value' : Value} (hget : Row.get row name = some value)
    (hget' : Row.get row' name = some value') : Same value value' := by
  cases h with
  | refl =>
      cases hget.symm.trans hget'
      exact .refl _
  | struct _ fields => exact fields name value value' hget hget'

/-- A value of a scalar type, as the decoder builds it. -/
def ScalarOf (T : LogicalType) (value : Value) : Prop :=
  match T.id with
  | .boolean => ∃ b, value = .bool b
  | .tinyInt => ∃ n, value = .int n ∧ SignedRange 8 n.toInt
  | .smallInt => ∃ n, value = .int n ∧ SignedRange 16 n.toInt
  | .integer | .sqlNull => ∃ n, value = .int n ∧ SignedRange 32 n.toInt
  | .bigInt => ∃ n, value = .int n
  | .uTinyInt => ∃ n, value = .uint n ∧ n.toNat < 2 ^ 8
  | .uSmallInt => ∃ n, value = .uint n ∧ n.toNat < 2 ^ 16
  | .uInteger => ∃ n, value = .uint n ∧ n.toNat < 2 ^ 32
  | .uBigInt | .pointer => ∃ n, value = .uint n
  | .hugeInt => ∃ n, value = .hugeInt n
  | .uHugeInt => ∃ n, value = .uhugeInt n
  | .float => ∃ bits, value = .float bits
  | .double => ∃ bits, value = .double bits
  | .date => ∃ date, value = .date date
  | .time => ∃ n, value = .time ⟨.micros, n⟩
  | .timeNs => ∃ n, value = .time ⟨.nanos, n⟩
  | .timeTz => ∃ time, value = .timeTz time
  | .timestampSec => ∃ n, value = .timestamp ⟨.seconds, n, false⟩
  | .timestampMs => ∃ n, value = .timestamp ⟨.millis, n, false⟩
  | .timestamp => ∃ n, value = .timestamp ⟨.micros, n, false⟩
  | .timestampNs => ∃ n, value = .timestamp ⟨.nanos, n, false⟩
  | .timestampTz => ∃ n, value = .timestamp ⟨.micros, n, true⟩
  | .interval => ∃ interval, value = .interval interval
  | .uuid => ∃ text, value = .string text ∧ UuidText text
  | .enum => ∃ text labels, value = .string text ∧ getEnumValues T = .ok labels ∧ text ∈ labels
  | .decimal => ∃ n width scale physicalType size, value = .decimal ⟨n, width, scale⟩ ∧
      getDecimalWidthAndScale T = .ok (width, scale) ∧ getPhysicalType T = .ok physicalType ∧
      constantSize physicalType = some size ∧ SignedRange (8 * size) n.toInt
  | .blob | .geometry | .bit => ∃ raw, value = .bytes raw ∧ Held raw
  | .bigNum | .varchar | .char | .type | .aggregateState => ∃ text, value = .string text ∧
      HeldText text
  | _ => False

/-- A value that belongs to its column as it is. -/
inductive Canonical : LogicalType → Value → Prop where
  | null (T : LogicalType) : Canonical T .null
  | scalar {T : LogicalType} {value : Value} (scalarOf : ScalarOf T value) : Canonical T value
  | struct {T : LogicalType} {children : List ChildType} {row : Row}
      (physical : getPhysicalType T = .ok .struct)
      (structChildren : getStructChildren T = .ok children)
      (names : (row.map Prod.fst).Perm (children.map ChildType.name))
      (fields : ∀ child ∈ children, ∀ value, Row.get row child.name = some value →
        Canonical child.logicalType value) : Canonical T (.struct row)
  | list {T childType : LogicalType} {items : List Value}
      (physical : getPhysicalType T = .ok .list) (child : getChildType T = .ok childType)
      (inside : ∀ item ∈ items, Canonical childType item) : Canonical T (.list items)
  | array {T childType : LogicalType} {size : U64} {items : List Value}
      (physical : getPhysicalType T = .ok .array) (child : getChildType T = .ok childType)
      (arraySize : getArraySize T = .ok size) (length : items.length = size.toNat)
      (inside : ∀ item ∈ items, Canonical childType item) : Canonical T (.list items)

/-- An ENUM label whose first place does not fit the index that the column stores. -/
def WideLabel (T : LogicalType) (text : String) : Prop :=
  T.id = .enum ∧ ∃ labels index, getEnumValues T = .ok labels ∧
    (labels.findIdx? fun label => label = text) = some index ∧ 2 ^ 32 ≤ index

/-- A value with such a label, at any depth. -/
inductive HasWideLabel : LogicalType → Value → Prop where
  | label {T : LogicalType} {text : String} (wide : WideLabel T text) : HasWideLabel T (.string text)
  | struct {T : LogicalType} {children : List ChildType} {child : ChildType} {row : Row}
      {value : Value} (structChildren : getStructChildren T = .ok children)
      (member : child ∈ children) (field : Row.get row child.name = some value)
      (inside : HasWideLabel child.logicalType value) : HasWideLabel T (.struct row)
  | list {T childType : LogicalType} {items : List Value} {item : Value}
      (child : getChildType T = .ok childType) (member : item ∈ items)
      (inside : HasWideLabel childType item) : HasWideLabel T (.list items)

/-! ### Scalars -/

/-- A number read back from a column of `w` bits. -/
theorem signExtend_narrow {w : Nat} (n : I64) (hw : 0 < w) (hle : w ≤ 64)
    (h : SignedRange w n.toInt) : ((n.signExtend 128).setWidth w).signExtend 64 = n := by
  apply BitVec.eq_of_toInt_eq
  rw [toInt_signExtend _ hle, signExtend_setWidth n hw (by decide) (by omega) h]

theorem setWidth_narrow {w : Nat} (n : I64) (hw : 0 < w) (hle : w ≤ 64)
    (h : SignedRange w n.toInt) :
    (((n.signExtend 128).setWidth w).signExtend 128).setWidth 64 = n := by
  apply BitVec.eq_of_toInt_eq
  have hnarrow : ((n.signExtend 128).setWidth w).toInt = n.toInt :=
    signExtend_setWidth n hw (by decide) (by omega) h
  rw [toInt_setWidth _ (by decide), toInt_signExtend _ (by omega), hnarrow]
  exact (bmod_eq_self_iff (by decide) _).mpr (signedRange_toInt n (by decide))

theorem zeroExtend_narrow {w : Nat} (n : U64) (hle : w ≤ 64) (h : n.toNat < 2 ^ w) :
    (((n.setWidth 128).setWidth 64).setWidth w).setWidth 64 = n := by
  apply BitVec.eq_of_toNat_eq
  have hwide : ((n.setWidth 128).setWidth 64).toNat = n.toNat := by
    rw [BitVec.toNat_setWidth, BitVec.toNat_setWidth]
    omega
  have hpow : 2 ^ w ≤ 2 ^ 64 := Nat.pow_le_pow_right (by decide) hle
  rw [BitVec.toNat_setWidth, BitVec.toNat_setWidth, hwide, Nat.mod_eq_of_lt h,
    Nat.mod_eq_of_lt (h.trans_le hpow)]

section
variable {prims : Primitives} {T : LogicalType} {physicalType : PhysicalType} {value : Value}

theorem ScalarOf.ne_null (h : ScalarOf T value) : value ≠ .null := by
  rintro rfl
  unfold ScalarOf at h
  split at h <;> simp at h

theorem decimalFromUnscaled_ok {width scale : U64}
    (h : getDecimalWidthAndScale T = .ok (width, scale)) (n : I128) :
    decimalFromUnscaled T n = .ok ⟨n, width, scale⟩ := by
  rw [getDecimalWidthAndScale] at h
  rw [decimalFromUnscaled]
  cases hinfo : T.typeInfo with
  | none =>
      rw [hinfo] at h
      cases h
  | some info =>
      rw [hinfo] at h
      cases info <;> cases h
      rfl

theorem decimalPhysicalType_cases (h : decimalPhysicalType T = .ok physicalType) :
    physicalType = .int16 ∨ physicalType = .int32 ∨ physicalType = .int64 ∨ physicalType = .int128 := by
  rw [decimalPhysicalType] at h
  obtain ⟨⟨width, scale⟩, -, h⟩ := Except.bind_eq_ok h
  dsimp only at h
  split_ifs at h <;> cases h <;> simp

/-- A DECIMAL column stores the bare number of a value, narrowed, at the scale of the column. -/
theorem storedFixed_unscaled {number : I128} {width scale : U64} {size : Nat} (hid : T.id = .decimal)
    (hscale : getDecimalWidthAndScale T = .ok (width, scale))
    (physical : getPhysicalType T = .ok physicalType) (hsize : constantSize physicalType = some size)
    (hvalue : decimalToUnscaled prims T value = .ok number) : 0 < size ∧ ∃ n : I128,
      storedFixed prims T physicalType value = .ok (.decimal ⟨n, width, scale⟩) ∧
      n.toInt = number.toInt.bmod (2 ^ (8 * size)) := by
  have hwidth : decimalPhysicalType T = .ok physicalType := by
    rwa [getPhysicalType, hid] at physical
  have hnarrow {w : Nat} (hle : w ≤ 128) :
      ((number.setWidth w).signExtend 128).toInt = number.toInt.bmod (2 ^ w) := by
    rw [toInt_signExtend _ hle, toInt_setWidth _ hle]
  have hconverts : encodeDecimalOrInteger prims T value = .ok number := by
    rw [encodeDecimalOrInteger, if_pos hid, hvalue]
  have hword (n : I128) : decodeDecimalOrInt T n = .ok (.decimal ⟨n, width, scale⟩) := by
    rw [decodeDecimalOrInt, if_pos hid, decimalFromUnscaled_ok hscale]
    rfl
  rcases decimalPhysicalType_cases hwidth with rfl | rfl | rfl | rfl <;> cases hsize
  · refine ⟨by decide, _, ?_, hnarrow (by decide)⟩
    rw [storedFixed, hconverts]
    exact congrArg liftM (hword _)
  · have hdate : encodeDateDecimalOrInteger prims T value = .ok number := by
      unfold encodeDateDecimalOrInteger
      rw [if_neg (by rw [hid]; decide), hconverts]
    refine ⟨by decide, _, ?_, hnarrow (by decide)⟩
    rw [storedFixed, hdate]
    show liftM (decodeDateDecimalOrInt T (number.setWidth 32)) = _
    rw [decodeDateDecimalOrInt, if_neg (by rw [hid]; decide), hword]
    rfl
  · have hword64 : encodeInt64LogicalValue prims T value = .ok (number.setWidth 64) := by
      unfold encodeInt64LogicalValue
      rw [if_pos hid, hvalue]
      rfl
    refine ⟨by decide, _, ?_, hnarrow (by decide)⟩
    rw [storedFixed, hword64]
    show liftM (decodeInt64LogicalValue T (number.setWidth 64)) = _
    rw [decodeInt64LogicalValue, hid]
    show liftM (decimalFromUnscaled T _ >>= _) = _
    rw [decimalFromUnscaled_ok hscale]
    rfl
  · have hparts : encodeInt128Parts prims T value = .ok (splitSignedHugeInt number) := by
      unfold encodeInt128Parts
      rw [if_neg (by rw [hid]; decide), hconverts]
      rfl
    refine ⟨by decide, number, ?_, ?_⟩
    · rw [storedFixed, hparts]
      show liftM (decodeInt128Parts T (splitSignedHugeInt number)) = _
      rw [decodeInt128Parts, if_neg (by rw [hid]; decide), if_pos hid, combineSignedHugeInt_split,
        decimalFromUnscaled_ok hscale]
      rfl
    · exact ((bmod_eq_self_iff (by decide) _).mpr (signedRange_toInt number (by decide))).symm

/-- A DECIMAL column gives back every decimal that its storage holds. -/
theorem storedFixed_decimal {n : I128} {width scale : U64} {size : Nat} (hid : T.id = .decimal)
    (hscale : getDecimalWidthAndScale T = .ok (width, scale))
    (physical : getPhysicalType T = .ok physicalType) (hsize : constantSize physicalType = some size)
    (h : SignedRange (8 * size) n.toInt) :
    storedFixed prims T physicalType (.decimal ⟨n, width, scale⟩) =
      .ok (.decimal ⟨n, width, scale⟩) := by
  have hvalue : decimalToUnscaled prims T (.decimal ⟨n, width, scale⟩) = .ok n := rfl
  obtain ⟨hpos, m, hword, hm⟩ := storedFixed_unscaled hid hscale physical hsize hvalue
  have hsame : m = n := by
    apply BitVec.eq_of_toInt_eq
    rw [hm, (bmod_eq_self_iff (by omega) _).mpr h]
  rw [hword, hsame]

theorem toNat_setWidth_u64 (n : U64) : (n.setWidth 128).setWidth 64 = n := by
  rw [BitVec.setWidth_setWidth_of_le _ (by decide), BitVec.setWidth_eq]

theorem setWidth_signExtend_i64 (n : I64) : (n.signExtend 128).setWidth 64 = n := by
  apply BitVec.eq_of_toInt_eq
  exact signExtend_setWidth n (by decide) (by decide) (by decide) (signedRange_toInt n (by decide))

/-- A scalar column gives back its canonical values. -/
theorem storedFixed_scalar (physical : getPhysicalType T = .ok physicalType)
    (size : isConstantSizePhysicalType physicalType = true) (hid : T.id ≠ .enum)
    (h : ScalarOf T value) (hfloat : ∀ bits, prims.f64ToF32 (prims.f32ToF64 bits) = bits) :
    storedFixed prims T physicalType value = .ok value := by
  have hphysical := physical
  cases hT : T.id <;> simp only [ScalarOf, hT] at h <;>
    simp only [getPhysicalType, hT] at physical
  case enum => exact absurd hT hid
  case boolean =>
    obtain ⟨b, rfl⟩ := h
    cases physical
    cases b <;> rfl
  case tinyInt =>
    obtain ⟨n, rfl, hn⟩ := h
    cases physical
    exact congrArg (fun n => Outcome.ok (Value.int n)) (signExtend_narrow n (by decide) (by decide) hn)
  case smallInt =>
    obtain ⟨n, rfl, hn⟩ := h
    cases physical
    have hback := setWidth_narrow n (by decide) (by decide) hn
    simp only [storedFixed, encodeDecimalOrInteger, decodeDecimalOrInt, hT, valueToI128,
      reduceCtorEq, if_false]
    exact congrArg (fun n => Outcome.ok (Value.int n)) hback
  case integer | sqlNull =>
    obtain ⟨n, rfl, hn⟩ := h
    cases physical
    have hback := setWidth_narrow n (by decide) (by decide) hn
    simp only [storedFixed, encodeDateDecimalOrInteger, decodeDateDecimalOrInt,
      encodeDecimalOrInteger, decodeDecimalOrInt, hT, valueToI128, reduceCtorEq, if_false]
    exact congrArg (fun n => Outcome.ok (Value.int n)) hback
  case bigInt =>
    obtain ⟨n, rfl⟩ := h
    cases physical
    simp only [storedFixed, encodeInt64LogicalValue, decodeInt64LogicalValue, hT, valueToI128,
      reduceCtorEq, if_false]
    exact congrArg (fun n => Outcome.ok (Value.int n)) (setWidth_signExtend_i64 n)
  case uTinyInt | uSmallInt | uInteger =>
    obtain ⟨n, rfl, hn⟩ := h
    cases physical
    simp only [storedFixed, encodeEnumOrNumber, decodeEnumOrNumber, hT, valueToU128, ne_eq,
      reduceCtorEq, not_false_eq_true, if_true]
    exact congrArg (fun n => Outcome.ok (Value.uint n)) (zeroExtend_narrow n (by decide) hn)
  case uBigInt | pointer =>
    obtain ⟨n, rfl⟩ := h
    cases physical
    exact congrArg (fun n => Outcome.ok (Value.uint n)) (toNat_setWidth_u64 n)
  case hugeInt =>
    obtain ⟨n, rfl⟩ := h
    cases physical
    simp only [storedFixed, encodeInt128Parts, decodeInt128Parts, encodeDecimalOrInteger, hT,
      reduceCtorEq, if_false, valueToI128]
    exact congrArg (fun n => Outcome.ok (Value.hugeInt n)) (combineSignedHugeInt_split n)
  case uHugeInt | double =>
    obtain ⟨n, rfl⟩ := h
    cases physical
    rfl
  case float =>
    obtain ⟨n, rfl⟩ := h
    cases physical
    exact congrArg (fun n => Outcome.ok (Value.float n)) (hfloat n)
  case date =>
    obtain ⟨⟨n⟩, rfl⟩ := h
    cases physical
    have hback : (n.signExtend 128).setWidth 32 = n := by
      apply BitVec.eq_of_toInt_eq
      exact signExtend_setWidth n (by decide) (by decide) (by decide)
        (signedRange_toInt n (by decide))
    simp only [storedFixed, encodeDateDecimalOrInteger, decodeDateDecimalOrInt, hT, if_true]
    exact congrArg (fun n => Outcome.ok (Value.date ⟨n⟩)) hback
  case time | timeNs | timeTz | timestampSec | timestampMs | timestamp | timestampNs
      | timestampTz =>
    obtain ⟨n, rfl⟩ := h
    cases physical
    simp only [storedFixed, encodeInt64LogicalValue, decodeInt64LogicalValue, hT, reduceCtorEq,
      if_false]
    rfl
  case interval =>
    obtain ⟨interval, rfl⟩ := h
    cases physical
    rfl
  case uuid =>
    obtain ⟨text, rfl, htext⟩ := h
    cases physical
    obtain ⟨parts, hparts, hdisplay⟩ := display_uuidToHugeIntParts htext
    simp only [storedFixed, encodeInt128Parts, decodeInt128Parts, hT, if_true, hparts]
    exact congrArg (fun text => Outcome.ok (Value.string text)) hdisplay
  case decimal =>
    obtain ⟨n, width, scale, physicalType', size', rfl, hscale, hphysical', hsize, hn⟩ := h
    cases hphysical.symm.trans hphysical'
    exact storedFixed_decimal hT hscale hphysical hsize hn
  all_goals
    cases physical
    cases size

/-- The width of an ENUM column follows the number of its labels. -/
theorem physicalType_of_enum {labels : List String} (hid : T.id = .enum)
    (hlabels : getEnumValues T = .ok labels) : getPhysicalType T = .ok (
      if labels.length ≤ 0xff then .uint8 else if labels.length ≤ 0xffff then .uint16
      else .uint32) := by
  rw [getPhysicalType, hid]
  simp only [enumPhysicalType, hlabels]
  show (if labels.length ≤ 0xff then pure .uint8 else if labels.length ≤ 0xffff then pure .uint16
    else pure .uint32 : Result PhysicalType) = _
  split_ifs <;> rfl

/-- The index of a label after the column stored it. -/
theorem storedFixed_label {text : String} {labels : List String} {index : Nat}
    (hid : T.id = .enum) (physical : getPhysicalType T = .ok physicalType)
    (hlabels : getEnumValues T = .ok labels)
    (hindex : (labels.findIdx? fun label => label = text) = some index) :
    ∃ label, labels[index % 2 ^ 32]? = some label ∧
      storedFixed prims T physicalType (.string text) = .ok (.string label) := by
  have hlt : index < labels.length := (List.findIdx?_eq_some_iff_getElem.mp hindex).1
  have hstored : index % 2 ^ 32 < labels.length := (Nat.mod_le _ _).trans_lt hlt
  have hencode : encodeEnumOrNumber prims T (.string text) = .ok (BitVec.ofNat 64 index) := by
    rw [encodeEnumOrNumber, if_neg (not_not.mpr hid)]
    simp only [hlabels, Except.ok_bind, hindex]
    rfl
  have hdecode {n : U64} (hn : n.toNat = index % 2 ^ 32) :
      decodeEnumOrNumber T n = .ok (.string (labels[index % 2 ^ 32])) := by
    rw [decodeEnumOrNumber, if_neg (not_not.mpr hid), hlabels, Except.ok_bind, hn,
      List.getElem?_eq_getElem hstored]
    rfl
  have hcases : (physicalType = .uint8 ∧ labels.length ≤ 0xff) ∨
      (physicalType = .uint16 ∧ labels.length ≤ 0xffff) ∨ physicalType = .uint32 := by
    have hwidth := physical.symm.trans (physicalType_of_enum hid hlabels)
    split_ifs at hwidth <;> cases hwidth <;> simp_all
  refine ⟨labels[index % 2 ^ 32], List.getElem?_eq_getElem hstored, ?_⟩
  rcases hcases with ⟨rfl, hle⟩ | ⟨rfl, hle⟩ | rfl <;> simp only [storedFixed, hencode]
  · show liftM (decodeEnumOrNumber T (((BitVec.ofNat 64 index).setWidth 8).setWidth 64)) = _
    rw [hdecode]
    · rfl
    · simp only [BitVec.toNat_setWidth, BitVec.toNat_ofNat]
      omega
  · show liftM (decodeEnumOrNumber T (((BitVec.ofNat 64 index).setWidth 16).setWidth 64)) = _
    rw [hdecode]
    · rfl
    · simp only [BitVec.toNat_setWidth, BitVec.toNat_ofNat]
      omega
  · show liftM (decodeEnumOrNumber T (((BitVec.ofNat 64 index).setWidth 32).setWidth 64)) = _
    rw [hdecode]
    · rfl
    · simp only [BitVec.toNat_setWidth, BitVec.toNat_ofNat]
      omega

/-- A first place is kept exactly where it fits 32 bits. -/
theorem label_kept_iff {text label : String} {labels : List String} {index : Nat}
    (hindex : (labels.findIdx? fun label => label = text) = some index)
    (hlabel : labels[index % 2 ^ 32]? = some label) : label = text ↔ index < 2 ^ 32 := by
  obtain ⟨hlt, hfirst, hbefore⟩ := List.findIdx?_eq_some_iff_getElem.mp hindex
  constructor
  · rintro rfl
    by_contra hwide
    have hless : index % 2 ^ 32 < index := by omega
    obtain ⟨hget, heq⟩ := List.getElem?_eq_some_iff.mp hlabel
    exact hbefore _ hless (decide_eq_true heq)
  · intro hnarrow
    rw [Nat.mod_eq_of_lt hnarrow, List.getElem?_eq_getElem hlt] at hlabel
    cases hlabel
    exact of_decide_eq_true hfirst

/-- A text or a byte string is stored as it is. -/
theorem stringLike_scalar (physical : getPhysicalType T = .ok .varchar) (h : ScalarOf T value) :
    ∃ raw, encodeStringLikeValue prims value = .ok raw ∧ Held raw ∧
      decodeStringLikeValue T raw = .ok value := by
  have htext {text : String} (hid : T.id ≠ .blob ∧ T.id ≠ .geometry ∧ T.id ≠ .bit) :
      decodeStringLikeValue T (utf8Bytes text) = .ok (.string text) := by
    have hback : fromUtf8 (utf8Bytes text) = .ok text := fromUtf8_utf8Bytes text
    unfold decodeStringLikeValue
    split
    · rename_i hT
      exact absurd hT hid.1
    · rename_i hT
      exact absurd hT hid.2.1
    · rename_i hT
      exact absurd hT hid.2.2
    · rw [hback]
      rfl
  cases hT : T.id <;> simp only [ScalarOf, hT] at h <;>
    simp only [getPhysicalType, hT] at physical
  case blob | geometry | bit =>
    obtain ⟨raw, rfl, hheld⟩ := h
    exact ⟨raw, rfl, hheld, by simp only [decodeStringLikeValue, hT]⟩
  case bigNum | varchar | char | type | aggregateState =>
    obtain ⟨text, rfl, hheld⟩ := h
    exact ⟨utf8Bytes text, rfl, hheld, htext (by simp [hT])⟩
  case decimal =>
    obtain ⟨n, width, scale, physicalType', size', rfl, hscale, hphysical', hsize, hn⟩ := h
    have hvarchar : getPhysicalType T = .ok .varchar := by simp only [getPhysicalType, hT, physical]
    cases hphysical'.symm.trans hvarchar
    cases hsize
  case enum =>
    obtain ⟨text, labels, -, hlabels, -⟩ := h
    have hvarchar : getPhysicalType T = .ok .varchar := by simp only [getPhysicalType, hT, physical]
    have hwidth := hvarchar.symm.trans (physicalType_of_enum hT hlabels)
    split_ifs at hwidth <;> cases hwidth
  all_goals cases physical

theorem ScalarOf.physical (h : ScalarOf T value) : ∃ physicalType,
    getPhysicalType T = .ok physicalType ∧
      (isConstantSizePhysicalType physicalType = true ∨ physicalType = .varchar) := by
  cases hT : T.id <;> simp only [ScalarOf, hT] at h <;> simp only [getPhysicalType, hT]
  case decimal =>
    obtain ⟨n, width, scale, physicalType, size, rfl, hscale, hphysical, hsize, hn⟩ := h
    rw [getPhysicalType, hT] at hphysical
    refine ⟨physicalType, hphysical, .inl ?_⟩
    rw [isConstantSizePhysicalType, hsize]
    rfl
  case enum =>
    obtain ⟨text, labels, -, hlabels, -⟩ := h
    have hwidth := physicalType_of_enum hT hlabels
    rw [getPhysicalType, hT] at hwidth
    refine ⟨_, hwidth, .inl ?_⟩
    split_ifs <;> rfl
  all_goals first | exact ⟨_, rfl, .inl rfl⟩ | exact ⟨_, rfl, .inr rfl⟩

/-- What a scalar column gives back is the value, or another label of the same ENUM. -/
theorem storable_scalar (hfloat : ∀ bits, prims.f64ToF32 (prims.f32ToF64 bits) = bits)
    (h : ScalarOf T value) : Storable prims T value ∧
      ((stored prims T value).Same value ↔ ¬ HasWideLabel T value) := by
  obtain ⟨physicalType, physical, hkind⟩ := h.physical
  have hsame (hid : T.id ≠ .enum) (hstored : stored prims T value = value) :
      (stored prims T value).Same value ↔ ¬ HasWideLabel T value := by
    rw [hstored]
    refine ⟨fun _ hwide => ?_, fun _ => .refl value⟩
    cases hwide with
    | label wide => exact hid wide.1
    | struct | list =>
        unfold ScalarOf at h
        split at h <;> simp at h
  by_cases hid : T.id = .enum
  · have hscalar := h
    simp only [ScalarOf, hid] at hscalar
    obtain ⟨text, labels, rfl, hlabels, hmem⟩ := hscalar
    obtain ⟨index, hindex⟩ : ∃ index, (labels.findIdx? fun label => label = text) = some index := by
      rw [← Option.isSome_iff_exists, List.findIdx?_isSome, List.any_eq_true]
      exact ⟨text, hmem, decide_eq_true rfl⟩
    have size : isConstantSizePhysicalType physicalType = true := by
      cases physical.symm.trans (physicalType_of_enum hid hlabels)
      split_ifs <;> rfl
    obtain ⟨label, hlabel, hstored⟩ : ∃ label, labels[index % 2 ^ 32]? = some label ∧
        storedFixed prims T physicalType (.string text) = .ok (.string label) :=
      storedFixed_label hid physical hlabels hindex
    refine ⟨.fixed physical size h.ne_null hstored, ?_⟩
    rw [stored_fixed physical size h.ne_null hstored]
    have hkept := label_kept_iff hindex hlabel
    constructor
    · intro hsame hwide
      cases hsame
      cases hwide with
      | label wide =>
          obtain ⟨-, labels', index', hlabels', hindex', hle⟩ := wide
          cases hlabels.symm.trans hlabels'
          cases hindex.symm.trans hindex'
          exact absurd (hkept.mp rfl) (by omega)
    · intro hnot
      have hnarrow : index < 2 ^ 32 := by
        by_contra hwide
        exact hnot (.label ⟨hid, labels, index, hlabels, hindex, by omega⟩)
      rw [hkept.mpr hnarrow]
      exact .refl _
  · rcases hkind with size | rfl
    · have hstored := storedFixed_scalar physical size hid h hfloat
      exact ⟨.fixed physical size h.ne_null hstored,
        hsame hid (stored_fixed physical size h.ne_null hstored)⟩
    · obtain ⟨raw, hraw, hheld, hback⟩ := stringLike_scalar physical h
      exact ⟨.varchar physical h.ne_null hraw hheld hback,
        hsame hid (stored_varchar physical h.ne_null hraw hback)⟩

theorem hasWideLabel_list {childType : LogicalType} {items : List Value}
    (hchild : getChildType T = .ok childType) :
    HasWideLabel T (.list items) ↔ ∃ item ∈ items, HasWideLabel childType item := by
  constructor
  · intro h
    cases h with
    | list hchild' member inside =>
        cases hchild.symm.trans hchild'
        exact ⟨_, member, inside⟩
  · rintro ⟨item, member, inside⟩
    exact .list hchild member inside

theorem hasWideLabel_struct {children : List ChildType} {row : Row}
    (hchildren : getStructChildren T = .ok children) :
    HasWideLabel T (.struct row) ↔ ∃ child ∈ children, ∃ value,
      Row.get row child.name = some value ∧ HasWideLabel child.logicalType value := by
  constructor
  · intro h
    cases h with
    | struct hchildren' member field inside =>
        cases hchildren.symm.trans hchildren'
        exact ⟨_, member, _, field, inside⟩
  · rintro ⟨child, member, value, field, inside⟩
    exact .struct hchildren member field inside

theorem same_storedList {childType : LogicalType} {items : List Value}
    (hchild : getChildType T = .ok childType)
    (hpt : getPhysicalType T = .ok .list ∨ getPhysicalType T = .ok .array)
    (h : ∀ item ∈ items, (stored prims childType item).Same item ↔ ¬ HasWideLabel childType item) :
    (stored prims T (.list items)).Same (.list items) ↔ ¬ HasWideLabel T (.list items) := by
  rw [hasWideLabel_list hchild, stored_list hpt hchild]
  constructor
  · rintro hsame ⟨item, hmem, hwide⟩
    obtain ⟨i, hi, rfl⟩ := List.getElem_of_mem hmem
    have hitem := hsame.items i (by rwa [List.length_map]) hi
    rw [List.getElem_map] at hitem
    exact (h _ hmem).mp hitem hwide
  · intro hnot
    refine .list (List.length_map _) fun i hi hi' => ?_
    have hmem := List.getElem_mem hi'
    rw [List.getElem_map]
    exact (h _ hmem).mpr fun hwide => hnot ⟨_, hmem, hwide⟩

theorem same_storedStruct {children : List ChildType} {row : Row}
    (physical : getPhysicalType T = .ok .struct) (hchildren : getStructChildren T = .ok children)
    (distinct : (children.map ChildType.name).Nodup)
    (names : (row.map Prod.fst).Perm (children.map ChildType.name))
    (h : ∀ child ∈ children, ∀ value, Row.get row child.name = some value →
      ((stored prims child.logicalType value).Same value ↔
        ¬ HasWideLabel child.logicalType value)) :
    (stored prims T (.struct row)).Same (.struct row) ↔ ¬ HasWideLabel T (.struct row) := by
  have hnodup : ((children.map fun child => (child.name,
      stored prims child.logicalType (structField child.name (.struct row)))).map
        Prod.fst).Nodup := by
    rw [List.map_map]
    exact distinct
  have hget {child : ChildType} {value : Value} (hmem : child ∈ children)
      (hvalue : Row.get row child.name = some value) :
      Row.get (children.map fun child => (child.name,
        stored prims child.logicalType (structField child.name (.struct row)))) child.name =
        some (stored prims child.logicalType value) := by
    have hfield : structField child.name (.struct row) = value := by rw [structField, hvalue]; rfl
    rw [← hfield]
    exact Row.get_of_mem hnodup (List.mem_map.mpr ⟨child, hmem, rfl⟩)
  rw [hasWideLabel_struct hchildren, stored_struct physical hchildren (fun h => by cases h),
    Row.ofFields_of_nodup hnodup]
  constructor
  · rintro hsame ⟨child, hmem, value, hvalue, hwide⟩
    exact (h child hmem value hvalue).mp (hsame.fields (hget hmem hvalue) hvalue) hwide
  · intro hnot
    refine .struct (fun name => ?_) fun name value value' hstored hvalue => ?_
    · rw [Bool.eq_iff_iff, Row.get_isSome, Row.get_isSome, names.mem_iff, List.map_map]
      rfl
    · have hname : name ∈ children.map ChildType.name :=
        names.mem_iff.mp (Row.get_isSome.mp (by rw [hvalue]; rfl))
      obtain ⟨child, hmem, rfl⟩ := List.mem_map.mp hname
      cases (hget hmem hvalue).symm.trans hstored
      exact (h child hmem value' hvalue).mpr fun hwide => hnot ⟨child, hmem, value', hvalue, hwide⟩

/-- A canonical value can be stored, and is given back unless a label in it is too far. -/
theorem storable_canonical (hfloat : ∀ bits, prims.f64ToF32 (prims.f32ToF64 bits) = bits)
    (hT : Encodable T) (h : Canonical T value) : Storable prims T value ∧
      ((stored prims T value).Same value ↔ ¬ HasWideLabel T value) := by
  induction h with
  | null T =>
      refine ⟨.null T, ?_⟩
      rw [stored_null]
      refine ⟨fun _ hwide => ?_, fun _ => .refl _⟩
      cases hwide
  | scalar scalarOf => exact storable_scalar hfloat scalarOf
  | @struct T children row physical structChildren names fields ih =>
      obtain ⟨distinct, hinside⟩ := hT.fields physical structChildren
      refine ⟨.struct physical structChildren (fun h => by cases h) fun child hmem => ?_,
        same_storedStruct physical structChildren distinct names fun child hmem value hvalue =>
          (ih child hmem value hvalue (hinside child hmem)).2⟩
      have hname := names.mem_iff.mpr (List.mem_map_of_mem (f := ChildType.name) hmem)
      obtain ⟨value, hvalue⟩ := Option.isSome_iff_exists.mp (Row.get_isSome.mpr hname)
      rw [structField, hvalue]
      exact (ih child hmem value hvalue (hinside child hmem)).1
  | @list T childType items physical child inside ih =>
      have hinside := hT.items (.inl physical) child
      exact ⟨.list physical child fun item hmem => (ih item hmem hinside).1,
        same_storedList child (.inl physical) fun item hmem => (ih item hmem hinside).2⟩
  | @array T childType size items physical child arraySize length inside ih =>
      have hinside := hT.items (.inr physical) child
      exact ⟨.array physical child arraySize length fun item hmem => (ih item hmem hinside).1,
        same_storedList child (.inr physical) fun item hmem => (ih item hmem hinside).2⟩

end

end QuackProtocol
