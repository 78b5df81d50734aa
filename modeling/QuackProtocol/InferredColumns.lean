import QuackProtocol.DecodedValues
import QuackProtocol.InferredTypes

/-! Columns of inferred types. The encoder takes a column as soon as each of its values can be converted
to the type, and gives the values back only where they are of the type already: a later value that is
wider, finer or larger than the first one is changed without an error. -/

open Decoding Decode Narrowing

namespace QuackProtocol

/-- A value that the encoder converts to a type. -/
inductive Converts (prims : Primitives) : LogicalType → Value → Prop where
  | null (T : LogicalType) : Converts prims T .null
  | fixed {T : LogicalType} {physicalType : PhysicalType} {value : Value}
      (physical : getPhysicalType T = .ok physicalType)
      (size : isConstantSizePhysicalType physicalType = true)
      (word : (encodeFixedValue prims T physicalType value).Writes) : Converts prims T value
  | varchar {T : LogicalType} {value : Value} {raw : Bytes}
      (physical : getPhysicalType T = .ok .varchar)
      (text : encodeStringLikeValue prims value = .ok raw) : Converts prims T value
  | struct {T : LogicalType} {children : List ChildType} {value : Value}
      (physical : getPhysicalType T = .ok .struct)
      (structChildren : getStructChildren T = .ok children)
      (fields : ∀ child ∈ children, Converts prims child.logicalType (structField child.name value)) :
      Converts prims T value
  | list {T childType : LogicalType} {items : List Value}
      (physical : getPhysicalType T = .ok .list) (child : getChildType T = .ok childType)
      (inside : ∀ item ∈ items, Converts prims childType item) : Converts prims T (.list items)
  | array {T childType : LogicalType} {size : U64} {items : List Value}
      (physical : getPhysicalType T = .ok .array) (child : getChildType T = .ok childType)
      (arraySize : getArraySize T = .ok size) (length : items.length = size.toNat)
      (inside : ∀ item ∈ items, Converts prims childType item) : Converts prims T (.list items)

section
variable {layout : Layout} {prims : Primitives} {T childType : LogicalType} {physicalType : PhysicalType}
  {value : Value} {values : List Value}

theorem Converts.word (h : Converts prims T value) (physical : getPhysicalType T = .ok physicalType)
    (size : isConstantSizePhysicalType physicalType = true) :
    (encodeFixedValue prims T physicalType value).Writes := by
  cases h with
  | null =>
      obtain ⟨width, hwidth⟩ := Option.isSome_iff_exists.mp size
      unfold encodeFixedValue
      rw [if_pos (show Value.null.isNull = true from rfl), physicalTypeSize, hwidth]
      exact Encode.writes_ok _
  | fixed physical' _ word =>
      cases physical.symm.trans physical'
      exact word
  | varchar physical' | struct physical' | list physical' | array physical' =>
      cases physical.symm.trans physical'
      cases size

theorem Converts.text (h : Converts prims T value) (physical : getPhysicalType T = .ok .varchar) :
    ∃ raw, encodeStringLikeValue prims value = .ok raw := by
  cases h with
  | null => exact ⟨[], rfl⟩
  | varchar _ text => exact ⟨_, text⟩
  | fixed physical' size =>
      cases physical.symm.trans physical'
      cases size
  | struct physical' | list physical' | array physical' => cases physical.symm.trans physical'

theorem Converts.fields {children : List ChildType} (h : Converts prims T value)
    (physical : getPhysicalType T = .ok .struct) (structChildren : getStructChildren T = .ok children) :
    ∀ child ∈ children, Converts prims child.logicalType (structField child.name value) := by
  cases h with
  | null => exact fun child _ => .null _
  | struct _ structChildren' fields =>
      cases structChildren.symm.trans structChildren'
      exact fields
  | fixed physical' size =>
      cases physical.symm.trans physical'
      cases size
  | varchar physical' | list physical' | array physical' => cases physical.symm.trans physical'

theorem Converts.items (h : Converts prims T value) (physical : getPhysicalType T = .ok .list)
    (child : getChildType T = .ok childType) : (value ≠ .null → ∃ items, value = .list items) ∧
      ∀ item ∈ rowItems value, Converts prims childType item := by
  cases h with
  | null => exact ⟨fun hnull => absurd rfl hnull, fun _ hmem => absurd hmem List.not_mem_nil⟩
  | list _ child' inside =>
      cases child.symm.trans child'
      exact ⟨fun _ => ⟨_, rfl⟩, inside⟩
  | fixed physical' size =>
      cases physical.symm.trans physical'
      cases size
  | varchar physical' | struct physical' | array physical' => cases physical.symm.trans physical'

theorem Converts.arrayItems {arraySize : U64} (h : Converts prims T value)
    (physical : getPhysicalType T = .ok .array) (child : getChildType T = .ok childType)
    (size : getArraySize T = .ok arraySize) :
    (value ≠ .null → ∃ items, value = .list items ∧ items.length = arraySize.toNat) ∧
      ∀ item ∈ paddedItems arraySize.toNat value, Converts prims childType item := by
  cases h with
  | null =>
      refine ⟨fun hnull => absurd rfl hnull, fun item hmem => ?_⟩
      rw [List.eq_of_mem_replicate hmem]
      exact .null _
  | array _ child' size' length inside =>
      cases child.symm.trans child'
      cases size.symm.trans size'
      exact ⟨fun _ => ⟨_, rfl, length⟩, inside⟩
  | fixed physical' size' =>
      cases physical.symm.trans physical'
      cases size'
  | varchar physical' | struct physical' | list physical' => cases physical.symm.trans physical'

/-- A column of a type that can be encoded is written where its values are converted and there is room. -/
theorem encodesColumn_of_converts (hT : Encodable T) (hroom : Allocates layout T values)
    (h : ∀ value ∈ values, Converts prims T value) : EncodesColumn layout prims T values := by
  induction hT generalizing values with
  | fixed physical size =>
      obtain ⟨width, hwidth⟩ := Option.isSome_iff_exists.mp size
      rw [encodesColumn_fixed physical hwidth]
      exact ⟨(reserves_fixed physical hwidth).mp hroom.own,
        fun value hmem => (h value hmem).word physical size⟩
  | varchar physical =>
      rw [encodesColumn_varchar physical]
      exact fun value hmem => (h value hmem).text physical
  | @struct T children physical structChildren distinct inside ih =>
      rw [encodesColumn_struct physical]
      refine ⟨children, structChildren, fun child hmem => ih child hmem ?_ fun field hfield => ?_⟩
      · apply @Allocates.inside _ _ _ hroom (child.logicalType, structColumn child.name values)
        rw [childVectors_struct values physical structChildren]
        exact List.mem_map_of_mem hmem
      · obtain ⟨value, hvalue, rfl⟩ := List.mem_map.mp hfield
        exact (h value hvalue).fields physical structChildren child hmem
  | @list T childType physical child inside ih =>
      obtain ⟨entries, childValues, hgather⟩ :=
        gatherLists_ok 0 fun value hmem => ((h value hmem).items physical child).1
      have hparts := childVectors_list physical child hgather
      have hown := hroom.own
      rw [Reserves, physical, hparts] at hown
      rw [encodesColumn_list physical]
      refine ⟨childType, entries, childValues, child, hgather, hown.1,
        hown.2 _ (List.mem_singleton_self _), ih ?_ fun item hitem => ?_⟩
      · exact hroom.inside (hparts ▸ List.mem_singleton_self _)
      · rw [gatherLists_flatMap hgather] at hitem
        obtain ⟨value, hmem, hitem⟩ := List.mem_flatMap.mp hitem
        exact ((h value hmem).items physical child).2 item hitem
  | @array T childType size physical child arraySize inside ih =>
      obtain ⟨childValues, hgather⟩ :=
        gatherArrays_ok fun value hmem => ((h value hmem).arrayItems physical child arraySize).1
      have hparts := childVectors_array physical child arraySize hgather
      have hown := hroom.own
      rw [Reserves, physical, hparts] at hown
      rw [encodesColumn_array physical]
      refine ⟨childType, size, childValues, child, arraySize, hgather,
        hown _ (List.mem_singleton_self _), ih ?_ fun item hitem => ?_⟩
      · exact hroom.inside (hparts ▸ List.mem_singleton_self _)
      · rw [gatherArrays_flatMap hgather] at hitem
        obtain ⟨value, hmem, hitem⟩ := List.mem_flatMap.mp hitem
        exact ((h value hmem).arrayItems physical child arraySize).2 item hitem

/-- A column is written only with values that are converted. -/
theorem converts_of_encodes (h : EncodesColumn layout prims T values) :
    ∀ value ∈ values, Converts prims T value := by
  induction T using LogicalType.childInduction generalizing values with
  | step T ih =>
      cases columnKind_of_encodes h with
      | fixed physicalType width physical size =>
          have hsize : isConstantSizePhysicalType physicalType = true := Option.isSome_iff_exists.mpr ⟨_, size⟩
          rw [encodesColumn_fixed physical size] at h
          exact fun value hmem => .fixed physical hsize (h.2 value hmem)
      | varchar physical =>
          rw [encodesColumn_varchar physical] at h
          intro value hmem
          obtain ⟨raw, hraw⟩ := h value hmem
          exact .varchar physical hraw
      | struct physical =>
          rw [encodesColumn_struct physical] at h
          obtain ⟨children, hchildren, hfields⟩ := h
          exact fun value hmem => .struct physical hchildren fun child hchild =>
            ih _ (getStructChildren_mem hchildren hchild) (hfields child hchild) _ (List.mem_map_of_mem hmem)
      | list physical =>
          rw [encodesColumn_list physical] at h
          obtain ⟨childType, entries, childValues, hchild, hgather, -, -, hitems⟩ := h
          intro value hmem
          rcases gatherLists_mem hgather hmem with rfl | ⟨items, rfl, hinside⟩
          · exact .null T
          · exact .list physical hchild fun item hitem =>
              ih _ (getChildType_mem hchild) hitems item (hinside item hitem)
      | array physical =>
          rw [encodesColumn_array physical] at h
          obtain ⟨childType, arraySize, childValues, hchild, hsize, hgather, -, hitems⟩ := h
          intro value hmem
          rcases gatherArrays_mem hgather hmem with rfl | ⟨items, rfl, hlen, hinside⟩
          · exact .null T
          · exact .array physical hchild hsize hlen fun item hitem =>
              ih _ (getChildType_mem hchild) hitems item (hinside item hitem)

end

section
variable {layout : Layout} {prims : Primitives} {T : LogicalType} {physicalType : PhysicalType}
  {value w : Value} {values : List Value}

theorem ScalarOf.flat (h : ScalarOf T value) :
    (∀ items, value ≠ .list items) ∧ ∀ row, value ≠ .struct row := by
  constructor
  all_goals
    rintro parts rfl
    unfold ScalarOf at h
    split at h <;> simp at h

theorem ScalarOf.eq_of_same (h : ScalarOf T w) (hsame : w.Same value) : value = w := by
  cases hsame with
  | refl => rfl
  | list => exact absurd rfl (h.flat.1 _)
  | struct => exact absurd rfl (h.flat.2 _)

/-- What a DECIMAL column stores is a decimal of the column. -/
theorem scalarOf_decimal {width scale : U64} (hid : T.id = .decimal)
    (hscale : getDecimalWidthAndScale T = .ok (width, scale))
    (physical : getPhysicalType T = .ok physicalType)
    (h : storedFixed prims T physicalType value = .ok w) : ScalarOf T w := by
  have hdecimal (n : I128) (size : Nat) (hsize : constantSize physicalType = some size)
      (hn : SignedRange (8 * size) n.toInt) (hw : decodeDecimalOrInt T n = .ok w) : ScalarOf T w := by
    rw [decodeDecimalOrInt, if_pos hid, decimalFromUnscaled_ok hscale] at hw
    cases hw
    simp only [ScalarOf, hid]
    exact ⟨n, width, scale, physicalType, size, rfl, hscale, physical, hsize, hn⟩
  have hnarrow {width : Nat} (x : BitVec width) (hwidth : 0 < width ∧ width ≤ 128) :
      SignedRange width (x.signExtend 128).toInt := by
    rw [toInt_signExtend x hwidth.2]
    exact signedRange_toInt x hwidth.1
  unfold storedFixed at h
  have hphysical : decimalPhysicalType T = .ok physicalType := by rwa [getPhysicalType, hid] at physical
  rcases decimalPhysicalType_cases hphysical with rfl | rfl | rfl | rfl
  · obtain ⟨number, -, h⟩ := Outcome.bind_eq_ok h
    exact hdecimal _ 2 rfl (hnarrow _ (by decide)) (Outcome.lift_eq_ok h)
  · obtain ⟨number, -, h⟩ := Outcome.bind_eq_ok h
    rw [decodeDateDecimalOrInt, if_neg (by rw [hid]; decide)] at h
    exact hdecimal _ 4 rfl (hnarrow _ (by decide)) (Outcome.lift_eq_ok h)
  · obtain ⟨number, -, h⟩ := Outcome.bind_eq_ok h
    have hword : decodeInt64LogicalValue T number = decodeDecimalOrInt T (number.signExtend 128) := by
      rw [decodeDecimalOrInt, if_pos hid, decodeInt64LogicalValue, hid]
    rw [hword] at h
    exact hdecimal _ 8 rfl (hnarrow _ (by decide)) (Outcome.lift_eq_ok h)
  · obtain ⟨parts, -, h⟩ := Outcome.bind_eq_ok h
    have hword : decodeInt128Parts T parts = decodeDecimalOrInt T (combineSignedHugeInt parts) := by
      rw [decodeDecimalOrInt, if_pos hid, decodeInt128Parts, if_neg (by rw [hid]; decide), if_pos hid]
    rw [hword] at h
    exact hdecimal _ 16 rfl (signedRange_toInt _ (by decide)) (Outcome.lift_eq_ok h)

abbrev leafIds : List LogicalTypeId := [.boolean, .integer, .bigInt, .uInteger, .uBigInt, .hugeInt,
  .uHugeInt, .float, .double, .varchar, .blob, .date, .time, .timeNs, .timeTz, .timestampSec, .timestampMs,
  .timestamp, .timestampTz, .timestampNs, .interval]

/-- The types without parts that are inferred. -/
inductive LeafType : LogicalType → Prop where
  | decimal (width scale : U64) : LeafType (LogicalTypes.decimal width scale)
  | scalar (id : LogicalTypeId) (member : id ∈ leafIds) : LeafType (LogicalTypes.scalar id)

theorem leafType_kind (h : value.IsLeaf) : LeafType (leafType value) := by
  cases value with
  | null | list | struct => exact absurd h id
  | int number =>
      rw [leafType]
      split
      · exact .scalar .integer (by decide)
      · exact .scalar .bigInt (by decide)
  | uint number =>
      rw [leafType]
      split
      · exact .scalar .uInteger (by decide)
      · exact .scalar .uBigInt (by decide)
  | decimal => exact .decimal ..
  | time v => obtain ⟨_ | _, _⟩ := v <;> constructor <;> decide
  | timestamp v => obtain ⟨_ | _ | _ | _, _, _ | _⟩ := v <;> constructor <;> decide
  | _ =>
      constructor
      decide

/-- What a column of scalars stores is a value of its type. -/
theorem scalarOf_storedFixed (hT : LeafType T) (physical : getPhysicalType T = .ok physicalType)
    (size : isConstantSizePhysicalType physicalType = true)
    (h : storedFixed prims T physicalType value = .ok w) : ScalarOf T w := by
  cases hT with
  | decimal width scale => exact scalarOf_decimal rfl rfl physical h
  | scalar id member =>
      cases id <;> try exact absurd member (by decide)
      case varchar | blob =>
        cases physical
        cases size
      all_goals
        cases physical
        unfold storedFixed at h
      case boolean.refl =>
        cases h
        exact ⟨_, rfl⟩
      case interval.refl =>
        cases value with
        | interval v =>
            cases h
            exact ⟨v, rfl⟩
        | _ => cases h
      case integer.refl =>
        obtain ⟨number, -, h⟩ := Outcome.bind_eq_ok h
        cases h
        refine ⟨_, rfl, ?_⟩
        have hnarrow := signedRange_toInt (number.setWidth 32) (by decide)
        rw [toInt_setWidth _ (by decide), toInt_signExtend _ (by decide),
          (bmod_eq_self_iff (by decide) _).mpr (hnarrow.mono (by decide))]
        exact hnarrow
      case uInteger.refl =>
        obtain ⟨number, -, h⟩ := Outcome.bind_eq_ok h
        cases h
        exact ⟨_, rfl, toNat_setWidth_lt _⟩
      all_goals
        obtain ⟨number, -, h⟩ := Outcome.bind_eq_ok h
        cases h
        exact ⟨_, rfl⟩

theorem scalarOf_text {raw : Bytes} (hT : LeafType T) (physical : getPhysicalType T = .ok .varchar)
    (text : encodeStringLikeValue prims value = .ok raw) (held : Held raw)
    (back : decodeStringLikeValue T raw = .ok w) (hsame : w.Same value) : ScalarOf T value := by
  cases hT with
  | decimal width scale => rcases decimalPhysicalType_cases physical with h | h | h | h <;> cases h
  | scalar id member =>
      cases id <;> try exact absurd member (by decide)
      case varchar =>
        obtain ⟨content, -, hback⟩ := Except.bind_eq_ok back
        cases hback
        cases hsame
        cases text
        exact ⟨content, rfl, held⟩
      case blob =>
        cases back
        cases hsame
        exact ⟨raw, rfl, held⟩
      all_goals cases physical

theorem LeafType.flatType (hT : LeafType T) : getPhysicalType T ≠ .ok .struct ∧
    getPhysicalType T ≠ .ok .list ∧ getPhysicalType T ≠ .ok .array := by
  cases hT with
  | decimal width scale =>
      refine ⟨fun h => ?_, fun h => ?_, fun h => ?_⟩ <;>
        rcases decimalPhysicalType_cases h with h | h | h | h <;> cases h
  | scalar id member => cases id <;> first | exact absurd member (by decide) | decide

/-- Where a column of an inferred type without parts gives a value back, the value is of the type. -/
theorem scalarOf_of_same (hT : LeafType T) (hstorable : Storable prims T value) (hnull : value ≠ .null)
    (hsame : (stored prims T value).Same value) : ScalarOf T value := by
  cases hstorable with
  | null => exact absurd rfl hnull
  | fixed physical size notNull word =>
      rw [stored_fixed physical size notNull word] at hsame
      have hscalar := scalarOf_storedFixed hT physical size word
      rwa [hscalar.eq_of_same hsame]
  | varchar physical notNull text held back =>
      rw [stored_varchar physical notNull text back] at hsame
      exact scalarOf_text hT physical text held back hsame
  | struct physical => exact absurd physical hT.flatType.1
  | list physical => exact absurd physical hT.flatType.2.1
  | array physical => exact absurd physical hT.flatType.2.2

theorem Value.Keyed.row {row : Row} (h : Value.Keyed (.struct row)) :
    (row.map Prod.fst).Nodup ∧ ∀ field ∈ row, field.2.Keyed := by
  cases h with
  | scalar _ row => exact absurd rfl (row _)
  | struct keys inside => exact ⟨keys, inside⟩

theorem Value.Keyed.structField (h : value.Keyed) (name : String) : (structField name value).Keyed := by
  cases value with
  | struct row =>
      rw [QuackProtocol.structField]
      cases hget : Row.get row name with
      | none => exact keyed_null
      | some field => exact h.row.2 _ (Row.mem_of_get hget)
  | _ => exact keyed_null

theorem keyed_structColumn (h : ∀ value ∈ values, value.Keyed) (name : String) :
    ∀ field ∈ structColumn name values, field.Keyed :=
  List.forall_mem_map.mpr fun value hmem => (h value hmem).structField name

theorem structField_eq {row : Row} {name : String} (h : Row.get row name = some value) :
    structField name (.struct row) = value := by
  rw [structField, h]
  rfl

theorem Value.Same.row {row : Row} (h : Value.Same (.struct row) value) : ∃ row', value = .struct row' := by
  cases h with
  | refl => exact ⟨row, rfl⟩
  | struct => exact ⟨_, rfl⟩

theorem Value.Same.names {row row' : Row} (h : Value.Same (.struct row) (.struct row')) (name : String) :
    name ∈ row.map Prod.fst ↔ name ∈ row'.map Prod.fst := by
  rw [← Row.get_isSome, ← Row.get_isSome]
  cases h with
  | refl => exact Iff.rfl
  | struct names => rw [names name]

/-- Where a column of an inferred type gives a value back, the value is canonical. -/
theorem canonical_of_same (hT : Inferred values T) (hencodable : Encodable T) (hkeyed : value.Keyed)
    (hstorable : Storable prims T value) (hsame : (stored prims T value).Same value) : Canonical T value := by
  by_cases hnull : value = .null
  · exact hnull ▸ .null T
  induction hT generalizing value with
  | leaf first leaf => exact .scalar (scalarOf_of_same (leafType_kind leaf) hstorable hnull hsame)
  | @list values items childType first inside ih =>
      obtain ⟨items, rfl, hitems⟩ := hstorable.items rfl rfl hnull
      rw [stored_list (.inl rfl) rfl] at hsame
      refine .list rfl rfl fun item hmem => ?_
      obtain ⟨i, hi, rfl⟩ := List.getElem_of_mem hmem
      have hitem := hsame.items i (by rwa [List.length_map]) hi
      rw [List.getElem_map] at hitem
      by_cases hnone : items[i] = .null
      · exact hnone ▸ .null _
      · exact ih (hencodable.items (.inl rfl) rfl) (hkeyed.items _ hmem) (hitems _ hmem) hitem hnone
  | @struct values row children first names inside ih =>
      have hfields := hstorable.fields rfl rfl hnull
      obtain ⟨distinct, hinside⟩ := hencodable.fields rfl rfl
      rw [stored_struct rfl rfl hnull] at hsame
      obtain ⟨row', rfl⟩ := hsame.row
      have hnodup : ((children.map fun child => (child.name,
          stored prims child.logicalType (structField child.name (.struct row')))).map Prod.fst).Nodup := by
        rw [List.map_map]
        exact distinct
      rw [Row.ofFields_of_nodup hnodup] at hsame
      refine .struct rfl rfl ?_ fun child hmem field hfield => ?_
      · refine (List.perm_ext_iff_of_nodup hkeyed.row.1 distinct).mpr fun name => ?_
        rw [← hsame.names name, List.map_map]
        rfl
      · have hget := Row.get_of_mem hnodup (List.mem_map.mpr ⟨child, hmem, rfl⟩)
        have hback := hsame.fields hget hfield
        rw [structField_eq hfield] at hback
        by_cases hnone : field = .null
        · exact hnone ▸ .null _
        · have hstored := hfields child hmem
          rw [structField_eq hfield] at hstored
          exact ih child hmem (hinside child hmem) (hkeyed.row.2 _ (Row.mem_of_get hfield)) hstored hback hnone

/-- A decimal is converted to a column of its own width and scale. -/
theorem converts_decimal {number : I128} {width scale : U64}
    (physical : getPhysicalType (LogicalTypes.decimal width scale) = .ok physicalType)
    (size : isConstantSizePhysicalType physicalType = true) :
    Converts prims (LogicalTypes.decimal width scale) (.decimal ⟨number, width, scale⟩) := by
  refine .fixed physical size ?_
  rcases decimalPhysicalType_cases physical with rfl | rfl | rfl | rfl <;> exact ⟨_, rfl⟩

/-- Scalars of one type are converted to the type inferred from any of them. -/
theorem converts_leafType {first : Value} (hfirst : ScalarOf T first) (h : ScalarOf T value) :
    Converts prims (leafType first) value := by
  cases hT : T.id <;> simp only [ScalarOf, hT] at hfirst h
  case decimal =>
    obtain ⟨n, width, scale, physicalType, size, rfl, hscale, physical, hsize, -⟩ := hfirst
    obtain ⟨n', _, _, _, _, rfl, hscale', -⟩ := h
    cases hscale.symm.trans hscale'
    rw [getPhysicalType, hT] at physical
    simp only [decimalPhysicalType, hscale] at physical
    apply converts_decimal physical
    rw [isConstantSizePhysicalType, hsize]
    rfl
  case enum =>
    obtain ⟨text, -, rfl, -⟩ := hfirst
    obtain ⟨text', -, rfl, -⟩ := h
    exact .varchar rfl rfl
  case tinyInt | smallInt | integer | sqlNull =>
    obtain ⟨n, rfl, -⟩ := hfirst
    obtain ⟨m, rfl, -⟩ := h
    rw [leafType]
    split <;> exact .fixed rfl rfl ⟨_, rfl⟩
  case bigInt =>
    obtain ⟨n, rfl⟩ := hfirst
    obtain ⟨m, rfl⟩ := h
    rw [leafType]
    split <;> exact .fixed rfl rfl ⟨_, rfl⟩
  case uTinyInt | uSmallInt | uInteger =>
    obtain ⟨n, rfl, -⟩ := hfirst
    obtain ⟨m, rfl, -⟩ := h
    rw [leafType]
    split <;> exact .fixed rfl rfl ⟨_, rfl⟩
  case uBigInt | pointer =>
    obtain ⟨n, rfl⟩ := hfirst
    obtain ⟨m, rfl⟩ := h
    rw [leafType]
    split <;> exact .fixed rfl rfl ⟨_, rfl⟩
  case uuid | varchar | char | bigNum | type | aggregateState =>
    obtain ⟨text, rfl, -⟩ := hfirst
    obtain ⟨text', rfl, -⟩ := h
    exact .varchar rfl rfl
  case blob | geometry | bit =>
    obtain ⟨raw, rfl, -⟩ := hfirst
    obtain ⟨raw', rfl, -⟩ := h
    exact .varchar rfl rfl
  all_goals
    obtain ⟨n, rfl⟩ := hfirst
    obtain ⟨m, rfl⟩ := h
    exact .fixed rfl rfl ⟨_, rfl⟩

theorem Canonical.scalarOf {T : LogicalType} (h : Canonical T value) (hnull : value ≠ .null)
    (hflat : getPhysicalType T ≠ .ok .struct ∧ getPhysicalType T ≠ .ok .list ∧
      getPhysicalType T ≠ .ok .array) : ScalarOf T value := by
  cases h with
  | null => exact absurd rfl hnull
  | scalar scalarOf => exact scalarOf
  | struct physical => exact absurd physical hflat.1
  | list physical => exact absurd physical hflat.2.1
  | array physical => exact absurd physical hflat.2.2

theorem ScalarOf.flatType (h : ScalarOf T value) : getPhysicalType T ≠ .ok .struct ∧
    getPhysicalType T ≠ .ok .list ∧ getPhysicalType T ≠ .ok .array := by
  obtain ⟨physicalType, physical, hkind⟩ := h.physical
  rw [physical]
  rcases hkind with size | rfl
  · refine ⟨?_, ?_, ?_⟩ <;> rintro heq <;> cases heq <;> cases size
  · refine ⟨?_, ?_, ?_⟩ <;> rintro heq <;> cases heq

/-- The rows of a column of lists are lists of one type. -/
theorem canonical_items {items : List Value} (h : Canonical T (.list items)) :
    ∃ childType, ∀ other, Canonical T other →
      other = .null ∨ ∃ items', other = .list items' ∧ ∀ item ∈ items', Canonical childType item := by
  have hothers {childType : LogicalType}
      (physical : getPhysicalType T = .ok .list ∨ getPhysicalType T = .ok .array)
      (child : getChildType T = .ok childType) (other : Value) (hother : Canonical T other) :
      other = .null ∨ ∃ items', other = .list items' ∧ ∀ item ∈ items', Canonical childType item := by
    cases hother with
    | null => exact .inl rfl
    | scalar scalarOf =>
        rcases physical with physical | physical
        · exact absurd physical scalarOf.flatType.2.1
        · exact absurd physical scalarOf.flatType.2.2
    | struct physical' => rcases physical with physical | physical <;> cases physical.symm.trans physical'
    | list _ child' inside | array _ child' _ _ inside =>
        cases child.symm.trans child'
        exact .inr ⟨_, rfl, inside⟩
  cases h with
  | scalar scalarOf => exact absurd rfl (scalarOf.flat.1 items)
  | list physical child => exact ⟨_, hothers (.inl physical) child⟩
  | array physical child => exact ⟨_, hothers (.inr physical) child⟩

/-- The rows of a column of structs have the fields of one type. -/
theorem canonical_fields {row : Row} (h : Canonical T (.struct row)) : ∃ children : List ChildType,
    (row.map Prod.fst).Perm (children.map ChildType.name) ∧ ∀ other, Canonical T other →
      ∀ child ∈ children, Canonical child.logicalType (structField child.name other) := by
  cases h with
  | scalar scalarOf => exact absurd rfl (scalarOf.flat.2 row)
  | @struct _ children _ physical structChildren names fields =>
      refine ⟨children, names, fun other hother child hmem => ?_⟩
      cases hother with
      | null => exact .null _
      | scalar scalarOf => exact absurd physical scalarOf.flatType.1
      | list physical' | array physical' => cases physical.symm.trans physical'
      | @struct _ _ row' _ structChildren' names' fields' =>
          cases structChildren.symm.trans structChildren'
          have hname := names'.mem_iff.mpr (List.mem_map_of_mem (f := ChildType.name) hmem)
          obtain ⟨field, hfield⟩ := Option.isSome_iff_exists.mp (Row.get_isSome.mpr hname)
          rw [structField_eq hfield]
          exact fields' child hmem field hfield

/-- Values that one type covers are converted to the type inferred from some of them. -/
theorem converts_of_covered {others : List Value} (hT : Inferred values T) (hsub : values ⊆ others)
    (covering : LogicalType) (hcovers : ∀ value ∈ others, Canonical covering value) :
    ∀ value ∈ others, Converts prims T value := by
  induction hT generalizing others covering with
  | @leaf values first hfirst leaf =>
      intro value hmem
      by_cases hnull : value = .null
      · exact hnull ▸ .null _
      obtain ⟨hin, hne⟩ := firstValue_mem hfirst
      have hscalar : ScalarOf covering first := by
        cases hcovers first (hsub hin) with
        | null => exact absurd rfl hne
        | scalar scalarOf => exact scalarOf
        | struct | list | array => exact absurd leaf id
      exact converts_leafType hscalar ((hcovers value hmem).scalarOf hnull hscalar.flatType)
  | @list values items childType hfirst inside ih =>
      obtain ⟨coveringItem, hothers⟩ := canonical_items (hcovers _ (hsub (firstValue_mem hfirst).1))
      have hitems : ∀ item ∈ others.flatMap rowItems, Converts prims childType item := by
        refine ih (fun item hitem => ?_) coveringItem fun item hitem => ?_
        · exact List.mem_flatMap.mpr ⟨_, hsub (firstValue_mem hfirst).1, hitem⟩
        · obtain ⟨other, hother, hitem⟩ := List.mem_flatMap.mp hitem
          rcases hothers other (hcovers other hother) with rfl | ⟨items', rfl, hinside⟩
          · cases hitem
          · exact hinside item hitem
      intro value hmem
      rcases hothers value (hcovers value hmem) with rfl | ⟨items', rfl, -⟩
      · exact .null _
      · exact .list rfl rfl fun item hitem => hitems item (List.mem_flatMap.mpr ⟨_, hmem, hitem⟩)
  | @struct values row children hfirst names inside ih =>
      obtain ⟨coveringFields, hnames, hothers⟩ := canonical_fields (hcovers _ (hsub (firstValue_mem hfirst).1))
      refine fun value hmem => .struct rfl rfl fun child hchild => ?_
      have hname := hnames.mem_iff.mp (names ▸ List.mem_map_of_mem (f := ChildType.name) hchild)
      obtain ⟨coveringField, hcovering, heq⟩ := List.mem_map.mp hname
      refine ih child hchild (List.map_subset _ hsub) coveringField.logicalType
        (fun field hfield => ?_) _ (List.mem_map_of_mem hmem)
      obtain ⟨other, hother, rfl⟩ := List.mem_map.mp hfield
      rw [← heq]
      exact hothers other (hcovers other hother) coveringField hcovering

theorem LeafType.not_enum (hT : LeafType T) : T.id ≠ .enum := by
  cases hT with
  | decimal width scale => exact fun h => by cases h
  | scalar id member =>
      rintro rfl
      exact absurd member (by decide)

theorem LeafType.children_eq (hT : LeafType T) : T.children = [] := by
  cases hT <;> rfl

/-- An inferred type is encodable as soon as the values it was inferred from are converted to it. -/
theorem encodable_of_converts (hT : Inferred values T) (hkeyed : ∀ value ∈ values, value.Keyed)
    (h : ∀ value ∈ values, Converts prims T value) : Encodable T := by
  induction hT with
  | @leaf values first hfirst leaf =>
      have hkind := leafType_kind leaf
      cases h first (firstValue_mem hfirst).1 with
      | null => exact absurd rfl (firstValue_mem hfirst).2
      | fixed physical size => exact .fixed physical size fun hid => absurd hid hkind.not_enum
      | varchar physical => exact .varchar physical
      | struct physical => exact absurd physical hkind.flatType.1
      | list physical => exact absurd physical hkind.flatType.2.1
      | array physical => exact absurd physical hkind.flatType.2.2
  | @list values items childType hfirst inside ih =>
      have hmem := (firstValue_mem hfirst).1
      exact .list rfl rfl (ih (hkeyed _ hmem).items ((h _ hmem).items rfl rfl).2)
  | @struct values row children hfirst names inside ih =>
      refine .struct rfl rfl (names ▸ (hkeyed _ (firstValue_mem hfirst).1).row.1) fun child hmem => ?_
      refine ih child hmem (keyed_structColumn hkeyed child.name) (List.forall_mem_map.mpr ?_)
      exact fun value hvalue => (h value hvalue).fields rfl rfl child hmem

theorem Inferred.distinct (hT : Inferred values T) (hkeyed : ∀ value ∈ values, value.Keyed) :
    T.Everywhere LogicalType.Distinct := by
  induction hT with
  | @leaf values first hfirst leaf =>
      have hkind := leafType_kind leaf
      refine .intro ⟨fun children hchildren => ?_, fun hid => absurd hid hkind.not_enum⟩ fun child hmem => ?_
      · cases children with
        | nil => exact List.nodup_nil
        | cons child children =>
            have hmem := getStructChildren_mem hchildren (List.mem_cons_self ..)
            rw [hkind.children_eq] at hmem
            cases hmem
      · rw [hkind.children_eq] at hmem
        cases hmem
  | @list values items childType hfirst inside ih =>
      refine .intro ⟨fun children hchildren => ?_, fun hid => by cases hid⟩ fun child hmem => ?_
      · cases hchildren
      · obtain rfl := List.mem_singleton.mp hmem
        exact ih (hkeyed _ (firstValue_mem hfirst).1).items
  | @struct values row children hfirst names inside ih =>
      refine .intro ⟨fun _ hchildren => ?_, fun hid => by cases hid⟩ fun child hmem => ?_
      · cases hchildren
        exact names ▸ (hkeyed _ (firstValue_mem hfirst).1).row.1
      · obtain ⟨field, hfield, rfl⟩ := List.mem_map.mp hmem
        exact ih field hfield (keyed_structColumn hkeyed field.name)

theorem not_hasWideLabel_inferred (hT : Inferred values T) : ¬ HasWideLabel T value := by
  induction hT generalizing value with
  | @leaf values first hfirst leaf =>
      have hkind := leafType_kind leaf
      intro h
      cases h with
      | label wide => exact hkind.not_enum wide.1
      | struct structChildren member =>
          have hmem := getStructChildren_mem structChildren member
          rw [hkind.children_eq] at hmem
          cases hmem
      | list child =>
          have hmem := getChildType_mem child
          rw [hkind.children_eq] at hmem
          cases hmem
  | list first inside ih =>
      intro h
      cases h with
      | label wide => cases wide.1
      | struct structChildren => cases structChildren
      | list child member inside =>
          cases child
          exact ih inside
  | struct first names inside ih =>
      intro h
      cases h with
      | label wide => cases wide.1
      | list child => cases child
      | struct structChildren member field inside =>
          cases structChildren
          exact ih _ member inside

/-! ### Beside the first value -/

section
variable {first : Value} {children : List ChildType}

/-- A DECIMAL of at most 38 digits is stored in as many bits as its width asks for. -/
theorem decimal_size {width scale : U64} (hwidth : width.toNat ≤ 38) :
    ∃ physicalType size, getPhysicalType (LogicalTypes.decimal width scale) = .ok physicalType ∧
      constantSize physicalType = some size ∧ 8 * size = decimalBits width.toNat := by
  have hphysical : getPhysicalType (LogicalTypes.decimal width scale) =
      decimalPhysicalType (LogicalTypes.decimal width scale) := rfl
  rw [hphysical, decimalPhysicalType, decimalBits]
  show ∃ physicalType size, (if width.toNat ≤ 4 then _ else _) = _ ∧ _
  split_ifs
  · exact ⟨.int16, 2, rfl, rfl, rfl⟩
  · exact ⟨.int32, 4, rfl, rfl, rfl⟩
  · exact ⟨.int64, 8, rfl, rfl, rfl⟩
  · exact ⟨.int128, 16, rfl, rfl, rfl⟩

theorem decimal_width {width scale : U64}
    (physical : getPhysicalType (LogicalTypes.decimal width scale) = .ok physicalType) :
    width.toNat ≤ 38 := by
  have hphysical : decimalPhysicalType (LogicalTypes.decimal width scale) = .ok physicalType := physical
  rw [decimalPhysicalType] at hphysical
  change (if width.toNat ≤ 4 then _ else _) = _ at hphysical
  split_ifs at hphysical with h4 h9 h18 h38
  · omega
  · omega
  · omega
  · exact h38

theorem scalarOf_leafType_iff (leaf : first.IsLeaf) : ScalarOf (leafType first) value ↔ NoWider first value := by
  cases first with
  | null | list | struct => exact absurd leaf id
  | int number =>
      have hrange : (-2 ^ 31 ≤ number.toInt ∧ number.toInt ≤ 2 ^ 31 - 1) ↔ SignedRange 32 number.toInt := by
        simp only [SignedRange]
        omega
      simp only [leafType, hrange]
      split_ifs with hfirst
      · cases value <;> simp [ScalarOf, NoWider, LogicalTypes.scalar, hfirst]
      · cases value <;> simp [ScalarOf, NoWider, LogicalTypes.scalar, hfirst]
  | uint number =>
      have hrange : number.toNat ≤ 2 ^ 32 - 1 ↔ number.toNat < 2 ^ 32 := by omega
      simp only [leafType, hrange]
      split_ifs with hfirst
      all_goals
        cases value with
        | uint value =>
            simp only [ScalarOf, NoWider, LogicalTypes.scalar, Value.uint.injEq, exists_eq_left', hfirst,
              true_imp_iff, false_imp_iff, exists_eq']
        | _ => simp [ScalarOf, NoWider, LogicalTypes.scalar]
  | decimal first =>
      constructor
      · rintro ⟨n, width, scale, physicalType, size, rfl, hscale, physical, hsize, hrange⟩
        cases hscale
        have hwidth := decimal_width physical
        obtain ⟨physicalType', size', physical', hsize', hbits⟩ := @decimal_size first.width first.scale hwidth
        cases physical.symm.trans physical'
        cases hsize.symm.trans hsize'
        exact ⟨rfl, rfl, hwidth, hbits ▸ hrange⟩
      · intro h
        cases value with
        | decimal value =>
            obtain ⟨hwidth, hscale, hmax, hrange⟩ := h
            obtain ⟨physicalType, size, physical, hsize, hbits⟩ := @decimal_size first.width first.scale hmax
            exact ⟨value.value, first.width, first.scale, physicalType, size,
              by rw [← hwidth, ← hscale], rfl, physical, hsize, hbits ▸ hrange⟩
        | _ => exact absurd h id
  | time time =>
      obtain ⟨unit, n⟩ := time
      cases value with
      | time time' =>
          obtain ⟨unit', n'⟩ := time'
          cases unit <;> cases unit' <;> simp [leafType, ScalarOf, NoWider, LogicalTypes.scalar]
      | _ => cases unit <;> simp [leafType, ScalarOf, NoWider, LogicalTypes.scalar]
  | timestamp timestamp =>
      obtain ⟨unit, n, utc⟩ := timestamp
      cases value with
      | timestamp timestamp' =>
          obtain ⟨unit', n', utc'⟩ := timestamp'
          cases unit <;> cases utc <;> cases unit' <;> cases utc' <;>
            simp [leafType, ScalarOf, NoWider, LogicalTypes.scalar]
      | _ => cases unit <;> cases utc <;> simp [leafType, ScalarOf, NoWider, LogicalTypes.scalar]
  | _ => cases value <;> simp [leafType, ScalarOf, NoWider, LogicalTypes.scalar]

/-- Beside the first value, those that are no wider are the ones of its type. -/
theorem canonical_leafType_iff (leaf : first.IsLeaf) (hnull : value ≠ .null) :
    Canonical (leafType first) value ↔ NoWider first value := by
  rw [← scalarOf_leafType_iff leaf]
  exact ⟨fun h => h.scalarOf hnull (leafType_kind leaf).flatType, .scalar⟩

theorem canonical_list_iff (hnull : value ≠ .null) : Canonical (LogicalTypes.list childType) value ↔
    (∃ items, value = .list items) ∧ ∀ item ∈ rowItems value, Canonical childType item := by
  constructor
  · intro h
    cases h with
    | null => exact absurd rfl hnull
    | scalar scalarOf => exact absurd rfl scalarOf.flatType.2.1
    | list physical child inside =>
        cases child
        exact ⟨⟨_, rfl⟩, inside⟩
    | struct physical | array physical => cases physical
  · rintro ⟨⟨items, rfl⟩, inside⟩
    exact .list rfl rfl inside

theorem canonical_struct_iff (hnull : value ≠ .null) : Canonical (LogicalTypes.struct children) value ↔
    KeyedAs (children.map ChildType.name) value ∧
      ∀ child ∈ children, Canonical child.logicalType (structField child.name value) := by
  constructor
  · intro h
    cases h with
    | null => exact absurd rfl hnull
    | scalar scalarOf => exact absurd rfl scalarOf.flatType.1
    | list physical | array physical => cases physical
    | @struct _ _ row physical structChildren names fields =>
        cases structChildren
        refine ⟨⟨row, rfl, names⟩, fun child hchild => ?_⟩
        have hname := names.mem_iff.mpr (List.mem_map_of_mem (f := ChildType.name) hchild)
        obtain ⟨field, hfield⟩ := Option.isSome_iff_exists.mp (Row.get_isSome.mpr hname)
        rw [structField_eq hfield]
        exact fields child hchild field hfield
  · rintro ⟨⟨row, rfl, names⟩, inside⟩
    refine .struct rfl rfl names fun child hchild field hfield => ?_
    have hinside := inside child hchild
    rwa [structField_eq hfield] at hinside

theorem converts_list_iff (hnull : value ≠ .null) : Converts prims (LogicalTypes.list childType) value ↔
    (∃ items, value = .list items) ∧ ∀ item ∈ rowItems value, Converts prims childType item := by
  constructor
  · exact fun h => ⟨(h.items rfl rfl).1 hnull, (h.items rfl rfl).2⟩
  · rintro ⟨⟨items, rfl⟩, inside⟩
    exact .list rfl rfl inside

theorem converts_struct_iff : Converts prims (LogicalTypes.struct children) value ↔
    True ∧ ∀ child ∈ children, Converts prims child.logicalType (structField child.name value) :=
  ⟨fun h => ⟨trivial, h.fields rfl rfl⟩, fun h => .struct rfl rfl h.2⟩

theorem converts_fixed_iff (physical : getPhysicalType T = .ok physicalType)
    (size : isConstantSizePhysicalType physicalType = true) :
    Converts prims T value ↔ (encodeFixedValue prims T physicalType value).Writes :=
  ⟨fun h => h.word physical size, .fixed physical size⟩

theorem writes_number {α : Type} {number : Outcome QuackError α} {word : α → Encode}
    (hword : ∀ n, (word n).Writes) : Encode.Writes (number >>= word) ↔ ∃ n, number = .ok n := by
  rw [Encode.writes_bind]
  exact exists_congr fun n => and_iff_left (hword n)

theorem lift_ok_iff {α : Type} {result : Result α} :
    (∃ n, (liftM result : Outcome QuackError α) = .ok n) ↔ ∃ n, result = .ok n :=
  ⟨fun ⟨n, h⟩ => ⟨n, Outcome.lift_eq_ok h⟩, fun ⟨n, h⟩ => ⟨n, by rw [h]; rfl⟩⟩

theorem bind_pure_ok_iff {α β : Type} {number : Outcome QuackError α} {f : α → β} :
    (∃ n, (number >>= fun a => pure (f a)) = .ok n) ↔ ∃ n, number = .ok n := by
  constructor
  · rintro ⟨n, h⟩
    obtain ⟨a, ha, -⟩ := Outcome.bind_eq_ok h
    exact ⟨a, ha⟩
  · rintro ⟨n, h⟩
    exact ⟨f n, by rw [h]; rfl⟩

theorem result_bind_pure_ok_iff {α β : Type} {number : Result α} {f : α → β} :
    (∃ n, (number >>= fun a => pure (f a)) = .ok n) ↔ ∃ n, number = .ok n := by
  constructor
  · rintro ⟨n, h⟩
    obtain ⟨a, ha, -⟩ := Except.bind_eq_ok h
    exact ⟨a, ha⟩
  · rintro ⟨n, h⟩
    exact ⟨f n, by rw [h]; rfl⟩

/-- What the columns of 64 bits take. -/
theorem int64_ok_iff (hid : T.id ≠ .decimal) : (∃ n, encodeInt64LogicalValue prims T value = .ok n) ↔
    value.IsInstant ∨ ∃ n, valueToI128 prims value = .ok n := by
  unfold encodeInt64LogicalValue
  rw [if_neg hid]
  cases value with
  | time | timeTz | timestamp => exact ⟨fun _ => .inl trivial, fun _ => ⟨_, rfl⟩⟩
  | _ =>
      show (∃ n, (liftM (valueToI128 prims _) >>= fun number => pure (number.setWidth 64)) = Outcome.ok n) ↔ _
      rw [bind_pure_ok_iff, lift_ok_iff]
      exact ⟨.inr, fun h => h.resolve_left id⟩

/-- What a DECIMAL column takes. -/
theorem converts_decimal_iff {width scale : U64} (hnull : value ≠ .null) :
    Converts prims (LogicalTypes.decimal width scale) value ↔ width.toNat ≤ 38 ∧
      ∃ n, decimalToUnscaled prims (LogicalTypes.decimal width scale) value = .ok n := by
  have hskip := Value.isNull_eq_false hnull
  have hword (physicalType : PhysicalType) (size : isConstantSizePhysicalType physicalType = true)
      (physical : getPhysicalType (LogicalTypes.decimal width scale) = .ok physicalType) :
      Converts prims (LogicalTypes.decimal width scale) value ↔
        ∃ n, decimalToUnscaled prims (LogicalTypes.decimal width scale) value = .ok n := by
    rw [converts_fixed_iff physical size]
    unfold encodeFixedValue
    rw [hskip]
    rcases decimalPhysicalType_cases physical with rfl | rfl | rfl | rfl
    · exact writes_number fun n => ⟨_, rfl⟩
    · exact writes_number fun n => ⟨_, rfl⟩
    · refine (writes_number fun n => ⟨_, rfl⟩).trans ?_
      exact bind_pure_ok_iff
    · refine (writes_number fun n => ⟨_, rfl⟩).trans ?_
      exact bind_pure_ok_iff
  constructor
  · intro h
    have physical : ∃ physicalType, getPhysicalType (LogicalTypes.decimal width scale) = .ok physicalType ∧
        isConstantSizePhysicalType physicalType = true := by
      cases h with
      | null => exact absurd rfl hnull
      | fixed physical size => exact ⟨_, physical, size⟩
      | varchar physical | struct physical | list physical | array physical =>
          rcases decimalPhysicalType_cases physical with h | h | h | h <;> cases h
    obtain ⟨physicalType, physical, size⟩ := physical
    exact ⟨decimal_width physical, (hword physicalType size physical).mp h⟩
  · rintro ⟨hwidth, h⟩
    obtain ⟨physicalType, size, physical, hsize, -⟩ := @decimal_size width scale hwidth
    exact (hword physicalType (by rw [isConstantSizePhysicalType, hsize]; rfl) physical).mpr h

/-- Beside the first value, those that are converted are the ones that its type takes. -/
theorem converts_leafType_iff (leaf : first.IsLeaf) (hnull : value ≠ .null) :
    Converts prims (leafType first) value ↔ TakenBeside prims first value := by
  have hskip := Value.isNull_eq_false hnull
  have hinstant (id : LogicalTypeId) (hid : id ≠ .decimal)
      (physical : getPhysicalType (LogicalTypes.scalar id) = .ok .int64) :
      Converts prims (LogicalTypes.scalar id) value ↔
        value.IsInstant ∨ ∃ n, valueToI128 prims value = .ok n := by
    rw [converts_fixed_iff physical rfl, encodeFixedValue, hskip,
      ← int64_ok_iff (show (LogicalTypes.scalar id).id ≠ .decimal from hid)]
    exact writes_number fun n => ⟨_, rfl⟩
  cases first with
  | null | list | struct => exact absurd leaf id
  | bool first =>
      rw [leafType, converts_fixed_iff rfl rfl, encodeFixedValue, hskip]
      exact ⟨fun _ => trivial, fun _ => ⟨_, rfl⟩⟩
  | string | bytes =>
      refine ⟨fun h => h.text rfl, ?_⟩
      rintro ⟨raw, hraw⟩
      exact .varchar rfl hraw
  | decimal first => exact converts_decimal_iff hnull
  | int first =>
      have hrange : (-2 ^ 31 ≤ first.toInt ∧ first.toInt ≤ 2 ^ 31 - 1) ↔ SignedRange 32 first.toInt := by
        simp only [SignedRange]
        omega
      simp only [leafType, hrange, TakenBeside]
      split_ifs with hfirst
      · rw [converts_fixed_iff rfl rfl, encodeFixedValue, hskip]
        refine (writes_number fun n => ⟨_, rfl⟩).trans (lift_ok_iff.trans ?_)
        simp only [hfirst, not_true_eq_false, false_and, or_false]
      · rw [hinstant .bigInt (by decide) rfl, or_comm]
        simp only [hfirst, not_false_eq_true, true_and]
  | uint first =>
      rw [leafType]
      split_ifs
      · rw [converts_fixed_iff rfl rfl, encodeFixedValue, hskip]
        refine (writes_number fun n => ⟨_, rfl⟩).trans (lift_ok_iff.trans ?_)
        unfold encodeEnumOrNumber
        rw [if_pos (by decide)]
        exact result_bind_pure_ok_iff
      · rw [converts_fixed_iff rfl rfl, encodeFixedValue, hskip]
        exact (writes_number fun n => ⟨_, rfl⟩).trans lift_ok_iff
  | hugeInt first =>
      rw [leafType, converts_fixed_iff rfl rfl, encodeFixedValue, hskip]
      refine (writes_number fun n => ⟨_, rfl⟩).trans ?_
      exact bind_pure_ok_iff.trans lift_ok_iff
  | uhugeInt first =>
      rw [leafType, converts_fixed_iff rfl rfl, encodeFixedValue, hskip]
      exact (writes_number fun n => ⟨_, rfl⟩).trans lift_ok_iff
  | float | double =>
      rw [leafType, converts_fixed_iff rfl rfl, encodeFixedValue, hskip]
      exact (writes_number fun n => ⟨_, rfl⟩).trans lift_ok_iff
  | date first =>
      rw [leafType, converts_fixed_iff rfl rfl, encodeFixedValue, hskip]
      refine (writes_number fun n => ⟨_, rfl⟩).trans ?_
      cases value with
      | date value => exact ⟨fun _ => .inl ⟨value, rfl⟩, fun _ => ⟨_, rfl⟩⟩
      | _ => exact lift_ok_iff.trans ⟨.inr, fun h => h.resolve_left (by rintro ⟨_, ⟨⟩⟩)⟩
  | time first =>
      obtain ⟨_ | _, n⟩ := first
      · exact hinstant .time (by decide) rfl
      · exact hinstant .timeNs (by decide) rfl
  | timeTz first => exact hinstant .timeTz (by decide) rfl
  | timestamp first =>
      obtain ⟨_ | _ | _ | _, n, _ | _⟩ := first
      · exact hinstant .timestampSec (by decide) rfl
      · exact hinstant .timestampSec (by decide) rfl
      · exact hinstant .timestampMs (by decide) rfl
      · exact hinstant .timestampMs (by decide) rfl
      · exact hinstant .timestamp (by decide) rfl
      · exact hinstant .timestampTz (by decide) rfl
      · exact hinstant .timestampNs (by decide) rfl
      · exact hinstant .timestampNs (by decide) rfl
  | interval first =>
      rw [leafType, converts_fixed_iff rfl rfl]
      unfold encodeFixedValue
      rw [hskip]
      cases value with
      | interval value => exact ⟨fun _ => ⟨value, rfl⟩, fun _ => ⟨_, rfl⟩⟩
      | _ => exact ⟨fun h => absurd h (Encode.not_writes_err _), by rintro ⟨_, ⟨⟩⟩⟩

/-- The values are of the type inferred from them exactly if none is wider than the first one. -/
theorem canonical_iff_noneWider (hT : Inferred values T) :
    (∀ value ∈ values, Canonical T value) ↔ NoneWider values := by
  have hfollows := hT.afterFirst Canonical.null (fun _ _ => canonical_leafType_iff)
    (fun _ _ => canonical_list_iff) (fun _ _ => canonical_struct_iff) []
  rwa [List.append_nil] at hfollows

/-- They are converted to it exactly if each is taken beside the first one. -/
theorem converts_iff_allTaken (hT : Inferred values T) :
    (∀ value ∈ values, Converts prims T value) ↔ AllTaken prims values := by
  have hfollows := @Inferred.afterFirst _ _ (Converts prims) (TakenBeside prims) (fun _ _ => True) hT
    Converts.null (fun _ _ => converts_leafType_iff) (fun _ _ => converts_list_iff)
    (fun _ _ _ => converts_struct_iff) []
  rwa [List.append_nil] at hfollows

end

/-- The column is written and its values are read back; or it is not written, and no type covers them. -/
def Covers (layout : Layout) (prims : Primitives) (T : LogicalType) (values : List Value) : Prop :=
  (∃ bytes vector c, encodeVector layout prims T values values.length = .ok bytes ∧
    (decodeVector T values.length).run layout ⟨bytes, 0⟩ = .ok (vector, c) ∧
    List.Forall₂ Value.Same vector.values values) ∨
  (¬ EncodesColumn layout prims T values ∧ ¬ ∃ covering, ∀ value ∈ values, Canonical covering value)

/-- The inferred type covers the values exactly if each of them is of it already, or one of them cannot
be converted to it. -/
theorem covers_iff_canonical (hfloat : ∀ bits, prims.f64ToF32 (prims.f32ToF64 bits) = bits)
    (hT : Inferred values T) (hkeyed : ∀ value ∈ values, value.Keyed)
    (hheld : T.Everywhere (LogicalType.InMemory layout)) (hfits : layout.Fits .value values.length)
    (hroom : Allocates layout T values)
    (hbytes : ∀ bytes, encodeVector layout prims T values values.length = .ok bytes →
      bytes.length ≤ isizeMax) :
    Covers layout prims T values ↔
      (∀ value ∈ values, Canonical T value) ∨ ∃ value ∈ values, ¬ Converts prims T value := by
  have hdistinct := hT.distinct hkeyed
  constructor
  · rintro (⟨bytes, vector, c, hwrite, hread, hsame⟩ | ⟨hnot, -⟩)
    · have henc := encoded_vector hdistinct hwrite (hbytes bytes hwrite)
      have hreadable := (decodesEncoded_iff hdistinct hheld hfits hwrite (hbytes bytes hwrite)).mp
        ⟨vector, c, hread⟩
      have hstorable (value : Value) (hmem : value ∈ values) : Storable prims T value :=
        (henc.valued value hmem).resolve_right (hreadable value hmem)
      have htrip := roundTrips_vector .refl henc.encodable hheld (fitsMemory_of_encode hfits hwrite) hstorable
      cases (htrip.run_eq hwrite (hbytes bytes hwrite)).symm.trans hread
      rw [List.forall₂_map_left_iff, List.forall₂_same] at hsame
      exact .inl fun value hmem => canonical_of_same hT henc.encodable (hkeyed value hmem)
        (hstorable value hmem) (hsame value hmem)
    · refine .inr ?_
      by_contra hall
      simp only [not_exists, not_and, not_not] at hall
      exact hnot (encodesColumn_of_converts (encodable_of_converts hT hkeyed hall) hroom hall)
  · rintro (hcanonical | ⟨value, hmem, hnot⟩)
    · have hconverts : ∀ value ∈ values, Converts prims T value :=
        converts_of_covered hT (List.Subset.refl values) T hcanonical
      have hencodable := encodable_of_converts hT hkeyed hconverts
      obtain ⟨bytes, hwrite⟩ := encodesColumn_of_converts hencodable hroom hconverts
      have hstored (value : Value) (hmem : value ∈ values) :=
        storable_canonical hfloat hencodable (hcanonical value hmem)
      have htrip := roundTrips_vector .refl hencodable hheld (fitsMemory_of_encode hfits hwrite)
        fun value hmem => (hstored value hmem).1
      refine .inl ⟨bytes, _, _, hwrite, htrip.run_eq hwrite (hbytes bytes hwrite), ?_⟩
      rw [List.forall₂_map_left_iff, List.forall₂_same]
      exact fun value hmem => (hstored value hmem).2.mpr (not_hasWideLabel_inferred hT)
    · refine .inr ⟨fun hwrites => hnot (converts_of_encodes hwrites value hmem), ?_⟩
      rintro ⟨covering, hcovers⟩
      exact hnot (converts_of_covered hT (List.Subset.refl values) covering hcovers value hmem)

/-- The inferred type covers the values exactly if none is wider, finer or of other keys than the first one that
is not NULL, at any depth, or one of them is not converted beside it. -/
theorem inferLogicalType_covers_iff (hfloat : ∀ bits, prims.f64ToF32 (prims.f32ToF64 bits) = bits)
    (hinfer : inferLogicalType values = .ok T) (hkeyed : ∀ value ∈ values, value.Keyed)
    (hheld : T.Everywhere (LogicalType.InMemory layout)) (hfits : layout.Fits .value values.length)
    (hroom : Allocates layout T values)
    (hbytes : ∀ bytes, encodeVector layout prims T values values.length = .ok bytes →
      bytes.length ≤ isizeMax) :
    Covers layout prims T values ↔ NoneWider values ∨ ¬ AllTaken prims values := by
  have hT := inferred_of_ok hinfer
  rw [covers_iff_canonical hfloat hT hkeyed hheld hfits hroom hbytes, canonical_iff_noneWider hT,
    ← @converts_iff_allTaken prims _ _ hT]
  simp only [not_forall, exists_prop]

def nullableInteger : List Value := [.int 1, .null]

theorem nullableInteger_keyed : ∀ value ∈ nullableInteger, value.Keyed := by
  intro value hmem
  simp only [nullableInteger, List.mem_cons, List.not_mem_nil, or_false] at hmem
  rcases hmem with rfl | rfl
  · exact .scalar (fun _ h => by cases h) fun _ h => by cases h
  · exact keyed_null

theorem integer_physical : getPhysicalType (LogicalTypes.scalar .integer) = .ok .int32 := rfl

theorem inferLogicalType_integer (rest : List Value) :
    inferLogicalType (.int 1 :: rest) = .ok (LogicalTypes.scalar .integer) :=
  inferLogicalType_leaf (rfl : firstValue (.int 1 :: rest) = some (.int 1)) trivial

theorem allocates_integers (h : 4 * values.length ≤ isizeMax) :
    Allocates layout (LogicalTypes.scalar .integer) values := by
  refine .intro ((reserves_fixed integer_physical rfl).mpr h) fun part hmem => ?_
  rw [childVectors_fixed integer_physical rfl] at hmem
  cases hmem

theorem inferLogicalType_covers_nullable :
    Covers .words .floatless (LogicalTypes.scalar .integer) nullableInteger := by
  have hbytes (bytes : Bytes) (hok : encodeVector .words .floatless (LogicalTypes.scalar .integer)
      nullableInteger nullableInteger.length = .ok bytes) : bytes.length ≤ isizeMax :=
    (atMost_fixedVector integer_physical rfl (by decide) (by decide) bytes hok).trans (by decide)
  refine (inferLogicalType_covers_iff Primitives.floatless_back (inferLogicalType_integer [.null])
    nullableInteger_keyed everywhere_inMemory_scalar ⟨by decide, by decide⟩
    (allocates_integers (by decide)) hbytes).mpr (.inl (.leaf rfl trivial fun value hmem hnull => ?_))
  simp only [List.mem_cons, List.not_mem_nil, or_false] at hmem
  rcases hmem with rfl | rfl
  · exact fun _ => by decide
  · exact absurd rfl hnull

def widerInteger : List Value := [.int 1, .int 1099511627776]

/-- The second integer is out of the range of the type that the first one gives. -/
theorem not_covers_widerInteger : inferLogicalType widerInteger = .ok (LogicalTypes.scalar .integer) ∧
    ¬ Covers .words .floatless (LogicalTypes.scalar .integer) widerInteger := by
  refine ⟨inferLogicalType_integer [.int 1099511627776], ?_⟩
  have hone : storedFixed .floatless (LogicalTypes.scalar .integer) .int32 (.int 1) = .ok (.int 1) := rfl
  have hzero : storedFixed .floatless (LogicalTypes.scalar .integer) .int32 (.int 1099511627776) =
      .ok (.int 0) := rfl
  have hstorable : ∀ value ∈ widerInteger, Storable .floatless (LogicalTypes.scalar .integer) value := by
    intro value hmem
    simp only [widerInteger, List.mem_cons, List.not_mem_nil, or_false] at hmem
    rcases hmem with rfl | rfl
    · exact .fixed integer_physical rfl (fun h => by cases h) hone
    · exact .fixed integer_physical rfl (fun h => by cases h) hzero
  have hfits : FitsMemory .words (LogicalTypes.scalar .integer) widerInteger :=
    fitsMemory_fixed integer_physical rfl ⟨by decide, by decide⟩
  have hencodable : Encodable (LogicalTypes.scalar .integer) :=
    .fixed integer_physical rfl fun h => by cases h
  have htrip := roundTrips_vector .refl hencodable everywhere_inMemory_scalar hfits hstorable
  have hbytes (bytes : Bytes) (hok : encodeVector .words .floatless (LogicalTypes.scalar .integer)
      widerInteger widerInteger.length = .ok bytes) : bytes.length ≤ isizeMax :=
    (atMost_fixedVector integer_physical rfl (by decide) (by decide) bytes hok).trans (by decide)
  rintro (⟨bytes, vector, c, hwrite, hread, hsame⟩ | ⟨hnot, -⟩)
  · cases (htrip.run_eq hwrite (hbytes bytes hwrite)).symm.trans hread
    have hsecond := (List.forall₂_cons.mp (List.forall₂_cons.mp hsame).2).1
    rw [stored_fixed integer_physical rfl (fun h => by cases h) hzero] at hsecond
    have hscalar : ScalarOf (LogicalTypes.scalar .integer) (.int 0) := ⟨0, rfl, by decide⟩
    exact absurd (Value.int.inj (hscalar.eq_of_same hsecond)) (by decide)
  · obtain ⟨bytes, hwrite, -⟩ := htrip
    exact hnot ⟨bytes, hwrite⟩

end

end QuackProtocol
