import QuackProtocol.LogicalTypesRoundTrip
import QuackProtocol.Vectors

/-! What a column gives back for the values written to it, without the bytes in between. `stored` is
the value itself for most types, and the nearest value of the column's storage for the others. -/

open Decoding

namespace QuackProtocol

/-- A field whose type is renamed. -/
def ChildType.under (φ : LogicalType → LogicalType) (child : ChildType) : ChildType :=
  ⟨child.name, φ child.logicalType⟩

/-- The decoder sees the same type up to a renaming that its vectors do not depend on. -/
structure SameVectors (φ : LogicalType → LogicalType) : Prop where
  sameId : ∀ T, (φ T).id = T.id
  samePhysical : ∀ T, getPhysicalType (φ T) = getPhysicalType T
  sameEnum : ∀ T, getEnumValues (φ T) = getEnumValues T
  sameDecimal : ∀ T v, decimalFromUnscaled (φ T) v = decimalFromUnscaled T v
  sameChild : ∀ T, getChildType (φ T) = (getChildType T).map φ
  sameChildren : ∀ T,
    getStructChildren (φ T) = (getStructChildren T).map (List.map (ChildType.under φ))
  sameSize : ∀ T, getArraySize (φ T) = getArraySize T

theorem SameVectors.refl : SameVectors (fun T => T) where
  sameId _ := rfl
  samePhysical _ := rfl
  sameEnum _ := rfl
  sameDecimal _ _ := rfl
  sameChild T := by cases getChildType T <;> rfl
  sameChildren T := by
    cases getStructChildren T with
    | ok children =>
        exact congrArg Except.ok (List.map_id'' (fun child => by cases child; rfl) children).symm
    | error e => rfl
  sameSize _ := rfl

theorem SameVectors.asRead : SameVectors LogicalType.asRead := by
  have hinfo : ∀ T : LogicalType, T.asRead.typeInfo = T.typeInfo.map ExtraTypeInfo.asRead :=
    LogicalType.asRead_typeInfo
  have henum : ∀ T, getEnumValues T.asRead = getEnumValues T := fun T => by
    rw [getEnumValues, getEnumValues, hinfo, LogicalType.asRead_id]
    rcases T.typeInfo with _ | info
    · rfl
    · cases info <;> simp only [Option.map_some, ExtraTypeInfo.asRead]
  have hdecimal : ∀ T, getDecimalWidthAndScale T.asRead = getDecimalWidthAndScale T := fun T => by
    rw [getDecimalWidthAndScale, getDecimalWidthAndScale, hinfo]
    rcases T.typeInfo with _ | info
    · rfl
    · cases info <;> simp only [Option.map_some, ExtraTypeInfo.asRead]
  constructor
  case sameId => exact LogicalType.asRead_id
  case samePhysical =>
    intro T
    simp only [getPhysicalType, LogicalType.asRead_id, enumPhysicalType, decimalPhysicalType,
      henum, hdecimal]
  case sameEnum => exact henum
  case sameDecimal =>
    intro T v
    rw [decimalFromUnscaled, decimalFromUnscaled, hinfo]
    rcases T.typeInfo with _ | info
    · rfl
    · cases info <;> simp only [Option.map_some, ExtraTypeInfo.asRead]
  case sameChild =>
    intro T
    rw [getChildType, getChildType, hinfo, LogicalType.asRead_id]
    rcases T.typeInfo with _ | info
    · rfl
    · cases info <;> simp only [Option.map_some, ExtraTypeInfo.asRead] <;> rfl
  case sameChildren =>
    intro T
    rw [getStructChildren, getStructChildren, hinfo, LogicalType.asRead_id]
    rcases T.typeInfo with _ | info
    · simp only [Option.map_none]
      split <;> rfl
    · cases info <;> simp only [Option.map_some, ExtraTypeInfo.asRead]
      case struct a children =>
        refine congrArg Except.ok (List.map_congr_left fun child _ => ChildType.asRead_eq child)
      all_goals split <;> rfl
  case sameSize =>
    intro T
    rw [getArraySize, getArraySize, hinfo, LogicalType.asRead_id]
    rcases T.typeInfo with _ | info
    · rfl
    · cases info <;> simp only [Option.map_some, ExtraTypeInfo.asRead]

section
variable {φ : LogicalType → LogicalType} (hφ : SameVectors φ)
include hφ

theorem SameVectors.decodeFixed (T : LogicalType) (physicalType : PhysicalType) :
    decodeFixedValue (φ T) physicalType = decodeFixedValue T physicalType := by
  unfold decodeFixedValue
  simp only [decodeEnumOrNumber, decodeDecimalOrInt, decodeDateDecimalOrInt,
    decodeInt64LogicalValue, decodeInt128Parts, hφ.sameId, hφ.sameEnum, hφ.sameDecimal]

theorem SameVectors.decodeStringLike (T : LogicalType) (raw : Bytes) :
    decodeStringLikeValue (φ T) raw = decodeStringLikeValue T raw := by
  rw [decodeStringLikeValue, decodeStringLikeValue, hφ.sameId]

end

/-! ### Stored values -/

section
variable (prims : Primitives)

/-- What a column of scalars gives back for a value that is not NULL. -/
def storedFixed (T : LogicalType) (physicalType : PhysicalType) (value : Value) :
    Outcome QuackError Value := do
  match physicalType with
  | .bool => pure (.bool (value.isTrue))
  | .int8 =>
    let number ← valueToI128 prims value
    pure (.int ((number.setWidth 8).signExtend 64))
  | .uint8 =>
    let number ← encodeEnumOrNumber prims T value
    decodeEnumOrNumber T ((number.setWidth 8).setWidth 64)
  | .int16 =>
    let number ← encodeDecimalOrInteger prims T value
    decodeDecimalOrInt T ((number.setWidth 16).signExtend 128)
  | .uint16 =>
    let number ← encodeEnumOrNumber prims T value
    decodeEnumOrNumber T ((number.setWidth 16).setWidth 64)
  | .int32 =>
    let number ← encodeDateDecimalOrInteger prims T value
    decodeDateDecimalOrInt T (number.setWidth 32)
  | .uint32 =>
    let number ← encodeEnumOrNumber prims T value
    decodeEnumOrNumber T ((number.setWidth 32).setWidth 64)
  | .int64 =>
    let number ← encodeInt64LogicalValue prims T value
    decodeInt64LogicalValue T number
  | .uint64 =>
    let number ← valueToU128 prims value
    pure (.uint (number.setWidth 64))
  | .float =>
    let number ← valueToF64 prims value
    pure (.float (prims.f64ToF32 number))
  | .double =>
    let number ← valueToF64 prims value
    pure (.double number)
  | .int128 =>
    let parts ← encodeInt128Parts prims T value
    decodeInt128Parts T parts
  | .uint128 =>
    let number ← valueToU128 prims value
    pure (.uhugeInt number)
  | .interval =>
    match value with
    | .interval v => pure (.interval v)
    | _ => .err (.protocol "INTERVAL values must be tagged intervals")
  | other => .err (.unsupportedType s!"cannot encode fixed physical type {other.debug}")

/-- The row with the given fields, inserted in order. -/
def Row.ofFields (fields : List (String × Value)) : Row :=
  fields.foldl (fun row field => Row.insert row field.1 field.2) []

/-- What a column gives back for a value, wherever it can be stored. -/
def stored (T : LogicalType) (value : Value) : Value :=
  if value.isNull then .null
  else
    match getPhysicalType T with
    | .error _ => .null
    | .ok physicalType =>
      if isConstantSizePhysicalType physicalType then
        match storedFixed prims T physicalType value with
        | .ok w => w
        | _ => .null
      else
        match physicalType with
        | .varchar =>
          match encodeStringLikeValue prims value with
          | .ok raw => match decodeStringLikeValue T raw with | .ok w => w | .error _ => .null
          | _ => .null
        | .struct =>
          match _h : getStructChildren T with
          | .ok children => .struct (Row.ofFields (children.attach.map fun child =>
              (child.val.name,
                stored child.val.logicalType (structField child.val.name value))))
          | .error _ => .null
        | .list | .array =>
          match _h : getChildType T with
          | .ok childType =>
            match value with
            | .list items => .list (items.map fun item => stored childType item)
            | _ => .null
          | .error _ => .null
        | _ => .null
termination_by sizeOf T
decreasing_by
  · exact LogicalType.sizeOf_lt_of_mem_children (getStructChildren_mem _h child.property)
  · exact LogicalType.sizeOf_lt_of_mem_children (getChildType_mem _h)

variable {prims} {T childType : LogicalType} {physicalType : PhysicalType} {value w : Value}

@[simp] theorem stored_null : stored prims T .null = .null := by
  rw [stored]
  rfl

theorem stored_fixed (hpt : getPhysicalType T = .ok physicalType)
    (hsize : isConstantSizePhysicalType physicalType = true) (hnull : value ≠ .null)
    (h : storedFixed prims T physicalType value = .ok w) : stored prims T value = w := by
  rw [stored, Value.isNull_eq_false hnull, hpt]
  simp only [Bool.false_eq_true, if_false, hsize, if_true, h]

theorem stored_varchar {raw : Bytes} (hpt : getPhysicalType T = .ok .varchar)
    (hnull : value ≠ .null) (hraw : encodeStringLikeValue prims value = .ok raw)
    (h : decodeStringLikeValue T raw = .ok w) : stored prims T value = w := by
  rw [stored, Value.isNull_eq_false hnull, hpt]
  simp only [Bool.false_eq_true, if_false, hraw, h]
  rfl

theorem stored_struct {children : List ChildType} (hpt : getPhysicalType T = .ok .struct)
    (hchildren : getStructChildren T = .ok children) (hnull : value ≠ .null) :
    stored prims T value = .struct (Row.ofFields (children.map fun child =>
      (child.name, stored prims child.logicalType (structField child.name value)))) := by
  rw [stored, Value.isNull_eq_false hnull, hpt]
  simp only [Bool.false_eq_true, if_false]
  rw [if_neg (by decide)]
  split
  · rename_i cs hcs
    cases hchildren.symm.trans hcs
    exact congrArg (fun fields => Value.struct (Row.ofFields fields)) <| List.attach_map_val
      (f := fun (child : ChildType) =>
        (child.name, stored prims child.logicalType (structField child.name value)))
  · rename_i e he
    cases hchildren.symm.trans he

theorem stored_list {items : List Value}
    (hpt : getPhysicalType T = .ok .list ∨ getPhysicalType T = .ok .array)
    (hchild : getChildType T = .ok childType) :
    stored prims T (.list items) = .list (items.map (stored prims childType)) := by
  have hnull : (Value.list items).isNull = false := rfl
  rcases hpt with hpt | hpt <;>
    rw [stored, hnull, hpt] <;>
    simp only [Bool.false_eq_true, if_false] <;>
    rw [if_neg (by decide)] <;>
    split
  all_goals
    rename_i h
    cases hchild.symm.trans h
  all_goals rfl

end

/-- A type the encoder has a physical type for, at every level of its vectors. -/
inductive Encodable : LogicalType → Prop where
  | fixed {T : LogicalType} {physicalType : PhysicalType}
      (physical : getPhysicalType T = .ok physicalType)
      (size : isConstantSizePhysicalType physicalType = true)
      (labels : T.id = .enum → getEnumValues T ≠ .ok []) : Encodable T
  | varchar {T : LogicalType} (physical : getPhysicalType T = .ok .varchar) : Encodable T
  | struct {T : LogicalType} {children : List ChildType}
      (physical : getPhysicalType T = .ok .struct)
      (structChildren : getStructChildren T = .ok children)
      (distinct : (children.map ChildType.name).Nodup)
      (inside : ∀ child ∈ children, Encodable child.logicalType) : Encodable T
  | list {T childType : LogicalType} (physical : getPhysicalType T = .ok .list)
      (child : getChildType T = .ok childType) (inside : Encodable childType) : Encodable T
  | array {T childType : LogicalType} {size : U64} (physical : getPhysicalType T = .ok .array)
      (child : getChildType T = .ok childType) (arraySize : getArraySize T = .ok size)
      (inside : Encodable childType) : Encodable T

theorem Encodable.fields {T : LogicalType} {children : List ChildType} (h : Encodable T)
    (physical : getPhysicalType T = .ok .struct)
    (structChildren : getStructChildren T = .ok children) :
    (children.map ChildType.name).Nodup ∧ ∀ child ∈ children, Encodable child.logicalType := by
  cases h with
  | fixed physical' size =>
      cases physical.symm.trans physical'
      cases size
  | struct _ structChildren' distinct inside =>
      cases structChildren.symm.trans structChildren'
      exact ⟨distinct, inside⟩
  | varchar physical' | list physical' | array physical' => cases physical.symm.trans physical'

theorem Encodable.items {T childType : LogicalType} (h : Encodable T)
    (physical : getPhysicalType T = .ok .list ∨ getPhysicalType T = .ok .array)
    (child : getChildType T = .ok childType) : Encodable childType := by
  cases h with
  | fixed physical' size =>
      rcases physical with physical | physical <;> cases physical.symm.trans physical' <;> cases size
  | list _ child' inside | array _ child' _ inside =>
      cases child.symm.trans child'
      exact inside
  | varchar physical' | struct physical' =>
      rcases physical with physical | physical <;> cases physical.symm.trans physical'

/-- A value that the encoder accepts for a column and the decoder reads back. -/
inductive Storable (prims : Primitives) : LogicalType → Value → Prop where
  | null (T : LogicalType) : Storable prims T .null
  | fixed {T : LogicalType} {physicalType : PhysicalType} {value w : Value}
      (physical : getPhysicalType T = .ok physicalType)
      (size : isConstantSizePhysicalType physicalType = true) (notNull : value ≠ .null)
      (word : storedFixed prims T physicalType value = .ok w) : Storable prims T value
  | varchar {T : LogicalType} {value w : Value} {raw : Bytes}
      (physical : getPhysicalType T = .ok .varchar) (notNull : value ≠ .null)
      (text : encodeStringLikeValue prims value = .ok raw) (held : Held raw)
      (back : decodeStringLikeValue T raw = .ok w) : Storable prims T value
  | struct {T : LogicalType} {children : List ChildType} {value : Value}
      (physical : getPhysicalType T = .ok .struct)
      (structChildren : getStructChildren T = .ok children) (notNull : value ≠ .null)
      (fields : ∀ child ∈ children, Storable prims child.logicalType (structField child.name value)) :
      Storable prims T value
  | list {T childType : LogicalType} {items : List Value}
      (physical : getPhysicalType T = .ok .list) (child : getChildType T = .ok childType)
      (inside : ∀ item ∈ items, Storable prims childType item) : Storable prims T (.list items)
  | array {T childType : LogicalType} {size : U64} {items : List Value}
      (physical : getPhysicalType T = .ok .array) (child : getChildType T = .ok childType)
      (arraySize : getArraySize T = .ok size) (length : items.length = size.toNat)
      (inside : ∀ item ∈ items, Storable prims childType item) : Storable prims T (.list items)

theorem Storable.word {prims : Primitives} {T : LogicalType} {physicalType : PhysicalType}
    {value : Value} (h : Storable prims T value)
    (physical : getPhysicalType T = .ok physicalType)
    (size : isConstantSizePhysicalType physicalType = true) (notNull : value ≠ .null) :
    ∃ w, storedFixed prims T physicalType value = .ok w := by
  cases h with
  | null => exact absurd rfl notNull
  | fixed physical' _ _ word =>
      cases physical.symm.trans physical'
      exact ⟨_, word⟩
  | varchar physical' | struct physical' | list physical' | array physical' =>
      cases physical.symm.trans physical'
      cases size

theorem Storable.text {prims : Primitives} {T : LogicalType} {value : Value}
    (h : Storable prims T value) (physical : getPhysicalType T = .ok .varchar)
    (notNull : value ≠ .null) :
    ∃ raw, encodeStringLikeValue prims value = .ok raw ∧ Held raw ∧
      decodeStringLikeValue T raw = .ok (stored prims T value) := by
  cases h with
  | null => exact absurd rfl notNull
  | fixed physical' size =>
      cases physical.symm.trans physical'
      cases size
  | varchar _ _ text held back =>
      rw [stored_varchar physical notNull text back]
      exact ⟨_, text, held, back⟩
  | struct physical' | list physical' | array physical' => cases physical.symm.trans physical'

theorem Storable.fields {prims : Primitives} {T : LogicalType} {children : List ChildType}
    {value : Value} (h : Storable prims T value) (physical : getPhysicalType T = .ok .struct)
    (structChildren : getStructChildren T = .ok children) (notNull : value ≠ .null) :
    ∀ child ∈ children, Storable prims child.logicalType (structField child.name value) := by
  cases h with
  | null => exact absurd rfl notNull
  | fixed physical' size =>
      cases physical.symm.trans physical'
      cases size
  | struct _ structChildren' _ fields =>
      cases structChildren.symm.trans structChildren'
      exact fields
  | varchar physical' | list physical' | array physical' => cases physical.symm.trans physical'

theorem Storable.items {prims : Primitives} {T childType : LogicalType} {value : Value}
    (h : Storable prims T value) (physical : getPhysicalType T = .ok .list)
    (child : getChildType T = .ok childType) (notNull : value ≠ .null) :
    ∃ items, value = .list items ∧ ∀ item ∈ items, Storable prims childType item := by
  cases h with
  | null => exact absurd rfl notNull
  | fixed physical' size =>
      cases physical.symm.trans physical'
      cases size
  | list _ child' inside =>
      cases child.symm.trans child'
      exact ⟨_, rfl, inside⟩
  | varchar physical' | struct physical' | array physical' => cases physical.symm.trans physical'

theorem Storable.arrayItems {prims : Primitives} {T childType : LogicalType} {size : U64}
    {value : Value} (h : Storable prims T value) (physical : getPhysicalType T = .ok .array)
    (child : getChildType T = .ok childType) (arraySize : getArraySize T = .ok size)
    (notNull : value ≠ .null) :
    ∃ items, value = .list items ∧ items.length = size.toNat ∧
      ∀ item ∈ items, Storable prims childType item := by
  cases h with
  | null => exact absurd rfl notNull
  | fixed physical' size =>
      cases physical.symm.trans physical'
      cases size
  | array _ child' arraySize' length inside =>
      cases child.symm.trans child'
      cases arraySize.symm.trans arraySize'
      exact ⟨_, rfl, length, inside⟩
  | varchar physical' | struct physical' | list physical' => cases physical.symm.trans physical'

/-- The vectors that the encoder gathers under a vector, with their types. -/
def childVectors (T : LogicalType) (values : List Value) : List (LogicalType × List Value) :=
  match getPhysicalType T with
  | .ok .struct =>
    match getStructChildren T with
    | .ok children => children.map fun child => (child.logicalType, structColumn child.name values)
    | .error _ => []
  | .ok .list =>
    match getChildType T, gatherLists 0 values with
    | .ok childType, .ok (_, childValues) => [(childType, childValues)]
    | _, _ => []
  | .ok .array =>
    match getChildType T, getArraySize T with
    | .ok childType, .ok arraySize =>
      match gatherArrays arraySize.toNat values with
      | .ok childValues => [(childType, childValues)]
      | .error _ => []
    | _, _ => []
  | _ => []

/-- No vector that the encoder gathers is larger than a vector can be. -/
inductive FitsMemory (layout : Layout) : LogicalType → List Value → Prop where
  | intro {T : LogicalType} {values : List Value} (own : layout.Fits .value values.length)
      (inside : ∀ part ∈ childVectors T values, FitsMemory layout part.1 part.2) :
      FitsMemory layout T values

theorem FitsMemory.inside {layout : Layout} {T : LogicalType} {values : List Value}
    (h : FitsMemory layout T values) {part : LogicalType × List Value}
    (hmem : part ∈ childVectors T values) : FitsMemory layout part.1 part.2 := by
  cases h with
  | intro own inside => exact inside part hmem

end QuackProtocol
