import QuackProtocol.ArrowSlots
import QuackProtocol.Builders
import QuackProtocol.EncodedRows
import QuackProtocol.RefusedVectors

/-! Inferred types. The type of a list of values is that of its first value that is not NULL, field by field in
structs and from the first list alone in lists; the values behind it are converted to it, and a
conversion may change them without an error. -/

open Decoding Decode Narrowing

namespace QuackProtocol

/-- A value without parts. -/
def Value.IsLeaf : Value → Prop
  | .null | .list _ | .struct _ => False
  | _ => True

/-- The type of a value without parts. -/
def leafType : Value → LogicalType
  | .bool _ => LogicalTypes.scalar .boolean
  | .int value =>
    if -2 ^ 31 ≤ value.toInt ∧ value.toInt ≤ 2 ^ 31 - 1 then LogicalTypes.scalar .integer
    else LogicalTypes.scalar .bigInt
  | .uint value =>
    if value.toNat ≤ 2 ^ 32 - 1 then LogicalTypes.scalar .uInteger else LogicalTypes.scalar .uBigInt
  | .hugeInt _ => LogicalTypes.scalar .hugeInt
  | .uhugeInt _ => LogicalTypes.scalar .uHugeInt
  | .float _ => LogicalTypes.scalar .float
  | .double _ => LogicalTypes.scalar .double
  | .string _ => LogicalTypes.scalar .varchar
  | .bytes _ => LogicalTypes.scalar .blob
  | .decimal value => LogicalTypes.decimal value.width value.scale
  | .date _ => LogicalTypes.scalar .date
  | .time ⟨.micros, _⟩ => LogicalTypes.scalar .time
  | .time ⟨.nanos, _⟩ => LogicalTypes.scalar .timeNs
  | .timeTz _ => LogicalTypes.scalar .timeTz
  | .timestamp ⟨.seconds, _, _⟩ => LogicalTypes.scalar .timestampSec
  | .timestamp ⟨.millis, _, _⟩ => LogicalTypes.scalar .timestampMs
  | .timestamp ⟨.micros, _, timezoneUtc⟩ =>
    if timezoneUtc then LogicalTypes.scalar .timestampTz else LogicalTypes.scalar .timestamp
  | .timestamp ⟨.nanos, _, _⟩ => LogicalTypes.scalar .timestampNs
  | .interval _ => LogicalTypes.scalar .interval
  | _ => LogicalTypes.scalar .sqlNull

/-- The first value that is not NULL. -/
def firstValue (values : List Value) : Option Value := values.find? fun value => !value.isNull

section
variable {values items : List Value} {value : Value} {row : Row} {T : LogicalType}

theorem firstValue_mem (h : firstValue values = some value) : value ∈ values ∧ value ≠ .null := by
  refine ⟨List.mem_of_find?_eq_some h, ?_⟩
  rintro rfl
  have hsome := List.find?_some h
  cases hsome

theorem inferLogicalType_leaf (h : firstValue values = some value) (hleaf : value.IsLeaf) :
    inferLogicalType values = .ok (leafType value) := by
  rw [inferLogicalType]
  rw [firstValue] at h
  split <;> rename_i heq <;> cases h.symm.trans heq <;> try exact absurd hleaf id
  case h_4 number =>
    rw [leafType]
    split <;> rfl
  case h_5 number =>
    rw [leafType]
    split <;> rfl
  case h_14 time =>
    obtain ⟨_ | _, _⟩ := time <;> rfl
  case h_16 timestamp =>
    obtain ⟨_ | _ | _ | _, _, _ | _⟩ := timestamp <;> rfl
  all_goals rfl

theorem inferLogicalType_items (h : firstValue values = some (.list items)) :
    inferLogicalType values = (do
      let childType ← inferLogicalType items
      pure (LogicalTypes.list childType)) := by
  rw [inferLogicalType]
  rw [firstValue] at h
  split <;> rename_i heq <;> cases h.symm.trans heq
  rfl

theorem inferLogicalType_fields (h : firstValue values = some (.struct row)) :
    inferLogicalType values = (do
      let childTypes ← (row.map Prod.fst).mapM fun name => do
        let logicalType ← inferLogicalType (structColumn name values)
        pure (ChildType.mk name logicalType)
      pure (LogicalTypes.struct childTypes)) := by
  rw [inferLogicalType]
  rw [firstValue] at h
  split <;> rename_i heq <;> cases h.symm.trans heq
  rfl

end

/-- What inference looks at, and the type it gives. -/
inductive Inferred : List Value → LogicalType → Prop where
  | leaf {values : List Value} {value : Value} (first : firstValue values = some value)
      (leaf : value.IsLeaf) : Inferred values (leafType value)
  | list {values items : List Value} {childType : LogicalType}
      (first : firstValue values = some (.list items)) (inside : Inferred items childType) :
      Inferred values (LogicalTypes.list childType)
  | struct {values : List Value} {row : Row} {children : List ChildType}
      (first : firstValue values = some (.struct row))
      (names : children.map ChildType.name = row.map Prod.fst)
      (inside : ∀ child ∈ children, Inferred (structColumn child.name values) child.logicalType) :
      Inferred values (LogicalTypes.struct children)

/-- The fields of an inferred struct: one for each name, with the type of its column. -/
theorem inferredFields_iff {values : List Value} {names : List String} {children : List ChildType} :
    (names.mapM fun name => do
      let logicalType ← inferLogicalType (structColumn name values)
      pure (ChildType.mk name logicalType)) = .ok children ↔
    children.map ChildType.name = names ∧ ∀ child ∈ children,
      inferLogicalType (structColumn child.name values) = .ok child.logicalType :=
  Except.mapM_keyed_iff (fun _ _ => rfl) (fun _ _ => rfl) fun child => by
    cases child
    rfl

theorem inferred_of_ok {values : List Value} {T : LogicalType} (h : inferLogicalType values = .ok T) :
    Inferred values T := by
  cases hfirst : firstValue values with
  | none =>
      rw [inferLogicalType] at h
      rw [firstValue] at hfirst
      split at h <;> rename_i heq
      · cases h
      · cases h
      all_goals cases hfirst.symm.trans heq
  | some value =>
      cases value with
      | null => exact absurd rfl (firstValue_mem hfirst).2
      | list items =>
          rw [inferLogicalType_items hfirst] at h
          obtain ⟨childType, hchild, h⟩ := Except.bind_eq_ok h
          cases h
          have hlt : sizeOf items < sizeOf values := by
            have := List.sizeOf_lt_of_mem (firstValue_mem hfirst).1
            simp only [Value.list.sizeOf_spec] at this
            omega
          exact .list hfirst (inferred_of_ok hchild)
      | struct row =>
          rw [inferLogicalType_fields hfirst] at h
          obtain ⟨children, hchildren, h⟩ := Except.bind_eq_ok h
          cases h
          obtain ⟨hnames, htypes⟩ := inferredFields_iff.mp hchildren
          refine .struct hfirst hnames fun child hmem => ?_
          have hlt := sizeOf_structColumn_lt child.name (firstValue_mem hfirst).1
          exact inferred_of_ok (htypes child hmem)
      | _ =>
          cases h.symm.trans (inferLogicalType_leaf hfirst trivial)
          exact .leaf hfirst trivial
termination_by sizeOf values

theorem inferLogicalType_iff {values : List Value} {T : LogicalType} :
    inferLogicalType values = .ok T ↔ Inferred values T := by
  refine ⟨inferred_of_ok, fun h => ?_⟩
  induction h with
  | leaf first leaf => exact inferLogicalType_leaf first leaf
  | list first inside ih =>
      rw [inferLogicalType_items first, ih]
      rfl
  | struct first names inside ih =>
      rw [inferLogicalType_fields first, inferredFields_iff.mpr ⟨names, ih⟩]
      rfl

/-- The columns that a batch is sent in: the given ones, or one for each key of its first row, of the type that is
inferred from the values of the batch under it. -/
inductive ColumnsOf : Option (List ColumnDefinition) → List Row → List ColumnDefinition → Prop where
  | given (definitions : List ColumnDefinition) (batch : List Row) :
      ColumnsOf (some definitions) batch definitions
  | inferred {first : Row} {rest : List Row} {definitions : List ColumnDefinition}
      (names : definitions.map ColumnDefinition.name = first.map Prod.fst)
      (types : ∀ definition ∈ definitions,
        Inferred ((first :: rest).map fun row => cell row definition.name) definition.logicalType) :
      ColumnsOf none (first :: rest) definitions

theorem columnDefinitions_iff {batch : List Row} {columns : Option (List ColumnDefinition)}
    {definitions : List ColumnDefinition} :
    columnDefinitions batch columns = .ok definitions ↔ ColumnsOf columns batch definitions := by
  cases columns with
  | some columns =>
      constructor
      · intro h
        cases h
        exact .given ..
      · intro h
        cases h
        rfl
  | none =>
      cases batch with
      | nil =>
          constructor
          · intro h
            cases h
          · intro h
            cases h
      | cons first rest =>
          have hcolumns : columnDefinitions (first :: rest) none = .ok definitions ↔
              definitions.map ColumnDefinition.name = first.map Prod.fst ∧ ∀ definition ∈ definitions,
                inferLogicalType ((first :: rest).map fun row => cell row definition.name) =
                  .ok definition.logicalType :=
            Except.mapM_keyed_iff (fun _ _ => rfl) (fun _ _ => rfl) fun _ => rfl
          simp only [hcolumns, inferLogicalType_iff]
          constructor
          · rintro ⟨names, types⟩
            exact .inferred names types
          · intro h
            cases h with
            | inferred names types => exact ⟨names, types⟩

/-! ### What comes after the first value -/

/-- The values of a list next to its first one that is not NULL: values without parts one by one, lists by their
items, structs by their keys and field by field. -/
inductive AfterFirst (leaves : Value → Value → Prop) (keys : List String → Value → Prop) : List Value → Prop where
  | leaf {values : List Value} {first : Value} (found : firstValue values = some first) (leaf : first.IsLeaf)
      (each : ∀ value ∈ values, value ≠ .null → leaves first value) : AfterFirst leaves keys values
  | list {values items : List Value} (found : firstValue values = some (.list items))
      (each : ∀ value ∈ values, value ≠ .null → ∃ items, value = .list items)
      (inside : AfterFirst leaves keys (values.flatMap rowItems)) : AfterFirst leaves keys values
  | struct {values : List Value} {row : Row} (found : firstValue values = some (.struct row))
      (each : ∀ value ∈ values, value ≠ .null → keys (row.map Prod.fst) value)
      (inside : ∀ name ∈ row.map Prod.fst, AfterFirst leaves keys (structColumn name values)) :
      AfterFirst leaves keys values

/-- How many bits a decimal of a width is stored in. -/
def decimalBits (width : Nat) : Nat :=
  if width ≤ 4 then 16 else if width ≤ 9 then 32 else if width ≤ 18 then 64 else 128

/-- A value of the kind of the first one that is no wider and no finer. -/
def NoWider : Value → Value → Prop
  | .bool _, .bool _ | .hugeInt _, .hugeInt _ | .uhugeInt _, .uhugeInt _ | .float _, .float _
  | .double _, .double _ | .date _, .date _ | .timeTz _, .timeTz _ | .interval _, .interval _ => True
  | .int first, .int value => SignedRange 32 first.toInt → SignedRange 32 value.toInt
  | .uint first, .uint value => first.toNat < 2 ^ 32 → value.toNat < 2 ^ 32
  | .string _, .string text => HeldText text
  | .bytes _, .bytes raw => Held raw
  | .decimal first, .decimal value => value.width = first.width ∧ value.scale = first.scale ∧
      first.width.toNat ≤ 38 ∧ SignedRange (decimalBits first.width.toNat) value.value.toInt
  | .time first, .time value => value.unit = first.unit
  | .timestamp first, .timestamp value => value.unit = first.unit ∧
      value.timezoneUtc = (first.timezoneUtc && first.unit == .micros)
  | _, _ => False

/-- A struct with these keys. -/
def KeyedAs (names : List String) (value : Value) : Prop :=
  ∃ row : Row, value = .struct row ∧ (row.map Prod.fst).Perm names

/-- No value is wider, finer or of another kind or other keys than the first one that is not NULL, at any depth. -/
def NoneWider (values : List Value) : Prop := AfterFirst NoWider KeyedAs values

/-- Instants are numbers to a column of 64 bits. -/
def Value.IsInstant : Value → Prop
  | .time _ | .timeTz _ | .timestamp _ => True
  | _ => False

/-- A value that the encoder converts beside the first one, with loss or without. -/
def TakenBeside (prims : Primitives) (first value : Value) : Prop :=
  match first with
  | .bool _ => True
  | .int first => (∃ number, valueToI128 prims value = .ok number) ∨
      (¬ SignedRange 32 first.toInt ∧ value.IsInstant)
  | .uint _ | .uhugeInt _ => ∃ number, valueToU128 prims value = .ok number
  | .hugeInt _ => ∃ number, valueToI128 prims value = .ok number
  | .float _ | .double _ => ∃ bits, valueToF64 prims value = .ok bits
  | .string _ | .bytes _ => ∃ raw, encodeStringLikeValue prims value = .ok raw
  | .decimal first => first.width.toNat ≤ 38 ∧
      ∃ number, decimalToUnscaled prims (LogicalTypes.decimal first.width first.scale) value = .ok number
  | .date _ => (∃ date, value = .date date) ∨ ∃ number, valueToI128 prims value = .ok number
  | .time _ | .timeTz _ | .timestamp _ => value.IsInstant ∨ ∃ number, valueToI128 prims value = .ok number
  | .interval _ => ∃ interval, value = .interval interval
  | .null | .list _ | .struct _ => False

/-- Every value is converted beside the first one that is not NULL, at every depth. -/
def AllTaken (prims : Primitives) (values : List Value) : Prop :=
  AfterFirst (TakenBeside prims) (fun _ _ => True) values

section
variable {values items rest : List Value} {value : Value} {T : LogicalType}

theorem firstValue_append (h : firstValue values = some value) : firstValue (values ++ rest) = some value := by
  rw [firstValue, List.find?_append]
  rw [firstValue] at h
  rw [h]
  rfl

/-- The items of the first list come first. -/
theorem flatMap_rowItems (h : firstValue values = some (.list items)) :
    ∃ more, values.flatMap rowItems = items ++ more := by
  obtain ⟨-, nulls, others, rfl, hnulls⟩ := List.find?_eq_some_iff_append.mp h
  have hnone : nulls.flatMap rowItems = [] := List.flatMap_eq_nil_iff.mpr fun value hmem => by
    cases value with
    | null => rfl
    | _ => exact absurd (hnulls _ hmem) (by simp [Value.isNull])
  exact ⟨others.flatMap rowItems, by rw [List.flatMap_append, hnone, List.flatMap_cons]; rfl⟩

/-- What a type asks of values one by one, it asks of a list it was inferred from next to its first value. -/
theorem Inferred.afterFirst {asks : LogicalType → Value → Prop} {leaves : Value → Value → Prop}
    {keys : List String → Value → Prop} (hT : Inferred values T) (hnull : ∀ T, asks T .null)
    (hleaf : ∀ first value, first.IsLeaf → value ≠ .null → (asks (leafType first) value ↔ leaves first value))
    (hlist : ∀ childType value, value ≠ .null → (asks (LogicalTypes.list childType) value ↔
      (∃ items, value = .list items) ∧ ∀ item ∈ rowItems value, asks childType item))
    (hstruct : ∀ children value, value ≠ .null → (asks (LogicalTypes.struct children) value ↔
      keys (children.map ChildType.name) value ∧
        ∀ child ∈ children, asks child.logicalType (structField child.name value)))
    (rest : List Value) :
    (∀ value ∈ values ++ rest, asks T value) ↔ AfterFirst leaves keys (values ++ rest) := by
  induction hT generalizing rest with
  | @leaf values first hfirst leaf =>
      have hfound := @firstValue_append _ rest _ hfirst
      constructor
      · exact fun h => .leaf hfound leaf fun value hmem hne => (hleaf first value leaf hne).mp (h value hmem)
      · intro h value hmem
        by_cases hne : value = .null
        · exact hne ▸ hnull _
        · cases h with
          | leaf found _ each =>
              cases hfound.symm.trans found
              exact (hleaf _ value leaf hne).mpr (each value hmem hne)
          | list found | struct found =>
              cases hfound.symm.trans found
              exact absurd leaf id
  | @list values items childType hfirst inside ih =>
      have hfound := @firstValue_append _ rest _ hfirst
      obtain ⟨more, hitems⟩ := flatMap_rowItems hfound
      have hinside := ih more
      rw [← hitems, List.forall_mem_flatMap] at hinside
      constructor
      · intro h
        refine .list hfound (fun value hmem hne => ((hlist childType value hne).mp (h value hmem)).1)
          (hinside.mp fun value hmem => ?_)
        by_cases hne : value = .null
        · exact hne ▸ fun _ hmem => absurd hmem List.not_mem_nil
        · exact ((hlist childType value hne).mp (h value hmem)).2
      · intro h value hmem
        by_cases hne : value = .null
        · exact hne ▸ hnull _
        · cases h with
          | list found each items =>
              exact (hlist childType value hne).mpr ⟨each value hmem hne, hinside.mpr items value hmem⟩
          | leaf found leaf =>
              cases hfound.symm.trans found
              exact absurd leaf id
          | struct found => cases hfound.symm.trans found
  | @struct values row children hfirst names inside ih =>
      have hfound := @firstValue_append _ rest _ hfirst
      have hfields (child : ChildType) (hchild : child ∈ children) :
          (∀ value ∈ values ++ rest, asks child.logicalType (structField child.name value)) ↔
            AfterFirst leaves keys (structColumn child.name (values ++ rest)) := by
        have hcolumn := ih child hchild (structColumn child.name rest)
        rwa [structColumn, structColumn, ← List.map_append, List.forall_mem_map] at hcolumn
      constructor
      · intro h
        refine .struct hfound (fun value hmem hne => names ▸ ((hstruct children value hne).mp (h value hmem)).1)
          fun name hname => ?_
        obtain ⟨child, hchild, rfl⟩ := List.mem_map.mp (names ▸ hname)
        refine (hfields child hchild).mp fun value hmem => ?_
        by_cases hne : value = .null
        · exact hne ▸ hnull _
        · exact ((hstruct children value hne).mp (h value hmem)).2 child hchild
      · intro h value hmem
        by_cases hne : value = .null
        · exact hne ▸ hnull _
        · cases h with
          | struct found each fields =>
              cases hfound.symm.trans found
              refine (hstruct children value hne).mpr ⟨names ▸ each value hmem hne, fun child hchild => ?_⟩
              exact (hfields child hchild).mpr
                (fields _ (names ▸ List.mem_map_of_mem hchild)) value hmem
          | leaf found leaf =>
              cases hfound.symm.trans found
              exact absurd leaf id
          | list found => cases hfound.symm.trans found

end

end QuackProtocol
