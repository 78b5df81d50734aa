import QuackProtocol.Builders
import QuackProtocol.UnreadableValues
import Mathlib.Data.List.Flatten

/-! What the encoder accepts of a column is decided row by row: a column is written exactly when each of
its values is written as a column of its own and the buffers for all of them together are not larger
than a buffer can be. -/

open Decoding

namespace QuackProtocol

/-- The action writes its bytes. -/
def Encode.Writes (write : Encode) : Prop := ∃ bytes, write = .ok bytes

namespace Encode

variable {α : Type}

theorem writes_ok (bytes : Bytes) : Writes (.ok bytes) := ⟨bytes, rfl⟩

theorem not_writes_err (e : QuackError) : ¬ Writes (.err e) := by
  rintro ⟨_, h⟩
  cases h

theorem writes_bind {x : Outcome QuackError α} {f : α → Encode} :
    Writes (x >>= f) ↔ ∃ a, x = .ok a ∧ Writes (f a) := by
  constructor
  · rintro ⟨bytes, h⟩
    obtain ⟨a, hx, hf⟩ := Outcome.bind_eq_ok h
    exact ⟨a, hx, bytes, hf⟩
  · rintro ⟨a, rfl, h⟩
    exact h

theorem writes_check {holds : Prop} [Decidable holds] {cause : Panic} {f : Unit → Encode} :
    Writes (Outcome.check holds cause >>= f) ↔ holds ∧ Writes (f ()) := by
  rw [writes_bind]
  constructor
  · rintro ⟨⟨⟩, hcheck, h⟩
    exact ⟨Outcome.check_eq_ok hcheck, h⟩
  · rintro ⟨hholds, h⟩
    exact ⟨(), if_pos hholds, h⟩

theorem writes_allocate {layout : Layout} {element : Element} {count : Nat} {f : Unit → Encode} :
    Writes (allocate layout element count >>= f) ↔
      count * layout.sizeOf element ≤ isizeMax ∧ Writes (f ()) := writes_check

theorem writes_append {first second : Encode} :
    (first ++ second).Writes ↔ first.Writes ∧ second.Writes := by
  constructor
  · rintro ⟨bytes, h⟩
    obtain ⟨front, back, hfirst, hsecond, -⟩ := append_eq_ok h
    exact ⟨⟨front, hfirst⟩, back, hsecond⟩
  · rintro ⟨⟨front, rfl⟩, back, rfl⟩
    exact ⟨front ++ back, rfl⟩

theorem writes_all {actions : List Encode} : (all actions).Writes ↔ ∀ action ∈ actions, action.Writes := by
  induction actions with
  | nil => exact ⟨fun _ _ hmem => absurd hmem (List.not_mem_nil), fun _ => writes_ok []⟩
  | cons action actions ih => rw [all, writes_append, ih, List.forall_mem_cons]

theorem writes_field {fieldId : Nat} {write : Encode} :
    (writeField fieldId write).Writes ↔ write.Writes := by
  rw [writeField, writes_append]
  exact and_iff_right (writes_ok _)

theorem writes_object {write : Encode} : (writeObject write).Writes ↔ write.Writes := by
  rw [writeObject, writes_append]
  exact and_iff_left (writes_ok _)

theorem writes_list {elements : List Encode} :
    (writeList elements).Writes ↔ ∀ element ∈ elements, element.Writes := by
  rw [writeList, writes_append, writes_all]
  exact and_iff_right (writes_ok _)

end Encode

/-! ### The kinds of columns -/

section
variable {layout : Layout} {prims : Primitives} {T childType : LogicalType}
  {physicalType : PhysicalType} {values : List Value}

/-- The column is written. -/
def EncodesColumn (layout : Layout) (prims : Primitives) (T : LogicalType) (values : List Value) : Prop :=
  (encodeVector layout prims T values values.length).Writes

theorem writes_geometryField (T : LogicalType) : (writeGeometryField T).Writes := by
  unfold writeGeometryField
  split
  · exact Encode.writes_ok _
  · exact Encode.writes_ok _

theorem writes_mask (values : List Value) : (writeMask values).Writes := by
  unfold writeMask
  simp only
  split
  · exact Encode.writes_ok _
  · exact Encode.writes_ok _

theorem encodesColumn_iff :
    EncodesColumn layout prims T values ↔
      (encodeFlatData layout prims T values values.length).Writes := by
  rw [EncodesColumn, encodeVector_eq, Encode.writes_object, Encode.writes_all]
  simp only [List.forall_mem_cons, writes_geometryField, writes_mask, true_and]
  exact and_iff_left fun _ hmem => absurd hmem List.not_mem_nil

theorem encodesColumn_fixed {width : Nat} (physical : getPhysicalType T = .ok physicalType)
    (hwidth : constantSize physicalType = some width) :
    EncodesColumn layout prims T values ↔ width * values.length ≤ isizeMax ∧
      ∀ value ∈ values, (encodeFixedValue prims T physicalType value).Writes := by
  have hsize : isConstantSizePhysicalType physicalType = true := by
    rw [isConstantSizePhysicalType, hwidth]
    rfl
  rw [encodesColumn_iff, encodeFlatData_fixed physical hsize, encodeFixedVectorBody, physicalTypeSize,
    hwidth]
  show Encode.Writes (Outcome.check _ _ >>= fun _ => _) ↔ _
  rw [Encode.writes_check, Encode.writes_check, Encode.writes_bind]
  constructor
  · rintro ⟨-, hroom, data, hdata, -⟩
    have hall := Encode.writes_all.mp ⟨data, hdata⟩
    exact ⟨hroom, fun value hmem => hall _ (List.mem_map_of_mem hmem)⟩
  · rintro ⟨hroom, hall⟩
    obtain ⟨data, hdata⟩ : (Encode.all (values.map (encodeFixedValue prims T physicalType))).Writes :=
      Encode.writes_all.mpr (List.forall_mem_map.mpr hall)
    exact ⟨hroom.trans_lt (by decide), hroom, data, hdata, Encode.writes_ok _⟩

theorem encodesColumn_varchar (physical : getPhysicalType T = .ok .varchar) :
    EncodesColumn layout prims T values ↔
      ∀ value ∈ values, ∃ raw, encodeStringLikeValue prims value = .ok raw := by
  rw [encodesColumn_iff, encodeFlatData_varchar physical, encodeVarcharVectorBody, Encode.writes_field,
    Encode.writes_list, List.forall_mem_map]
  apply forall₂_congr
  intro value _
  rw [Encode.writes_bind]
  exact exists_congr fun raw => and_iff_left (Encode.writes_ok _)

theorem encodesColumn_struct (physical : getPhysicalType T = .ok .struct) :
    EncodesColumn layout prims T values ↔ ∃ children, getStructChildren T = .ok children ∧
      ∀ child ∈ children,
        EncodesColumn layout prims child.logicalType (structColumn child.name values) := by
  rw [encodesColumn_iff, (encodeFlatData_nested physical).1 rfl]
  cases hchildren : getStructChildren T with
  | error e =>
      rw [encodeStructVectorBody]
      split
      · rename_i h
        cases hchildren.symm.trans h
      · simp [Encode.not_writes_err]
  | ok children =>
      rw [encodeStructVectorBody_eq hchildren, Encode.writes_field, Encode.writes_list,
        List.forall_mem_map]
      simp only [EncodesColumn, structColumn, List.length_map, Except.ok.injEq, exists_eq_left']

theorem writes_listEntries (entries : List ListEntry) : (writeListEntries entries).Writes := by
  refine Encode.writes_list.mpr (List.forall_mem_map.mpr fun entry _ => ?_)
  rw [Encode.writes_object, Encode.writes_all]
  simp only [List.forall_mem_cons, Encode.writes_field]
  exact ⟨Encode.writes_ok _, Encode.writes_ok _, fun _ hmem => absurd hmem List.not_mem_nil⟩

theorem encodesColumn_list (physical : getPhysicalType T = .ok .list) :
    EncodesColumn layout prims T values ↔ ∃ childType entries childValues,
      getChildType T = .ok childType ∧ gatherLists 0 values = .ok (entries, childValues) ∧
      values.length * layout.sizeOf .listEntry ≤ isizeMax ∧
      childValues.length * layout.sizeOf .value ≤ isizeMax ∧
      EncodesColumn layout prims childType childValues := by
  rw [encodesColumn_iff, (encodeFlatData_nested physical).2.1 rfl]
  constructor
  · intro h
    rw [encodeListVectorBody] at h
    split at h
    · rename_i childType hchild
      rw [Encode.writes_allocate, Encode.writes_bind] at h
      obtain ⟨hentries, ⟨entries, childValues⟩, hgather, h⟩ := h
      rw [Encode.writes_allocate, Encode.writes_all] at h
      obtain ⟨hroom, hfields⟩ := h
      have hvector := hfields _ (List.mem_cons_of_mem _ (List.mem_cons_of_mem _ (List.mem_cons_self ..)))
      exact ⟨childType, entries, childValues, hchild, Outcome.lift_eq_ok hgather, hentries, hroom,
        Encode.writes_field.mp hvector⟩
    · exact absurd h (Encode.not_writes_err _)
  · rintro ⟨childType, entries, childValues, hchild, hgather, hentries, hroom, hvector⟩
    rw [encodeListVectorBody_eq hchild hgather, Encode.writes_allocate, Encode.writes_allocate,
      Encode.writes_all]
    refine ⟨hentries, hroom, ?_⟩
    simp only [List.forall_mem_cons, Encode.writes_field]
    exact ⟨Encode.writes_ok _, writes_listEntries entries, hvector, fun _ hmem => absurd hmem List.not_mem_nil⟩

theorem encodesColumn_array (physical : getPhysicalType T = .ok .array) :
    EncodesColumn layout prims T values ↔ ∃ childType arraySize childValues,
      getChildType T = .ok childType ∧ getArraySize T = .ok arraySize ∧
      gatherArrays arraySize.toNat values = .ok childValues ∧
      childValues.length * layout.sizeOf .value ≤ isizeMax ∧
      EncodesColumn layout prims childType childValues := by
  rw [encodesColumn_iff, (encodeFlatData_nested physical).2.2 rfl]
  constructor
  · intro h
    rw [encodeArrayVectorBody] at h
    split at h
    · rename_i childType hchild
      rw [Encode.writes_bind] at h
      obtain ⟨arraySize, hsize, h⟩ := h
      rw [Encode.writes_check, Encode.writes_allocate, Encode.writes_bind] at h
      obtain ⟨-, hroom, childValues, hgather, h⟩ := h
      have hgather := Outcome.lift_eq_ok hgather
      have hvector := Encode.writes_all.mp h _ (List.mem_cons_of_mem _ (List.mem_cons_self ..))
      rw [← (gatherArrays_row hgather).1] at hroom
      exact ⟨childType, arraySize, childValues, hchild, Outcome.lift_eq_ok hsize, hgather, hroom,
        Encode.writes_field.mp hvector⟩
    · exact absurd h (Encode.not_writes_err _)
  · rintro ⟨childType, arraySize, childValues, hchild, hsize, hgather, hroom, hvector⟩
    rw [(gatherArrays_row hgather).1] at hroom
    have hlt : values.length * arraySize.toNat < usizeLimit := by
      have := Nat.mul_le_mul_left (values.length * arraySize.toNat) layout.sixteen_le_value
      simp only [isizeMax, usizeLimit] at *
      omega
    rw [encodeArrayVectorBody_eq hchild hsize hgather, Encode.writes_check, Encode.writes_allocate,
      Encode.writes_all]
    refine ⟨hlt, hroom, ?_⟩
    simp only [List.forall_mem_cons, Encode.writes_field]
    exact ⟨Encode.writes_ok _, hvector, fun _ hmem => absurd hmem List.not_mem_nil⟩

/-- The kinds of columns: any other is never written. -/
inductive ColumnKind (T : LogicalType) : Prop where
  | fixed (physicalType : PhysicalType) (width : Nat) (physical : getPhysicalType T = .ok physicalType)
      (size : constantSize physicalType = some width)
  | varchar (physical : getPhysicalType T = .ok .varchar)
  | struct (physical : getPhysicalType T = .ok .struct)
  | list (physical : getPhysicalType T = .ok .list)
  | array (physical : getPhysicalType T = .ok .array)

theorem columnKind_of_encodes (h : EncodesColumn layout prims T values) : ColumnKind T := by
  rw [encodesColumn_iff, encodeFlatData, Encode.writes_bind] at h
  obtain ⟨physicalType, hphysical, h⟩ := h
  have hphysical := Outcome.lift_eq_ok hphysical
  cases hsize : constantSize physicalType with
  | some width => exact .fixed physicalType width hphysical hsize
  | none =>
      rw [if_neg (by simp [isConstantSizePhysicalType, hsize])] at h
      cases physicalType with
      | varchar => exact .varchar hphysical
      | struct => exact .struct hphysical
      | list => exact .list hphysical
      | array => exact .array hphysical
      | _ => exact absurd h (Encode.not_writes_err _)

def rowItems : Value → List Value
  | .list items => items
  | _ => []

/-- The items of a row of an array column, with those of a NULL row. -/
def paddedItems (arraySize : Nat) : Value → List Value
  | .list items => items
  | _ => List.replicate arraySize .null

theorem gatherLists_flatMap {offset : Nat} {childValues : List Value} {entries : List ListEntry}
    (h : gatherLists offset values = .ok (entries, childValues)) :
    childValues = values.flatMap rowItems := by
  induction values generalizing offset entries childValues with
  | nil =>
      cases h
      rfl
  | cons value values ih =>
      rcases gatherLists_cons h with ⟨rfl, rest, htail, rfl⟩ | ⟨items, rest, others, rfl, htail, rfl, rfl⟩
      · rw [ih htail]
        rfl
      · rw [ih htail]
        rfl

theorem gatherArrays_flatMap {arraySize : Nat} {childValues : List Value}
    (h : gatherArrays arraySize values = .ok childValues) :
    childValues = values.flatMap (paddedItems arraySize) := by
  induction values generalizing childValues with
  | nil =>
      cases h
      rfl
  | cons value values ih =>
      obtain ⟨items, others, hvalue, -, htail, rfl⟩ := gatherArrays_cons h
      rw [ih htail]
      rcases hvalue with ⟨rfl, rfl⟩ | rfl
      · rfl
      · rfl

variable {kept : List Value}

theorem gatherLists_sublist {childValues : List Value} {entries : List ListEntry}
    (h : gatherLists 0 values = .ok (entries, childValues)) (hkept : kept.Sublist values) :
    ∃ entries' childValues', gatherLists 0 kept = .ok (entries', childValues') ∧
      childValues'.Sublist childValues := by
  have hlists : ∀ value ∈ kept, value ≠ .null → ∃ items, value = .list items := by
    intro value hmem hnull
    rcases gatherLists_mem h (hkept.subset hmem) with rfl | ⟨items, rfl, -⟩
    · exact absurd rfl hnull
    · exact ⟨items, rfl⟩
  obtain ⟨entries', childValues', hgather⟩ := gatherLists_ok 0 hlists
  refine ⟨entries', childValues', hgather, ?_⟩
  rw [gatherLists_flatMap h, gatherLists_flatMap hgather]
  exact hkept.flatMap rowItems

theorem gatherArrays_sublist {arraySize : Nat} {childValues : List Value}
    (h : gatherArrays arraySize values = .ok childValues) (hkept : kept.Sublist values) :
    ∃ childValues', gatherArrays arraySize kept = .ok childValues' ∧
      childValues'.Sublist childValues := by
  have hlists : ∀ value ∈ kept, value ≠ .null →
      ∃ items, value = .list items ∧ items.length = arraySize := by
    intro value hmem hnull
    rcases gatherArrays_mem h (hkept.subset hmem) with rfl | ⟨items, rfl, hlen, -⟩
    · exact absurd rfl hnull
    · exact ⟨items, rfl, hlen⟩
  obtain ⟨childValues', hgather⟩ := gatherArrays_ok hlists
  refine ⟨childValues', hgather, ?_⟩
  rw [gatherArrays_flatMap h, gatherArrays_flatMap hgather]
  exact hkept.flatMap (paddedItems arraySize)

/-- A column that is written is written without some of its rows. -/
theorem EncodesColumn.sublist (h : EncodesColumn layout prims T values) (hkept : kept.Sublist values) :
    EncodesColumn layout prims T kept := by
  induction T using LogicalType.childInduction generalizing values kept with
  | step T ih =>
      cases columnKind_of_encodes h with
      | fixed physicalType width physical size =>
          rw [encodesColumn_fixed physical size] at h ⊢
          exact ⟨(Nat.mul_le_mul_left width hkept.length_le).trans h.1,
            fun value hmem => h.2 value (hkept.subset hmem)⟩
      | varchar physical =>
          rw [encodesColumn_varchar physical] at h ⊢
          exact fun value hmem => h value (hkept.subset hmem)
      | struct physical =>
          rw [encodesColumn_struct physical] at h ⊢
          obtain ⟨children, hchildren, hfields⟩ := h
          refine ⟨children, hchildren, fun child hmem => ?_⟩
          exact ih _ (getStructChildren_mem hchildren hmem) (hfields child hmem) (hkept.map _)
      | list physical =>
          rw [encodesColumn_list physical] at h ⊢
          obtain ⟨childType, entries, childValues, hchild, hgather, hentries, hroom, hitems⟩ := h
          obtain ⟨entries', childValues', hgather', hsub⟩ := gatherLists_sublist hgather hkept
          exact ⟨childType, entries', childValues', hchild, hgather',
            (Nat.mul_le_mul_right _ hkept.length_le).trans hentries,
            (Nat.mul_le_mul_right _ hsub.length_le).trans hroom,
            ih _ (getChildType_mem hchild) hitems hsub⟩
      | array physical =>
          rw [encodesColumn_array physical] at h ⊢
          obtain ⟨childType, arraySize, childValues, hchild, hsize, hgather, hroom, hitems⟩ := h
          obtain ⟨childValues', hgather', hsub⟩ := gatherArrays_sublist hgather hkept
          exact ⟨childType, arraySize, childValues', hchild, hsize, hgather',
            (Nat.mul_le_mul_right _ hsub.length_le).trans hroom,
            ih _ (getChildType_mem hchild) hitems hsub⟩

/-- The buffers that the encoder asks for, over the vectors it gathers directly. -/
def Reserves (layout : Layout) (T : LogicalType) (values : List Value) : Prop :=
  match getPhysicalType T with
  | .ok .list => values.length * layout.sizeOf .listEntry ≤ isizeMax ∧
      ∀ part ∈ childVectors T values, part.2.length * layout.sizeOf .value ≤ isizeMax
  | .ok .array => ∀ part ∈ childVectors T values, part.2.length * layout.sizeOf .value ≤ isizeMax
  | .ok physicalType => ∀ width, constantSize physicalType = some width →
      width * values.length ≤ isizeMax
  | .error _ => True

/-- No buffer that the encoder asks for is larger than a buffer can be. -/
inductive Allocates (layout : Layout) : LogicalType → List Value → Prop where
  | intro {T : LogicalType} {values : List Value} (own : Reserves layout T values)
      (inside : ∀ part ∈ childVectors T values, Allocates layout part.1 part.2) :
      Allocates layout T values

theorem reserves_fixed {width : Nat} (physical : getPhysicalType T = .ok physicalType)
    (size : constantSize physicalType = some width) :
    Reserves layout T values ↔ width * values.length ≤ isizeMax := by
  rw [Reserves, physical]
  cases physicalType <;> cases size <;> simp [constantSize]

theorem EncodesColumn.allocates (h : EncodesColumn layout prims T values) :
    Allocates layout T values := by
  induction T using LogicalType.childInduction generalizing values with
  | step T ih =>
      cases columnKind_of_encodes h with
      | fixed physicalType width physical size =>
          rw [encodesColumn_fixed physical size] at h
          refine .intro ((reserves_fixed physical size).mpr h.1) fun part hmem => ?_
          have hflat : isConstantSizePhysicalType physicalType = true := by
            rw [isConstantSizePhysicalType, size]
            rfl
          rw [childVectors_fixed physical hflat] at hmem
          cases hmem
      | varchar physical =>
          refine .intro ?_ fun part hmem => ?_
          · rw [Reserves, physical]
            exact fun _ hwidth => by cases hwidth
          · rw [childVectors, physical] at hmem
            cases hmem
      | struct physical =>
          rw [encodesColumn_struct physical] at h
          obtain ⟨children, hchildren, hfields⟩ := h
          refine .intro ?_ fun part hmem => ?_
          · rw [Reserves, physical]
            exact fun _ hwidth => by cases hwidth
          · rw [childVectors_struct values physical hchildren] at hmem
            obtain ⟨child, hchild, rfl⟩ := List.mem_map.mp hmem
            exact ih _ (getStructChildren_mem hchildren hchild) (hfields child hchild)
      | list physical =>
          rw [encodesColumn_list physical] at h
          obtain ⟨childType, entries, childValues, hchild, hgather, hentries, hroom, hitems⟩ := h
          have hparts := childVectors_list physical hchild hgather
          refine .intro ?_ fun part hmem => ?_
          · rw [Reserves, physical, hparts]
            exact ⟨hentries, List.forall_mem_singleton.mpr hroom⟩
          · rw [hparts] at hmem
            obtain rfl := List.mem_singleton.mp hmem
            exact ih _ (getChildType_mem hchild) hitems
      | array physical =>
          rw [encodesColumn_array physical] at h
          obtain ⟨childType, arraySize, childValues, hchild, hsize, hgather, hroom, hitems⟩ := h
          have hparts := childVectors_array physical hchild hsize hgather
          refine .intro ?_ fun part hmem => ?_
          · rw [Reserves, physical, hparts]
            exact List.forall_mem_singleton.mpr hroom
          · rw [hparts] at hmem
            obtain rfl := List.mem_singleton.mp hmem
            exact ih _ (getChildType_mem hchild) hitems

theorem Allocates.own (h : Allocates layout T values) : Reserves layout T values := by
  cases h with
  | intro own inside => exact own

theorem Allocates.inside (h : Allocates layout T values) {part : LogicalType × List Value}
    (hmem : part ∈ childVectors T values) : Allocates layout part.1 part.2 := by
  cases h with
  | intro own inside => exact inside part hmem

/-- The items of the rows of a list column, where every row is written on its own. -/
theorem gatherLists_of_rows (physical : getPhysicalType T = .ok .list)
    (hchild : getChildType T = .ok childType)
    (hrows : ∀ value ∈ values, EncodesColumn layout prims T [value]) :
    ∃ entries childValues, gatherLists 0 values = .ok (entries, childValues) ∧
      ∀ item ∈ childValues, EncodesColumn layout prims childType [item] := by
  have hrow : ∀ value ∈ values, (value ≠ .null → ∃ items, value = .list items) ∧
      ∀ item ∈ rowItems value, EncodesColumn layout prims childType [item] := by
    intro value hmem
    obtain ⟨_, entries, childValues, hchild', hgather, -, -, hitems⟩ :=
      (encodesColumn_list physical).mp (hrows value hmem)
    cases hchild.symm.trans hchild'
    refine ⟨fun hnull => ?_, fun item hitem => ?_⟩
    · rcases gatherLists_mem hgather (List.mem_singleton_self value) with rfl | ⟨items, rfl, -⟩
      · exact absurd rfl hnull
      · exact ⟨items, rfl⟩
    · rw [gatherLists_flatMap hgather, List.flatMap_singleton] at hitems
      exact hitems.sublist (List.singleton_sublist.mpr hitem)
  obtain ⟨entries, childValues, hgather⟩ := gatherLists_ok 0 fun value hmem => (hrow value hmem).1
  refine ⟨entries, childValues, hgather, fun item hitem => ?_⟩
  rw [gatherLists_flatMap hgather] at hitem
  obtain ⟨value, hmem, hitem⟩ := List.mem_flatMap.mp hitem
  exact (hrow value hmem).2 item hitem

/-- The items of the rows of an array column, where every row is written on its own. -/
theorem gatherArrays_of_rows {arraySize : U64} (physical : getPhysicalType T = .ok .array)
    (hchild : getChildType T = .ok childType) (hsize : getArraySize T = .ok arraySize)
    (hrows : ∀ value ∈ values, EncodesColumn layout prims T [value]) :
    ∃ childValues, gatherArrays arraySize.toNat values = .ok childValues ∧
      ∀ item ∈ childValues, EncodesColumn layout prims childType [item] := by
  have hrow : ∀ value ∈ values,
      (value ≠ .null → ∃ items, value = .list items ∧ items.length = arraySize.toNat) ∧
      ∀ item ∈ paddedItems arraySize.toNat value, EncodesColumn layout prims childType [item] := by
    intro value hmem
    obtain ⟨_, _, childValues, hchild', hsize', hgather, -, hitems⟩ :=
      (encodesColumn_array physical).mp (hrows value hmem)
    cases hchild.symm.trans hchild'
    cases hsize.symm.trans hsize'
    refine ⟨fun hnull => ?_, fun item hitem => ?_⟩
    · rcases gatherArrays_mem hgather (List.mem_singleton_self value) with rfl | ⟨items, rfl, hlen, -⟩
      · exact absurd rfl hnull
      · exact ⟨items, rfl, hlen⟩
    · rw [gatherArrays_flatMap hgather, List.flatMap_singleton] at hitems
      exact hitems.sublist (List.singleton_sublist.mpr hitem)
  obtain ⟨childValues, hgather⟩ := gatherArrays_ok fun value hmem => (hrow value hmem).1
  refine ⟨childValues, hgather, fun item hitem => ?_⟩
  rw [gatherArrays_flatMap hgather] at hitem
  obtain ⟨value, hmem, hitem⟩ := List.mem_flatMap.mp hitem
  exact (hrow value hmem).2 item hitem

/-- A column is written where each row is and there is room for all of them. -/
theorem encodesColumn_of_rows (hempty : EncodesColumn layout prims T [])
    (hroom : Allocates layout T values)
    (hrows : ∀ value ∈ values, EncodesColumn layout prims T [value]) :
    EncodesColumn layout prims T values := by
  induction T using LogicalType.childInduction generalizing values with
  | step T ih =>
      cases columnKind_of_encodes hempty with
      | fixed physicalType width physical size =>
          rw [encodesColumn_fixed physical size]
          refine ⟨(reserves_fixed physical size).mp hroom.own, fun value hmem => ?_⟩
          have hrow := (encodesColumn_fixed physical size).mp (hrows value hmem)
          exact hrow.2 value (List.mem_singleton_self value)
      | varchar physical =>
          rw [encodesColumn_varchar physical]
          intro value hmem
          have hrow := (encodesColumn_varchar physical).mp (hrows value hmem)
          exact hrow value (List.mem_singleton_self value)
      | struct physical =>
          rw [encodesColumn_struct physical] at hempty ⊢
          obtain ⟨children, hchildren, hfields⟩ := hempty
          have hparts := childVectors_struct values physical hchildren
          refine ⟨children, hchildren, fun child hmem => ?_⟩
          have hpart := hroom.inside (hparts ▸ List.mem_map_of_mem hmem)
          apply ih _ (getStructChildren_mem hchildren hmem) (hfields child hmem) hpart
          intro field hfield
          obtain ⟨value, hvalue, rfl⟩ := List.mem_map.mp hfield
          obtain ⟨_, hchildren', hrow⟩ := (encodesColumn_struct physical).mp (hrows value hvalue)
          cases hchildren.symm.trans hchildren'
          exact hrow child hmem
      | list physical =>
          obtain ⟨childType, _, _, hchild, hgather, -, -, hitems⟩ :=
            (encodesColumn_list physical).mp hempty
          cases hgather
          obtain ⟨entries, childValues, hgather, hall⟩ := gatherLists_of_rows physical hchild hrows
          have hparts := childVectors_list physical hchild hgather
          have hown := hroom.own
          rw [Reserves, physical, hparts] at hown
          have hpart := hroom.inside (hparts ▸ List.mem_singleton_self _)
          exact (encodesColumn_list physical).mpr ⟨childType, entries, childValues, hchild, hgather,
            hown.1, hown.2 _ (List.mem_singleton_self _),
            ih _ (getChildType_mem hchild) hitems hpart hall⟩
      | array physical =>
          obtain ⟨childType, arraySize, _, hchild, hsize, hgather, -, hitems⟩ :=
            (encodesColumn_array physical).mp hempty
          cases hgather
          obtain ⟨childValues, hgather, hall⟩ := gatherArrays_of_rows physical hchild hsize hrows
          have hparts := childVectors_array physical hchild hsize hgather
          have hown := hroom.own
          rw [Reserves, physical, hparts] at hown
          have hpart := hroom.inside (hparts ▸ List.mem_singleton_self _)
          exact (encodesColumn_array physical).mpr ⟨childType, arraySize, childValues, hchild, hsize,
            hgather, hown _ (List.mem_singleton_self _),
            ih _ (getChildType_mem hchild) hitems hpart hall⟩

end

end QuackProtocol
