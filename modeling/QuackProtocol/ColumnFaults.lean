import QuackProtocol.EncodedRows
import QuackProtocol.Faults

/-! What a column meets on its way into a vector. The encoder goes over the rows, the fields and the items in
order, and the first value that it cannot convert, or the first buffer that would be too large, is what it ends
in. -/

open Decoding Outcome

namespace QuackProtocol

namespace Encode

variable {first second write : Encode} {actions : List Encode} {faults more : List Fault}

theorem meets_append (h : Meets first faults) (h' : Meets second more) :
    Meets (first ++ second) (faults ++ more) :=
  h.bind fun _ _ => h'.map fun _ => ⟨_, rfl⟩

theorem meets_all {α : Type} {items : List α} {action : α → Encode} {faults : α → List Fault}
    (h : ∀ item ∈ items, Meets (action item) (faults item)) :
    Meets (all (items.map action)) (items.flatMap faults) := by
  induction items with
  | nil => exact rfl
  | cons item items ih =>
      obtain ⟨hitem, hitems⟩ := List.forall_mem_cons.mp h
      exact meets_append hitem (ih hitems)

theorem meets_field {fieldId : Nat} (h : Meets write faults) : Meets (writeField fieldId write) faults := by
  have hid : Meets (writeFieldId fieldId) [] := rfl
  exact meets_append hid h

theorem meets_object (h : Meets write faults) : Meets (writeObject write) faults := by
  rw [← List.append_nil faults]
  exact meets_append h (meets_ok _)

theorem meets_list {α : Type} {items : List α} {action : α → Encode} {faults : α → List Fault}
    (h : ∀ item ∈ items, Meets (action item) (faults item)) :
    Meets (writeList (items.map action)) (items.flatMap faults) := by
  have hlength : Meets (writeUleb (items.map action).length) [] := rfl
  exact meets_append hlength (meets_all h)

/-- Of the fields of an object, the last is the one that may fail. -/
theorem meets_last {before : List Encode} (hbefore : ∀ action ∈ before, action.Writes)
    (h : Meets write faults) : Meets (all (before ++ [write])) faults := by
  induction before with
  | nil =>
      rw [← List.append_nil faults]
      exact meets_append h (meets_ok _)
  | cons action before ih =>
      obtain ⟨⟨bytes, hbytes⟩, hrest⟩ := List.forall_mem_cons.mp hbefore
      have haction : Meets action [] := hbytes ▸ meets_ok bytes
      exact meets_append haction (ih hrest)

theorem Writes.returns (h : write.Writes) : Returns write := .inl h

theorem returns_append (h : Returns first) (h' : Returns second) : Returns (first ++ second) := by
  rcases h with ⟨front, rfl⟩ | ⟨e, rfl⟩
  · rcases h' with ⟨back, rfl⟩ | ⟨e, rfl⟩
    · exact .inl ⟨front ++ back, rfl⟩
    · exact .inr ⟨e, rfl⟩
  · exact .inr ⟨e, rfl⟩

theorem returns_all (h : ∀ action ∈ actions, Returns action) : Returns (all actions) := by
  induction actions with
  | nil => exact (writes_ok _).returns
  | cons action actions ih =>
      obtain ⟨haction, hactions⟩ := List.forall_mem_cons.mp h
      exact returns_append haction (ih hactions)

theorem returns_field {fieldId : Nat} (h : Returns write) : Returns (writeField fieldId write) := by
  have hid : Returns (writeFieldId fieldId) := (writes_ok _).returns
  exact returns_append hid h

theorem returns_object (h : Returns write) : Returns (writeObject write) := by
  have hend : Returns (writeFieldId fieldEnd) := (writes_ok _).returns
  exact returns_append h hend

theorem returns_list (h : ∀ action ∈ actions, Returns action) : Returns (writeList actions) := by
  have hlength : Returns (writeUleb actions.length) := (writes_ok _).returns
  exact returns_append hlength (returns_all h)

end Encode

theorem writes_uleb (value : Nat) : (writeUleb value).Writes := ⟨_, rfl⟩

theorem writes_string (text : String) : (writeString text).Writes := ⟨_, rfl⟩

theorem writes_someString (fieldId : Nat) (text : Option String) : (writeSomeString fieldId text).Writes := by
  cases text with
  | none => exact Encode.writes_ok _
  | some text => exact Encode.writes_field.mpr (Encode.writes_ok _)

theorem everywhere_iff {P : LogicalType → Prop} {T : LogicalType} :
    T.Everywhere P ↔ P T ∧ ∀ child ∈ T.children, child.Everywhere P :=
  ⟨fun h => ⟨h.node, fun _ hmem => h.inside hmem⟩, fun h => .intro h.1 h.2⟩

/-- The information of a type is written unless it is that of an INTEGER_LITERAL. -/
theorem writes_infoBody_iff (info : ExtraTypeInfo) : (encodeInfoBody info).Writes ↔
    info.typeId ≠ .integerLiteral ∧ ∀ child ∈ info.children, (encodeLogicalType child).Writes := by
  cases info
  case integerLiteral =>
    rw [encodeInfoBody]
    exact iff_of_false (Encode.not_writes_err _) fun h => h.1 rfl
  all_goals
    simp only [encodeInfoBody, ExtraTypeInfo.typeId, ExtraTypeInfo.children, Encode.writes_all,
      List.forall_mem_cons, Encode.writes_field, Encode.writes_list, List.forall_mem_map, encodeChildTypes,
      Encode.writes_object, writes_someString, writes_uleb, writes_string, encodeCoordinateReferenceSystem,
      ne_eq, reduceCtorEq, not_false_eq_true, true_and, List.not_mem_nil, false_imp_iff, imp_true_iff, and_true]

theorem returns_infoBody (info : ExtraTypeInfo) (h : ∀ child ∈ info.children, (encodeLogicalType child).Returns) :
    (encodeInfoBody info).Returns := by
  cases info with
  | integerLiteral =>
      rw [encodeInfoBody]
      exact .inr ⟨_, rfl⟩
  | list typeAlias childType =>
      rw [encodeInfoBody]
      exact Encode.returns_all (List.forall_mem_singleton.mpr (Encode.returns_field
        (h _ (List.mem_singleton_self _))))
  | array typeAlias childType =>
      rw [encodeInfoBody]
      refine Encode.returns_all (List.forall_mem_cons.mpr ⟨Encode.returns_field
        (h _ (List.mem_singleton_self _)), List.forall_mem_singleton.mpr ?_⟩)
      exact Encode.returns_field (writes_uleb _).returns
  | any typeAlias childType =>
      rw [encodeInfoBody]
      refine Encode.returns_all (List.forall_mem_cons.mpr ⟨Encode.returns_field
        (h _ (List.mem_singleton_self _)), List.forall_mem_singleton.mpr ?_⟩)
      exact Encode.returns_field (writes_uleb _).returns
  | struct typeAlias children =>
      rw [encodeInfoBody, encodeChildTypes]
      refine Encode.returns_all (List.forall_mem_singleton.mpr (Encode.returns_field (Encode.returns_list
        (List.forall_mem_map.mpr fun child hmem => Encode.returns_object (Encode.returns_all ?_)))))
      simp only [List.forall_mem_cons]
      exact ⟨Encode.returns_field (writes_string _).returns,
        Encode.returns_field (h _ (List.mem_map_of_mem hmem)), fun _ hmem => absurd hmem List.not_mem_nil⟩
  | aggregateState typeAlias functionName returnType boundArgumentTypes =>
      rw [encodeInfoBody]
      refine Encode.returns_all ?_
      simp only [List.forall_mem_cons]
      exact ⟨Encode.returns_field (writes_string _).returns, Encode.returns_field (h _ (List.mem_cons_self ..)),
        Encode.returns_field (Encode.returns_list (List.forall_mem_map.mpr fun child hmem =>
          h _ (List.mem_cons_of_mem _ hmem))), fun _ hmem => absurd hmem List.not_mem_nil⟩
  | _ => exact ((writes_infoBody_iff _).mpr ⟨fun h => (by cases h), fun _ hmem => (by cases hmem)⟩).returns

theorem writes_logicalType_iff {T : LogicalType} :
    (encodeLogicalType T).Writes ↔ T.Everywhere LogicalType.NotIntegerLiteral := by
  induction T using LogicalType.childInduction with
  | step T ih =>
      rw [everywhere_iff, ← forall₂_congr ih]
      obtain ⟨id, _ | info⟩ := T
      · rw [encodeLogicalType, Encode.writes_object, Encode.writes_all]
        refine iff_of_true ?_ ⟨fun _ h => (by cases h), fun _ hmem => (by cases hmem)⟩
        simp only [List.forall_mem_cons, Encode.writes_field, writes_uleb, Encode.writes_ok, true_and]
        exact fun _ hmem => absurd hmem List.not_mem_nil
      · rw [encodeLogicalType, Encode.writes_object, Encode.writes_all, encodeExtraTypeInfo]
        simp only [List.forall_mem_cons, Encode.writes_field, writes_uleb, writeNullable, Encode.writes_append,
          Encode.writes_object, Encode.writes_all, writes_someString, writes_infoBody_iff, writeAlias,
          writeOptionalString, true_and, List.not_mem_nil, false_imp_iff,
          imp_true_iff, and_true]
        have hbool : (writeBool true).Writes := Encode.writes_ok _
        constructor
        · rintro ⟨-, hliteral, inside⟩
          refine ⟨fun other hother => ?_, inside⟩
          cases hother
          exact hliteral
        · exact fun h => ⟨hbool, h.1 info rfl, h.2⟩

theorem returns_logicalType (T : LogicalType) : (encodeLogicalType T).Returns := by
  induction T using LogicalType.childInduction with
  | step T ih =>
      obtain ⟨id, _ | info⟩ := T
      · refine Encode.Writes.returns (writes_logicalType_iff.mpr (everywhere_iff.mpr ⟨?_, ?_⟩))
        · exact fun _ h => by cases h
        · exact fun _ hmem => by cases hmem
      · rw [encodeLogicalType, encodeExtraTypeInfo]
        refine Encode.returns_object (Encode.returns_all (List.forall_mem_cons.mpr
          ⟨Encode.returns_field (writes_uleb _).returns, List.forall_mem_singleton.mpr ?_⟩))
        have hbool : (writeBool true).Returns := (Encode.writes_ok _).returns
        refine Encode.returns_field (Encode.returns_append hbool (Encode.returns_object (Encode.returns_all ?_)))
        simp only [List.forall_mem_cons]
        exact ⟨Encode.returns_field (writes_uleb _).returns, (writes_someString _ _).returns,
          returns_infoBody info ih, fun _ hmem => absurd hmem List.not_mem_nil⟩

/-! ### Values -/

section
variable (layout : Layout) (prims : Primitives)

/-- A buffer that is too large. -/
def bufferFaults (bytes : Nat) : List Fault := if bytes ≤ isizeMax then [] else [.panics]

/-- A row of a list column. -/
def IsListRow (value : Value) : Bool :=
  match value with
  | .null | .list _ => true
  | _ => false

/-- A row of an array column. -/
def IsArrayRow (arraySize : Nat) (value : Value) : Bool :=
  match value with
  | .null => true
  | .list items => items.length = arraySize
  | _ => false

/-- The faults of a column, in the order in which the encoder comes to them: values that are not converted and
buffers that are too large. -/
def columnFaults (T : LogicalType) (values : List Value) : List Fault :=
  match getPhysicalType T with
  | .error _ => [.refused]
  | .ok .varchar => values.flatMap fun value => (encodeStringLikeValue prims value).fault.toList
  | .ok .struct =>
    match _h : getStructChildren T with
    | .ok children => children.attach.flatMap fun child =>
        columnFaults child.val.logicalType (structColumn child.val.name values)
    | .error _ => [.refused]
  | .ok .list =>
    match _h : getChildType T with
    | .ok childType =>
      bufferFaults (values.length * layout.sizeOf .listEntry) ++
        if values.all IsListRow then
          bufferFaults ((values.flatMap rowItems).length * layout.sizeOf .value) ++
            columnFaults childType (values.flatMap rowItems)
        else [.refused]
    | .error _ => [.refused]
  | .ok .array =>
    match _h : getChildType T, getArraySize T with
    | .ok childType, .ok arraySize =>
      bufferFaults (values.length * arraySize.toNat * layout.sizeOf .value) ++
        if values.all (IsArrayRow arraySize.toNat) then
          columnFaults childType (values.flatMap (paddedItems arraySize.toNat))
        else [.refused]
    | _, _ => [.refused]
  | .ok physicalType =>
    match constantSize physicalType with
    | some width => bufferFaults (width * values.length) ++
        values.flatMap fun value => (encodeFixedValue prims T physicalType value).fault.toList
    | none => [.refused]
termination_by sizeOf T
decreasing_by
  · exact LogicalType.sizeOf_lt_of_mem_children (getStructChildren_mem _h child.property)
  · exact LogicalType.sizeOf_lt_of_mem_children (getChildType_mem _h)
  · exact LogicalType.sizeOf_lt_of_mem_children (getChildType_mem _h)

end

section
variable {layout : Layout} {prims : Primitives} {T childType : LogicalType} {physicalType : PhysicalType}
  {values : List Value} {children : List ChildType}

theorem columnFaults_struct (physical : getPhysicalType T = .ok .struct)
    (structChildren : getStructChildren T = .ok children) : columnFaults layout prims T values =
      children.flatMap fun child =>
        columnFaults layout prims child.logicalType (structColumn child.name values) := by
  rw [columnFaults, physical]
  simp only
  split
  · rename_i others hothers
    cases structChildren.symm.trans hothers
    conv_rhs => rw [← List.attach_map_subtype_val children, List.flatMap_map]
  · rename_i e he
    cases structChildren.symm.trans he

theorem gatherLists_meets : Meets (liftM (gatherLists 0 values) : Outcome QuackError _)
    (if values.all IsListRow then [] else [.refused]) := by
  split
  · rename_i hall
    obtain ⟨entries, childValues, hgather⟩ := @gatherLists_ok values 0 fun value hmem hnull => by
      have hrow := List.all_eq_true.mp hall value hmem
      cases value with
      | null => exact absurd rfl hnull
      | list items => exact ⟨items, rfl⟩
      | _ => cases hrow
    rw [hgather]
    exact rfl
  · rename_i hall
    cases hgather : gatherLists 0 values with
    | error e => exact rfl
    | ok gathered =>
        refine absurd (List.all_eq_true.mpr fun value hmem => ?_) hall
        rcases gatherLists_mem hgather hmem with rfl | ⟨items, rfl, -⟩
        · rfl
        · rfl

theorem gatherArrays_meets (arraySize : Nat) :
    Meets (liftM (gatherArrays arraySize values) : Outcome QuackError _)
      (if values.all (IsArrayRow arraySize) then [] else [.refused]) := by
  split
  · rename_i hall
    obtain ⟨childValues, hgather⟩ := @gatherArrays_ok arraySize values fun value hmem hnull => by
      have hrow := List.all_eq_true.mp hall value hmem
      cases value with
      | null => exact absurd rfl hnull
      | list items => exact ⟨items, rfl, of_decide_eq_true hrow⟩
      | _ => cases hrow
    rw [hgather]
    exact rfl
  · rename_i hall
    cases hgather : gatherArrays arraySize values with
    | error e => exact rfl
    | ok gathered =>
        refine absurd (List.all_eq_true.mpr fun value hmem => ?_) hall
        rcases gatherArrays_mem hgather hmem with rfl | ⟨items, rfl, hlen, -⟩
        · rfl
        · exact decide_eq_true hlen

theorem meets_buffer {bytes : Nat} {next : Unit → Encode} {more : List Fault}
    (h : bytes ≤ isizeMax → Meets (next ()) more) :
    Meets (Outcome.check (bytes ≤ isizeMax) .capacity >>= next) (bufferFaults bytes ++ more) := by
  refine (meets_check _ _).bind fun _ hcheck => h (check_eq_ok hcheck)

/-- The fixed-size values of a column, one after the other. -/
theorem encodeFixedVectorBody_meets {width : Nat} (hwidth : constantSize physicalType = some width) :
    Meets (encodeFixedVectorBody prims T physicalType values values.length)
      (bufferFaults (width * values.length) ++
        values.flatMap fun value => (encodeFixedValue prims T physicalType value).fault.toList) := by
  rw [encodeFixedVectorBody, physicalTypeSize, hwidth]
  refine Meets.check_before (fun h => h.trans_lt (by decide)) (meets_buffer fun _ => ?_)
  exact (Encode.meets_all fun value _ => meets_fault _).map fun data => ⟨_, rfl⟩

theorem encodeVarcharVectorBody_meets : Meets (encodeVarcharVectorBody prims values)
    (values.flatMap fun value => (encodeStringLikeValue prims value).fault.toList) :=
  Encode.meets_field (Encode.meets_list fun _ _ => (meets_fault _).map fun _ => ⟨_, rfl⟩)

theorem columnFaults_fixed {width : Nat} (physical : getPhysicalType T = .ok physicalType)
    (hwidth : constantSize physicalType = some width) : columnFaults layout prims T values =
      bufferFaults (width * values.length) ++
        values.flatMap fun value => (encodeFixedValue prims T physicalType value).fault.toList := by
  rw [columnFaults, physical]
  cases physicalType <;> cases hwidth <;> rfl

theorem columnFaults_list (physical : getPhysicalType T = .ok .list) (child : getChildType T = .ok childType) :
    columnFaults layout prims T values = bufferFaults (values.length * layout.sizeOf .listEntry) ++
      if values.all IsListRow then
        bufferFaults ((values.flatMap rowItems).length * layout.sizeOf .value) ++
          columnFaults layout prims childType (values.flatMap rowItems)
      else [.refused] := by
  rw [columnFaults, physical]
  simp only
  split
  · rename_i other hother
    cases child.symm.trans hother
    rfl
  · rename_i e he
    cases child.symm.trans he

theorem columnFaults_array {arraySize : U64} (physical : getPhysicalType T = .ok .array)
    (child : getChildType T = .ok childType) (size : getArraySize T = .ok arraySize) :
    columnFaults layout prims T values =
      bufferFaults (values.length * arraySize.toNat * layout.sizeOf .value) ++
        if values.all (IsArrayRow arraySize.toNat) then
          columnFaults layout prims childType (values.flatMap (paddedItems arraySize.toNat))
        else [.refused] := by
  rw [columnFaults, physical]
  simp only
  split
  · rename_i other otherSize hother hsize
    cases child.symm.trans hother
    cases size.symm.trans hsize
    rfl
  · rename_i hnone
    exact absurd size (hnone _ _ child)

theorem columnFaults_noChildren {e : QuackError} (physical : getPhysicalType T = .ok .struct)
    (structChildren : getStructChildren T = .error e) : columnFaults layout prims T values = [.refused] := by
  rw [columnFaults, physical]
  simp only
  split <;> rename_i h <;> cases structChildren.symm.trans h
  rfl

theorem columnFaults_noItems {e : QuackError} (physical : getPhysicalType T = .ok .list)
    (child : getChildType T = .error e) : columnFaults layout prims T values = [.refused] := by
  rw [columnFaults, physical]
  simp only
  split <;> rename_i h <;> cases child.symm.trans h
  rfl

theorem columnFaults_noArray (physical : getPhysicalType T = .ok .array)
    (none : ∀ childType arraySize, getChildType T = .ok childType → getArraySize T ≠ .ok arraySize) :
    columnFaults layout prims T values = [.refused] := by
  rw [columnFaults, physical]
  simp only

section
variable (ih : ∀ child ∈ T.children, ∀ values, Meets (encodeVector layout prims child values values.length)
  (columnFaults layout prims child values))
include ih

theorem encodeStructVectorBody_meets (physical : getPhysicalType T = .ok .struct) :
    Meets (encodeStructVectorBody layout prims T values values.length) (columnFaults layout prims T values) := by
  cases hchildren : getStructChildren T with
  | ok children =>
      rw [encodeStructVectorBody_eq hchildren, columnFaults_struct physical hchildren]
      refine Encode.meets_field (Encode.meets_list fun child hmem => ?_)
      have hcolumn := ih _ (getStructChildren_mem hchildren hmem) (structColumn child.name values)
      rwa [structColumn, List.length_map] at hcolumn
  | error e =>
      rw [columnFaults_noChildren physical hchildren, encodeStructVectorBody]
      split <;> rename_i h <;> cases hchildren.symm.trans h
      exact rfl

theorem encodeListVectorBody_meets (physical : getPhysicalType T = .ok .list) :
    Meets (encodeListVectorBody layout prims T values) (columnFaults layout prims T values) := by
  cases hchild : getChildType T with
  | ok childType =>
      rw [columnFaults_list physical hchild, encodeListVectorBody]
      split <;> rename_i h <;> cases hchild.symm.trans h
      refine meets_buffer fun _ => ?_
      have hgathered := @gatherLists_meets values
      split <;> rename_i hall
      · rw [if_pos hall] at hgathered
        refine hgathered.bind fun gathered hgather => ?_
        obtain ⟨entries, childValues⟩ := gathered
        rw [← gatherLists_flatMap (Outcome.lift_eq_ok hgather)]
        refine meets_buffer fun _ => ?_
        have hbefore : ∀ action ∈ [writeField 104 (writeUleb childValues.length),
            writeField 105 (writeListEntries entries)], action.Writes := by
          simp only [List.forall_mem_cons, Encode.writes_field]
          exact ⟨Encode.writes_ok _, writes_listEntries entries, fun _ hmem => absurd hmem List.not_mem_nil⟩
        exact Encode.meets_last hbefore (Encode.meets_field (ih _ (getChildType_mem hchild) childValues))
      · rw [if_neg hall] at hgathered
        exact hgathered.stops
  | error e =>
      rw [columnFaults_noItems physical hchild, encodeListVectorBody]
      split <;> rename_i h <;> cases hchild.symm.trans h
      exact rfl

theorem encodeArrayVectorBody_meets (physical : getPhysicalType T = .ok .array) :
    Meets (encodeArrayVectorBody layout prims T values) (columnFaults layout prims T values) := by
  cases hchild : getChildType T with
  | ok childType =>
      cases hsize : getArraySize T with
      | ok arraySize =>
          rw [columnFaults_array physical hchild hsize, encodeArrayVectorBody]
          split <;> rename_i h <;> cases hchild.symm.trans h
          rw [hsize]
          have hroom : values.length * arraySize.toNat * layout.sizeOf .value ≤ isizeMax →
              values.length * arraySize.toNat < usizeLimit := fun hfits => by
            have := Nat.mul_le_mul_left (values.length * arraySize.toNat) layout.sixteen_le_value
            simp only [isizeMax, usizeLimit] at *
            omega
          refine Meets.check_before hroom (meets_buffer fun _ => ?_)
          have hgathered := @gatherArrays_meets values arraySize.toNat
          split <;> rename_i hall
          · rw [if_pos hall] at hgathered
            refine hgathered.bind fun childValues hgather => ?_
            rw [← gatherArrays_flatMap (Outcome.lift_eq_ok hgather)]
            have hbefore : ∀ action ∈ [writeField 103 (writeUleb arraySize.toNat)], action.Writes :=
              List.forall_mem_singleton.mpr (Encode.writes_field.mpr (Encode.writes_ok _))
            exact Encode.meets_last hbefore (Encode.meets_field (ih _ (getChildType_mem hchild) childValues))
          · rw [if_neg hall] at hgathered
            exact hgathered.stops
      | error e =>
          have hnone : ∀ other size, getChildType T = .ok other → getArraySize T ≠ .ok size :=
            fun _ _ _ h => by cases hsize.symm.trans h
          rw [columnFaults_noArray physical hnone, encodeArrayVectorBody]
          split <;> rename_i h <;> cases hchild.symm.trans h
          rw [hsize]
          exact rfl
  | error e =>
      have hnone : ∀ other size, getChildType T = .ok other → getArraySize T ≠ .ok size :=
        fun _ _ h => by cases hchild.symm.trans h
      rw [columnFaults_noArray physical hnone, encodeArrayVectorBody]
      split <;> rename_i h <;> cases hchild.symm.trans h
      exact rfl

end

/-- A column comes to the first of its faults. -/
theorem encodeVector_meets : Meets (encodeVector layout prims T values values.length)
    (columnFaults layout prims T values) := by
  induction T using LogicalType.childInduction generalizing values with
  | step T ih =>
      rw [encodeVector_eq]
      have hbefore : ∀ action ∈ [writeGeometryField T, writeMask values], action.Writes := by
        simp only [List.forall_mem_cons, writes_geometryField, writes_mask, true_and]
        exact fun _ hmem => absurd hmem List.not_mem_nil
      refine Encode.meets_object (Encode.meets_last hbefore ?_)
      cases hphysical : getPhysicalType T with
      | error e =>
          rw [encodeFlatData, columnFaults, hphysical]
          exact rfl
      | ok physicalType =>
          cases hsize : constantSize physicalType with
          | some width =>
              have hconstant : isConstantSizePhysicalType physicalType = true := by
                rw [isConstantSizePhysicalType, hsize]
                rfl
              rw [encodeFlatData_fixed hphysical hconstant, columnFaults_fixed hphysical hsize]
              exact encodeFixedVectorBody_meets hsize
          | none =>
              cases physicalType with
              | varchar =>
                  rw [encodeFlatData_varchar hphysical, columnFaults, hphysical]
                  exact encodeVarcharVectorBody_meets
              | struct =>
                  rw [(encodeFlatData_nested hphysical).1 rfl]
                  exact encodeStructVectorBody_meets (fun child hmem _ => ih child hmem) hphysical
              | list =>
                  rw [(encodeFlatData_nested hphysical).2.1 rfl]
                  exact encodeListVectorBody_meets (fun child hmem _ => ih child hmem) hphysical
              | array =>
                  rw [(encodeFlatData_nested hphysical).2.2 rfl]
                  exact encodeArrayVectorBody_meets (fun child hmem _ => ih child hmem) hphysical
              | _ =>
                  rw [encodeFlatData, columnFaults, hphysical]
                  first | exact rfl | cases hsize

end

end QuackProtocol
