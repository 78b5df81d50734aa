import QuackProtocol.RecordBatches

/-! The types of a record batch against those of its chunk. The builders follow the type of the chunk and the
declared type at once; whatever they do not compare themselves the constructors compare, but for the names
of struct fields and the size of lists of fixed size, which are taken from the declaration. -/

open Decoding

namespace QuackProtocol

section
variable {T : LogicalType} {D : DataType} {arrow : ArrowLibrary} {item : ArrowField} {values : List Value}
  {array : ArrowArray}

theorem buildList_ok (h : buildList arrow T item values = .ok array) :
    ∃ childType offsets validity items child, getChildType T = .ok childType ∧
      buildArray arrow childType item.dataType items = .ok child ∧
      arrow.tryNewList item offsets child validity = .ok array := by
  cases hchild : getChildType T with
  | ok childType =>
      rw [buildList_eq hchild] at h
      obtain ⟨⟨offsets, validity, items⟩, -, h⟩ := Outcome.bind_eq_ok h
      obtain ⟨child, hbuilt, h⟩ := Outcome.bind_eq_ok h
      exact ⟨_, _, _, _, child, rfl, hbuilt, mapError_ok (Outcome.lift_eq_ok h)⟩
  | error e =>
      rw [buildList] at h
      obtain ⟨⟨offsets, validity, items⟩, -, h⟩ := Outcome.bind_eq_ok h
      dsimp only at h
      split at h
      · rename_i hchild'
        cases hchild.symm.trans hchild'
      · cases h

theorem buildFixedSizeList_ok {size : Int} (h : buildFixedSizeList arrow T item size values = .ok array) :
    ∃ childType validity items child, getChildType T = .ok childType ∧
      buildArray arrow childType item.dataType items = .ok child ∧
      arrow.tryNewFixedSizeList item size child validity = .ok array := by
  by_cases hsize : size < 0
  · rw [buildFixedSizeList, if_pos hsize] at h
    cases h
  · cases hchild : getChildType T with
    | ok childType =>
        rw [buildFixedSizeList_eq hchild (Int.not_lt.mp hsize)] at h
        obtain ⟨⟨⟩, -, h⟩ := Outcome.bind_eq_ok h
        obtain ⟨⟨⟩, -, h⟩ := Outcome.bind_eq_ok h
        obtain ⟨⟨validity, items⟩, -, h⟩ := Outcome.bind_eq_ok h
        obtain ⟨child, hbuilt, h⟩ := Outcome.bind_eq_ok h
        exact ⟨_, _, _, child, rfl, hbuilt, mapError_ok (Outcome.lift_eq_ok h)⟩
    | error e =>
        rw [buildFixedSizeList, if_neg hsize] at h
        obtain ⟨⟨⟩, -, h⟩ := Outcome.bind_eq_ok h
        obtain ⟨⟨⟩, -, h⟩ := Outcome.bind_eq_ok h
        obtain ⟨⟨validity, items⟩, -, h⟩ := Outcome.bind_eq_ok h
        dsimp only at h
        split at h
        · rename_i hchild'
          cases hchild.symm.trans hchild'
        · cases h

/-- Each child is built with the type of the field at its place. -/
theorem buildStruct_ok {fields : List ArrowField} (h : buildStruct arrow T fields values = .ok array) :
    ∃ children validity arrays, getStructChildren T = .ok children ∧ children.length = fields.length ∧
      List.Forall₂ (fun action array => action = .ok array)
        ((children.zip fields).zipIdx.map (buildChild arrow T.id values)) arrays ∧
      arrow.tryNewStruct fields arrays validity values.length = .ok array := by
  cases hchildren : getStructChildren T with
  | ok children =>
      by_cases hlen : children.length = fields.length
      · rw [buildStruct_eq hchildren hlen] at h
        obtain ⟨validity, -, h⟩ := Outcome.bind_eq_ok h
        obtain ⟨arrays, harrays, h⟩ := Outcome.bind_eq_ok h
        exact ⟨children, _, arrays, rfl, hlen, sequence_ok harrays, mapError_ok (Outcome.lift_eq_ok h)⟩
      · rw [buildStruct] at h
        split at h
        · rename_i hchildren'
          cases hchildren.symm.trans hchildren'
          rw [if_pos hlen] at h
          cases h
        · cases h
  | error e =>
      rw [buildStruct] at h
      split at h
      · rename_i hchildren'
        cases hchildren.symm.trans hchildren'
      · cases h

/-- How the array of a column is built. -/
inductive Built (arrow : ArrowLibrary) (T : LogicalType) (values : List Value) (array : ArrowArray) :
    DataType → Prop where
  | scalar {D : DataType} (flat : T.id ∉ [LogicalTypeId.list, .map, .array, .struct, .variant])
      (h : buildScalar arrow T values = .ok array) : Built arrow T values array D
  | list {item : ArrowField} (id : T.id = .list ∨ T.id = .map)
      (h : buildList arrow T item values = .ok array) : Built arrow T values array (.list item)
  | array {item : ArrowField} {size : Int} (id : T.id = .array)
      (h : buildFixedSizeList arrow T item size values = .ok array) :
      Built arrow T values array (.fixedSizeList item size)
  | struct {fields : List ArrowField} (id : T.id = .struct ∨ T.id = .variant)
      (h : buildStruct arrow T fields values = .ok array) : Built arrow T values array (.struct fields)

theorem listItem_ok (h : listItem D = .ok item) : D = .list item := by
  cases D with
  | list item' =>
      cases h
      rfl
  | _ => cases h

theorem fixedSizeListItem_ok {size : Int} (h : fixedSizeListItem D = .ok (item, size)) :
    D = .fixedSizeList item size := by
  cases D with
  | fixedSizeList item' size' =>
      cases h
      rfl
  | _ => cases h

theorem structChildren_ok {fields : List ArrowField} (h : structChildren D = .ok fields) :
    D = .struct fields := by
  cases D with
  | struct fields' =>
      cases h
      rfl
  | _ => cases h

theorem built (h : buildArray arrow T D values = .ok array) : Built arrow T values array D := by
  by_cases hflat : T.id ∈ [LogicalTypeId.list, .map, .array, .struct, .variant]
  case neg =>
    rw [buildArray_scalar hflat] at h
    exact .scalar hflat (Outcome.lift_eq_ok h)
  rw [buildArray] at h
  simp only [List.mem_cons, List.not_mem_nil, or_false] at hflat
  rcases hflat with hid | hid | hid | hid | hid <;> simp only [hid] at h <;>
    obtain ⟨inner, hinner, h⟩ := Outcome.bind_eq_ok h
  · obtain rfl := listItem_ok (Outcome.lift_eq_ok hinner)
    exact .list (.inl hid) h
  · obtain rfl := listItem_ok (Outcome.lift_eq_ok hinner)
    exact .list (.inr hid) h
  · obtain rfl := fixedSizeListItem_ok (Outcome.lift_eq_ok hinner)
    exact .array hid h
  · obtain rfl := structChildren_ok (Outcome.lift_eq_ok hinner)
    exact .struct (.inl hid) h
  · obtain rfl := structChildren_ok (Outcome.lift_eq_ok hinner)
    exact .struct (.inr hid) h

/-- The array of a scalar column has the type of the column. -/
theorem buildScalar_typed (h : buildScalar arrow T values = .ok array) :
    arrowScalarType T = .ok array.dataType := by
  cases hD : arrowScalarType T with
  | ok D => rw [(buildScalar_ok hD h).1]
  | error e =>
      by_cases hdecimal : T.id = .decimal
      · simp only [buildScalar, hdecimal] at h
        obtain ⟨⟨precision, scale⟩, hlimits, -⟩ := Except.bind_eq_ok h
        simp only [arrowScalarType, hdecimal, hlimits] at hD
        cases hD
      · cases hid : T.id <;> simp only [arrowScalarType, hid] at hD <;> simp only [buildScalar, hid] at h <;>
          first | exact absurd hid hdecimal | cases h | cases hD

theorem arrowType_scalar (flat : T.id ∉ [LogicalTypeId.list, .map, .array, .struct, .variant]) :
    arrowType T = arrowScalarType T := by
  rw [arrowType]
  cases hid : T.id <;> simp only [hid] at flat ⊢ <;> exact absurd (by decide) flat

variable {childType : LogicalType} {itemType : DataType}

theorem listItemField_eq (child : getChildType T = .ok childType) (item : arrowType childType = .ok itemType) :
    listItemField T = .ok (listField itemType) := by
  rw [listItemField]
  split
  · rename_i childType' hchild
    cases child.symm.trans hchild
    rw [item]
    rfl
  · rename_i e he
    cases child.symm.trans he

theorem arrowType_list (id : T.id = .list ∨ T.id = .map) (child : getChildType T = .ok childType)
    (item : arrowType childType = .ok itemType) : arrowType T = .ok (.list (listField itemType)) := by
  rw [arrowType]
  cases id with
  | inl hid | inr hid =>
      simp only [hid, listItemField_eq child item]
      rfl

theorem arrowType_array {size : Int} (id : T.id = .array) (child : getChildType T = .ok childType)
    (item : arrowType childType = .ok itemType) (hsize : arraySize T = .ok size) :
    arrowType T = .ok (.fixedSizeList (listField itemType) size) := by
  rw [arrowType]
  simp only [id, listItemField_eq child item, hsize]
  rfl

theorem arrowType_struct {children : List ChildType} {fields : List ArrowField}
    (id : T.id = .struct ∨ T.id = .variant) (structChildren : getStructChildren T = .ok children)
    (fieldTypes : List.Forall₂ FieldOf children fields) : arrowType T = .ok (.struct fields) := by
  have hfields : structFields T = .ok fields := by
    rw [structFields_eq structChildren]
    apply Except.mapM_ok_iff.mpr
    apply fieldTypes.imp
    intro child field hfield
    obtain ⟨dataType, hdataType, rfl⟩ := hfield
    rw [hdataType]
    rfl
  rw [arrowType]
  cases id with
  | inl hid | inr hid =>
      simp only [hid, hfields]
      rfl

end

/-! ### Images -/

section
variable {T : LogicalType} {D D' : DataType} {item : ArrowField} {fields : List ArrowField}

/-- A field under a name, with its type unnamed. -/
def ArrowField.unnamedAs (name : String) (field : ArrowField) : ArrowField :=
  ⟨name, field.dataType.unnamed, field.nullable⟩

theorem unnamed_list (item : ArrowField) : (DataType.list item).unnamed = .list (item.unnamedAs "item") := by
  cases item
  rfl

theorem unnamed_fixedSizeList (item : ArrowField) (size : Int) :
    (DataType.fixedSizeList item size).unnamed = .fixedSizeList (item.unnamedAs "item") size := by
  cases item
  rfl

theorem unnamed_struct (fields : List ArrowField) :
    (DataType.struct fields).unnamed = .struct (fields.map fun field => field.unnamedAs field.name) := by
  show DataType.struct (unnamedFields fields) = _
  apply congrArg
  induction fields with
  | nil => rfl
  | cons field fields ih =>
      cases field
      rw [List.map_cons, ← ih]
      rfl

def DataType.flat : DataType → Bool
  | .list _ | .fixedSizeList .. | .struct _ => false
  | _ => true

theorem flat_unnamed (D : DataType) : D.unnamed.flat = D.flat := by
  cases D with
  | list item => rw [unnamed_list]; rfl
  | fixedSizeList item size => rw [unnamed_fixedSizeList]; rfl
  | _ => rfl

theorem arrowScalarType_flat (h : arrowScalarType T = .ok D) : D.flat = true := by
  by_cases hdecimal : T.id = .decimal
  · simp only [arrowScalarType, hdecimal] at h
    obtain ⟨⟨precision, scale⟩, -, h⟩ := Except.bind_eq_ok h
    cases h
    rfl
  · cases hid : T.id <;> simp only [arrowScalarType, hid] at h <;>
      first | exact absurd hid hdecimal | cases h; rfl | cases h

/-- An Arrow type that is the same as a nested one comes from a nested type. -/
theorem SameType.of_scalar (scalarType : arrowScalarType T = .ok D') (h : SameType D' D) : D.flat = true := by
  rw [← flat_unnamed, ← h, flat_unnamed]
  exact arrowScalarType_flat scalarType

theorem unnamedAs_eq_iff {field other : ArrowField} {name name' : String} :
    field.unnamedAs name = other.unnamedAs name' ↔
      name = name' ∧ SameType field.dataType other.dataType ∧ field.nullable = other.nullable := by
  rw [ArrowField.unnamedAs, ArrowField.unnamedAs, ArrowField.mk.injEq]
  rfl

theorem sameType_list {item' : ArrowField} : SameType (.list item') (.list item) ↔
    SameType item'.dataType item.dataType ∧ item'.nullable = item.nullable := by
  rw [SameType, unnamed_list, unnamed_list, DataType.list.injEq, unnamedAs_eq_iff, eq_self, true_and]

theorem sameType_fixedSizeList {item' : ArrowField} {size size' : Int} :
    SameType (.fixedSizeList item' size') (.fixedSizeList item size) ↔
      (SameType item'.dataType item.dataType ∧ item'.nullable = item.nullable) ∧ size' = size := by
  rw [SameType, unnamed_fixedSizeList, unnamed_fixedSizeList, DataType.fixedSizeList.injEq, unnamedAs_eq_iff,
    eq_self, true_and]

/-- The fields are the same but for the names of list items in their types. -/
def SameField (field' field : ArrowField) : Prop :=
  field'.name = field.name ∧ SameType field'.dataType field.dataType ∧ field'.nullable = field.nullable

theorem sameType_struct {fields' : List ArrowField} :
    SameType (.struct fields') (.struct fields) ↔ List.Forall₂ SameField fields' fields := by
  rw [SameType, unnamed_struct, unnamed_struct, DataType.struct.injEq, ← List.forall₂_eq_eq_eq,
    List.forall₂_map_left_iff, List.forall₂_map_right_iff]
  constructor
  · exact fun h => h.imp fun _ _ => unnamedAs_eq_iff.mp
  · exact fun h => h.imp fun _ _ => unnamedAs_eq_iff.mpr

theorem SameType.symm (h : SameType D' D) : SameType D D' := Eq.symm h

theorem SameType.is_list (h : SameType D' (.list item)) : ∃ item', D' = .list item' := by
  rw [SameType, unnamed_list] at h
  cases D' with
  | list item' => exact ⟨item', rfl⟩
  | fixedSizeList item' size =>
      rw [unnamed_fixedSizeList] at h
      cases h
  | _ => cases h

theorem SameType.is_fixedSizeList {size : Int} (h : SameType D' (.fixedSizeList item size)) :
    ∃ item' size', D' = .fixedSizeList item' size' := by
  rw [SameType, unnamed_fixedSizeList] at h
  cases D' with
  | list item' =>
      rw [unnamed_list] at h
      cases h
  | fixedSizeList item' size' => exact ⟨item', size', rfl⟩
  | _ => cases h

theorem SameType.is_struct (h : SameType D' (.struct fields)) : ∃ fields', D' = .struct fields' := by
  rw [SameType, unnamed_struct] at h
  cases D' with
  | list item' =>
      rw [unnamed_list] at h
      cases h
  | fixedSizeList item' size' =>
      rw [unnamed_fixedSizeList] at h
      cases h
  | struct fields' => exact ⟨fields', rfl⟩
  | _ => cases h

/-- What the fields inside an image are. -/
def ArrowField.Image (field : ArrowField) : Prop := field.nullable = true ∧ field.dataType.Image

theorem DataType.Image.list (h : DataType.Image (.list item)) : item.Image := by
  obtain ⟨T, D', hD', hsame⟩ := h
  obtain ⟨item', rfl⟩ := hsame.is_list
  obtain ⟨htype, hnullable⟩ := sameType_list.mp hsame
  cases arrowTyped hD' with
  | scalar flat scalarType => cases arrowScalarType_flat scalarType
  | list id child itemType => exact ⟨hnullable.symm, _, _, itemType, htype⟩

theorem DataType.Image.fixedSizeList {size : Int} (h : DataType.Image (.fixedSizeList item size)) :
    item.Image := by
  obtain ⟨T, D', hD', hsame⟩ := h
  obtain ⟨item', size', rfl⟩ := hsame.is_fixedSizeList
  obtain ⟨⟨htype, hnullable⟩, -⟩ := sameType_fixedSizeList.mp hsame
  cases arrowTyped hD' with
  | scalar flat scalarType => cases arrowScalarType_flat scalarType
  | array id child itemType => exact ⟨hnullable.symm, _, _, itemType, htype⟩

theorem DataType.Image.struct (h : DataType.Image (.struct fields)) : ∀ field ∈ fields, field.Image := by
  obtain ⟨T, D', hD', hsame⟩ := h
  obtain ⟨fields', rfl⟩ := hsame.is_struct
  have hfields := sameType_struct.mp hsame
  cases arrowTyped hD' with
  | scalar flat scalarType => cases arrowScalarType_flat scalarType
  | struct id structChildren fieldTypes =>
      intro field hmem
      obtain ⟨i, hi, rfl⟩ := List.getElem_of_mem hmem
      have hi' : i < fields'.length := hfields.length_eq ▸ hi
      have hi'' : i < _ := fieldTypes.length_eq ▸ hi'
      obtain ⟨dataType, hdataType, hfield⟩ := fieldTypes.get hi'' hi'
      obtain ⟨-, htype, hnullable⟩ := hfields.get hi' hi
      rw [hfield] at htype hnullable
      exact ⟨hnullable.symm, _, dataType, hdataType, htype⟩

theorem labelsAgree_list : LabelsAgree T (.list item) ↔
    ∀ childType, getChildType T = .ok childType → LabelsAgree childType item.dataType := by
  cases item
  rfl

theorem labelsAgree_fixedSizeList {size : Int} : LabelsAgree T (.fixedSizeList item size) ↔
    arraySize T = .ok size ∧
      ∀ childType, getChildType T = .ok childType → LabelsAgree childType item.dataType := by
  cases item
  rfl

theorem labelsAgree_of_flat (h : D.flat = true) : LabelsAgree T D := by
  cases D with
  | list | fixedSizeList | struct => cases h
  | _ => trivial

theorem fieldLabelsAgree_iff {children : List ChildType} (hlen : children.length = fields.length) :
    FieldLabelsAgree children fields ↔ List.Forall₂ (fun child field =>
      child.name = field.name ∧ LabelsAgree child.logicalType field.dataType) children fields := by
  induction children generalizing fields with
  | nil =>
      cases fields with
      | nil => exact iff_of_true trivial .nil
      | cons => cases hlen
  | cons child children ih =>
      cases fields with
      | nil => cases hlen
      | cons field fields =>
          rw [List.forall₂_cons, ← ih (Nat.succ.inj hlen), and_assoc]
          cases field
          rfl

/-- A type whose Arrow type is the declared one has the labels of the declaration. -/
theorem labelsAgree_of_sameType (h : arrowType T = .ok D') (hsame : SameType D' D) : LabelsAgree T D := by
  induction T using LogicalType.childInduction generalizing D D' with
  | step T ih =>
      cases arrowTyped h with
      | scalar flat scalarType => exact labelsAgree_of_flat (hsame.of_scalar scalarType)
      | list id child itemType =>
          obtain ⟨item, rfl⟩ := (SameType.symm hsame).is_list
          apply labelsAgree_list.mpr
          intro childType hchild
          cases child.symm.trans hchild
          exact ih _ (getChildType_mem hchild) itemType (sameType_list.mp hsame).1
      | array id child itemType hsize =>
          obtain ⟨item, size, rfl⟩ := (SameType.symm hsame).is_fixedSizeList
          obtain ⟨⟨htype, -⟩, rfl⟩ := sameType_fixedSizeList.mp hsame
          apply labelsAgree_fixedSizeList.mpr
          apply And.intro hsize
          intro childType hchild
          cases child.symm.trans hchild
          exact ih _ (getChildType_mem hchild) itemType htype
      | @struct children fields' id structChildren fieldTypes =>
          obtain ⟨fields, rfl⟩ := (SameType.symm hsame).is_struct
          have hfields := sameType_struct.mp hsame
          intro children' hchildren
          cases structChildren.symm.trans hchildren
          apply (fieldLabelsAgree_iff (fieldTypes.length_eq.trans hfields.length_eq)).mpr
          apply List.forall₂_iff_get.mpr
          apply And.intro (fieldTypes.length_eq.trans hfields.length_eq)
          intro i hi hi'
          have hi'' : i < fields'.length := fieldTypes.length_eq ▸ hi
          obtain ⟨dataType, hdataType, hfield⟩ := fieldTypes.get hi hi''
          obtain ⟨hname, htype, -⟩ := hfields.get hi'' hi'
          rw [hfield] at hname htype
          exact ⟨hname, ih _ (getStructChildren_mem hchildren (List.get_mem ..)) hdataType htype⟩

/-- The Arrow type of a child with the declared name and type. -/
theorem fieldOf_same {children : List ChildType}
    (h : List.Forall₂ (fun child field => child.name = field.name ∧ field.nullable = true ∧
      ∃ D', arrowType child.logicalType = .ok D' ∧ SameType D' field.dataType) children fields) :
    ∃ fields', List.Forall₂ FieldOf children fields' ∧ List.Forall₂ SameField fields' fields := by
  induction h with
  | nil => exact ⟨[], .nil, .nil⟩
  | @cons child field children fields hfield hfields ih =>
      obtain ⟨hname, hnullable, D', hD', hsame⟩ := hfield
      obtain ⟨fields', hof, hsameFields⟩ := ih
      exact ⟨⟨child.name, D', true⟩ :: fields', .cons ⟨D', hD', rfl⟩ hof,
        .cons ⟨hname, hsame, hnullable.symm⟩ hsameFields⟩

/-- What was built for the items at one place of two lists. -/
theorem zipped_built {α : Type} {items : List α} {arrays : List ArrowArray}
    {build : (α × ArrowField) × Nat → Outcome BuildError ArrowArray} (hlen : items.length = fields.length)
    (h : List.Forall₂ (fun action array => action = .ok array) ((items.zip fields).zipIdx.map build) arrays)
    (htypes : arrays.map ArrowArray.dataType = fields.map ArrowField.dataType) (i : Nat)
    (hi : i < items.length) (hi' : i < fields.length) : ∃ array,
      build ((items[i], fields[i]), i) = .ok array ∧ array.dataType = fields[i].dataType := by
  have hlength : i < arrays.length := by
    rw [← h.length_eq, List.length_map, List.length_zipIdx, List.length_zip]
    omega
  have hbuilt := h.get (by simpa using ⟨hi, hi'⟩) hlength
  simp only [List.get_eq_getElem, List.getElem_map, List.getElem_zipIdx, List.getElem_zip, Nat.zero_add] at hbuilt
  have htype : arrays[i].dataType = fields[i].dataType := by
    have hget := congrArg (fun types => types[i]?) htypes
    simpa [hlength, hi'] using hget
  exact ⟨arrays[i], hbuilt, htype⟩

/-- A column that was built with the declared type has this Arrow type, if it has the labels. -/
theorem sameType_of_built {arrow : BatchLibrary} (harrow : arrow.Compares) {values : List Value}
    {array : ArrowArray} (h : buildArray arrow.toArrowLibrary T D values = .ok array)
    (hD : array.dataType = D) (himage : D.Image) (hlabels : LabelsAgree T D) :
    ∃ D', arrowType T = .ok D' ∧ SameType D' D := by
  induction T using LogicalType.childInduction generalizing D values array with
  | step T ih =>
      cases built h with
      | scalar flat hscalar =>
          have htyped := buildScalar_typed hscalar
          rw [hD, ← arrowType_scalar flat] at htyped
          exact ⟨D, htyped, rfl⟩
      | @list item id hlist =>
          obtain ⟨childType, offsets, validity, items, child, hchild, hbuilt, hnew⟩ := buildList_ok hlist
          obtain ⟨hnullable, hitem⟩ := himage.list
          obtain ⟨itemType, hitemType, hsame⟩ := ih _ (getChildType_mem hchild) hbuilt (harrow.list hnew) hitem
            (labelsAgree_list.mp hlabels _ hchild)
          exact ⟨_, arrowType_list id hchild hitemType, sameType_list.mpr ⟨hsame, hnullable.symm⟩⟩
      | @array item size id hlist =>
          obtain ⟨childType, validity, items, child, hchild, hbuilt, hnew⟩ := buildFixedSizeList_ok hlist
          obtain ⟨hnullable, hitem⟩ := himage.fixedSizeList
          obtain ⟨hsize, hlabels⟩ := labelsAgree_fixedSizeList.mp hlabels
          obtain ⟨itemType, hitemType, hsame⟩ := ih _ (getChildType_mem hchild) hbuilt
            (harrow.fixedSizeList hnew) hitem (hlabels _ hchild)
          exact ⟨_, arrowType_array id hchild hitemType hsize,
            sameType_fixedSizeList.mpr ⟨⟨hsame, hnullable.symm⟩, rfl⟩⟩
      | @struct fields id hstruct =>
          obtain ⟨children, validity, arrays, hchildren, hlen, hbuilt, hnew⟩ := buildStruct_ok hstruct
          have hfields := (fieldLabelsAgree_iff hlen).mp (hlabels children hchildren)
          obtain ⟨fields', hof, hsame⟩ : ∃ fields', List.Forall₂ FieldOf children fields' ∧
              List.Forall₂ SameField fields' fields := by
            apply fieldOf_same
            apply List.forall₂_iff_get.mpr
            apply And.intro hlen
            intro i hi hi'
            obtain ⟨hname, hlabel⟩ := hfields.get hi hi'
            obtain ⟨hnullable, hfield⟩ := himage.struct _ (List.get_mem fields ⟨i, hi'⟩)
            obtain ⟨array, harray, htype⟩ := zipped_built hlen hbuilt (harrow.struct hnew) i hi hi'
            obtain ⟨childValues, -, harray⟩ := Outcome.bind_eq_ok harray
            exact ⟨hname, hnullable, ih _ (getStructChildren_mem hchildren (List.get_mem ..)) harray htype
              hfield hlabel⟩
          exact ⟨_, arrowType_struct id hchildren hof, sameType_struct.mpr hsame⟩

/-- The batch has the rows of the chunk, and the columns of the chunk have the types that the schema
declares. -/
structure RecordBatch.Matches (batch : RecordBatch) (chunk : DataChunk) (schema : List ArrowField) :
    Prop where
  rows : batch.rowCount = chunk.rowCount
  types : List.Forall₂ (fun T field => ∃ D, arrowType T = .ok D ∧ SameType D field.dataType) chunk.types schema

variable {arrow : BatchLibrary} {chunk : DataChunk} {schema : List ArrowField} {batch : RecordBatch}

/-- A column is built from its values, of which there are as many as rows. -/
theorem batchColumn_ok {field : ArrowField} {index : Nat} {array : ArrowArray}
    (h : batchColumn arrow.toArrowLibrary chunk ((T, field), index) = .ok array) : ∃ values,
      chunk.columnValues index = some values ∧ values.length = chunk.rowCount ∧
      buildArray arrow.toArrowLibrary T field.dataType values = .ok array := by
  rw [batchColumn] at h
  cases hvalues : chunk.columnValues index with
  | none =>
      rw [hvalues] at h
      cases h
  | some values =>
      rw [hvalues] at h
      by_cases hlen : values.length = chunk.rowCount
      · simp only [hlen, ne_eq, not_true_eq_false, if_false] at h
        exact ⟨values, rfl, hlen, h⟩
      · simp only [ne_eq, hlen, not_false_eq_true, if_true] at h
        cases h

/-- A batch that is built matches its chunk and its schema exactly if each column has the labels of its
field: the constructors compare the data types, but a struct takes the names, and an ARRAY column the size,
from the schema. -/
theorem toRecordBatch_matches_iff (harrow : arrow.Compares) (himages : ∀ field ∈ schema, field.dataType.Image)
    (h : toRecordBatch arrow chunk schema = .ok batch) : batch.Matches chunk schema ↔
      List.Forall₂ (fun T field => LabelsAgree T field.dataType) chunk.types schema := by
  rw [toRecordBatch] at h
  split at h
  · cases h
  rename_i hlen
  have hlen := not_not.mp hlen
  obtain ⟨arrays, harrays, h⟩ := Outcome.bind_eq_ok h
  obtain ⟨htypes, hrows⟩ := harrow.recordBatch (mapError_ok (Outcome.lift_eq_ok h))
  constructor
  · intro hmatches
    apply hmatches.types.imp
    intro T field hfield
    obtain ⟨D, hD, hsame⟩ := hfield
    exact labelsAgree_of_sameType hD hsame
  · intro hlabels
    apply RecordBatch.Matches.mk hrows
    apply List.forall₂_iff_get.mpr
    apply And.intro hlen
    intro i hi hi'
    obtain ⟨array, harray, htype⟩ := zipped_built hlen (sequence_ok harrays) htypes i hi hi'
    obtain ⟨values, -, -, hbuilt⟩ := batchColumn_ok harray
    exact sameType_of_built harrow hbuilt htype (himages _ (List.get_mem schema ⟨i, hi'⟩)) (hlabels.get hi hi')

end

def pairChunk : DataChunk :=
  ⟨1, [integerPair "a" "b"], [⟨integerPair "a" "b", .flat, [pairRow]⟩], none⟩

def pairSchema (first second : String) : List ArrowField := [⟨"s", integerPairData first second, true⟩]

/-- The batch of the row under the names of the schema. -/
def pairBatch (first second : String) : RecordBatch :=
  ⟨pairSchema first second, [.struct [⟨first, .int32, true⟩, ⟨second, .int32, true⟩]
    [.scalar .int32 [some (.int 1)], .scalar .int32 [some (.int 2)]] [true] 1], 1⟩

theorem pairSchema_images (first second : String) : ∀ field ∈ pairSchema first second, field.dataType.Image :=
  List.forall_mem_singleton.mpr ⟨_, _, arrowType_integerPair first second, rfl⟩

/-- The names of the schema are not compared with those of the row. -/
theorem toRecordBatch_pair (first second : String) :
    toRecordBatch .comparing pairChunk (pairSchema first second) = .ok (pairBatch first second) := by
  have hbuilt : buildArray BatchLibrary.comparing.toArrowLibrary (integerPair "a" "b")
      (integerPairData first second) [pairRow] = .ok (.struct [⟨first, .int32, true⟩, ⟨second, .int32, true⟩]
        [.scalar .int32 [some (.int 1)], .scalar .int32 [some (.int 2)]] [true] 1) :=
    buildArray_integerPair "b" first second 2 (by decide) rfl rfl
  have hcolumn : batchColumn BatchLibrary.comparing.toArrowLibrary pairChunk
      ((integerPair "a" "b", ⟨"s", integerPairData first second, true⟩), 0) = .ok (.struct
        [⟨first, .int32, true⟩, ⟨second, .int32, true⟩]
        [.scalar .int32 [some (.int 1)], .scalar .int32 [some (.int 2)]] [true] 1) := hbuilt
  have hfit : columnsFit (pairBatch first second).columns (pairSchema first second) = true := by
    simp [columnsFit, pairBatch, pairSchema, integerPairData, ArrowArray.dataType, DataType.equals, equalFields,
      ArrowField.equals]
  rw [toRecordBatch, if_neg (by simp [pairChunk, pairSchema])]
  simp only [pairChunk, pairSchema, List.zip_cons_cons, List.zip_nil_right, List.zipIdx_cons, List.zipIdx_nil,
    List.map_cons, List.map_nil, sequence] at hcolumn ⊢
  rw [hcolumn]
  show liftM ((if columnsFit (pairBatch first second).columns (pairSchema first second) then _
    else _ : Except String RecordBatch).mapError BuildError.rejected) = _
  rw [hfit]
  rfl

theorem toRecordBatch_matches_pair : (pairBatch "a" "b").Matches pairChunk (pairSchema "a" "b") := by
  apply (toRecordBatch_matches_iff BatchLibrary.comparing_compares (pairSchema_images "a" "b")
    (toRecordBatch_pair "a" "b")).mpr
  apply List.Forall₂.cons _ .nil
  exact labelsAgree_of_sameType (arrowType_integerPair "a" "b") rfl

/-- The fields of a row are relabelled where the schema has their names the other way round. -/
theorem not_toRecordBatch_matches :
    toRecordBatch .comparing pairChunk (pairSchema "b" "a") = .ok (pairBatch "b" "a") ∧
    (∀ field ∈ pairSchema "b" "a", field.dataType.Image) ∧
    ¬ (pairBatch "b" "a").Matches pairChunk (pairSchema "b" "a") := by
  apply And.intro (toRecordBatch_pair "b" "a")
  apply And.intro (pairSchema_images "b" "a")
  intro hmatches
  cases hmatches.types with
  | cons hfield _ =>
      obtain ⟨D, hD, hsame⟩ := hfield
      cases (arrowType_integerPair "a" "b").symm.trans hD
      cases sameType_struct.mp hsame with
      | cons hnames _ => exact absurd hnames.1 (by decide)

end QuackProtocol
