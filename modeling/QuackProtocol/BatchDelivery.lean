import QuackProtocol.ArrowFits
import QuackProtocol.Consumers
import QuackProtocol.EncodedRows
import QuackProtocol.RecordBatches
import QuackProtocol.Relays

/-! The record batches of a query (`QuackResultStream::into_record_batches`): the rows that a caller reads out of
them are those that another caller has as rows. What can fail on the way are the documented limits. -/

open Decoding Narrowing

namespace QuackProtocol

/-- The schema of the columns, and each chunk under it. -/
def QuackResultStream.intoRecordBatches (arrow : BatchLibrary) (stream : QuackResultStream) :
    Build (List ArrowField × List (Outcome BuildError RecordBatch)) := do
  let schema ← schema stream.columns
  pure (schema, stream.inner.map fun chunk => do
    let chunk ← liftM (withMetadata chunk)
    toRecordBatch arrow chunk schema)

/-- A value other than NULL where the type is SQLNULL, at any depth. -/
inductive HasNullNumber : LogicalType → Value → Prop where
  | here {T : LogicalType} {value : Value} (id : T.id = .sqlNull) (notNull : value ≠ .null) :
      HasNullNumber T value
  | field {T : LogicalType} {children : List ChildType} {child : ChildType} {value : Value}
      (structChildren : getStructChildren T = .ok children) (member : child ∈ children)
      (inside : HasNullNumber child.logicalType (structField child.name value)) : HasNullNumber T value
  | item {T childType : LogicalType} {items : List Value} {item : Value}
      (child : getChildType T = .ok childType) (member : item ∈ items) (inside : HasNullNumber childType item) :
      HasNullNumber T (.list items)

section
variable {T : LogicalType} {D : DataType} {value : Value}

theorem flatValue_of_scalar (h : ScalarOf T value) : FlatValue T value := by
  cases hid : T.id <;> simp only [ScalarOf, FlatValue, hid] at h ⊢
  case uTinyInt | uSmallInt | uInteger =>
    obtain ⟨n, hvalue, hrange⟩ := h
    exact ⟨n, hrange, hvalue⟩
  case tinyInt | smallInt | integer | sqlNull | varchar | char | uuid | blob | geometry | bit =>
    obtain ⟨n, hvalue, -⟩ := h
    exact ⟨n, hvalue⟩
  case enum =>
    obtain ⟨text, labels, hvalue, -⟩ := h
    exact ⟨text, hvalue⟩
  case decimal =>
    obtain ⟨n, width, scale, physicalType, size, hvalue, -⟩ := h
    exact ⟨_, hvalue⟩
  all_goals exact h

theorem flat_of_scalar (h : ScalarOf T value) : T.id ∉ nestedIds := by
  intro hnested
  cases hid : T.id <;> rw [hid] at hnested <;> try exact absurd hnested (by decide)
  all_goals simp only [ScalarOf, hid] at h

theorem canonical_decoded (hT : Encodable T) (h : Canonical T value) : Decoded T value := by
  induction h with
  | null T => exact .null T
  | scalar scalarOf => exact .flat (flat_of_scalar scalarOf) (flatValue_of_scalar scalarOf)
  | @struct T children row physical structChildren names fields ih =>
      obtain ⟨distinct, hinside⟩ := hT.fields physical structChildren
      have hstruct (hid : T.id = .struct ∨ T.id = .variant) : Decoded T (.struct row) :=
        .struct hid structChildren (names.nodup_iff.mpr distinct) (fun name => names.mem_iff)
          fun _ child hmem field hfield => ih child hmem field hfield (hinside child hmem)
      rcases (nested_of_physicalType physical).1 rfl with hid | hid
      · exact .flat (by rw [hid]; decide) (by simp [FlatValue, hid])
      · exact hstruct hid
  | @list T childType items physical child inside ih =>
      exact .list ((nested_of_physicalType physical).2.1 rfl) child fun item hmem =>
        ih item hmem (hT.items (.inl physical) child)
  | @array T childType size items physical child arraySize length inside ih =>
      exact .array ((nested_of_physicalType physical).2.2 rfl) child arraySize length fun item hmem =>
        ih item hmem (hT.items (.inr physical) child)

/-- The keys of canonical rows are distinct. -/
theorem canonical_keyed (hT : Encodable T) (h : Canonical T value) : value.Keyed := by
  induction h with
  | null T => exact keyed_null
  | scalar scalarOf => exact .scalar scalarOf.flat.1 scalarOf.flat.2
  | @struct T children row physical structChildren names fields ih =>
      obtain ⟨distinct, hinside⟩ := hT.fields physical structChildren
      have hkeys := names.nodup_iff.mpr distinct
      refine .struct hkeys fun field hfield => ?_
      obtain ⟨child, hmem, hname⟩ := List.mem_map.mp (names.mem_iff.mp (List.mem_map_of_mem hfield))
      exact ih child hmem field.2 (hname ▸ Row.get_of_mem hkeys hfield) (hinside child hmem)
  | list physical child inside ih =>
      exact .list fun item hmem => ih item hmem (hT.items (.inl physical) child)
  | array physical child arraySize length inside ih =>
      exact .list fun item hmem => ih item hmem (hT.items (.inr physical) child)

/-- Canonical rows have the fields of their types and no others. -/
theorem canonical_declared (hT : Encodable T) (h : Canonical T value) : ¬ HasUndeclared T value := by
  induction h with
  | null T => exact fun h => by cases h
  | scalar scalarOf =>
      intro h
      cases h with
      | here => exact scalarOf.flat.2 _ rfl
      | field => exact scalarOf.flat.2 _ rfl
      | item => exact scalarOf.flat.1 _ rfl
  | @struct T children row physical structChildren names fields ih =>
      intro h
      cases h with
      | here structChildren' member undeclared =>
          cases structChildren.symm.trans structChildren'
          exact undeclared (names.mem_iff.mp member)
      | field structChildren' member field inside =>
          cases structChildren.symm.trans structChildren'
          exact ih _ member _ field ((hT.fields physical structChildren).2 _ member) inside
  | list physical child inside ih =>
      intro h
      cases h with
      | item child' member inside' =>
          cases child.symm.trans child'
          exact ih _ member (hT.items (.inl physical) child) inside'
  | array physical child arraySize length inside ih =>
      intro h
      cases h with
      | item child' member inside' =>
          cases child.symm.trans child'
          exact ih _ member (hT.items (.inr physical) child) inside'

end

section
variable {T : LogicalType} {value : Value}

theorem not_hasNullNumber_null : ¬ HasNullNumber T .null := by
  suffices h : ∀ value, HasNullNumber T value → value ≠ .null from fun hnull => h _ hnull rfl
  intro value h
  induction h with
  | here _ notNull => exact notNull
  | field _ _ _ ih =>
      rintro rfl
      exact ih rfl
  | item => exact fun h => by cases h

theorem structField_other {name : String} (h : ∀ row, value ≠ .struct row) : structField name value = .null := by
  cases value with
  | struct row => exact absurd rfl (h row)
  | _ => rfl

/-- A scalar has no parts. -/
theorem hasNullNumber_scalar {w : Value} {T' : LogicalType} (hid : T'.id = T.id) (notNull : value ≠ .null)
    (scalar : ScalarOf T w) (h : HasNullNumber T' w) : HasNullNumber T value := by
  cases h with
  | here id => exact .here (hid.symm.trans id) notNull
  | field structChildren member inside =>
      rw [structField_other scalar.flat.2] at inside
      exact absurd inside not_hasNullNumber_null
  | item => exact absurd rfl (scalar.flat.1 _)

/-- What a column gives back has such a number only where the value had it. -/
theorem hasNullNumber_stored {φ : LogicalType → LogicalType} {prims : Primitives} (hφ : SameColumns φ)
    (hT : Encodable T) (hvalue : Storable prims T value) (h : HasNullNumber (φ T) (stored prims T value)) :
    HasNullNumber T value := by
  induction hvalue with
  | null T =>
      rw [stored_null] at h
      exact absurd h not_hasNullNumber_null
  | @fixed T physicalType value w physical size notNull word =>
      rw [stored_fixed physical size notNull word] at h
      by_cases hid : T.id = .enum
      · exact hasNullNumber_scalar (hφ.sameId T) notNull (label_word physical hid word).1 h
      · exact hasNullNumber_scalar (hφ.sameId T) notNull (scalarOf_word physical size hid word) h
  | @varchar T value w raw physical notNull text held back =>
      rw [stored_varchar physical notNull text back] at h
      exact hasNullNumber_scalar (hφ.sameId T) notNull (scalarOf_stringLike physical held back) h
  | @struct T children value physical structChildren notNull fields ih =>
      obtain ⟨distinct, hinside⟩ := hT.fields physical structChildren
      have hnodup : ((children.map fun child => (child.name,
          stored prims child.logicalType (structField child.name value))).map Prod.fst).Nodup := by
        rw [List.map_map]
        exact distinct
      rw [stored_struct physical structChildren notNull, Row.ofFields_of_nodup hnodup] at h
      cases h with
      | here id => exact .here ((hφ.sameId T).symm.trans id) notNull
      | field structChildren' member inside =>
          cases (hφ.structChildren structChildren).symm.trans structChildren'
          obtain ⟨child, hmem, rfl⟩ := List.mem_map.mp member
          have hcell := structField_eq (Row.get_of_mem hnodup (List.mem_map.mpr ⟨child, hmem, rfl⟩))
          rw [ChildType.under, hcell] at inside
          exact .field structChildren hmem (ih child hmem (hinside child hmem) inside)
  | @list T childType items physical child inside ih =>
      rw [stored_list (.inl physical) child] at h
      cases h with
      | here id => exact .here ((hφ.sameId T).symm.trans id) fun h => by cases h
      | field structChildren member inside => exact absurd inside not_hasNullNumber_null
      | item child' member inside =>
          cases (hφ.childType child).symm.trans child'
          obtain ⟨item, hmem, rfl⟩ := List.mem_map.mp member
          exact .item child hmem (ih item hmem (hT.items (.inl physical) child) inside)
  | @array T childType size items physical child arraySize length inside ih =>
      rw [stored_list (.inr physical) child] at h
      cases h with
      | here id => exact .here ((hφ.sameId T).symm.trans id) fun h => by cases h
      | field structChildren member inside => exact absurd inside not_hasNullNumber_null
      | item child' member inside =>
          cases (hφ.childType child).symm.trans child'
          obtain ⟨item, hmem, rfl⟩ := List.mem_map.mp member
          exact .item child hmem (ih item hmem (hT.items (.inr physical) child) inside)

end

section
variable {layout : Layout} {arrow : ArrowLibrary} {T : LogicalType} {D : DataType} {value : Value}
  {values : List Value}

theorem not_misfit_limitUnless (holds : Prop) [Decidable holds] : Obstacle.misfit ∉ limitUnless holds := by
  rw [limitUnless]
  split <;> simp

theorem not_misfit_column {bytes : Nat} : Obstacle.misfit ∉ columnObstacles arrow T bytes := by
  rw [columnObstacles]
  cases T.id <;> try exact List.not_mem_nil
  case decimal =>
    cases decimalPrecisionAndScale T with
    | ok scale => exact not_misfit_limitUnless _
    | error e => exact List.not_mem_nil
  all_goals exact not_misfit_limitUnless _

theorem intFits_of_scalar {n : I64} (h : ScalarOf T (.int n)) (hnull : T.id ≠ .sqlNull) : IntFits T.id n := by
  cases hid : T.id <;> simp only [ScalarOf, IntFits, hid] at h ⊢
  case sqlNull => exact absurd hid hnull
  case tinyInt | smallInt | integer =>
    obtain ⟨m, hvalue, hrange⟩ := h
    cases hvalue
    exact hrange
  all_goals simp at h

/-- No row of a canonical column is in the way, but for the documented limits. -/
theorem rowObstacle_canonical (hT : Encodable T) (h : Canonical T value) (hnull : ¬ HasNullNumber T value) :
    rowObstacle T value ≠ some .misfit := by
  cases value <;> simp only [rowObstacle, ne_eq, reduceCtorEq, not_false_eq_true]
  case int n =>
    cases h with
    | scalar scalarOf =>
        rw [if_pos (intFits_of_scalar scalarOf fun hid => hnull (.here hid fun h => by cases h))]
        exact fun h => by cases h
  case struct row =>
    cases h with
    | scalar scalarOf => exact absurd rfl (scalarOf.flat.2 row)
    | struct physical structChildren names =>
        have hnames : (childNames T).Nodup := by
          rw [childNames, structChildren]
          exact (hT.fields physical structChildren).1
        rw [if_pos hnames]
        exact fun h => by cases h
  case time => split <;> exact fun h => by cases h
  case interval => split <;> exact fun h => by cases h

theorem not_misfit_rows (h : ∀ value ∈ values, rowObstacle T value ≠ some .misfit) :
    Obstacle.misfit ∉ values.filterMap (rowObstacle T) := by
  intro hmem
  obtain ⟨value, hvalue, hrow⟩ := List.mem_filterMap.mp hmem
  exact h value hvalue hrow

theorem not_misfit_lists {count : Nat} (h : ∀ value ∈ values, rowObstacle T value ≠ some .misfit) :
    Obstacle.misfit ∉ listObstacles T count values := by
  have hrow (value : Value) (hvalue : rowObstacle T value ≠ some .misfit) :
      Obstacle.misfit ∉ (rowObstacle T value).toList := by
    rw [Option.mem_toList]
    exact hvalue
  induction values generalizing count with
  | nil => exact List.not_mem_nil
  | cons value values ih =>
      obtain ⟨hvalue, hvalues⟩ := List.forall_mem_cons.mp h
      have hfirst := hrow value hvalue
      cases value <;> simp only [listObstacles, List.mem_append, not_or]
      case list | null => exact ⟨not_misfit_limitUnless _, ih hvalues⟩
      all_goals exact ⟨hfirst, ih hvalues⟩

theorem Canonical.items {childType : LogicalType} {items : List Value} (h : Canonical T (.list items))
    (child : getChildType T = .ok childType) : ∀ item ∈ items, Canonical childType item := by
  cases h with
  | scalar scalarOf => exact absurd rfl (scalarOf.flat.1 items)
  | list physical child' inside =>
      cases child.symm.trans child'
      exact inside
  | array physical child' arraySize length inside =>
      cases child.symm.trans child'
      exact inside

theorem Canonical.is_list (h : Canonical T value) (physical : getPhysicalType T = .ok .list)
    (notNull : value ≠ .null) : ∃ items, value = .list items := by
  cases h with
  | null => exact absurd rfl notNull
  | scalar scalarOf => exact absurd physical scalarOf.flatType.2.1
  | struct physical' => cases physical.symm.trans physical'
  | list => exact ⟨_, rfl⟩
  | array => exact ⟨_, rfl⟩

theorem Canonical.is_array {size : U64} (h : Canonical T value) (physical : getPhysicalType T = .ok .array)
    (arraySize : getArraySize T = .ok size) (notNull : value ≠ .null) :
    ∃ items, value = .list items ∧ items.length = size.toNat := by
  cases h with
  | null => exact absurd rfl notNull
  | scalar scalarOf => exact absurd physical scalarOf.flatType.2.2
  | struct physical' => cases physical.symm.trans physical'
  | list physical' => cases physical.symm.trans physical'
  | array physical' child arraySize' length =>
      cases arraySize.symm.trans arraySize'
      exact ⟨_, rfl, length⟩

theorem Canonical.field {children : List ChildType} {child : ChildType} (h : Canonical T value)
    (structChildren : getStructChildren T = .ok children) (member : child ∈ children) :
    Canonical child.logicalType (structField child.name value) := by
  by_cases hrow : ∃ row, value = .struct row
  · obtain ⟨row, rfl⟩ := hrow
    cases h with
    | scalar scalarOf => exact absurd rfl (scalarOf.flat.2 row)
    | struct physical structChildren' names fields =>
        cases structChildren.symm.trans structChildren'
        have hname := names.mem_iff.mpr (List.mem_map_of_mem member)
        obtain ⟨field, hfield⟩ := Option.isSome_iff_exists.mp (Row.get_isSome.mpr hname)
        rw [structField_eq hfield]
        exact fields child member field hfield
  · rw [structField_other (not_exists.mp hrow)]
    exact .null _

theorem listItems_eq (values : List Value) : listItems values = values.flatMap rowItems := by
  refine List.flatMap_congr fun value _ => ?_
  cases value <;> rfl

theorem windowItems_eq (width : Nat) (values : List Value) :
    windowItems width values = values.flatMap (paddedItems width) := by
  refine List.flatMap_congr fun value _ => ?_
  cases value <;> rfl

theorem physical_of_list (id : T.id = .list ∨ T.id = .map) : getPhysicalType T = .ok .list := by
  rcases id with hid | hid <;> rw [getPhysicalType, hid]

theorem arraySize_ok {size : Int} (h : arraySize T = .ok size) :
    ∃ given, getArraySize T = .ok given ∧ size = given.toNat := by
  obtain ⟨given, hgiven, h⟩ := Except.bind_eq_ok h
  split at h <;> cases h
  exact ⟨given, mapError_ok hgiven, rfl⟩

/-- The parts of a column that fits in memory, as the bridge gathers them. -/
theorem FitsMemory.items {childType : LogicalType} (h : FitsMemory layout T values)
    (hvalues : ∀ value ∈ values, Canonical T value) (id : T.id = .list ∨ T.id = .map)
    (child : getChildType T = .ok childType) : FitsMemory layout childType (listItems values) := by
  have physical := physical_of_list id
  obtain ⟨entries, childValues, hgather⟩ := gatherLists_ok 0 fun value hmem hnull =>
    (hvalues value hmem).is_list physical hnull
  rw [listItems_eq, ← gatherLists_flatMap hgather]
  exact h.inside (by rw [childVectors_list physical child hgather]; exact List.mem_singleton_self _)

theorem FitsMemory.windows {childType : LogicalType} {size : U64} (h : FitsMemory layout T values)
    (hvalues : ∀ value ∈ values, Canonical T value) (id : T.id = .array)
    (child : getChildType T = .ok childType) (hsize : getArraySize T = .ok size) :
    FitsMemory layout childType (windowItems size.toNat values) ∧
      windowObstacles values.length size.toNat = [] := by
  have physical : getPhysicalType T = .ok .array := by rw [getPhysicalType, id]
  obtain ⟨childValues, hgather⟩ := gatherArrays_ok fun value hmem hnull =>
    (hvalues value hmem).is_array physical hsize hnull
  have hinside : FitsMemory layout childType childValues :=
    h.inside (by rw [childVectors_array physical child hsize hgather]; exact List.mem_singleton_self _)
  constructor
  · rw [windowItems_eq, ← gatherArrays_flatMap hgather]
    exact hinside
  · have hown : layout.Fits .value childValues.length := by
      cases hinside
      assumption
    have hlength := (gatherArrays_row hgather).1
    have hwide := hown.sixteen_mul_le
    rw [windowObstacles, if_pos]
    rw [← hlength, wordSize]
    omega

/-- The bridge comes upon no misfit in a canonical column, whose parts fit in memory. -/
theorem not_misfit_obstacles (hT : Encodable T) (hD : arrowType T = .ok D) (hfits : FitsMemory layout T values)
    (hvalues : ∀ value ∈ values, Canonical T value) (hnull : ∀ value ∈ values, ¬ HasNullNumber T value) :
    Obstacle.misfit ∉ obstacles arrow T values := by
  induction T using LogicalType.childInduction generalizing D values with
  | step T ih =>
      have hrows : ∀ value ∈ values, rowObstacle T value ≠ some .misfit := fun value hmem =>
        rowObstacle_canonical hT (hvalues value hmem) (hnull value hmem)
      cases arrowTyped hD with
      | scalar flat scalarType =>
          rw [obstacles_flat flat, List.mem_append, not_or]
          exact ⟨not_misfit_rows hrows, not_misfit_column⟩
      | @list childType itemType id child item =>
          have hitem (item : Value) (hmem : item ∈ listItems values) :
              Canonical childType item ∧ ¬ HasNullNumber childType item := by
            rw [listItems_eq, List.mem_flatMap] at hmem
            obtain ⟨value, hvalue, hin⟩ := hmem
            cases value with
            | list items =>
                exact ⟨(hvalues _ hvalue).items child item hin, fun h => hnull _ hvalue (.item child hin h)⟩
            | _ => cases hin
          rw [obstacles_list id child, List.mem_append, not_or]
          exact ⟨not_misfit_lists hrows, ih childType (getChildType_mem child)
            (hT.items (.inl (physical_of_list id)) child) item (hfits.items hvalues id child)
            (fun item hmem => (hitem item hmem).1) fun item hmem => (hitem item hmem).2⟩
      | @array childType itemType size id child item hsize =>
          obtain ⟨size, hread, rfl⟩ := arraySize_ok hsize
          obtain ⟨hwindows, hnone⟩ := hfits.windows hvalues id child hread
          have hitem (item : Value) (hmem : item ∈ windowItems size.toNat values) :
              Canonical childType item ∧ ¬ HasNullNumber childType item := by
            rw [windowItems_eq, List.mem_flatMap] at hmem
            obtain ⟨value, hvalue, hin⟩ := hmem
            cases value with
            | list items =>
                exact ⟨(hvalues _ hvalue).items child item hin, fun h => hnull _ hvalue (.item child hin h)⟩
            | _ =>
                rw [List.eq_of_mem_replicate hin]
                exact ⟨.null _, not_hasNullNumber_null⟩
          rw [obstacles_array id child hsize, Int.toNat_natCast, List.mem_append, List.mem_append, not_or, not_or,
            hnone]
          exact ⟨⟨List.not_mem_nil, not_misfit_rows hrows⟩, ih childType (getChildType_mem child)
            (hT.items (.inr (by rw [getPhysicalType, id])) child) item hwindows
            (fun item hmem => (hitem item hmem).1) fun item hmem => (hitem item hmem).2⟩
      | @struct children fields id structChildren fieldTypes =>
          have physical : getPhysicalType T = .ok .struct := by
            rcases id with hid | hid <;> rw [getPhysicalType, hid]
          rw [obstacles_struct id structChildren, List.mem_append, not_or, List.mem_flatMap]
          refine ⟨not_misfit_rows hrows, ?_⟩
          rintro ⟨child, hmem, hchild⟩
          obtain ⟨j, hj, rfl⟩ := List.getElem_of_mem hmem
          obtain ⟨dataType, hdataType, -⟩ := fieldTypes.get hj (fieldTypes.length_eq ▸ hj)
          refine ih _ (getStructChildren_mem structChildren hmem) ((hT.fields physical structChildren).2 _ hmem)
            hdataType ?_ ?_ ?_ hchild
          · exact hfits.inside (by
              rw [childVectors_struct _ physical structChildren]
              exact List.mem_map.mpr ⟨_, hmem, rfl⟩)
          · exact List.forall_mem_map.mpr fun value hvalue => (hvalues value hvalue).field structChildren hmem
          · exact List.forall_mem_map.mpr fun value hvalue h => hnull value hvalue (.field structChildren hmem h)

end

/-! ### The batch of a chunk -/

/-- Record batches store what they are given, and take columns of the schema's types with as many slots as the
batch has rows. -/
structure BatchLibrary.Batches (arrow : BatchLibrary) : Prop where
  stores : ∀ {schema columns rowCount batch},
    arrow.tryNewRecordBatch schema columns rowCount = .ok batch → batch = ⟨schema, columns, rowCount⟩
  accepts : ∀ {schema : List ArrowField} {columns : List ArrowArray} {rowCount : Nat},
    List.Forall₂ (fun field column => field.nullable = true ∧ column.dataType = field.dataType ∧
      column.length = rowCount) schema columns →
      ∃ batch, arrow.tryNewRecordBatch schema columns rowCount = .ok batch

/-- A column that the bridge takes as it is, but for the documented limits. -/
structure Bridged (arrow : ArrowLibrary) (T : LogicalType) (values : List Value) : Prop where
  keyed : ∀ value ∈ values, value.Keyed
  declared : ∀ value ∈ values, ¬ HasUndeclared T value
  decoded : DecodedColumn T values
  fits : Obstacle.misfit ∉ obstacles arrow T values

/-- The field that the schema has for a column of the type. -/
def FieldFor (T : LogicalType) (field : ArrowField) : Prop :=
  arrowType T = .ok field.dataType ∧ field.nullable = true

/-- A column of a batch is read back as the column of the chunk. -/
def ReadsColumn (part : LogicalType × List Value) (array : ArrowArray) : Prop :=
  List.Forall₂ (ReadsBack part.1) array.slots part.2

section
variable {arrow : BatchLibrary} {chunk : DataChunk} {schema : List ArrowField} {batch : RecordBatch}

theorem reads_built {T : LogicalType} {D : DataType} {values : List Value} {array : ArrowArray}
    {arrow : ArrowLibrary} (harrow : arrow.Stores) (h : Bridged arrow T values) (hD : arrowType T = .ok D)
    (hbuilt : buildArray arrow T D values = .ok array) : ReadsColumn (T, values) array := by
  have hslots := buildArray_slots harrow h.keyed hD hbuilt
  refine List.forall₂_iff_get.mpr ⟨hslots.length_eq, fun i hi hi' => ?_⟩
  exact (hslots.get hi hi').2.mpr (h.declared _ (List.getElem_mem hi'))

/-- A batch is built column by column. -/
theorem batchColumns_eq (hcolumns : chunk.columns.length = chunk.types.length)
    (hrows : ∀ column ∈ chunk.columns, column.values.length = chunk.rowCount)
    (hlength : chunk.types.length = schema.length) (arrow : ArrowLibrary) :
    (chunk.types.zip schema).zipIdx.map (batchColumn arrow chunk) =
      (chunk.parts.zip schema).map fun entry => buildArray arrow entry.1.1 entry.2.dataType entry.1.2 := by
  have hparts : chunk.parts.length = chunk.types.length := by
    rw [DataChunk.parts, List.length_zip, List.length_map, hcolumns, Nat.min_self]
  apply List.ext_getElem
  · rw [List.length_map, List.length_map, List.length_zipIdx, List.length_zip, List.length_zip, hparts]
  intro i hi hi'
  have htypes : i < chunk.types.length := by
    rw [List.length_map, List.length_zipIdx, List.length_zip] at hi
    omega
  have hcolumn : i < chunk.columns.length := by omega
  have hvalues : chunk.columnValues i = some chunk.columns[i].values := by
    rw [DataChunk.columnValues, List.getElem?_eq_getElem hcolumn, Option.map_some]
  simp only [List.getElem_map, List.getElem_zipIdx, List.getElem_zip, Nat.zero_add, DataChunk.parts]
  rw [batchColumn, hvalues]
  simp only [hrows _ (List.getElem_mem hcolumn), ne_eq, not_true_eq_false, if_false]

/-- What the bridge does with a chunk whose columns it takes. -/
theorem toRecordBatch_bridged (harrow : arrow.Stores) (haccepts : arrow.Accepts) (hbatches : arrow.Batches)
    (hcolumns : chunk.columns.length = chunk.types.length)
    (hrows : ∀ column ∈ chunk.columns, column.values.length = chunk.rowCount)
    (hschema : List.Forall₂ (fun part field => FieldFor part.1 field) chunk.parts schema)
    (hbridged : ∀ part ∈ chunk.parts, Bridged arrow.toArrowLibrary part.1 part.2) :
    OnlyDocumented (toRecordBatch arrow chunk schema) ∧
      ∀ batch, toRecordBatch arrow chunk schema = .ok batch → batch.schema = schema ∧
        batch.rowCount = chunk.rowCount ∧ List.Forall₂ ReadsColumn chunk.parts batch.columns := by
  have hparts : chunk.parts.length = chunk.types.length := by
    rw [DataChunk.parts, List.length_zip, List.length_map, hcolumns, Nat.min_self]
  have hlength := hschema.length_eq
  obtain ⟨-, hfields⟩ := List.forall₂_iff_zip.mp hschema
  rw [toRecordBatch, if_neg (not_not.mpr (hparts.symm.trans hlength)),
    batchColumns_eq hcolumns hrows (hparts.symm.trans hlength)]
  have hentry : ∀ entry ∈ chunk.parts.zip schema, FieldFor entry.1.1 entry.2 ∧
      Bridged arrow.toArrowLibrary entry.1.1 entry.1.2 ∧ entry.1.2.length = chunk.rowCount := by
    intro entry hmem
    have hpart : entry.1 ∈ chunk.parts := (List.of_mem_zip hmem).1
    refine ⟨hfields hmem, hbridged _ hpart, ?_⟩
    obtain ⟨column, hcolumn, hvalues⟩ := List.mem_map.mp (List.of_mem_zip hpart).2
    rw [← hvalues, hrows column hcolumn]
  have hbuilt {arrays : List ArrowArray} (h : sequence ((chunk.parts.zip schema).map fun entry =>
      buildArray arrow.toArrowLibrary entry.1.1 entry.2.dataType entry.1.2) = .ok arrays) :
      List.Forall₂ (fun entry array => (FieldFor entry.1.1 entry.2 ∧
        Bridged arrow.toArrowLibrary entry.1.1 entry.1.2 ∧ entry.1.2.length = chunk.rowCount) ∧
          buildArray arrow.toArrowLibrary entry.1.1 entry.2.dataType entry.1.2 = .ok array)
        (chunk.parts.zip schema) arrays := by
    exact (List.forall₂_and_left _ _).mpr ⟨hentry, List.forall₂_map_left_iff.mp (sequence_ok h)⟩
  have hends : EndsAs ((chunk.parts.zip schema).map fun entry =>
      obstacles arrow.toArrowLibrary entry.1.1 entry.1.2).flatten (sequence ((chunk.parts.zip schema).map
        fun entry => buildArray arrow.toArrowLibrary entry.1.1 entry.2.dataType entry.1.2)) := by
    refine endsAs_sequence ?_
    rw [List.forall₂_map_left_iff, List.forall₂_map_right_iff, List.forall₂_same]
    intro entry hmem
    obtain ⟨hfield, hcolumn, -⟩ := hentry entry hmem
    exact endsAs_buildArray harrow haccepts hfield.1 hcolumn.decoded
  have hfirst : (chunk.parts.zip schema).map Prod.fst = chunk.parts := List.map_fst_zip hlength.le
  have hsecond : (chunk.parts.zip schema).map Prod.snd = schema := List.map_snd_zip hlength.ge
  constructor
  · refine (hends.last (f := fun arrays => liftM ((arrow.tryNewRecordBatch schema arrays
      chunk.rowCount).mapError BuildError.rejected)) fun arrays harrays => ?_).onlyDocumented_iff.mpr ?_
    · have hfit : List.Forall₂ (fun field column => field.nullable = true ∧ column.dataType = field.dataType ∧
          column.length = chunk.rowCount) ((chunk.parts.zip schema).map Prod.snd) arrays := by
        refine List.forall₂_map_left_iff.mpr ((hbuilt harrays).imp fun entry array hall => ?_)
        obtain ⟨⟨hfield, -, hlen⟩, harray⟩ := hall
        obtain ⟨htype, hslots⟩ := buildArray_shape harrow hfield.1 harray
        exact ⟨hfield.2, htype, hslots.trans hlen⟩
      rw [hsecond] at hfit
      obtain ⟨batch, hbatch⟩ := hbatches.accepts hfit
      exact ⟨batch, by rw [hbatch]; rfl⟩
    · intro hhead
      obtain ⟨found, hfound, hmisfit⟩ := List.mem_flatten.mp (List.mem_of_mem_head? hhead)
      obtain ⟨entry, hmem, rfl⟩ := List.mem_map.mp hfound
      exact (hentry entry hmem).2.1.fits hmisfit
  · intro batch h
    obtain ⟨arrays, harrays, h⟩ := Outcome.bind_eq_ok h
    have hstored := hbatches.stores (mapError_ok (Outcome.lift_eq_ok h))
    subst hstored
    have hreads : List.Forall₂ ReadsColumn ((chunk.parts.zip schema).map Prod.fst) arrays := by
      refine List.forall₂_map_left_iff.mpr ((hbuilt harrays).imp fun entry array hall => ?_)
      exact reads_built harrow hall.1.2.1 hall.1.1.1 hall.2
    rw [hfirst] at hreads
    exact ⟨rfl, rfl, hreads⟩

end

/-- The rows of a batch, slot by slot. -/
def RecordBatch.slotRows (batch : RecordBatch) : List (List Slot) :=
  (List.range batch.rowCount).map fun row => batch.columns.map fun array => array.slots.getD row .null

/-- A row of slots is read back as a row of values. -/
def ReadsRow (types : List LogicalType) (slots : List Slot) (values : List Value) : Prop :=
  slots.length = types.length ∧
    List.Forall₂ (fun part value => ReadsBack part.1 part.2 value) (types.zip slots) values

section
variable {chunk : DataChunk} {batch : RecordBatch}

theorem forall₂_slot {T : LogicalType} {slots : List Slot} {values : List Value}
    (h : List.Forall₂ (ReadsBack T) slots values) (row : Nat) :
    ReadsBack T (slots.getD row .null) (values.getD row .null) := by
  induction h generalizing row with
  | nil => exact .null T
  | cons head _ ih =>
      cases row with
      | zero => exact head
      | succ row => exact ih row

/-- The rows of the batch are read back as the rows of the chunk. -/
theorem reads_rows (hcolumns : chunk.columns.length = chunk.types.length) (hrows : batch.rowCount = chunk.rowCount)
    (h : List.Forall₂ ReadsColumn chunk.parts batch.columns) :
    List.Forall₂ (ReadsRow chunk.types) batch.slotRows (chunkRows chunk) := by
  rw [RecordBatch.slotRows, chunkRows, hrows, List.forall₂_map_left_iff, List.forall₂_map_right_iff,
    List.forall₂_same]
  intro row _
  have hparts : chunk.parts.length = chunk.types.length := by
    rw [DataChunk.parts, List.length_zip, List.length_map, hcolumns, Nat.min_self]
  have hlength := h.length_eq
  refine ⟨by rw [List.length_map, ← hlength, hparts], List.forall₂_iff_get.mpr ⟨?_, fun i hi hi' => ?_⟩⟩
  · rw [List.length_zip, List.length_map, List.length_map, ← hlength, hparts, hcolumns, Nat.min_self]
  · rw [List.length_map] at hi'
    have hpart : i < chunk.parts.length := by omega
    have hcolumn := h.get hpart (by omega)
    simp only [List.get_eq_getElem, List.getElem_zip, List.getElem_map, DataChunk.parts, ReadsColumn] at hcolumn ⊢
    exact forall₂_slot hcolumn row

end

section
variable {layout : Layout} {prims : Primitives} {canonicalReason : Nat → Option String} {result : ServedResult}
  {reply : Reply} {connection : Connection} {sql : String} {arrow : BatchLibrary}

/-- A column that was read is one that the bridge takes. -/
theorem bridged_stored {T : LogicalType} {D : DataType} {values : List Value} {arrow : ArrowLibrary}
    (hfloat : ∀ bits, prims.f64ToF32 (prims.f32ToF64 bits) = bits) (hT : Encodable T)
    (hheld : T.Everywhere (LogicalType.InMemory layout)) (hD : arrowType T.asRead = .ok D)
    (hvalues : ∀ value ∈ values, Storable prims T value) (hfits : FitsMemory layout T values)
    (hnull : ∀ value ∈ values, ¬ HasNullNumber T value) :
    Bridged arrow T.asRead (values.map (stored prims T)) := by
  have hread := SameColumns.asRead.encodable hT
  have hcanonical : ∀ value ∈ values.map (stored prims T), Canonical T.asRead value := by
    refine List.forall_mem_map.mpr fun value hmem => ?_
    obtain ⟨hstorable, hsame⟩ := SameColumns.asRead.storable (hvalues value hmem)
    exact hsame ▸ (stored_settles hfloat hread hstorable).1
  refine ⟨fun value hmem => canonical_keyed hread (hcanonical value hmem),
    fun value hmem => canonical_declared hread (hcanonical value hmem),
    fun value hmem => canonical_decoded hread (hcanonical value hmem),
    not_misfit_obstacles hread hD (hfits.stored .asRead hT hheld hvalues) hcanonical ?_⟩
  exact List.forall_mem_map.mpr fun value hmem hnumber =>
    hnull value hmem (hasNullNumber_stored .asRead hT (hvalues value hmem) hnumber)

/-- The fields of the schema stand for the columns, in their order. -/
theorem schema_fields {columns : List ColumnDefinition} {schema : List ArrowField}
    (h : QuackProtocol.schema columns = .ok schema) :
    schema.map ArrowField.name = columns.map ColumnDefinition.name ∧
      List.Forall₂ (fun column field => FieldFor column.logicalType field) columns schema := by
  have hfields := Except.mapM_ok_iff.mp h
  have hfield : List.Forall₂ (fun column field => field.name = column.name ∧
      FieldFor column.logicalType field) columns schema := by
    refine hfields.imp fun column field hfield => ?_
    obtain ⟨D, hD, hfield⟩ := Except.bind_eq_ok hfield
    cases hfield
    exact ⟨rfl, hD, rfl⟩
  refine ⟨?_, hfield.imp fun _ _ h => h.2⟩
  rw [← List.forall₂_eq_eq_eq, List.forall₂_map_left_iff, List.forall₂_map_right_iff]
  exact hfield.flip.imp fun _ _ h => h.1

/-- What a caller has of a stream as record batches: each of them, or a documented limit, and the rows of the
table where all of them are built. -/
structure ShowsBatches (arrow : BatchLibrary) (columns : List ColumnDefinition) (table : List (List Value))
    (batches : List (Outcome BuildError RecordBatch)) : Prop where
  documented : ∀ batch ∈ batches, OnlyDocumented batch
  rows : ∀ built : List RecordBatch, batches = built.map .ok →
    List.Forall₂ (ReadsRow (columns.map ColumnDefinition.logicalType)) (built.flatMap RecordBatch.slotRows) table

theorem schema_ok_iff {columns : List ColumnDefinition} :
    (∃ schema, QuackProtocol.schema columns = .ok schema) ↔
      ∀ column ∈ columns, ∃ D, arrowType column.logicalType = .ok D := by
  constructor
  · rintro ⟨schema, h⟩ column hmem
    obtain ⟨i, hi, rfl⟩ := List.getElem_of_mem hmem
    have hfields := (schema_fields h).2
    exact ⟨_, (hfields.get hi (hfields.length_eq ▸ hi)).1⟩
  · intro h
    induction columns with
    | nil => exact ⟨[], rfl⟩
    | cons column columns ih =>
        obtain ⟨⟨D, hD⟩, hcolumns⟩ := List.forall_mem_cons.mp h
        obtain ⟨fields, hfields⟩ := ih hcolumns
        refine ⟨⟨column.name, D, true⟩ :: fields, ?_⟩
        rw [schema, List.mapM_cons, field, hD]
        rw [schema] at hfields
        rw [Except.ok_bind, pure_bind, hfields]
        rfl

/-- The batch of a chunk that was read. -/
theorem toRecordBatch_stored (harrow : arrow.Stores) (haccepts : arrow.Accepts) (hbatches : arrow.Batches)
    (hfloat : ∀ bits, prims.f64ToF32 (prims.f32ToF64 bits) = bits) {columns : List ColumnDefinition}
    {schema : List ArrowField} (hschema : QuackProtocol.schema columns = .ok schema) {chunk : DataChunk}
    (hstores : chunk.Stores layout prims) (hfits : ∀ part ∈ chunk.parts, FitsMemory layout part.1 part.2)
    (hnull : ∀ part ∈ chunk.parts, ∀ value ∈ part.2, ¬ HasNullNumber part.1 value)
    (htypes : chunk.types.map LogicalType.asRead = columns.map ColumnDefinition.logicalType) :
    OnlyDocumented (toRecordBatch arrow (storedChunk prims chunk) schema) ∧
      ∀ batch, toRecordBatch arrow (storedChunk prims chunk) schema = .ok batch →
        List.Forall₂ (ReadsRow (columns.map ColumnDefinition.logicalType)) batch.slotRows
          (chunkRows (storedChunk prims chunk)) := by
  have hmemory := hstores.inMemory
  have hagain := (hstores.again hfloat).1.inMemory
  have hparts := @parts_storedChunk layout prims chunk hmemory
  have hfields : List.Forall₂ (fun part field => FieldFor part.1 field) (storedChunk prims chunk).parts
      schema := by
    have hfirst : (storedChunk prims chunk).parts.map Prod.fst = columns.map ColumnDefinition.logicalType := by
      rw [← htypes, DataChunk.parts, List.map_fst_zip (by rw [List.length_map, hagain.sameLength])]
      rfl
    have hcolumns := List.forall₂_map_left_iff.mpr (schema_fields hschema).2
    rw [← hfirst] at hcolumns
    exact List.forall₂_map_left_iff.mp hcolumns
  have hbridged : ∀ part ∈ (storedChunk prims chunk).parts, Bridged arrow.toArrowLibrary part.1 part.2 := by
    intro stored hstored
    obtain ⟨i, hi, rfl⟩ := List.getElem_of_mem hstored
    have hfield := (hfields.get hi (hfields.length_eq ▸ hi)).1
    simp only [List.get_eq_getElem, hparts, List.getElem_map] at hfield ⊢
    have hpart : i < chunk.parts.length := by rwa [hparts, List.length_map] at hi
    have hmem := List.getElem_mem hpart
    obtain ⟨⟨hT, hwritable⟩, -, -⟩ := part_inMemory hmemory hmem
    exact bridged_stored hfloat hT (hwritable.mono fun _ hnode => hnode.2) hfield (hstores.storable _ hmem)
      (hfits _ hmem) (hnull _ hmem)
  obtain ⟨honly, hbatch⟩ := toRecordBatch_bridged harrow haccepts hbatches hagain.sameLength hagain.rows hfields
    hbridged
  refine ⟨honly, fun batch hok => ?_⟩
  obtain ⟨-, hrows, hreads⟩ := hbatch batch hok
  rw [← htypes]
  exact reads_rows hagain.sameLength hrows hreads

theorem forall₂_flatMap {α β γ δ : Type} {R : γ → δ → Prop} {f : α → List δ} {g : β → List γ} {items : List α}
    {others : List β} (h : List.Forall₂ (fun item other => List.Forall₂ R (g other) (f item)) items others) :
    List.Forall₂ R (others.flatMap g) (items.flatMap f) := by
  induction h with
  | nil => exact .nil
  | cons head _ ih =>
      rw [List.flatMap_cons, List.flatMap_cons]
      exact List.rel_append head ih

/-- The batches of chunks that were read. -/
theorem shows_batches (harrow : arrow.Stores) (haccepts : arrow.Accepts) (hbatches : arrow.Batches)
    (hfloat : ∀ bits, prims.f64ToF32 (prims.f32ToF64 bits) = bits) {columns : List ColumnDefinition}
    {schema : List ArrowField} (hschema : QuackProtocol.schema columns = .ok schema) {chunks : List DataChunk}
    (hstores : ∀ chunk ∈ chunks, chunk.Stores layout prims)
    (hfits : ∀ chunk ∈ chunks, ∀ part ∈ chunk.parts, FitsMemory layout part.1 part.2)
    (hnull : ∀ chunk ∈ chunks, ∀ part ∈ chunk.parts, ∀ value ∈ part.2, ¬ HasNullNumber part.1 value)
    (htypes : ∀ chunk ∈ chunks, chunk.types.map LogicalType.asRead = columns.map ColumnDefinition.logicalType) :
    ShowsBatches arrow columns ((chunks.map (storedChunk prims)).flatMap chunkRows)
      (chunks.map fun chunk => toRecordBatch arrow (storedChunk prims chunk) schema) := by
  have hchunk (chunk : DataChunk) (hmem : chunk ∈ chunks) := toRecordBatch_stored harrow haccepts hbatches hfloat
    hschema (hstores chunk hmem) (hfits chunk hmem) (hnull chunk hmem) (htypes chunk hmem)
  constructor
  · exact List.forall_mem_map.mpr fun chunk hmem => (hchunk chunk hmem).1
  · intro built hbuilt
    have hequal : List.Forall₂ (fun chunk batch =>
        toRecordBatch arrow (storedChunk prims chunk) schema = .ok batch) chunks built :=
      List.forall₂_map_left_iff.mp (List.forall₂_map_right_iff.mp
        (hbuilt ▸ List.forall₂_same.mpr fun _ _ => rfl))
    have heach := (List.forall₂_and_left _ _).mpr ⟨hchunk, hequal⟩
    rw [List.flatMap_map]
    exact forall₂_flatMap (heach.imp fun chunk batch hboth => hboth.1.2 batch hboth.2)

theorem columnTypes_prepared (hresult : result.Deliverable layout) :
    (result.names.zipWith ColumnDefinition.mk (result.types.map LogicalType.asRead)).map
      ColumnDefinition.logicalType = result.types.map LogicalType.asRead := by
  apply List.ext_getElem
  · rw [List.length_map, List.length_zipWith, List.length_map, hresult.named, Nat.min_self]
  · intro i _ _
    rw [List.getElem_map, List.getElem_zipWith]

/-- The record batches of a query that is served over the wire have the rows that `intoRows` yields, which are
those of the result. -/
theorem batches_delivered (ready : connection.closed = false)
    (hversion : connection.quackVersion = quackV1 ∨ connection.quackVersion = quackV3)
    (hid : HeldText connection.connectionId) (hsql : HeldText sql)
    (hfloat : ∀ bits, prims.f64ToF32 (prims.f32ToF64 bits) = bits) (hresult : result.Deliverable layout)
    (htyped : result.Typed) (hdistinct : result.names.Nodup)
    (hfits : ∀ chunk ∈ result.inline ++ result.batches.flatten, ∀ part ∈ chunk.parts,
      FitsMemory layout part.1 part.2)
    (hnull : ∀ chunk ∈ result.inline ++ result.batches.flatten, ∀ part ∈ chunk.parts, ∀ value ∈ part.2,
      ¬ HasNullNumber part.1 value)
    (harrow : arrow.Stores) (haccepts : arrow.Accepts) (hbatches : arrow.Batches)
    (hprepared : Served layout prims canonicalReason connection.quackVersion result.Prepares
      (connection.prepareRequest sql) reply) :
    ∃ prepared, (prepareQuery layout prims connection sql reply).result = .ok prepared ∧
      prepared.columns = result.names.zipWith ColumnDefinition.mk (result.types.map LogicalType.asRead) ∧
      ∀ answers, FetchesServed layout prims canonicalReason result connection.quackVersion 0
          (queryStream layout prims prepared answers).requests answers →
        (prepared.state.needsMoreFetch = true → result.batches.length < answers.length) →
        ∃ stream rows, (queryStream layout prims prepared answers).stream prepared.columns = some stream ∧
          stream.intoRows = (prepared.columns, rows.map .ok) ∧
          rows = (result.readTable prims result.batches.length).map result.names.zip ∧
          ((∃ out, stream.intoRecordBatches arrow = .ok out) ↔
            ∀ column ∈ prepared.columns, ∃ D, arrowType column.logicalType = .ok D) ∧
          ∀ schema batches, stream.intoRecordBatches arrow = .ok (schema, batches) →
            schema.map ArrowField.name = result.names ∧
              List.Forall₂ (fun column field => FieldFor column.logicalType field) prepared.columns schema ∧
              ShowsBatches arrow prepared.columns (rows.map fun row => row.map Prod.snd) batches := by
  obtain ⟨prepared, hok, hcolumns, more, hobtains⟩ :=
    query_obtains ready hversion hid hsql hfloat hresult hprepared
  refine ⟨prepared, hok, hcolumns, fun answers hserved hall => ?_⟩
  have hshows := shows_chunks prepared.columns (result.received prims result.batches.length)
  rw [received_rows] at hshows
  refine ⟨_, _, (hobtains answers hserved).stream more hall,
    (hshows.distinct_result hresult htyped hdistinct hcolumns).1, rfl, ?_⟩
  have hvalues : ((result.readTable prims result.batches.length).map result.names.zip).map
      (fun row => row.map Prod.snd) = result.readTable prims result.batches.length := by
    rw [List.map_map]
    conv_rhs => rw [← List.map_id (result.readTable prims result.batches.length)]
    refine List.map_congr_left fun values hmem => ?_
    have hwidth := readTable_width hresult htyped hmem
    exact List.map_snd_zip (hwidth.trans hresult.named.symm).le
  rw [hvalues]
  have hchunks : (result.inline ++ (result.batches.take result.batches.length).flatten) =
      result.inline ++ result.batches.flatten := by rw [List.take_length]
  have hbatched : (QuackResultStream.mk prepared.columns ((result.received prims result.batches.length).map
      .ok)).intoRecordBatches arrow = schema prepared.columns >>= fun schema => pure (schema,
        (result.inline ++ result.batches.flatten).map fun chunk =>
          toRecordBatch arrow (storedChunk prims chunk) schema) := by
    rw [QuackResultStream.intoRecordBatches, ServedResult.received, attachColumnNames, hchunks, List.map_map,
      List.map_map]
    simp only [List.map_map]
    rfl
  rw [hbatched]
  constructor
  · rw [← schema_ok_iff]
    constructor
    · rintro ⟨out, hout⟩
      obtain ⟨schema, hschema, -⟩ := Except.bind_eq_ok hout
      exact ⟨schema, hschema⟩
    · rintro ⟨schema, hschema⟩
      exact ⟨_, by rw [hschema]; rfl⟩
  · intro schema batches h
    obtain ⟨declared, hschema, h⟩ := Except.bind_eq_ok h
    cases h
    obtain ⟨hnames, hfields⟩ := schema_fields hschema
    refine ⟨?_, hfields, ?_⟩
    · rw [hnames, hcolumns, columnNames_prepared hresult]
    · rw [ServedResult.readTable, hchunks, ← List.flatMap_map]
      refine shows_batches harrow haccepts hbatches hfloat hschema
        (fun chunk hmem => (hresult.plain chunk hmem).stores hfloat) hfits hnull fun chunk hmem => ?_
      rw [htyped chunk hmem, hcolumns, columnTypes_prepared hresult]

end

/-- Constructors that find nothing to refuse, also of record batches. -/
def BatchLibrary.accepting : BatchLibrary where
  toArrowLibrary := .accepting
  tryNewRecordBatch schema columns rowCount := .ok ⟨schema, columns, rowCount⟩

theorem BatchLibrary.accepting_batches : BatchLibrary.accepting.Batches where
  stores h := (Except.ok.inj h).symm
  accepts _ := ⟨_, rfl⟩

theorem batches_delivered_booleans : ∃ reply prepared stream schema batches, ∃ rows : List Row,
    (prepareQuery .words .floatless liveConnection "SELECT" reply).result = .ok prepared ∧
      (queryStream .words .floatless prepared [booleanAnswer, lastAnswer]).stream prepared.columns =
        some stream ∧
      stream.intoRows = (prepared.columns, rows.map .ok) ∧
      stream.intoRecordBatches .accepting = .ok (schema, batches) ∧ schema.map ArrowField.name = ["a"] ∧
      ShowsBatches .accepting prepared.columns (rows.map fun row => row.map Prod.snd) batches := by
  have hid : HeldText liveConnection.connectionId := heldText_short (by decide)
  have hsql : HeldText "SELECT" := heldText_short (by decide)
  have hfits : ∀ chunk ∈ booleanResult.inline ++ booleanResult.batches.flatten, ∀ part ∈ chunk.parts,
      FitsMemory .words part.1 part.2 := by
    intro chunk hmem
    rw [List.mem_singleton.mp hmem]
    exact booleanChunk_fits
  have hnull : ∀ chunk ∈ booleanResult.inline ++ booleanResult.batches.flatten, ∀ part ∈ chunk.parts,
      ∀ value ∈ part.2, ¬ HasNullNumber part.1 value := by
    intro chunk hmem part hpart value _ hnumber
    rw [List.mem_singleton.mp hmem] at hpart
    obtain rfl := List.mem_singleton.mp hpart
    cases hnumber with
    | here id => cases id
    | field structChildren => cases structChildren
    | item child => cases child
  obtain ⟨prepared, hok, hcolumns, hall⟩ := batches_delivered rfl (.inr rfl) hid hsql Primitives.floatless_back
    booleanResult_deliverable booleanResult_typed (List.nodup_singleton _) hfits hnull
    ArrowLibrary.accepting_stores ArrowLibrary.accepting_accepts BatchLibrary.accepting_batches prepare_booleans
  have hprepared := hok
  obtain ⟨needsMoreFetch, -, hserved⟩ := prepared_served rfl (.inr rfl) hid hsql Primitives.floatless_back
    booleanResult_deliverable prepare_booleans
  have hreached : prepared.state.Reached fetchingConnection ⟨0, 0⟩ 0 := by
    cases hprepared.symm.trans hserved
    exact (prepareQuery_reached (.inr rfl) hok).1
  obtain ⟨stream, rows, hstream, hrows, -, hschema, hbatches⟩ := hall [booleanAnswer, lastAnswer]
    (fetchesServed_booleans hreached) fun _ => by decide
  have hmapped : ∀ column ∈ prepared.columns, ∃ D, arrowType column.logicalType = .ok D := by
    rw [hcolumns, booleanColumns_eq]
    intro column hmem
    rw [List.mem_singleton.mp hmem]
    exact ⟨.boolean, by rw [arrowType]; rfl⟩
  obtain ⟨⟨schema, batches⟩, hout⟩ := hschema.mpr hmapped
  obtain ⟨hnames, -, hshows⟩ := hbatches schema batches hout
  exact ⟨_, prepared, stream, schema, batches, rows, hok, hstream, hrows, hout, hnames, hshows⟩

end QuackProtocol
