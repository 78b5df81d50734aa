import QuackProtocol.Cells

/-! Whether the Arrow bridge takes the column that is decoded from the bytes of a vector, told from its type and
the cells that the bytes hold. -/

open Decoding Decode Narrowing

namespace QuackProtocol

def dayObstacle (unit : TimeUnit) (number : Int) : Option Obstacle :=
  if 0 ≤ number ∧ number < dayLimit unit then none else some .limit

/-- Stored data exceeds a limit at most; SQLNULL has no column for it. -/
def storedObstacle (id : LogicalTypeId) (measure : Int) : Option Obstacle :=
  match id with
  | .sqlNull => some .misfit
  | .time => dayObstacle .micros measure
  | .timeNs => dayObstacle .nanos measure
  | .interval => if SignedRange 64 (measure * 1000) then none else some .limit
  | _ => none

/-- A counted number fits the signed integers, in their range, and the dates, times and decimals that the
decoder makes of it. -/
def countedObstacle (id : LogicalTypeId) (number : I64) : Option Obstacle :=
  match id with
  | .tinyInt | .smallInt | .integer | .bigInt => if IntFits id number then none else some .misfit
  | .date | .decimal | .timestampSec | .timestampMs | .timestamp | .timestampNs | .timestampTz | .timeTz => none
  | .time => dayObstacle .micros number.toInt
  | .timeNs => dayObstacle .nanos number.toInt
  | _ => some .misfit

def cellObstacle (T : LogicalType) : Cell → Option Obstacle
  | .null | .items _ => none
  | .stored measure => storedObstacle T.id measure
  | .counted number => countedObstacle T.id (number.setWidth 64)
  | .fields _ => if (childNames T).Nodup then none else some .misfit

def Cell.byteLength : Cell → Nat
  | .stored measure => measure.toNat
  | _ => 0

def listCellObstacles (T : LogicalType) (count : Nat) : List Cell → List Obstacle
  | [] => []
  | .items items :: cells =>
    limitUnless (count + items.length ≤ i32Max) ++ listCellObstacles T (count + items.length) cells
  | .null :: cells => limitUnless (count ≤ i32Max) ++ listCellObstacles T count cells
  | cell :: cells => (cellObstacle T cell).toList ++ listCellObstacles T count cells

def itemCells (cells : List Cell) : List Cell :=
  cells.flatMap fun
    | .items items => items
    | _ => []

def windowCells (width : Nat) (cells : List Cell) : List Cell :=
  cells.flatMap fun
    | .items items => items
    | _ => List.replicate width .null

/-- The column of the child at `index`. -/
def fieldCells (index : Nat) (cells : List Cell) : List Cell :=
  cells.map fun
    | .fields fields => fields.getD index .null
    | _ => .null

/-- What stands in the way of a column, in the order of `obstacles`. -/
def cellObstacles (arrow : ArrowLibrary) (T : LogicalType) (cells : List Cell) : List Obstacle :=
  match T.id with
  | .list | .map =>
    match _h : getChildType T with
    | .ok childType => listCellObstacles T 0 cells ++ cellObstacles arrow childType (itemCells cells)
    | .error _ => []
  | .array =>
    match _h : getChildType T with
    | .ok childType =>
      match arraySize T with
      | .ok size => windowObstacles cells.length size.toNat ++ cells.filterMap (cellObstacle T) ++
        cellObstacles arrow childType (windowCells size.toNat cells)
      | .error _ => []
    | .error _ => []
  | .struct | .variant =>
    match _h : getStructChildren T with
    | .ok children => cells.filterMap (cellObstacle T) ++ children.attach.zipIdx.flatMap fun child =>
      cellObstacles arrow child.1.val.logicalType (fieldCells child.2 cells)
    | .error _ => []
  | _ => cells.filterMap (cellObstacle T) ++ columnObstacles arrow T (cells.map Cell.byteLength).sum
termination_by sizeOf T
decreasing_by
  · exact LogicalType.sizeOf_lt_of_mem_children (getChildType_mem _h)
  · exact LogicalType.sizeOf_lt_of_mem_children (getChildType_mem _h)
  · exact LogicalType.sizeOf_lt_of_mem_children (getStructChildren_mem _h child.1.property)

section
variable {layout : Layout} {T : LogicalType} {α β : Type}

theorem counted_obstacle {number : I128} {value : Value} (made : decodeSequenceValue T number = .ok value) :
    countedObstacle T.id (number.setWidth 64) = rowObstacle T value ∧ byteLength value = 0 ∧
      (T.id ∈ nestedIds → ∃ n, value = .int n) := by
  cases hid : T.id <;> simp only [decodeSequenceValue, decodeInt64LogicalValue, hid] at made
  case decimal =>
    obtain ⟨decimal, -, made⟩ := Except.bind_eq_ok made
    cases made
    exact ⟨rfl, rfl, fun h => absurd h (by decide)⟩
  all_goals cases made
  case date | time | timeNs | timestampSec | timestampMs | timestamp | timestampNs | timestampTz | timeTz =>
    exact ⟨rfl, rfl, fun h => absurd h (by decide)⟩
  all_goals
    refine ⟨?_, rfl, fun _ => ⟨_, rfl⟩⟩
    rw [rowObstacle, hid]
    rfl

theorem stored_obstacle {value : Value} (hD : ∃ D, arrowScalarType T = .ok D) (kind : FlatValue T value)
    (fits : ∀ n, value = .int n → T.id = .sqlNull ∨ IntFits T.id n) :
    storedObstacle T.id (measureOf value) = rowObstacle T value := by
  obtain ⟨D, hD⟩ := hD
  have hnumber (hnull : T.id ≠ .sqlNull) {n : I64} (hvalue : value = .int n) : rowObstacle T value = none := by
    rw [hvalue, rowObstacle, if_pos ((fits n hvalue).resolve_left hnull)]
  cases hid : T.id <;> simp only [arrowScalarType, hid] at hD <;> try cases hD
  all_goals simp only [FlatValue, hid] at kind
  case sqlNull =>
    obtain ⟨n, rfl⟩ := kind
    rw [rowObstacle, hid]
    rfl
  case tinyInt | smallInt | integer | bigInt =>
    obtain ⟨n, hvalue⟩ := kind
    rw [hnumber (by rw [hid]; decide) hvalue]
    rfl
  case uTinyInt | uSmallInt | uInteger =>
    obtain ⟨n, -, rfl⟩ := kind
    rfl
  all_goals
    obtain ⟨n, rfl⟩ := kind
    rfl

theorem cell_obstacle {cell : Cell} {value : Value} (h : StandsFor T cell value)
    (hD : T.id ∉ nestedIds → ∃ D, arrowScalarType T = .ok D) : cellObstacle T cell = rowObstacle T value := by
  cases h with
  | null => rfl
  | stored flat kind fits => exact stored_obstacle (hD flat) kind fits
  | counted made => exact (counted_obstacle made).1
  | items => rfl
  | fields => rfl

theorem rows_obstacles {cells : List Cell} {values : List Value} (h : CellsOf T values cells)
    (hD : T.id ∉ nestedIds → ∃ D, arrowScalarType T = .ok D) :
    cells.filterMap (cellObstacle T) = values.filterMap (rowObstacle T) := by
  induction h with
  | nil => rfl
  | cons hcell _ ih => rw [List.filterMap_cons, List.filterMap_cons, cell_obstacle hcell hD, ih]

theorem column_obstacles {arrow : ArrowLibrary} {cells : List Cell} {values : List Value}
    (h : CellsOf T values cells) :
    columnObstacles arrow T (cells.map Cell.byteLength).sum =
      columnObstacles arrow T (values.map byteLength).sum := by
  have hsum (hmeasure : ∀ value, FlatValue T value → (measureOf value).toNat = byteLength value) :
      (cells.map Cell.byteLength).sum = (values.map byteLength).sum := by
    induction h with
    | nil => rfl
    | @cons cell value _ _ hcell _ ih =>
        have hlength : cell.byteLength = byteLength value := by
          cases hcell with
          | null => rfl
          | stored flat kind fits => exact hmeasure _ kind
          | counted made => exact (counted_obstacle made).2.1.symm
          | items => rfl
          | fields => rfl
        rw [List.map_cons, List.map_cons, List.sum_cons, List.sum_cons, hlength, ih]
  rw [columnObstacles, columnObstacles]
  cases hid : T.id <;> try rfl
  all_goals
    simp only
    rw [hsum]
    intro value kind
    simp only [FlatValue, hid] at kind
    obtain ⟨n, rfl⟩ := kind
    exact Int.toNat_natCast _

theorem list_obstacles {cells : List Cell} {values : List Value} (nested : T.id ∈ nestedIds)
    (h : CellsOf T values cells) (count : Nat) : listCellObstacles T count cells = listObstacles T count values := by
  induction h generalizing count with
  | nil => rfl
  | @cons cell value cells values hcell _ ih =>
      have hrow := cell_obstacle hcell fun flat => absurd nested flat
      cases hcell with
      | null => rw [listCellObstacles, listObstacles, ih]
      | stored flat => exact absurd nested flat
      | counted made =>
          obtain ⟨n, rfl⟩ := (counted_obstacle made).2.2 nested
          rw [listCellObstacles, listObstacles, hrow, ih]
          all_goals intros; contradiction
      | items _ _ length => rw [listCellObstacles, listObstacles, length, ih]
      | fields =>
          rw [listCellObstacles, listObstacles, hrow, ih]
          all_goals intros; contradiction

theorem CellsOf.items {childType : LogicalType} {cells : List Cell} {items : List Value}
    (child : getChildType T = .ok childType) (h : StandsFor T (.items cells) (.list items)) :
    CellsOf childType items cells := by
  cases h with
  | items _ child' length inside =>
      cases child.symm.trans child'
      exact List.forall₂_iff_zip.mpr ⟨length, fun hmem => inside _ hmem⟩

theorem cellsOf_flatMap {childType : LogicalType} {cells : List Cell} {values : List Value}
    {inside : Cell → List Cell} {parts : Value → List Value} (h : CellsOf T values cells)
    (hparts : ∀ cell value, StandsFor T cell value → CellsOf childType (parts value) (inside cell)) :
    CellsOf childType (values.flatMap parts) (cells.flatMap inside) := by
  induction h with
  | nil => exact .nil
  | cons hcell _ ih =>
      rw [List.flatMap_cons, List.flatMap_cons]
      exact List.rel_append (hparts _ _ hcell) ih

theorem nullCells (childType : LogicalType) (width : Nat) :
    CellsOf childType (List.replicate width .null) (List.replicate width .null) :=
  List.forall₂_iff_get.mpr ⟨by simp, fun i hi hi' => by simpa using StandsFor.null childType⟩

theorem cellsOf_items {childType : LogicalType} {cells : List Cell} {values : List Value}
    (nested : T.id ∈ nestedIds) (child : getChildType T = .ok childType) (h : CellsOf T values cells) :
    CellsOf childType (listItems values) (itemCells cells) := by
  refine cellsOf_flatMap h fun cell value hcell => ?_
  cases hcell with
  | null => exact .nil
  | stored flat => exact absurd nested flat
  | counted made =>
      obtain ⟨n, rfl⟩ := (counted_obstacle made).2.2 nested
      exact .nil
  | items physical child' length inside => exact CellsOf.items child (.items physical child' length inside)
  | fields => exact .nil

theorem cellsOf_windows {childType : LogicalType} {cells : List Cell} {values : List Value} (width : Nat)
    (nested : T.id ∈ nestedIds) (child : getChildType T = .ok childType) (h : CellsOf T values cells) :
    CellsOf childType (windowItems width values) (windowCells width cells) := by
  refine cellsOf_flatMap h fun cell value hcell => ?_
  cases hcell with
  | null => exact nullCells childType width
  | stored flat => exact absurd nested flat
  | counted made =>
      obtain ⟨n, rfl⟩ := (counted_obstacle made).2.2 nested
      exact nullCells childType width
  | items physical child' length inside => exact CellsOf.items child (.items physical child' length inside)
  | fields => exact nullCells childType width

/-- The column of a child, where no row has been refused. -/
theorem cellsOf_field {children : List ChildType} {cells : List Cell} {values : List Value}
    (nested : T.id ∈ nestedIds) (structChildren : getStructChildren T = .ok children)
    (h : CellsOf T values cells) (hrows : cells.filterMap (cellObstacle T) = []) (i : Nat)
    (hi : i < children.length) :
    CellsOf children[i].logicalType (structColumn children[i].name values) (fieldCells i cells) := by
  rw [structColumn, fieldCells, CellsOf, List.forall₂_map_left_iff, List.forall₂_map_right_iff]
  refine List.forall₂_iff_get.mpr ⟨h.length_eq, fun row hrow hrow' => ?_⟩
  have hcell : StandsFor T cells[row] values[row] := h.get hrow hrow'
  have hnone := List.filterMap_eq_nil_iff.mp hrows _ (List.getElem_mem hrow)
  rw [List.get_eq_getElem, List.get_eq_getElem]
  generalize cells[row] = cell at hcell hnone ⊢
  generalize values[row] = value at hcell ⊢
  cases hcell with
  | null => exact .null _
  | stored flat => exact absurd nested flat
  | counted made =>
      obtain ⟨n, rfl⟩ := (counted_obstacle made).2.2 nested
      exact .null _
  | items => exact .null _
  | fields physical structChildren' inside =>
      cases structChildren.symm.trans structChildren'
      have hnames : childNames T = children.map ChildType.name := by rw [childNames, structChildren]
      have distinct : (childNames T).Nodup := by
        by_contra hnot
        rw [cellObstacle, if_neg hnot] at hnone
        cases hnone
      exact inside (hnames ▸ distinct) i hi

section
variable {arrow : ArrowLibrary} {cells : List Cell} {values : List Value}

theorem cellObstacles_flat (flat : T.id ∉ nestedIds) : cellObstacles arrow T cells =
    cells.filterMap (cellObstacle T) ++ columnObstacles arrow T (cells.map Cell.byteLength).sum := by
  rw [cellObstacles]
  cases hid : T.id <;> simp only [hid] at flat ⊢ <;> exact absurd (by decide) flat

theorem cellObstacles_list {childType : LogicalType} (id : T.id = .list ∨ T.id = .map)
    (child : getChildType T = .ok childType) : cellObstacles arrow T cells =
      listCellObstacles T 0 cells ++ cellObstacles arrow childType (itemCells cells) := by
  rw [cellObstacles]
  rcases id with hid | hid <;> simp only [hid] <;> split
  all_goals first
    | (rename_i childType' child'
       cases child.symm.trans child'
       rfl)
    | (rename_i e he
       cases child.symm.trans he)

theorem cellObstacles_array {childType : LogicalType} {size : Int} (id : T.id = .array)
    (child : getChildType T = .ok childType) (hsize : arraySize T = .ok size) :
    cellObstacles arrow T cells = windowObstacles cells.length size.toNat ++
      cells.filterMap (cellObstacle T) ++ cellObstacles arrow childType (windowCells size.toNat cells) := by
  rw [cellObstacles]
  simp only [id]
  split
  · rename_i childType' child'
    cases child.symm.trans child'
    rw [hsize]
  · rename_i e he
    cases child.symm.trans he

theorem cellObstacles_struct {children : List ChildType} (id : T.id = .struct ∨ T.id = .variant)
    (structChildren : getStructChildren T = .ok children) : cellObstacles arrow T cells =
      cells.filterMap (cellObstacle T) ++ children.zipIdx.flatMap fun child =>
        cellObstacles arrow child.1.logicalType (fieldCells child.2 cells) := by
  have hattach : (children.attach.zipIdx.flatMap fun child =>
      cellObstacles arrow child.1.val.logicalType (fieldCells child.2 cells)) =
        children.zipIdx.flatMap fun child => cellObstacles arrow child.1.logicalType (fieldCells child.2 cells) := by
    conv_rhs => rw [← List.attach_map_subtype_val children, List.zipIdx_map, List.flatMap_map]
    rfl
  rw [cellObstacles]
  rcases id with hid | hid <;> simp only [hid] <;> split
  all_goals first
    | (rename_i children' hchildren
       cases structChildren.symm.trans hchildren
       exact congrArg _ hattach)
    | (rename_i e he
       cases structChildren.symm.trans he)

/-- A later part counts only where the first part is empty. -/
theorem head_append {first first' rest rest' : List Obstacle} (hfirst : first = first')
    (hrest : first = [] → rest.head? = rest'.head?) : (first ++ rest).head? = (first' ++ rest').head? := by
  subst hfirst
  cases first with
  | nil => exact hrest rfl
  | cons obstacle first => rfl

theorem head_flatMap {lists : List α} {lists' : List β} {f : α → List Obstacle} {g : β → List Obstacle}
    (h : List.Forall₂ (fun a b => (f a).head? = (g b).head?) lists lists') :
    (lists.flatMap f).head? = (lists'.flatMap g).head? := by
  induction h with
  | nil => rfl
  | cons hfirst _ ih => rw [List.flatMap_cons, List.flatMap_cons, List.head?_append, List.head?_append, hfirst, ih]

/-- The first obstacle is the same among the cells and among the values. -/
theorem head_cellObstacles {D : DataType} (hD : arrowType T = .ok D) (h : CellsOf T values cells) :
    (cellObstacles arrow T cells).head? = (obstacles arrow T values).head? := by
  induction T using LogicalType.childInduction generalizing D values cells with
  | step T ih =>
      cases arrowTyped hD with
      | scalar flat scalarType =>
          rw [cellObstacles_flat flat, obstacles_flat flat, rows_obstacles h fun _ => ⟨D, scalarType⟩,
            column_obstacles h]
      | @list childType itemType id child item =>
          have nested : T.id ∈ nestedIds := by rcases id with id | id <;> rw [id] <;> decide
          rw [cellObstacles_list id child, obstacles_list id child]
          refine head_append (list_obstacles nested h 0) fun _ => ?_
          exact ih childType (getChildType_mem child) item (cellsOf_items nested child h)
      | @array childType itemType size id child item hsize =>
          have nested : T.id ∈ nestedIds := by rw [id]; decide
          rw [cellObstacles_array id child hsize, obstacles_array id child hsize]
          refine head_append ?_ fun _ => ?_
          · rw [h.length_eq, rows_obstacles h fun flat => absurd nested flat]
          · exact ih childType (getChildType_mem child) item (cellsOf_windows size.toNat nested child h)
      | @struct children fields id structChildren fieldTypes =>
          have nested : T.id ∈ nestedIds := by rcases id with id | id <;> rw [id] <;> decide
          rw [cellObstacles_struct id structChildren, obstacles_struct id structChildren]
          refine head_append (rows_obstacles h fun flat => absurd nested flat) fun hrows => ?_
          refine head_flatMap (List.forall₂_iff_get.mpr ⟨by simp, fun i hi hi' => ?_⟩)
          have hf : i < fields.length := by rwa [← fieldTypes.length_eq]
          obtain ⟨dataType, hdataType, -⟩ := fieldTypes.get hi' hf
          rw [List.get_eq_getElem] at hdataType
          simp only [List.get_eq_getElem, List.getElem_zipIdx, Nat.zero_add]
          exact ih _ (getStructChildren_mem structChildren (List.getElem_mem hi')) hdataType
            (cellsOf_field nested structChildren h hrows i hi')

/-- The bridge takes a decoded column, but for the documented limits, exactly if the first obstacle among the
cells of its bytes is no misfit. -/
theorem decoded_buildArray_iff {D : DataType} {count : Nat} {c c' : Cursor} {vector : DecodedVector}
    (harrow : arrow.Stores) (haccepts : arrow.Accepts) (hD : arrowType T = .ok D)
    (hrun : (decodeVector T count).run layout c = .ok (vector, c')) :
    ∃ cells, (vectorCells T count).run layout c = .ok (cells, c') ∧
      (OnlyDocumented (buildArray arrow T D vector.values) ↔
        (cellObstacles arrow T cells).head? ≠ some .misfit) := by
  obtain ⟨cells, hcells, h⟩ := vectorCells_mirrors T count c vector c' hrun
  refine ⟨cells, hcells, ?_⟩
  rw [head_cellObstacles hD h]
  exact (endsAs_buildArray harrow haccepts hD (decodeVector_decoded T count c vector c' hrun)).onlyDocumented_iff

end

end

/-- One row, counted from the given number. -/
def countedVector (start : UInt8) : Bytes := [90, 0, 4, 91, 0, start, 92, 0, 0, 0xff, 0xff]

theorem countedVector_onlyDocumented : ∃ vector c',
    (decodeVector integerType 1).run .words ⟨countedVector 5, 0⟩ = .ok (vector, c') ∧
      vector.values = [.int 5] ∧
      OnlyDocumented (buildArray .accepting integerType .int32 vector.values) := by
  have hrun : (decodeVector integerType 1).run .words ⟨countedVector 5, 0⟩ =
      .ok (⟨integerType, .sequence, [.int 5]⟩, ⟨countedVector 5, 11⟩) := rfl
  obtain ⟨cells, hcells, hiff⟩ := decoded_buildArray_iff ArrowLibrary.accepting_stores
    ArrowLibrary.accepting_accepts arrowType_integer hrun
  have hcounted : (vectorCells integerType 1).run .words ⟨countedVector 5, 0⟩ =
      .ok ([.counted 5], ⟨countedVector 5, 11⟩) := rfl
  cases hcells.symm.trans hcounted
  refine ⟨_, _, hrun, rfl, hiff.mpr ?_⟩
  rw [cellObstacles_flat (by decide)]
  decide

/-- The same row of a UTINYINT column is refused as a value of another type. -/
theorem not_countedVector_onlyDocumented : arrowType ⟨.uTinyInt, none⟩ = .ok .uint8 ∧ ∃ vector c',
    (decodeVector ⟨.uTinyInt, none⟩ 1).run .words ⟨countedVector 5, 0⟩ = .ok (vector, c') ∧
      vector.values = [.int 5] ∧
      ¬ OnlyDocumented (buildArray .accepting ⟨.uTinyInt, none⟩ .uint8 vector.values) := by
  refine ⟨by rw [arrowType]; rfl, ⟨⟨.uTinyInt, none⟩, .sequence, [.int 5]⟩, ⟨countedVector 5, 11⟩, rfl, rfl,
    ?_⟩
  rw [buildArray_scalar (by decide)]
  rintro (⟨array, h⟩ | ⟨e, h, hdocumented⟩)
  · cases h
  · cases h
    exact hdocumented

end QuackProtocol
