import QuackProtocol.AppendBatches
import QuackProtocol.Rows

/-! Rows that are made into a chunk and back. The conversion gives each value the shape of its type: the
items of a list keep their number, a struct gets exactly the fields that its type declares. -/

open Decoding

namespace QuackProtocol

/-- `items` of a list are looked at under these types only. -/
def HasItems (T : LogicalType) : Prop := T.id = .list ∨ T.id = .map ∨ T.id = .array

/-- A value and the same value in the shape of its type: the value of a STRUCT has the declared fields, NULL where
it had none, at every depth that STRUCTs, LISTs, MAPs and ARRAYs lead to. The values of UNION and VARIANT types
stay as they are, structs among them. -/
inductive Reshaped : LogicalType → Value → Value → Prop where
  | items {T childType : LogicalType} {items items' : List Value} (id : HasItems T)
      (child : getChildType T = .ok childType) (length : items.length = items'.length)
      (inside : ∀ i (hi : i < items.length) (hi' : i < items'.length),
        Reshaped childType items[i] items'[i]) : Reshaped T (.list items) (.list items')
  | fields {T : LogicalType} {children : List ChildType} {row row' : Row} (id : T.id = .struct)
      (structChildren : getStructChildren T = .ok children)
      (names : row'.map Prod.fst = children.map ChildType.name)
      (inside : ∀ child ∈ children,
        Reshaped child.logicalType (cell row child.name) (cell row' child.name)) :
      Reshaped T (.struct row) (.struct row')
  | same {T : LogicalType} {value : Value} (list : ∀ items, value = .list items → ¬ HasItems T)
      (struct : ∀ row, value = .struct row → T.id ≠ .struct) : Reshaped T value value

/-- The children of every STRUCT in a type have distinct names. -/
inductive DistinctFields : LogicalType → Prop where
  | intro {T : LogicalType} (fields : ∀ children, T.id = .struct → getStructChildren T = .ok children →
      (children.map ChildType.name).Nodup) (inside : ∀ child ∈ T.children, DistinctFields child) :
      DistinctFields T

section
variable {T childType : LogicalType} {children : List ChildType} {items : List Value} {row : Row}

theorem normalizeAppendValue_items (id : HasItems T) (child : getChildType T = .ok childType) :
    normalizeAppendValue (.list items) T = (do
      let items ← items.mapM fun item => normalizeAppendValue item childType
      pure (.list items)) := by
  rw [HasItems] at id
  rw [normalizeAppendValue, if_pos id]
  split
  · rename_i other hother
    cases child.symm.trans hother
    rfl
  · rename_i e he
    cases child.symm.trans he

/-- One more field of a struct. -/
def normalizeField (row : Row) (normalized : Row) (child : ChildType) : Result Row := do
  let value ← normalizeAppendValue (cell row child.name) child.logicalType
  pure (Row.insert normalized child.name value)

theorem normalizeAppendValue_fields (id : T.id = .struct) (structChildren : getStructChildren T = .ok children) :
    normalizeAppendValue (.struct row) T = (do
      let normalized ← children.foldlM (normalizeField row) []
      pure (.struct normalized)) := by
  rw [normalizeAppendValue, if_pos id]
  split
  · rename_i other hother
    cases structChildren.symm.trans hother
    have hfold : children.attach.foldlM (fun normalized child => normalizeField row normalized child.val) [] =
        children.foldlM (normalizeField row) [] := by
      rw [← List.foldlM_map, List.attach_map_subtype_val]
    rw [← hfold]
    rfl
  · rename_i e he
    cases structChildren.symm.trans he

/-- Fields of distinct names are put one after the other. -/
theorem foldlM_normalizeField {normalized result : Row}
    (hnames : (normalized.map Prod.fst ++ children.map ChildType.name).Nodup) :
    children.foldlM (normalizeField row) normalized = .ok result ↔ ∃ fields,
      result = normalized ++ fields ∧ List.Forall₂ (fun child field => field.1 = child.name ∧
        normalizeAppendValue (cell row child.name) child.logicalType = .ok field.2) children fields := by
  induction children generalizing normalized with
  | nil =>
      rw [List.foldlM_nil]
      constructor
      · intro h
        cases h
        exact ⟨[], (List.append_nil _).symm, .nil⟩
      · rintro ⟨fields, rfl, hfields⟩
        cases hfields
        rw [List.append_nil]
        rfl
  | cons child children ih =>
      have hnew : child.name ∉ normalized.map Prod.fst := fun hmem =>
        (List.nodup_append.mp hnames).2.2 _ hmem _ (List.mem_cons_self ..) rfl
      have hrest : ∀ value, ((normalized ++ [(child.name, value)]).map Prod.fst ++
          children.map ChildType.name).Nodup := fun value => by
        rw [List.map_append, List.append_assoc]
        exact hnames
      rw [List.foldlM_cons]
      constructor
      · intro h
        obtain ⟨next, hnext, h⟩ := Except.bind_eq_ok h
        obtain ⟨value, hvalue, hinsert⟩ := Except.bind_eq_ok hnext
        cases hinsert
        rw [Row.insert_of_notMem hnew, ih (hrest value)] at h
        obtain ⟨fields, rfl, hfields⟩ := h
        exact ⟨(child.name, value) :: fields, List.append_assoc .., .cons ⟨rfl, hvalue⟩ hfields⟩
      · rintro ⟨fields, rfl, hfields⟩
        cases hfields with
        | @cons _ field _ fields hfield hfields =>
            obtain ⟨name, value⟩ := field
            obtain ⟨rfl, hvalue⟩ := hfield
            have hnext : normalizeField row normalized child =
                .ok (normalized ++ [(child.name, value)]) := by
              rw [normalizeField, hvalue, ← Row.insert_of_notMem hnew]
              rfl
            rw [hnext]
            exact (ih (hrest value)).mpr ⟨fields, List.append_cons normalized _ fields, hfields⟩

theorem cell_getElem (hnodup : (row.map Prod.fst).Nodup) {i : Nat} (hi : i < row.length) :
    cell row row[i].1 = row[i].2 := by
  have hmem : (row[i].1, row[i].2) ∈ row := List.getElem_mem hi
  rw [cell, Row.get_of_mem hnodup hmem, Option.getD_some]

/-- The fields of a row one by one, and by their names. -/
theorem fields_iff (P : ChildType → Value → Prop) (hnodup : (children.map ChildType.name).Nodup) :
    List.Forall₂ (fun child field => field.1 = child.name ∧ P child field.2) children row ↔
      row.map Prod.fst = children.map ChildType.name ∧ ∀ child ∈ children, P child (cell row child.name) := by
  constructor
  · intro hfields
    have hnames : row.map Prod.fst = children.map ChildType.name := by
      clear hnodup
      induction hfields with
      | nil => rfl
      | cons hfield _ ih => rw [List.map_cons, List.map_cons, hfield.1, ih]
    refine ⟨hnames, fun child hmem => ?_⟩
    obtain ⟨i, hi, rfl⟩ := List.getElem_of_mem hmem
    have hi' : i < row.length := by rwa [← hfields.length_eq]
    obtain ⟨hname, hvalue⟩ := hfields.get hi hi'
    simp only [List.get_eq_getElem] at hname hvalue
    have hcell := cell_getElem (by rwa [hnames]) hi'
    rw [hname] at hcell
    rwa [hcell]
  · rintro ⟨hnames, hinside⟩
    have hlength : children.length = row.length := by
      rw [← List.length_map ChildType.name, ← hnames, List.length_map]
    refine List.forall₂_iff_get.mpr ⟨hlength, fun i hi hi' => ?_⟩
    have hname : row[i].1 = children[i].name := by
      have heq := List.getElem_of_eq hnames (by rwa [List.length_map])
      rwa [List.getElem_map, List.getElem_map] at heq
    have hcell := hinside _ (List.getElem_mem hi)
    have hentry := cell_getElem (by rwa [hnames]) hi'
    rw [hname] at hentry
    rw [hentry] at hcell
    exact ⟨hname, hcell⟩

theorem normalizeAppendValue_same {value : Value} (hlist : ∀ items, value = .list items → ¬ HasItems T)
    (hstruct : ∀ row, value = .struct row → T.id ≠ .struct) : normalizeAppendValue value T = .ok value := by
  cases value with
  | list items =>
      have hitems := hlist items rfl
      rw [HasItems] at hitems
      rw [normalizeAppendValue, if_neg hitems]
  | struct row => rw [normalizeAppendValue, if_neg (hstruct row rfl)]
  | _ => rw [normalizeAppendValue] <;> intros <;> contradiction

theorem childType_of_normalized {value : Value} (id : HasItems T)
    (h : normalizeAppendValue (.list items) T = .ok value) : ∃ childType, getChildType T = .ok childType := by
  rw [HasItems] at id
  rw [normalizeAppendValue, if_pos id] at h
  split at h
  · rename_i childType hchild
    exact ⟨childType, hchild⟩
  · cases h

theorem children_of_normalized {value : Value} (id : T.id = .struct)
    (h : normalizeAppendValue (.struct row) T = .ok value) : ∃ children, getStructChildren T = .ok children := by
  rw [normalizeAppendValue, if_pos id] at h
  split at h
  · rename_i children hchildren
    exact ⟨children, hchildren⟩
  · cases h

/-- The conversion of one value, and the shapes it stands for. -/
theorem normalizeAppendValue_ok_iff (hT : DistinctFields T) {value value' : Value} :
    normalizeAppendValue value T = .ok value' ↔ Reshaped T value value' := by
  induction hT generalizing value value' with
  | @intro T fields inside ih =>
      constructor
      · intro h
        by_cases hlist : ∀ items, value = .list items → ¬ HasItems T
        · by_cases hstruct : ∀ row, value = .struct row → T.id ≠ .struct
          · cases (normalizeAppendValue_same hlist hstruct).symm.trans h
            exact .same hlist hstruct
          · simp only [not_forall, not_not] at hstruct
            obtain ⟨row, rfl, hid⟩ := hstruct
            obtain ⟨children, hchildren⟩ := children_of_normalized hid h
            have hnodup := fields children hid hchildren
            rw [normalizeAppendValue_fields hid hchildren] at h
            obtain ⟨result, hfold, hresult⟩ := Except.bind_eq_ok h
            cases hresult
            obtain ⟨row', hrow', hfields⟩ := (foldlM_normalizeField (by simpa using hnodup)).mp hfold
            obtain rfl : result = row' := hrow'
            obtain ⟨hnames, hinside⟩ := (fields_iff (fun child value =>
              normalizeAppendValue (cell row child.name) child.logicalType = .ok value) hnodup).mp hfields
            exact .fields hid hchildren hnames fun child hmem =>
              (ih _ (getStructChildren_mem hchildren hmem)).mp (hinside child hmem)
        · simp only [not_forall, not_not] at hlist
          obtain ⟨items, rfl, hid⟩ := hlist
          obtain ⟨childType, hchild⟩ := childType_of_normalized hid h
          rw [normalizeAppendValue_items hid hchild] at h
          obtain ⟨items', hitems, hresult⟩ := Except.bind_eq_ok h
          cases hresult
          have hrows := Except.mapM_ok_iff.mp hitems
          exact .items hid hchild hrows.length_eq fun i hi hi' =>
            (ih _ (getChildType_mem hchild)).mp (hrows.get hi hi')
      · intro h
        cases h with
        | items hid hchild hlength hinside =>
            rename_i childType items items'
            have hrows : items.mapM (fun item => normalizeAppendValue item childType) = .ok items' :=
              Except.mapM_ok_iff.mpr (List.forall₂_iff_get.mpr ⟨hlength, fun i hi hi' =>
                (ih _ (getChildType_mem hchild)).mpr (hinside i hi hi')⟩)
            rw [normalizeAppendValue_items hid hchild, hrows]
            rfl
        | @fields _ children row _ hid hchildren hnames hinside =>
            have hnodup := fields children hid hchildren
            have hfields := (fields_iff (fun child value =>
              normalizeAppendValue (cell row child.name) child.logicalType = .ok value) hnodup).mpr
                ⟨hnames, fun child hmem =>
                  (ih _ (getStructChildren_mem hchildren hmem)).mpr (hinside child hmem)⟩
            rw [normalizeAppendValue_fields hid hchildren,
              (foldlM_normalizeField (by simpa using hnodup)).mpr ⟨_, rfl, hfields⟩]
            rfl
        | same hlist hstruct => exact normalizeAppendValue_same hlist hstruct

/-- A value in the shape of its type keeps it. -/
theorem Reshaped.again {value value' : Value} (h : Reshaped T value value') : Reshaped T value' value' := by
  induction h with
  | items id child length _ ih => exact .items id child rfl fun i hi _ => ih i (by rwa [length]) hi
  | fields id structChildren names _ ih => exact .fields id structChildren names ih
  | same list struct => exact .same list struct

end

/-! ### Rows and chunks -/

/-- The chunk has one type, one name and one column for each definition, and a value for each row. -/
structure HasColumns (definitions : List ColumnDefinition) (count : Nat) (chunk : DataChunk) : Prop where
  rowCount : chunk.rowCount = count
  types : chunk.types = definitions.map ColumnDefinition.logicalType
  names : chunk.columnNames = some (definitions.map ColumnDefinition.name)
  columns : chunk.columns.map DecodedVector.logicalType = definitions.map ColumnDefinition.logicalType
  values : ∀ column ∈ chunk.columns, column.values.length = count

/-- A row, and the row that has for each definition its value in the shape of the type. -/
def RowReshaped (definitions : List ColumnDefinition) (row row' : Row) : Prop :=
  row'.map Prod.fst = definitions.map ColumnDefinition.name ∧ ∀ definition ∈ definitions,
    Reshaped definition.logicalType (cell row definition.name) (cell row' definition.name)

section
variable {definitions : List ColumnDefinition} {rows : List Row}

/-- The row of the values that the columns take. -/
def columnsRow (definitions : List ColumnDefinition) (row : Row) : Row :=
  definitions.map fun definition => (definition.name, cellValue definition row)

theorem rowsFromChunk_rowsChunk (hnames : (definitions.map ColumnDefinition.name).Nodup) :
    rowsFromChunk (rowsChunk definitions rows) = .ok (rows.map (columnsRow definitions)) := by
  have hfields : ∀ i (hi : i < rows.length), rowFields (definitions.map ColumnDefinition.name)
      (rowsChunk definitions rows) i = columnsRow definitions rows[i] := by
    intro i hi
    apply List.ext_getElem (by simp [rowFields, rowsChunk, columnsRow])
    intro j hj hj'
    have hj : j < definitions.length := by simpa [columnsRow] using hj'
    simp [rowFields, rowsChunk, columnsRow, columnName, hi, hj]
  have hkeys : ∀ row, ((columnsRow definitions row).map Prod.fst).Nodup := by
    intro row
    rw [columnsRow, List.map_map]
    exact hnames
  rw [rowsFromChunk, rowsFromChunkWithNames_eq]
  refine congrArg Except.ok (List.ext_getElem (by simp [rowsChunk]) fun i hi hi' => ?_)
  have hi : i < rows.length := by simpa using hi'
  have hrow := hfields i hi
  simp only [List.getElem_map, List.getElem_range]
  rw [← Row.ofFields_of_nodup (hkeys rows[i]), ← hrow]
  rfl

theorem cell_columnsRow (hnames : (definitions.map ColumnDefinition.name).Nodup)
    {definition : ColumnDefinition} (hmem : definition ∈ definitions) (row : Row) :
    cell (columnsRow definitions row) definition.name = cellValue definition row := by
  have hkeys : ((columnsRow definitions row).map Prod.fst).Nodup := by
    rw [columnsRow, List.map_map]
    exact hnames
  rw [cell, Row.get_of_mem hkeys (List.mem_map.mpr ⟨definition, hmem, rfl⟩), Option.getD_some]

/-- Rows made into a chunk and back have the shape of the columns, and make the same chunk again. -/
theorem dataChunkFromRows_inverse {chunk : DataChunk} (hne : definitions ≠ [])
    (hnames : (definitions.map ColumnDefinition.name).Nodup)
    (hfields : ∀ definition ∈ definitions, DistinctFields definition.logicalType)
    (h : dataChunkFromRows rows (some definitions) = .ok chunk) :
    HasColumns definitions rows.length chunk ∧ ∃ rows', rowsFromChunk chunk = .ok rows' ∧
      List.Forall₂ (RowReshaped definitions) rows rows' ∧
      dataChunkFromRows rows' (some definitions) = .ok chunk := by
  obtain ⟨other, hother, -, hnormal, rfl⟩ := dataChunkFromRows_ok_iff.mp h
  obtain rfl : definitions = other := Except.ok.inj hother
  have hreshaped : ∀ row ∈ rows, ∀ definition ∈ definitions,
      Reshaped definition.logicalType (cell row definition.name) (cellValue definition row) := by
    intro row hrow definition hmem
    obtain ⟨value, hvalue⟩ := hnormal row hrow definition hmem
    rw [← cellValue_of_ok hvalue]
    exact (normalizeAppendValue_ok_iff (hfields definition hmem)).mp hvalue
  have hagain : ∀ row ∈ rows, ∀ definition ∈ definitions,
      normalCell definition (columnsRow definitions row) = .ok (cellValue definition row) := by
    intro row hrow definition hmem
    rw [normalCell, cell_columnsRow hnames hmem]
    exact (normalizeAppendValue_ok_iff (hfields definition hmem)).mpr (hreshaped row hrow definition hmem).again
  refine ⟨⟨rfl, rfl, rfl, by simp [rowsChunk], ?_⟩, rows.map (columnsRow definitions),
    rowsFromChunk_rowsChunk hnames, ?_, ?_⟩
  · intro column hcolumn
    obtain ⟨definition, -, rfl⟩ := List.mem_map.mp hcolumn
    exact List.length_map ..
  · refine List.forall₂_map_right_iff.mpr
      (List.forall₂_same.mpr fun row hrow => ⟨?_, fun definition hmem => ?_⟩)
    · rw [columnsRow, List.map_map]
      rfl
    · rw [cell_columnsRow hnames hmem]
      exact hreshaped row hrow definition hmem
  · refine dataChunkFromRows_ok_iff.mpr ⟨definitions, rfl, hne, ?_, ?_⟩
    · intro row' hrow' definition hmem
      obtain ⟨row, hrow, rfl⟩ := List.mem_map.mp hrow'
      exact ⟨_, hagain row hrow definition hmem⟩
    · rw [rowsChunk, rowsChunk, List.length_map]
      congr 1
      apply List.map_congr_left
      intro definition hmem
      rw [List.map_map]
      congr 1
      exact List.map_congr_left fun row hrow => cellValue_of_ok (hagain row hrow definition hmem)

/-- A column of STRUCT(a INTEGER, b INTEGER). -/
def pairColumn : ColumnDefinition :=
  ⟨"pair", LogicalTypes.struct [⟨"a", LogicalTypes.scalar .integer⟩, ⟨"b", LogicalTypes.scalar .integer⟩]⟩

theorem distinctFields_pairColumn : DistinctFields pairColumn.logicalType := by
  refine .intro (fun children _ hchildren => ?_) fun child hmem => .intro (fun children hid => ?_) ?_
  · cases hchildren
    decide
  · rcases List.mem_cons.mp hmem with rfl | hmem
    · cases hid
    · rcases List.mem_cons.mp hmem with rfl | hmem
      · cases hid
      · cases hmem
  · rcases List.mem_cons.mp hmem with rfl | hmem
    · nofun
    · rcases List.mem_cons.mp hmem with rfl | hmem
      · nofun
      · cases hmem

/-- The struct lacks one field that is declared and has one that is not. -/
def unshapedRow : Row := [("pair", .struct [("c", .int 3), ("b", .int 2)])]

theorem dataChunkFromRows_inverse_pair :
    ∃ chunk, dataChunkFromRows [unshapedRow] (some [pairColumn]) = .ok chunk ∧
      HasColumns [pairColumn] [unshapedRow].length chunk ∧ ∃ rows', rowsFromChunk chunk = .ok rows' ∧
        List.Forall₂ (RowReshaped [pairColumn]) [unshapedRow] rows' ∧
        dataChunkFromRows rows' (some [pairColumn]) = .ok chunk := by
  have hfields : ∀ definition ∈ [pairColumn], DistinctFields definition.logicalType :=
    List.forall_mem_singleton.mpr distinctFields_pairColumn
  have hvalue : Reshaped pairColumn.logicalType (cell unshapedRow pairColumn.name)
      (.struct [("a", .null), ("b", .int 2)]) := by
    refine .fields rfl rfl rfl fun child hmem => ?_
    rcases List.mem_cons.mp hmem with rfl | hmem
    · exact .same nofun nofun
    · rcases List.mem_cons.mp hmem with rfl | hmem
      · exact .same nofun nofun
      · cases hmem
  have hnormal : ∀ row ∈ [unshapedRow], Normal [pairColumn] row :=
    List.forall_mem_singleton.mpr (List.forall_mem_singleton.mpr
      ⟨_, (normalizeAppendValue_ok_iff distinctFields_pairColumn).mpr hvalue⟩)
  have hchunk : dataChunkFromRows [unshapedRow] (some [pairColumn]) = .ok (rowsChunk [pairColumn] [unshapedRow]) :=
    dataChunkFromRows_ok_iff.mpr ⟨[pairColumn], rfl, List.cons_ne_nil _ _, hnormal, rfl⟩
  exact ⟨_, hchunk, dataChunkFromRows_inverse (List.cons_ne_nil _ _) (List.pairwise_singleton _ _) hfields hchunk⟩

end

end QuackProtocol
