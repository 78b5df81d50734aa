import QuackProtocol.CanonicalValues
import QuackProtocol.FixedData

/-! The rows of a decoded struct vector. A row is built by inserting the fields one by one under their
names, so of two children with one name only one is left. -/

open Decoding Decode

namespace QuackProtocol

variable {layout : Layout} {children : List ChildType} {vectors : List DecodedVector} {fields : Row}
  {row : Nat}

theorem Row.keys_insert {fields : Row} {name : String} (value : Value)
    (h : (fields.map Prod.fst).Nodup) : ((Row.insert fields name value).map Prod.fst).Nodup := by
  by_cases hmem : name ∈ fields.map Prod.fst
  · have hsame : (Row.insert fields name value).map Prod.fst = fields.map Prod.fst := by
      clear h
      induction fields with
      | nil => cases hmem
      | cons field fields ih =>
          obtain ⟨key, old⟩ := field
          rw [Row.insert]
          by_cases heq : key = name
          · rw [if_pos heq]
            rfl
          · have hrest := (List.mem_cons.mp hmem).resolve_left (Ne.symm heq)
            rw [if_neg heq, List.map_cons, List.map_cons, ih hrest]
    rwa [hsame]
  · rw [Row.insert_of_notMem hmem, List.map_append, List.nodup_append]
    refine ⟨h, by simp, fun key hkey other hother => ?_⟩
    have hname : other = name := List.mem_singleton.mp hother
    rintro rfl
    exact hmem (hname ▸ hkey)

/-- No two entries of a row have one key. -/
theorem Row.keys_ofFields (fields : Row) : ((Row.ofFields fields).map Prod.fst).Nodup := by
  have hfold : ∀ (fields row : Row), (row.map Prod.fst).Nodup →
      ((fields.foldl (fun row field => Row.insert row field.1 field.2) row).map Prod.fst).Nodup := by
    intro fields
    induction fields with
    | nil => exact fun _ h => h
    | cons field fields ih => exact fun row h => ih _ (Row.keys_insert field.2 h)
  exact hfold fields [] List.nodup_nil

theorem foldlM_mem {α β : Type} {f : β → α → Result β} {items : List α} {start result : β}
    (h : items.foldlM f start = .ok result) {item : α} (hmem : item ∈ items) :
    ∃ b b', f b item = .ok b' := by
  induction items generalizing start with
  | nil => cases hmem
  | cons head items ih =>
      rw [List.foldlM_cons] at h
      cases hhead : f start head with
      | error e =>
          rw [hhead] at h
          cases h
      | ok next =>
          rw [hhead] at h
          rcases List.mem_cons.mp hmem with rfl | hrest
          · exact ⟨_, _, hhead⟩
          · exact ih h hrest

/-- A row has a vector for every child. -/
theorem structRow_complete (h : structRow children vectors row = .ok fields) :
    children.length ≤ vectors.length := by
  by_contra hshort
  have hlt : vectors.length < children.length := by omega
  have hmem : (children[vectors.length], vectors.length) ∈ children.zipIdx :=
    List.mk_mem_zipIdx_iff_getElem?.mpr (List.getElem?_eq_getElem hlt)
  obtain ⟨b, b', hinsert⟩ := foldlM_mem h hmem
  rw [insertChild, List.getElem?_eq_none le_rfl] at hinsert
  cases hinsert

/-- What a row has for a child: the value of the child's vector, or NULL where that has none. -/
def fieldOf (row : Nat) (part : ChildType × DecodedVector) : String × Value :=
  (part.1.name, (part.2.values[row]?).getD .null)

theorem structRow_fields (h : structRow children vectors row = .ok fields) :
    fields = Row.ofFields ((children.zip vectors).map (fieldOf row)) := by
  have hlen := structRow_complete h
  have hrow : structRow ((children.zip vectors).map Prod.fst) vectors row =
      .ok (Row.ofFields ((children.zip vectors).map fun part =>
        (part.1.name, (part.2.values[row]?).getD .null))) := by
    apply structRow_eq
    intro i hi
    have hi' : i < vectors.length := by
      rw [List.length_zip] at hi
      omega
    exact ⟨vectors[i], List.getElem?_eq_getElem hi', by rw [List.getElem_zip]⟩
  rw [List.map_fst_zip hlen] at hrow
  cases h.symm.trans hrow
  rfl

/-- The entries of a row are the children's values, each under its name. -/
def KeepsChildren (children : List ChildType) (vectors : List DecodedVector) (row : Nat)
    (fields : Row) : Prop :=
  fields.length = children.length ∧ ∀ j (hj : j < children.length), ∃ vector value,
    vectors[j]? = some vector ∧ vector.values[row]? = some value ∧
      fields[j]? = some (children[j].name, value)

/-- Every child has a value at the row. -/
def ReachRow (children : List ChildType) (vectors : List DecodedVector) (row : Nat) : Prop :=
  ∀ vector ∈ vectors.take children.length, row < vector.values.length

theorem keepsChildren_iff (h : structRow children vectors row = .ok fields) :
    KeepsChildren children vectors row fields ↔
      (children.map ChildType.name).Nodup ∧ ReachRow children vectors row := by
  have hlen := structRow_complete h
  have hfields := structRow_fields h
  have hnames : ((children.zip vectors).map (fieldOf row)).map Prod.fst = children.map ChildType.name := by
    rw [List.map_map]
    show (children.zip vectors).map (ChildType.name ∘ Prod.fst) = _
    rw [← List.map_map, List.map_fst_zip hlen]
  constructor
  · rintro ⟨hcount, hentries⟩
    constructor
    · have hkeys : fields.map Prod.fst = children.map ChildType.name := by
        apply List.ext_getElem (by simpa using hcount)
        intro j hj hj'
        rw [List.length_map] at hj hj'
        obtain ⟨vector, value, -, -, hentry⟩ := hentries j hj'
        rw [List.getElem?_eq_getElem hj, Option.some_inj] at hentry
        rw [List.getElem_map, List.getElem_map, hentry]
      rw [← hkeys, hfields]
      exact Row.keys_ofFields _
    · intro vector hmem
      obtain ⟨j, hj, rfl⟩ := List.mem_iff_getElem.mp hmem
      rw [List.length_take] at hj
      obtain ⟨vector, value, hvector, hvalue, -⟩ := hentries j (by omega)
      rw [List.getElem?_eq_getElem (by omega), Option.some_inj] at hvector
      rw [List.getElem_take, hvector]
      exact (List.getElem?_eq_some_iff.mp hvalue).1
  · rintro ⟨hnodup, hreach⟩
    rw [Row.ofFields_of_nodup (by rwa [hnames])] at hfields
    have hcount : fields.length = children.length := by
      rw [hfields, List.length_map, List.length_zip]
      omega
    refine ⟨hcount, fun j hj => ?_⟩
    have hj' : j < vectors.length := by omega
    have hrow : row < vectors[j].values.length := by
      refine hreach _ (List.mem_iff_getElem.mpr ⟨j, ?_, ?_⟩)
      · rw [List.length_take]
        omega
      · rw [List.getElem_take]
    refine ⟨vectors[j], vectors[j].values[row], List.getElem?_eq_getElem hj',
      List.getElem?_eq_getElem hrow, ?_⟩
    rw [hfields, List.getElem?_map, List.getElem?_eq_getElem (by rw [List.length_zip]; omega),
      List.getElem_zip, Option.map_some, fieldOf, List.getElem?_eq_getElem hrow, Option.getD_some]

/-! ### Vectors -/

theorem run_isValid {validity : Option (List Bool)} {c c' : Cursor} {valid : Bool}
    (h : (isValid validity row).run layout c = .ok (valid, c')) :
    valid = rowValid validity row ∧ c' = c := by
  cases validity with
  | none =>
      cases h
      exact ⟨rfl, rfl⟩
  | some mask =>
      rw [isValid, index] at h
      split at h
      · rename_i valid' hvalid
        cases h
        exact ⟨by rw [rowValid, List.getD_eq_getElem?_getD, hvalid, Option.getD_some], rfl⟩
      · cases h

section
variable {decodeVector : LogicalType → Nat → Decoder DecodedVector} {T : LogicalType} {count : Nat}
  {validity : Option (List Bool)} {c c' : Cursor}

def readChildVectors (decodeVector : LogicalType → Nat → Decoder DecodedVector)
    (children : List ChildType) (count : Nat) : Decoder (List DecodedVector) :=
  readRequiredField 103 (readList .decodedVector fun childIndex =>
    match children[childIndex]? with
    | some child => decodeVector child.logicalType count
    | none =>
      protocolError s!"STRUCT child vector {childIndex} has no matching type metadata")

def decodeStructRow (children : List ChildType) (vectors : List DecodedVector)
    (validity : Option (List Bool)) (row : Nat) : Decoder Value :=
  maskedRow validity row do
    let fields ← ofResult (structRow children vectors row)
    pure (.struct fields)

/-- A flat struct body, as far as its mask and its child vectors. -/
def StructBody (layout : Layout) (decodeVector : LogicalType → Nat → Decoder DecodedVector)
    (children : List ChildType) (count : Nat) (c : Cursor) (validity : Option (List Bool))
    (vectors : List DecodedVector) : Prop :=
  ∃ c₁ c₂, (readMask count).run layout c = .ok (validity, c₁) ∧
    (readChildVectors decodeVector children count).run layout c₁ = .ok (vectors, c₂)

theorem structVector_rows {vector : DecodedVector} (physical : getPhysicalType T = .ok .struct)
    (hchildren : getStructChildren T = .ok children)
    (hbody : StructBody layout decodeVector children count c validity vectors)
    (hrun : (decodeFlatVectorBody decodeVector T count .flat).run layout c = .ok (vector, c')) :
    vector.values.length = count ∧ ∀ row (h : row < vector.values.length), ∃ c₁ c₂,
      (decodeStructRow children vectors validity row).run layout c₁ =
        .ok (vector.values[row], c₂) := by
  obtain ⟨c₁, c₂, hmask, hvectors⟩ := hbody
  have hgeometry : T.id ≠ .geometry := by
    intro hid
    rw [getPhysicalType, hid] at physical
    cases physical
  rw [decodeFlatVectorBody, skipGeometryField, if_neg hgeometry, physical] at hrun
  change (readMask count >>= fun validity => decodeStructValues decodeVector T count validity >>=
    fun values => pure (⟨T, .flat, values⟩ : DecodedVector)).run layout c = _ at hrun
  rw [run_bind_ok hmask] at hrun
  obtain ⟨values, c₃, hvalues, hrun⟩ := run_bind_eq_ok hrun
  cases hrun
  rw [decodeStructValues, hchildren] at hvalues
  change (readChildVectors decodeVector children count >>= fun vectors =>
    withCapacity .value count >>= fun _ =>
      collect (decodeStructRow children vectors validity) 0 count).run layout c₁ = _ at hvalues
  rw [run_bind_ok hvectors] at hvalues
  obtain ⟨_, c₄, -, hrows⟩ := run_bind_eq_ok hvalues
  obtain ⟨hlen, hrows⟩ := collect_eq_ok hrows
  refine ⟨hlen, fun row hrow => ?_⟩
  have h := hrows row hrow
  rwa [Nat.zero_add] at h

/-- A valid row has every child's value exactly if the children have distinct names and a value for
the row each. -/
theorem structVector_keeps_iff {vector : DecodedVector} (physical : getPhysicalType T = .ok .struct)
    (hchildren : getStructChildren T = .ok children)
    (hbody : StructBody layout decodeVector children count c validity vectors)
    (hrun : (decodeFlatVectorBody decodeVector T count .flat).run layout c = .ok (vector, c')) :
    (∀ row < count, rowValid validity row = true → ∃ fields,
        vector.values[row]? = some (.struct fields) ∧ KeepsChildren children vectors row fields) ↔
      ∀ row < count, rowValid validity row = true →
        (children.map ChildType.name).Nodup ∧ ReachRow children vectors row := by
  obtain ⟨hlen, hrows⟩ := structVector_rows physical hchildren hbody hrun
  apply forall₃_congr
  intro row hrow hvalid
  obtain ⟨c₁, c₂, hdecoded⟩ := hrows row (by omega)
  obtain ⟨valid, c₃, hisValid, hentered⟩ := run_bind_eq_ok hdecoded
  obtain ⟨rfl, -⟩ := run_isValid hisValid
  rw [if_pos hvalid] at hentered
  obtain ⟨fields, c₄, hfields, hpushed⟩ := run_bind_eq_ok hentered
  have hrowOk : structRow children vectors row = .ok fields := by
    cases hresult : structRow children vectors row with
    | ok fields' =>
        rw [hresult] at hfields
        cases hfields
        rfl
    | error e =>
        rw [hresult] at hfields
        cases hfields
  have hvalue : vector.values[row]? = some (.struct fields) := by
    rw [run_pure, Outcome.ok.injEq, Prod.mk.injEq] at hpushed
    rw [List.getElem?_eq_getElem (by omega), hpushed.1]
  rw [← keepsChildren_iff hrowOk, hvalue]
  constructor
  · rintro ⟨fields', hsome, hkeeps⟩
    cases hsome
    exact hkeeps
  · exact fun hkeeps => ⟨fields, rfl, hkeeps⟩

end

/-- A struct of two BOOLEAN children. -/
def pairType (first second : String) : LogicalType :=
  ⟨.struct, some (.struct none [⟨first, ⟨.boolean, none⟩⟩, ⟨second, ⟨.boolean, none⟩⟩])⟩

def pairChildren (first second : String) : List ChildType :=
  [⟨first, ⟨.boolean, none⟩⟩, ⟨second, ⟨.boolean, none⟩⟩]

/-- One row, true and false. -/
def pairBody : Bytes :=
  [100, 0, 0, 103, 0, 2, 100, 0, 0, 102, 0, 1, 1, 0xff, 0xff, 100, 0, 0, 102, 0, 1, 0, 0xff, 0xff]

def pairVectors : List DecodedVector :=
  [⟨⟨.boolean, none⟩, .flat, [.bool true]⟩, ⟨⟨.boolean, none⟩, .flat, [.bool false]⟩]

theorem pairBody_keeps : ∃ vector c',
    (decodeFlatVectorBody decodeVector (pairType "a" "b") 1 .flat).run .words ⟨pairBody, 0⟩ =
      .ok (vector, c') ∧
    ∀ row < 1, rowValid none row = true → ∃ fields, vector.values[row]? = some (.struct fields) ∧
      KeepsChildren (pairChildren "a" "b") pairVectors row fields := by
  have hbody : StructBody .words decodeVector (pairChildren "a" "b") 1 ⟨pairBody, 0⟩ none pairVectors :=
    ⟨⟨pairBody, 3⟩, ⟨pairBody, 24⟩, rfl, rfl⟩
  have hphysical : getPhysicalType (pairType "a" "b") = .ok .struct := rfl
  obtain ⟨vector, c', hrun⟩ : ∃ vector c', (decodeFlatVectorBody decodeVector (pairType "a" "b") 1
      .flat).run .words ⟨pairBody, 0⟩ = .ok (vector, c') := ⟨_, _, rfl⟩
  refine ⟨vector, c', hrun, (structVector_keeps_iff hphysical rfl hbody hrun).mpr fun row hrow _ => ?_⟩
  obtain rfl : row = 0 := by omega
  exact ⟨by decide, by simp [ReachRow, pairVectors]⟩

/-- Two unnamed children leave one entry. -/
theorem not_pairBody_keeps : ∃ vector c',
    (decodeFlatVectorBody decodeVector (pairType "" "") 1 .flat).run .words ⟨pairBody, 0⟩ =
      .ok (vector, c') ∧
    StructBody .words decodeVector (pairChildren "" "") 1 ⟨pairBody, 0⟩ none pairVectors ∧
    ¬ ∀ row < 1, rowValid none row = true → ∃ fields, vector.values[row]? = some (.struct fields) ∧
      KeepsChildren (pairChildren "" "") pairVectors row fields := by
  refine ⟨_, _, rfl, ⟨⟨pairBody, 3⟩, ⟨pairBody, 24⟩, rfl, rfl⟩, fun h => ?_⟩
  obtain ⟨fields, hfields, hlen, -⟩ := h 0 (by decide) rfl
  cases hfields
  exact absurd hlen (by decide)

end QuackProtocol
