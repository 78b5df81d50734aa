import QuackProtocol.Wire

/-! The decoder of a message and the reader without limits go through the bytes side by side. -/

open Decoding Decode Varint

namespace QuackProtocol

variable {layout : Layout} {α β : Type} {T : LogicalType}

/-- Side by side, with equal results. -/
abbrev Parallel (layout : Layout) (m : Decoder α) (s : Wire α) : Prop := Outlined layout m s fun a b => b = a

theorem outlined_ensure (length : Nat) : Outlined layout (ensure length) (Wire.ensure length) fun _ _ => True := by
  refine .same .cursor fun reader => .usizeAdd (.ite (fun _ => ?_) fun _ => .pure trivial)
  exact .fail _

theorem outlined_assertEof : Outlined layout assertEof Wire.endOfInput fun _ _ => True :=
  .same .cursor fun _ => .ite (fun _ => .pure trivial) fun _ => .fail _

theorem parallel_peekFieldId : Parallel layout peekFieldId Wire.nextFieldId := by
  refine (outlined_ensure 2).bind fun _ _ _ => .same .cursor fun reader => ?_
  exact .lookup fun low _ => .usizeAdd (.lookup fun high _ => .pure rfl)

theorem parallel_readFieldId : Parallel layout readFieldId Wire.fieldId := by
  refine .same parallel_peekFieldId fun value => .same .cursor fun reader => .usizeAdd ?_
  exact .setOffset (.pure rfl)

theorem outlined_readEndObject : Outlined layout readEndObject Wire.endObject fun _ _ => True :=
  .same parallel_readFieldId fun _ => .ite (fun _ => .pure trivial) fun _ => .failAt _

section
variable {m : Decoder α} {s : Wire β} {rel : α → β → Prop}

theorem outlined_object (h : Outlined layout m s rel) : Outlined layout (readObject m) (Wire.object s) rel :=
  h.bind fun _ _ hab => outlined_readEndObject.bind fun _ _ _ => .pure hab

theorem outlined_required (fieldId : Nat) (h : Outlined layout m s rel) :
    Outlined layout (readRequiredField fieldId m) (Wire.required fieldId s) rel :=
  .same parallel_readFieldId fun _ => .ite (fun _ => h) fun _ => .failAt _

theorem outlined_optional {a : α} {b : β} (fieldId : Nat) (h : Outlined layout m s rel) (hdefault : rel a b) :
    Outlined layout (readOptionalField fieldId m a) (Wire.optional fieldId s b) rel :=
  .same parallel_peekFieldId fun _ =>
    .ite (fun _ => .same parallel_readFieldId fun _ => h) fun _ => .pure hdefault

end

theorem parallel_readByte : Parallel layout readByte Wire.byte := by
  refine (outlined_ensure 1).bind fun _ _ _ => .same .cursor fun reader => ?_
  exact .lookup fun value _ => .usizeAdd (.setOffset (.pure rfl))

theorem parallel_slice {xs : List α} {start length : Nat} :
    Parallel layout (slice xs start (start + length)) (pure ((xs.drop start).take length)) := by
  rw [← bind_pure (slice xs start (start + length))]
  refine .slice ?_
  rw [Nat.add_sub_cancel_left]
  exact .pure rfl

theorem parallel_readBytes (length : Nat) : Parallel layout (readBytes length) (Wire.bytes length) := by
  refine .same .cursor fun reader => .audit fun _ => (outlined_ensure length).bind fun _ _ _ => ?_
  exact .usizeAdd (.setOffset parallel_slice)

theorem parallel_readFixed (size : Nat) : Parallel layout (readFixed size) (Wire.word size) := by
  rw [readFixed, readArray]
  simp only [bind_assoc]
  refine (outlined_ensure size).bind fun _ _ _ => .same .cursor fun reader => .usizeAdd (.setOffset (.slice ?_))
  rw [Nat.add_sub_cancel_left]
  exact .pure rfl

theorem parallel_readBool : Parallel layout readBool Wire.bool :=
  .same parallel_readByte fun _ =>
    .ite (fun _ => .pure rfl) fun _ => .ite (fun _ => .pure rfl) fun _ => .fail _

theorem outlined_shiftLeft128 {value : BitVec 128} {shift : Nat} {f : BitVec 128 → Decoder α} {s : Wire β}
    {rel : α → β → Prop} (h : Outlined layout (f (value <<< shift)) s rel) :
    Outlined layout (shiftLeft128 value shift >>= f) s rel := by
  rw [shiftLeft128, bind_assoc]
  exact .check fun _ => h

theorem parallel_readUlebLoop (passes : Nat) (result : U128) (shift : Nat) :
    Parallel layout (readUlebLoop passes result shift) (Wire.ulebGroups passes result shift) := by
  induction passes generalizing result shift with
  | zero => exact .fail _
  | succ passes ih =>
      refine .same parallel_readByte fun byte => outlined_shiftLeft128 ?_
      exact .ite (fun _ => .pure rfl) fun _ => ih _ _

theorem parallel_readUlebU128 : Parallel layout readUlebU128 Wire.uleb128 := parallel_readUlebLoop 19 0 0

theorem parallel_readUlebU64 : Parallel layout readUlebU64 Wire.uleb64 :=
  .same parallel_readUlebU128 fun _ => .ite (fun _ => .pure rfl) fun _ => .fail _

theorem parallel_readUlebUsize : Parallel layout readUlebUsize Wire.size :=
  .same parallel_readUlebU128 fun _ => .ite (fun _ => .pure rfl) fun _ => .fail _

theorem parallel_readSlebLoop (passes : Nat) (result : I128) (shift : Nat) :
    Parallel layout (readSlebLoop passes result shift) (Wire.slebGroups passes result shift) := by
  induction passes generalizing result shift with
  | zero => exact .fail _
  | succ passes ih =>
      refine .same parallel_readByte fun byte => outlined_shiftLeft128 (.ite (fun _ => ?_) fun _ => ih _ _)
      refine .ite (fun _ => .pure rfl) fun _ => .audit fun _ => ?_
      exact outlined_shiftLeft128 (.pure rfl)

theorem parallel_readSlebI128 : Parallel layout readSlebI128 Wire.sleb128 := parallel_readSlebLoop 19 0 0

theorem outlined_readHugeIntParts : Outlined layout readHugeIntParts Wire.hugeInt fun _ _ => True := by
  rw [readHugeIntParts, readSlebI64, bind_assoc]
  refine .same parallel_readSlebI128 fun upper => ?_
  by_cases hrange : -2 ^ 63 ≤ upper.toInt ∧ upper.toInt < 2 ^ 63
  · rw [if_pos hrange, if_pos hrange, pure_bind]
    exact .same parallel_readUlebU64 fun _ => .pure trivial
  · rw [if_neg hrange, if_neg hrange]
    exact .fail _

theorem parallel_readBlob : Parallel layout readBlob Wire.blob :=
  .same parallel_readUlebUsize fun length => parallel_readBytes length

theorem parallel_ofResult {x : Result α} : Parallel layout (ofResult x) (Outline.ofResult x) := by
  cases x with
  | ok a => exact .pure rfl
  | error e => exact .fail e

theorem parallel_readString : Parallel layout readString Wire.text :=
  .same parallel_readBlob fun _ => parallel_ofResult

theorem outlined_withCapacity {element : Element} {count : Nat} {f : Unit → Decoder α} {g : Unit → Wire β}
    {rel : α → β → Prop} (h : Outlined layout (f ()) (g ()) rel) :
    Outlined layout (withCapacity element count >>= f) (Outline.declare (.reserve element count) >>= g) rel := by
  rw [withCapacity, bind_assoc]
  refine .ask (.audit fun _ => ?_)
  rw [reserve]
  exact .check fun _ => h

theorem outlined_readList {readElement : Nat → Decoder α} {read : Nat → Wire β} {rel : α → β → Prop}
    (element : Element) (h : ∀ i, Outlined layout (readElement i) (read i) rel) :
    Outlined layout (readList element readElement) (Wire.list element read) (List.Forall₂ rel) :=
  .same parallel_readUlebUsize fun length => outlined_withCapacity <|
    (Outlined.collect h 0 length).weaken fun _ _ hall => hall.2

theorem parallel_readList {readElement : Nat → Decoder α} {read : Nat → Wire α} (element : Element)
    (h : ∀ i, Parallel layout (readElement i) (read i)) :
    Parallel layout (readList element readElement) (Wire.list element read) := by
  refine (outlined_readList element h).weaken fun values results hall => ?_
  induction hall with
  | nil => rfl
  | cons heq _ ih => rw [heq, ih]

theorem outlined_readNullable {m : Decoder α} {s : Wire β} {rel : α → β → Prop} (h : Outlined layout m s rel) :
    Outlined layout (readNullable m) (Wire.nullable s) (Option.Rel rel) :=
  .same parallel_readBool fun _ =>
    .ite (fun _ => h.bind fun _ _ hab => .pure (.some hab)) fun _ => .pure .none

theorem parallel_readOptionalString (fieldId : Nat) :
    Parallel layout (readOptionalString fieldId) (Wire.optionalText fieldId) :=
  outlined_optional fieldId (.same parallel_readString fun _ => .pure rfl) rfl

theorem outlined_rejectField (fieldId : Nat) (message : String) :
    Outlined layout (rejectField fieldId message) (Wire.reject fieldId) fun _ _ => True :=
  .same parallel_peekFieldId fun _ => .ite (fun _ => .fail _) fun _ => .pure trivial

section
variable {decodeLogicalType : Decoder LogicalType} {logicalType : Wire LogicalType}
  (h : Parallel layout decodeLogicalType logicalType)
include h

theorem parallel_decodeChildTypes : Parallel layout (decodeChildTypes decodeLogicalType)
    (Wire.childTypes logicalType) := by
  refine parallel_readList .childType fun _ => outlined_object ?_
  refine .same (outlined_required 0 parallel_readString) fun name => ?_
  exact .same (outlined_required 1 h) fun childType => .pure rfl

theorem parallel_decodeInfoBody (typeAlias : Option String) (typeId : ExtraTypeInfoType) :
    Parallel layout (decodeInfoBody decodeLogicalType typeAlias typeId)
      (Wire.infoBody logicalType typeAlias typeId) := by
  cases typeId with
  | invalid => exact .pure rfl
  | generic => exact .pure rfl
  | decimal =>
      refine .same (outlined_optional 200 parallel_readUlebU64 rfl) fun width => ?_
      exact .same (outlined_optional 201 parallel_readUlebU64 rfl) fun scale => .pure rfl
  | string => exact .same (outlined_optional 200 parallel_readString rfl) fun collation => .pure rfl
  | list => exact .same (outlined_required 200 h) fun childType => .pure rfl
  | struct => exact .same (outlined_optional 200 (parallel_decodeChildTypes h) rfl) fun children => .pure rfl
  | enum =>
      refine .same (outlined_required 200 parallel_readUlebUsize) fun count => ?_
      refine .same (outlined_required 201 (parallel_readList .string fun _ => parallel_readString)) fun values => ?_
      exact .ite (fun _ => .fail _) fun _ => .pure rfl
  | aggregateState =>
      refine .same (outlined_required 200 parallel_readString) fun functionName => ?_
      refine .same (outlined_required 201 h) fun returnType => ?_
      exact .same (outlined_required 202 (parallel_readList .logicalType fun _ => h)) fun arguments => .pure rfl
  | array =>
      refine .same (outlined_required 200 h) fun childType => ?_
      exact .same (outlined_required 201 parallel_readUlebU64) fun size => .pure rfl
  | any =>
      refine .same (outlined_required 200 h) fun targetType => ?_
      exact .same (outlined_required 201 parallel_readUlebU64) fun castScore => .pure rfl
  | template => exact .same (outlined_optional 200 parallel_readString rfl) fun name => .pure rfl
  | integerLiteral => exact (outlined_rejectField 200 _).bind fun _ _ _ => .pure rfl
  | geo =>
      have hcrs : Parallel layout decodeCoordinateReferenceSystem Wire.coordinateReferenceSystem :=
        outlined_object (.same (parallel_readOptionalString 100) fun definition => .pure rfl)
      exact .same (outlined_optional 200 hcrs rfl) fun crs => .pure rfl
  | unbound =>
      refine (outlined_rejectField 204 _).bind fun _ _ _ => ?_
      refine .same (parallel_readOptionalString 200) fun name => ?_
      refine .same (parallel_readOptionalString 201) fun catalog => ?_
      exact .same (parallel_readOptionalString 202) fun schema => .pure rfl

theorem parallel_decodeExtraTypeInfo : Parallel layout (decodeExtraTypeInfo decodeLogicalType)
    (Wire.extraTypeInfo logicalType) := by
  refine outlined_object (.same (outlined_required 100 parallel_readUlebU64) fun code => ?_)
  refine .ofResult fun typeId _ => .same (parallel_readOptionalString 101) fun typeAlias => ?_
  exact (outlined_rejectField 103 _).bind fun _ _ _ => parallel_decodeInfoBody h typeAlias typeId

end

theorem parallel_decodeLogicalTypeWithin (budget : Nat) :
    Parallel layout (decodeLogicalTypeWithin budget) (Wire.logicalTypeWithin budget) := by
  induction budget with
  | zero => exact .panic .recursion
  | succ budget ih =>
      refine .nested (outlined_object (.same (outlined_required 100 parallel_readUlebU64) fun code => ?_))
      refine .ofResult fun id _ => ?_
      refine .same (outlined_optional 101 ?_ rfl) fun typeInfo => .pure rfl
      refine (outlined_readNullable (parallel_decodeExtraTypeInfo ih)).weaken fun info info' hinfo => ?_
      cases hinfo with
      | some heq => rw [heq]
      | none => rfl

theorem parallel_decodeLogicalType : Parallel layout decodeLogicalType Wire.logicalType :=
  .withBudget parallel_decodeLogicalTypeWithin

/-! ### Vectors -/

/-- A vector and the number of its values. -/
abbrev Sized (vector : DecodedVector) (count : Nat) : Prop := vector.values.length = count

/-- Values and their number. -/
abbrev ValueCount (values : List Value) (count : Nat) : Prop := values.length = count

theorem parallel_readValidityMask (count : Nat) :
    Parallel layout (readValidityMask count) (Wire.validityMask count) :=
  .usizeMul <| .same parallel_readBlob fun _ =>
    .ite (fun _ => .fail _) fun _ => outlined_withCapacity (.pure rfl)

theorem parallel_readMask (count : Nat) : Parallel layout (readMask count) (Wire.mask count) := by
  refine .same (outlined_required 100 parallel_readBool) fun present => .ite (fun _ => ?_) fun _ => .pure rfl
  exact .same (outlined_required 101 (parallel_readValidityMask count)) fun bits => .pure rfl

section
variable {s : Wire β} {rel : α → β → Prop} {validity : Option (List Bool)} {row : Nat}

theorem outlined_isValid {f : Bool → Decoder α} (h : Outlined layout (f (rowValid validity row)) s rel) :
    Outlined layout (isValid validity row >>= f) s rel := by
  cases validity with
  | none => exact h
  | some mask =>
      refine .index fun valid hvalid => ?_
      rwa [rowValid, List.getD_eq_getElem?_getD, hvalid] at h

theorem outlined_maskedRow {value : Decoder Value} {s : Wire Unit} (h : Outlined layout value s fun _ _ => True) :
    Outlined layout (maskedRow validity row value) (if rowValid validity row then s else pure ())
      fun _ _ => True :=
  outlined_isValid (.ite (fun _ => h) fun _ => .pure trivial)

theorem outlined_result {x : Result Value} :
    Outlined layout (ofResult x) (Outline.ofResult x >>= fun _ => pure () : Wire Unit) fun _ _ => True := by
  rw [← bind_pure (ofResult x)]
  exact .ofResult fun _ _ => .pure trivial

/-- A computation that succeeds exactly if the outline's condition holds. -/
theorem outlined_decided {γ : Type} {x : Result γ} {holds : Prop} [Decidable holds] {f : γ → Decoder α}
    (hiff : (∃ a, x = .ok a) ↔ holds) (h : ∀ a, x = .ok a → Outlined layout (f a) s rel) :
    Outlined layout (ofResult x >>= f) (if holds then s else Outline.fail) rel := by
  cases x with
  | ok a =>
      rw [if_pos (hiff.mp ⟨a, rfl⟩)]
      exact h a rfl
  | error e =>
      rw [if_neg]
      · exact .fail e
      · intro hholds
        obtain ⟨a, ha⟩ := hiff.mpr hholds
        cases ha

theorem outlined_decodeFixedValue (T : LogicalType) (physicalType : PhysicalType) :
    Outlined layout (decodeFixedValue T physicalType) (Wire.fixedElement T physicalType) fun _ _ => True := by
  cases physicalType with
  | bool => exact .same (parallel_readFixed 1) fun _ => .pure trivial
  | int8 => exact .same (parallel_readFixed 1) fun _ => .pure trivial
  | uint8 => exact .same (parallel_readFixed 1) fun _ => outlined_result
  | int16 => exact .same (parallel_readFixed 2) fun _ => outlined_result
  | uint16 => exact .same (parallel_readFixed 2) fun _ => outlined_result
  | int32 => exact .same (parallel_readFixed 4) fun _ => outlined_result
  | uint32 => exact .same (parallel_readFixed 4) fun _ => outlined_result
  | int64 => exact .same (parallel_readFixed 8) fun _ => outlined_result
  | uint64 => exact .same (parallel_readFixed 8) fun _ => .pure trivial
  | float => exact .same (parallel_readFixed 4) fun _ => .pure trivial
  | double => exact .same (parallel_readFixed 8) fun _ => .pure trivial
  | int128 => exact .same (parallel_readFixed 8) fun _ => .same (parallel_readFixed 8) fun _ => outlined_result
  | uint128 => exact .same (parallel_readFixed 8) fun _ => .same (parallel_readFixed 8) fun _ => .pure trivial
  | interval =>
      refine .same (parallel_readFixed 4) fun _ => .same (parallel_readFixed 4) fun _ => ?_
      exact .same (parallel_readFixed 8) fun _ => .pure trivial
  | _ => exact .fail _

theorem outlined_decodeFixedVector {physicalType : PhysicalType} {count : Nat} :
    Outlined layout (decodeFixedVector T physicalType count validity) (Wire.fixedVector T physicalType count)
      ValueCount := by
  refine .ofResult fun size _ => .audit fun _ => .usizeMul ?_
  refine .same (outlined_required 102 parallel_readBlob) fun bytes => .ite (fun _ => .fail _) fun _ => ?_
  refine outlined_withCapacity ?_
  have hrow (row : Nat) : Outlined layout (do
        let value ← decodeFixedValue T physicalType
        let valid ← isValid validity row
        pure (if valid then value else .null)) (Wire.fixedElement T physicalType) fun _ _ => True :=
    (outlined_decodeFixedValue T physicalType).finish fun _ _ _ => outlined_isValid (.pure trivial)
  have hrows : Outlined layout (collect (fun row => do
        let value ← decodeFixedValue T physicalType
        let valid ← isValid validity row
        pure (if valid then value else .null)) 0 count >>= fun values => assertEof >>= fun _ => pure values)
      (Outline.collect (fun _ => Wire.fixedElement T physicalType) 0 count >>= fun _ => Wire.endOfInput)
      fun values _ => values.length = count :=
    (Outlined.collect hrow 0 count).bind fun values _ hvalues =>
      outlined_assertEof.finish fun _ _ _ => .pure hvalues.1
  exact hrows.onBytes.mapped fun _ _ hvalues => hvalues

theorem outlined_rows {f : Nat → Decoder Value} {g : Nat → Wire Unit} {count : Nat}
    (h : ∀ row, Outlined layout (f row) (g row) fun _ _ => True) :
    Outlined layout (collect f 0 count) (Outline.collect g 0 count >>= fun _ => pure count) ValueCount :=
  Outlined.mapped (Outlined.collect h 0 count) fun _ _ hrows => hrows.1

theorem outlined_decodeVarcharValues {count : Nat} :
    Outlined layout (decodeVarcharValues T count validity) (Wire.texts T count validity) ValueCount := by
  refine .same (outlined_required 102 (parallel_readList .blob fun _ => parallel_readBlob)) fun raw => ?_
  refine .record fun _ => ?_
  refine outlined_rows fun row => ?_
  refine .audit fun _ => outlined_isValid (.ite (fun _ => ?_) fun _ => .pure trivial)
  refine .index fun bytes hbytes => ?_
  rw [List.getD_eq_getElem?_getD, hbytes]
  exact outlined_result

end

section
variable {decodeVector : LogicalType → Nat → Decoder DecodedVector} {vector : LogicalType → Nat → Wire Nat}
  {validity : Option (List Bool)}

theorem structRow_of_complete {children : List ChildType} {vectors : List DecodedVector} (row : Nat)
    (hle : children.length ≤ vectors.length) : ∃ fields, structRow children vectors row = .ok fields := by
  rw [← List.map_fst_zip hle]
  refine ⟨_, @structRow_eq _ (children.zip vectors) Prod.fst vectors row
    (fun part => (part.2.values[row]?).getD .null) fun i hi => ?_⟩
  have hi' : i < vectors.length := by
    rw [List.length_zip] at hi
    omega
  exact ⟨vectors[i], List.getElem?_eq_getElem hi', by rw [List.getElem_zip]⟩

/-- A row of a struct column, where every child has a vector. -/
theorem outlined_structRow {children : List ChildType} {vectors : List DecodedVector} {columns : List Nat}
    (hlen : vectors.length = columns.length) (row : Nat) :
    Outlined layout (do
      let fields ← ofResult (structRow children vectors row)
      pure (Value.struct fields))
      (if children.length ≤ columns.length then pure () else Outline.fail : Wire Unit) fun _ _ => True := by
  refine outlined_decided ⟨?_, fun hle => structRow_of_complete row (hlen ▸ hle)⟩ fun fields _ => .pure trivial
  rintro ⟨fields, hrow⟩
  exact hlen ▸ structRow_complete hrow

variable (h : ∀ T count, Outlined layout (decodeVector T count) (vector T count) Sized)
include h

theorem outlined_decodeStructValues {count : Nat} :
    Outlined layout (decodeStructValues decodeVector T count validity) (Wire.structVector vector T count validity)
      ValueCount := by
  refine .ofResult fun children _ => ?_
  refine (outlined_required 103 (outlined_readList .decodedVector fun i => ?child)).bind
    fun vectors columns (hcolumns : List.Forall₂ Sized vectors columns) => ?rows
  case child =>
    cases children[i]? with
    | some child => exact h _ count
    | none => exact .fail _
  case rows =>
    refine outlined_withCapacity (outlined_rows fun row => ?_)
    exact outlined_maskedRow (outlined_structRow hcolumns.length_eq row)

omit h in
theorem parallel_readListEntries (count : Nat) :
    Parallel layout (readListEntries count) (Wire.listEntries count) := by
  refine .same (parallel_readList .listEntry fun _ => outlined_object ?_) fun entries =>
    .ite (fun _ => .fail _) fun _ => .pure rfl
  refine .same (outlined_required 100 parallel_readUlebUsize) fun offset => ?_
  exact .same (outlined_required 101 parallel_readUlebUsize) fun length => .pure rfl

theorem outlined_decodeListValues {count : Nat} :
    Outlined layout (decodeListValues decodeVector T count validity) (Wire.listVector vector T count validity)
      ValueCount := by
  refine .same (outlined_required 104 parallel_readUlebUsize) fun listSize => ?_
  refine .same (outlined_required 105 (parallel_readListEntries count)) fun entries => .ofResult fun childType _ => ?_
  refine (outlined_required 106 (h childType listSize)).bind fun childVector values hvalues => ?_
  refine outlined_withCapacity (outlined_rows fun row => ?_)
  refine .lookup fun entry _ => outlined_maskedRow (.audit fun _ => .usizeAdd ?_)
  rw [← hvalues]
  exact .audit fun _ => .slice (.pure trivial)

theorem outlined_decodeArrayValues {count : Nat} :
    Outlined layout (decodeArrayValues decodeVector T count validity) (Wire.arrayVector vector T count validity)
      ValueCount := by
  refine .same (outlined_required 103 parallel_readUlebUsize) fun arraySize => .ofResult fun expected _ => ?_
  refine .ite (fun _ => .fail _) fun _ => .ofResult fun childType _ => ?_
  refine (outlined_required 104 (.audit fun _ => .usizeMul (h childType _))).bind fun childVector values hvalues => ?_
  refine outlined_withCapacity (outlined_rows fun row => ?_)
  refine outlined_maskedRow (.usizeMul (.usizeAdd ?_))
  rw [← hvalues]
  exact .audit fun _ => .slice (.pure trivial)

theorem outlined_decodeFlatVectorBody {count : Nat} {vectorType : VectorType} :
    Outlined layout (decodeFlatVectorBody decodeVector T count vectorType) (Wire.flatVector vector T count) Sized := by
  have hskip : Outlined layout (skipGeometryField T) (Wire.skipGeometry T) fun _ _ => True := by
    refine .ite (fun _ => ?_) fun _ => .pure trivial
    refine .same parallel_peekFieldId fun next => .ite (fun _ => ?_) fun _ => .pure trivial
    exact .same (outlined_required 99 parallel_readUlebU64) fun _ => .pure trivial
  refine hskip.bind fun _ _ _ => .same (parallel_readMask count) fun validity => .ofResult fun physicalType _ => ?_
  have hdata : Outlined layout (decodeFlatData decodeVector T physicalType count validity)
      (Wire.flatData vector T physicalType count validity) ValueCount := by
    refine .ite (fun _ => outlined_decodeFixedVector) fun _ => ?_
    cases physicalType with
    | varchar => exact outlined_decodeVarcharValues
    | struct => exact outlined_decodeStructValues h
    | list => exact outlined_decodeListValues h
    | array => exact outlined_decodeArrayValues h
    | _ => exact .fail _
  exact hdata.finish fun _ _ hvalues => .pure hvalues

end

theorem outlined_readSelectionVector (count : Nat) :
    Parallel layout (readSelectionVector count) (Wire.selection count) := by
  refine .audit fun _ => .usizeMul (.same parallel_readBlob fun bytes => ?_)
  exact .ite (fun _ => .fail _) fun _ => outlined_withCapacity (.pure rfl)

/-- What a dictionary selects is there exactly if every position is. -/
theorem select_ok_iff {dictionary : List Value} {selection : List Nat} :
    (∃ values, (selection.mapM fun position => match dictionary[position]? with
      | some value => .ok value
      | none => .error (.protocol s!"dictionary selection {position} is out of range") : Result _) =
        .ok values) ↔ ∀ position ∈ selection, position < dictionary.length := by
  induction selection with
  | nil => exact iff_of_true ⟨[], rfl⟩ (List.forall_mem_nil _)
  | cons position selection ih =>
      rw [List.forall_mem_cons, ← ih, List.mapM_cons]
      constructor
      · rintro ⟨values, h⟩
        obtain ⟨first, hfirst, h⟩ := Except.bind_eq_ok h
        obtain ⟨rest, hrest, -⟩ := Except.bind_eq_ok h
        refine ⟨?_, rest, hrest⟩
        by_contra hnot
        rw [List.getElem?_eq_none (by omega)] at hfirst
        cases hfirst
      · rintro ⟨hposition, rest, hrest⟩
        rw [List.getElem?_eq_getElem hposition, hrest]
        exact ⟨_, rfl⟩

theorem length_select {dictionary values : List Value} {selection : List Nat}
    (h : (selection.mapM fun position => match dictionary[position]? with
      | some value => .ok value
      | none => .error (.protocol s!"dictionary selection {position} is out of range") : Result _) =
        .ok values) : values.length = selection.length :=
  (Except.mapM_ok_iff.mp h).length_eq.symm

theorem outlined_sequenceNumber (start increment : I128) (index : Nat) {f : I128 → Decoder α} {g : Unit → Wire β}
    {rel : α → β → Prop}
    (h : Outlined layout (f (BitVec.ofInt 128 (start.toInt + increment.toInt * index))) (g ()) rel) :
    Outlined layout (sequenceNumber start increment index >>= f)
      (Outline.declare (.sequence start increment index) >>= g) rel := by
  refine .audit fun _ => ?_
  rw [bind_assoc]
  exact .check fun _ => h

theorem outlined_decodeVectorBody (budget : Nat) (T : LogicalType) (count : Nat) :
    Outlined layout (decodeVectorBody budget T count) (Wire.vectorWithin budget T count) Sized := by
  induction budget generalizing T count with
  | zero => exact .panic .recursion
  | succ budget ih =>
      refine .nested (.same (outlined_optional 90 parallel_readUlebU64 rfl) fun code => .ofResult fun vectorType _ => ?_)
      have recorded {data : Decoder DecodedVector} {size : Wire Nat} (hdata : Outlined layout data size Sized) :
          Outlined layout (data >>= fun vector => do
            record (.vector count vector.values.length)
            pure vector) (size >>= fun values => do
              Outline.declare (.vector count values)
              pure values) Sized := by
        refine hdata.bind fun vector values hvalues => ?_
        rw [← hvalues]
        exact .record fun _ => .pure rfl
      cases vectorType with
      | flat => exact recorded (outlined_decodeFlatVectorBody fun T count => outlined_object (ih T count))
      | fsst => exact recorded (.fail _)
      | constant =>
          refine recorded ((ih T _).bind fun decoded _ _ => outlined_withCapacity (.pure ?_))
          exact List.length_replicate
      | dictionary =>
          refine recorded (.same (outlined_required 91 (outlined_readSelectionVector count)) fun selection => ?_)
          refine .same (outlined_required 92 parallel_readUlebUsize) fun dictionaryCount => ?_
          refine (ih T dictionaryCount).bind fun dictionary n hn => outlined_withCapacity ?_
          rw [← hn]
          exact outlined_decided select_ok_iff fun values hvalues => .pure (length_select hvalues)
      | sequence =>
          refine recorded (.same (outlined_required 91 parallel_readSlebI128) fun start => ?_)
          refine .same (outlined_required 92 parallel_readSlebI128) fun increment => ?_
          have hrow (position : Nat) : Outlined layout (do
              let number ← sequenceNumber start increment position
              let value ← ofResult (decodeSequenceValue T number)
              withCapacity .value (position + 1)
              pure value) (do
                Outline.declare (.sequence start increment position)
                let _ ← Outline.ofResult
                  (decodeSequenceValue T (BitVec.ofInt 128 (start.toInt + increment.toInt * position)))
                Outline.declare (.reserve .value (position + 1))
                pure ()) fun _ _ => True :=
            outlined_sequenceNumber start increment position
              (.ofResult fun value _ => outlined_withCapacity (.pure trivial))
          exact (outlined_rows hrow).finish fun _ _ hvalues => .pure hvalues

theorem outlined_decodeVector (T : LogicalType) (count : Nat) :
    Outlined layout (decodeVector T count) (Wire.vector T count) Sized :=
  .withBudget fun budget => outlined_object (outlined_decodeVectorBody budget T count)

theorem outlined_decodeDataChunk : Outlined layout decodeDataChunk Wire.dataChunk fun _ _ => True := by
  refine outlined_object (.same (outlined_required 100 parallel_readUlebUsize) fun rowCount => ?_)
  refine .same (outlined_required 101 (parallel_readList .logicalType fun _ => parallel_decodeLogicalType))
    fun types => ?_
  refine (outlined_required 102 (outlined_readList .decodedVector fun i => ?column)).bind
    fun columns sizes (hsizes : List.Forall₂ Sized columns sizes) => ?chunk
  case column =>
    cases types[i]? with
    | some T => exact outlined_decodeVector T rowCount
    | none => exact .fail _
  case chunk =>
    rw [← hsizes.length_eq]
    exact .ite (fun _ => .fail _) fun _ => .pure trivial

/-- Side by side, whatever the results. -/
abbrev Together (layout : Layout) (m : Decoder α) (s : Wire β) : Prop := Outlined layout m s fun _ _ => True

theorem Parallel.together {m : Decoder α} {s : Wire α} (h : Parallel layout m s) : Together layout m s :=
  h.weaken fun _ _ _ => trivial

theorem together_optional {m : Decoder α} {s : Wire β} {a : α} {b : β} (fieldId : Nat) (h : Together layout m s) :
    Together layout (readOptionalField fieldId m a) (Wire.optional fieldId s b) :=
  outlined_optional fieldId h trivial

/-- A number that nothing depends on. -/
theorem together_number (fieldId : Nat) :
    Together layout (readOptionalField fieldId readUlebU64 0) (Wire.number fieldId) :=
  (together_optional fieldId parallel_readUlebU64.together).mapped fun _ _ _ => trivial

theorem together_someIndex (fieldId : Nat) :
    Together layout (readOptionalField fieldId readSomeIndex none) (Wire.number fieldId) :=
  (together_optional fieldId (parallel_readUlebU64.finish fun _ _ _ => .pure trivial)).mapped fun _ _ _ => trivial

theorem together_optionalIndex (fieldId : Nat) :
    Together layout (readOptionalIndex fieldId) (Wire.number fieldId) :=
  (together_someIndex fieldId).finish fun _ _ _ => .pure trivial

theorem together_optionalText (fieldId : Nat) :
    Together layout (readOptionalString fieldId) (Wire.optionalText fieldId) :=
  (parallel_readOptionalString fieldId).together

theorem together_text (fieldId : Nat) :
    Together layout (readText fieldId) (Wire.optional fieldId Wire.text "") :=
  together_optional fieldId parallel_readString.together

theorem outlined_decodeHeader : Outlined layout decodeHeader Wire.header
    fun header messageType => messageType = header.messageType := by
  refine outlined_object (.same (outlined_required 1 parallel_readUlebU64) fun code => ?_)
  refine .ofResult fun messageType _ => .after (together_optionalText 2) fun _ _ => ?_
  exact .after (outlined_required 3 parallel_readUlebU64) fun _ _ => .pure rfl

theorem outlined_wrappedChunk : Outlined layout (readNullable decodeDataChunkWrapper)
    (Wire.nullable Wire.wrappedChunk) (Option.Rel fun _ _ => True) :=
  outlined_readNullable (outlined_object (outlined_required 300 outlined_decodeDataChunk))

/-- A chunk that must be there. -/
theorem together_someChunk {m : Decoder (Option DataChunk)} {s : Wire (Option Unit)} {f : DataChunk → α}
    {error : QuackError} (h : Outlined layout m s (Option.Rel fun _ _ => True)) :
    Together layout (m >>= fun chunk => match chunk with
      | some chunk => pure (f chunk)
      | none => throw error) (Wire.someChunk s) := by
  refine h.bind fun chunk chunk' hchunk => ?_
  cases hchunk with
  | some => exact .pure trivial
  | none => exact .fail _

theorem together_readChunkPointerList : Together layout readChunkPointerList Wire.chunkList :=
  (outlined_readList .dataChunk fun _ => together_someChunk outlined_wrappedChunk).weaken fun _ _ _ => trivial

theorem together_decodePrepareResponse (header : MessageHeader) :
    Together layout (decodePrepareResponse header) Wire.prepareResponse := by
  refine outlined_object (.after (together_optional 1 ?_) fun _ _ => ?_)
  · exact (parallel_readList .logicalType fun _ => parallel_decodeLogicalType).together
  refine .after (together_optional 2 (parallel_readList .string fun _ => parallel_readString).together) fun _ _ => ?_
  refine .after (together_optional 3 parallel_readBool.together) fun _ _ => ?_
  refine .after (together_optional 4 together_readChunkPointerList) fun _ _ => ?_
  exact (outlined_required 5 outlined_readHugeIntParts).finish fun _ _ _ => .pure trivial

theorem together_decodeErrorResponse (header : MessageHeader) :
    Together layout (decodeErrorResponse header) Wire.errorResponse :=
  outlined_object (.after (together_text 1) fun _ _ => .pure trivial)

theorem together_decodeBodyV1 (header : MessageHeader) :
    Together layout (decodeBodyV1 header) (Wire.bodyV1 header.messageType) := by
  rw [decodeBodyV1]
  cases header.messageType with
  | connectionRequest =>
      refine outlined_object (.after (together_optionalText 1) fun _ _ => ?_)
      refine .after (together_optionalText 2) fun _ _ => .after (together_optionalText 3) fun _ _ => ?_
      refine .after (together_number 4) fun _ _ => ?_
      exact (together_number 5).finish fun _ _ _ => .pure trivial
  | connectionResponse =>
      refine outlined_object (.after (together_optionalText 1) fun _ _ => ?_)
      refine .after (together_optionalText 2) fun _ _ => ?_
      exact (together_someIndex 3).finish fun _ _ _ => .pure trivial
  | prepareRequest => exact outlined_object (.after (together_text 1) fun _ _ => .pure trivial)
  | prepareResponse => exact together_decodePrepareResponse header
  | fetchRequest =>
      exact outlined_object ((outlined_required 1 outlined_readHugeIntParts).finish fun _ _ _ => .pure trivial)
  | fetchResponse =>
      refine outlined_object (.after (together_optional 1 together_readChunkPointerList) fun _ _ => ?_)
      exact .after (outlined_required 2 parallel_readUlebU64) fun _ _ => .pure trivial
  | sendDataRequest =>
      refine outlined_object (.after (together_optionalText 1) fun _ _ => .after (together_text 2) fun _ _ => ?_)
      exact together_someChunk (outlined_optional 3 outlined_wrappedChunk .none)
  | successResponse => exact outlined_object (.pure trivial)
  | disconnectMessage => exact outlined_object (.pure trivial)
  | errorResponse => exact together_decodeErrorResponse header
  | _ => exact .fail _

theorem together_decodeBodyV3 (header : MessageHeader) :
    Together layout (decodeBodyV3 header) (Wire.bodyV3 header.messageType) := by
  rw [decodeBodyV3]
  cases header.messageType with
  | connectionRequest =>
      refine outlined_object (.after (together_optionalText 1) fun _ _ => ?_)
      refine .after (together_optionalText 2) fun _ _ => .after (together_optionalText 3) fun _ _ => ?_
      refine .after (together_number 4) fun _ _ => .after (together_number 5) fun _ _ => ?_
      refine .after (together_optionalText 6) fun _ _ => ?_
      exact (together_number 7).finish fun _ _ _ => .pure trivial
  | connectionResponse =>
      refine outlined_object (.after (together_optionalText 1) fun _ _ => ?_)
      refine .after (together_optionalText 2) fun _ _ => .after (together_someIndex 3) fun _ _ => ?_
      exact (together_someIndex 4).finish fun _ _ _ => .pure trivial
  | prepareRequest =>
      refine outlined_object (.after (together_text 1) fun _ _ => ?_)
      refine .after (outlined_required 2 outlined_readHugeIntParts) fun _ _ => ?_
      exact (together_optionalIndex 3).finish fun _ _ _ => .pure trivial
  | prepareResponse => exact together_decodePrepareResponse header
  | fetchRequest =>
      refine outlined_object (.after (outlined_required 1 outlined_readHugeIntParts) fun _ _ => ?_)
      refine .after (together_optionalIndex 2) fun _ _ => ?_
      exact (together_number 3).finish fun _ _ _ => .pure trivial
  | fetchResponse =>
      have hcounts : Outlined layout (readObject do
            let chunkCount ← readOptionalField 1 readUlebU64 0
            let totalBatches ← readOptionalIndex 2
            let batchIndex ← readOptionalIndex 3
            pure (chunkCount, totalBatches, batchIndex)) (Wire.object do
              let chunkCount ← Wire.optional 1 Wire.uleb64 0
              Wire.number 2
              Wire.number 3
              pure chunkCount) fun counts chunkCount => chunkCount = counts.1 := by
        refine outlined_object (.same (outlined_optional 1 parallel_readUlebU64 rfl) fun chunkCount => ?_)
        exact .after (together_optionalIndex 2) fun _ _ => .after (together_optionalIndex 3) fun _ _ => .pure rfl
      refine hcounts.bind ?_
      rintro ⟨chunkCount, totalBatches, batchIndex⟩ count hcount
      rw [hcount]
      refine outlined_withCapacity ?_
      exact .after (Outlined.collect (fun _ => outlined_decodeDataChunk) 0 chunkCount.toNat) fun _ _ => .pure trivial
  | successResponse => exact outlined_object (.pure trivial)
  | disconnectMessage => exact outlined_object (.pure trivial)
  | heartbeatRequest => exact outlined_object (.pure trivial)
  | errorResponse => exact together_decodeErrorResponse header
  | _ => exact .fail _

theorem together_decodeMessage (quackVersion : U64) :
    Together layout (decodeMessage quackVersion) (Wire.message quackVersion) := by
  refine outlined_decodeHeader.bind ?_
  rintro header _ rfl
  have hbody : Together layout (decodeBody quackVersion header) (Wire.body quackVersion header.messageType) :=
    .ite (fun _ => together_decodeBodyV1 header) fun _ => .ite (fun _ => together_decodeBodyV3 header)
      fun _ => .fail _
  have hend (message : QuackMessage) : Together layout (assertEof >>= fun _ => pure message) Wire.endOfInput :=
    outlined_assertEof.finish fun _ _ _ => .pure trivial
  exact .after hbody fun message _ => hend message

end QuackProtocol
