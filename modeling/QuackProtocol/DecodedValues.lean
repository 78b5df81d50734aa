import QuackProtocol.StructRows

/-! What `decode_vector` can return for a type, whatever the encoding: NULL, a value of the kind that the
type's own storage holds, and the plain integers of a sequence vector, which counts in any type. -/

open Decoding Decode

namespace QuackProtocol

variable {layout : Layout} {α β : Type} {T childType : LogicalType}

/-- The types whose values have parts. -/
abbrev nestedIds : List LogicalTypeId := [.list, .map, .array, .struct, .variant]

/-- A value of the kind that a column without parts stores. -/
def FlatValue (T : LogicalType) (value : Value) : Prop :=
  match T.id with
  | .sqlNull | .tinyInt | .smallInt | .integer | .bigInt => ∃ n, value = .int n
  | .boolean => ∃ b, value = .bool b
  | .uTinyInt => ∃ n : U64, n.toNat < 2 ^ 8 ∧ value = .uint n
  | .uSmallInt => ∃ n : U64, n.toNat < 2 ^ 16 ∧ value = .uint n
  | .uInteger => ∃ n : U64, n.toNat < 2 ^ 32 ∧ value = .uint n
  | .uBigInt => ∃ n, value = .uint n
  | .hugeInt => ∃ n, value = .hugeInt n
  | .uHugeInt => ∃ n, value = .uhugeInt n
  | .float => ∃ bits, value = .float bits
  | .double => ∃ bits, value = .double bits
  | .decimal => ∃ decimal, value = .decimal decimal
  | .varchar | .char | .enum | .uuid => ∃ text, value = .string text
  | .blob | .geometry | .bit => ∃ raw, value = .bytes raw
  | .date => ∃ date, value = .date date
  | .time => ∃ n, value = .time ⟨.micros, n⟩
  | .timeNs => ∃ n, value = .time ⟨.nanos, n⟩
  | .timestampSec => ∃ n, value = .timestamp ⟨.seconds, n, false⟩
  | .timestampMs => ∃ n, value = .timestamp ⟨.millis, n, false⟩
  | .timestamp => ∃ n, value = .timestamp ⟨.micros, n, false⟩
  | .timestampNs => ∃ n, value = .timestamp ⟨.nanos, n, false⟩
  | .timestampTz => ∃ n, value = .timestamp ⟨.micros, n, true⟩
  | .interval => ∃ interval, value = .interval interval
  | _ => True

/-- The values of a decoded column, at every depth. Of a struct type that declares a name twice a row
has one field for both. -/
inductive Decoded : LogicalType → Value → Prop where
  | null (T : LogicalType) : Decoded T .null
  | int (T : LogicalType) (n : I64) : Decoded T (.int n)
  | flat {T : LogicalType} {value : Value} (flat : T.id ∉ nestedIds) (kind : FlatValue T value) :
      Decoded T value
  | list {T childType : LogicalType} {items : List Value} (id : T.id = .list ∨ T.id = .map)
      (child : getChildType T = .ok childType) (inside : ∀ item ∈ items, Decoded childType item) :
      Decoded T (.list items)
  | array {T childType : LogicalType} {items : List Value} {size : U64} (id : T.id = .array)
      (child : getChildType T = .ok childType) (arraySize : getArraySize T = .ok size)
      (length : items.length = size.toNat) (inside : ∀ item ∈ items, Decoded childType item) :
      Decoded T (.list items)
  | struct {T : LogicalType} {children : List ChildType} {row : Row}
      (id : T.id = .struct ∨ T.id = .variant) (structChildren : getStructChildren T = .ok children)
      (keys : (row.map Prod.fst).Nodup)
      (names : ∀ name, name ∈ row.map Prod.fst ↔ name ∈ children.map ChildType.name)
      (inside : (children.map ChildType.name).Nodup → ∀ child ∈ children, ∀ value,
        Row.get row child.name = some value → Decoded child.logicalType value) :
      Decoded T (.struct row)

/-- What a run returns, if it returns, satisfies `post`. -/
abbrev Gives (layout : Layout) (m : Decoder α) (post : α → Prop) : Prop :=
  Yields layout m fun a _ => post a

namespace Gives

variable {m m' : Decoder α} {f : α → Decoder β} {post post₂ : α → Prop} {post' : β → Prop}

theorem any (m : Decoder α) : Gives layout m fun _ => True := fun _ _ _ _ => trivial

theorem bind (hm : Gives layout m post) (hf : ∀ a, post a → Gives layout (f a) post') :
    Gives layout (m >>= f) post' := Yields.bind hm fun a _ ha => hf a ha

/-- After a step whose value does not matter. -/
theorem after (hf : ∀ a, Gives layout (f a) post') : Gives layout (m >>= f) post' :=
  (any m).bind fun a _ => hf a

theorem ofResult {x : Result α} (h : ∀ a, x = .ok a → post a) :
    Gives layout (Decode.ofResult x) post := Yields.ofResult h

/-- A step that may be refused comes after what it depends on. -/
theorem result {x : Result α} (hf : ∀ a, x = .ok a → Gives layout (f a) post') :
    Gives layout (Decode.ofResult x >>= f) post' :=
  (ofResult fun _ hx => hx).bind hf

theorem object (h : Gives layout m post) : Gives layout (readObject m) post :=
  h.bind fun _ ha => after fun _ => .pure ha

theorem recursive (callee : Recursive) (h : Gives layout m post) : Gives layout (recursive callee m) post :=
  Yields.nested h

theorem required (fieldId : Nat) (h : Gives layout m post) :
    Gives layout (readRequiredField fieldId m) post :=
  after fun _ => .ite (fun _ => h) fun _ => after fun _ => .throw _

theorem collect {f : Nat → Decoder α} (hf : ∀ i, Gives layout (f i) post) (start count : Nat) :
    Gives layout (Decode.collect f start count) fun values => ∀ a ∈ values, post a :=
  (Yields.collect hf (fun _ _ _ _ ha => ha) start count).weaken fun _ _ h => h.2

/-- A list whose elements may depend on their place. -/
theorem list {readElement : Nat → Decoder α} {post : Nat → α → Prop} (element : Element)
    (h : ∀ i, Gives layout (readElement i) (post i)) :
    Gives layout (readList element readElement) fun values =>
      ∀ i (hi : i < values.length), post i values[i] := by
  refine after fun count => after fun _ => fun c values c' hrun i hi => ?_
  obtain ⟨c₁, c₂, hvalue⟩ := (collect_eq_ok hrun).2 i hi
  rw [Nat.zero_add] at hvalue
  exact h i c₁ _ c₂ hvalue

theorem usizeAdd (x y : Nat) : Gives layout (Decode.usizeAdd x y) fun sum => sum = x + y :=
  .after fun _ => .pure rfl

theorem slice (xs : List α) (start stop : Nat) : Gives layout (Decode.slice xs start stop) fun ys =>
    (∀ a ∈ ys, a ∈ xs) ∧ ys.length = stop - start := by
  unfold Decode.slice Decode.check
  by_cases hin : start ≤ stop ∧ stop ≤ xs.length
  · rw [if_pos hin]
    refine .pure ⟨fun a hmem => List.mem_of_mem_drop (List.mem_of_mem_take hmem), ?_⟩
    rw [List.length_take, List.length_drop]
    omega
  · rw [if_neg hin]
    exact .panic .bounds

theorem maskedRow {validity : Option (List Bool)} {row : Nat} {value : Decoder Value}
    (h : Gives layout value (Decoded T)) :
    Gives layout (maskedRow validity row value) (Decoded T) :=
  after fun _ => .ite (fun _ => h) fun _ => .pure (.null T)

end Gives

/-- A column of decoded values. -/
def DecodedColumn (T : LogicalType) (values : List Value) : Prop := ∀ value ∈ values, Decoded T value

theorem toNat_setWidth_lt {w : Nat} (value : BitVec w) :
    (value.setWidth 64).toNat < 2 ^ w := by
  rw [BitVec.toNat_setWidth]
  exact lt_of_le_of_lt (Nat.mod_le _ _) value.isLt

theorem enumPhysicalType_cases {physicalType : PhysicalType}
    (h : enumPhysicalType T = .ok physicalType) :
    physicalType = .uint8 ∨ physicalType = .uint16 ∨ physicalType = .uint32 := by
  rw [enumPhysicalType] at h
  obtain ⟨labels, -, h⟩ := Except.bind_eq_ok h
  split_ifs at h <;> cases h <;> simp

theorem decodeDecimal_flat {n : I128} {value : Value} (hid : T.id = .decimal)
    (h : (do let decimal ← decimalFromUnscaled T n; pure (Value.decimal decimal) : Result Value) = .ok value) :
    FlatValue T value := by
  obtain ⟨decimal, -, h⟩ := Except.bind_eq_ok h
  cases h
  simp only [FlatValue, hid]
  exact ⟨decimal, rfl⟩

theorem decodeFixedValue_decimal {physicalType : PhysicalType} (hid : T.id = .decimal)
    (physical : decimalPhysicalType T = .ok physicalType) :
    Gives layout (decodeFixedValue T physicalType) (FlatValue T) := by
  rcases decimalPhysicalType_cases physical with rfl | rfl | rfl | rfl
  · refine .after fun n => .ofResult fun value h => ?_
    rw [decodeDecimalOrInt, if_pos hid] at h
    exact decodeDecimal_flat hid h
  · refine .after fun n => .ofResult fun value h => ?_
    rw [decodeDateDecimalOrInt, if_neg (by rw [hid]; decide), decodeDecimalOrInt, if_pos hid] at h
    exact decodeDecimal_flat hid h
  · refine .after fun n => .ofResult fun value h => ?_
    simp only [decodeInt64LogicalValue, hid] at h
    exact decodeDecimal_flat hid h
  · refine .after fun lower => .after fun upper => .ofResult fun value h => ?_
    rw [decodeInt128Parts, if_neg (by rw [hid]; decide), if_pos hid] at h
    exact decodeDecimal_flat hid h

theorem decodeFixedValue_enum {physicalType : PhysicalType} (hid : T.id = .enum)
    (physical : enumPhysicalType T = .ok physicalType) :
    Gives layout (decodeFixedValue T physicalType) (FlatValue T) := by
  have hlabel (index : U64) (value : Value) (h : decodeEnumOrNumber T index = .ok value) :
      FlatValue T value := by
    rw [decodeEnumOrNumber, if_neg (not_not.mpr hid)] at h
    obtain ⟨labels, -, h⟩ := Except.bind_eq_ok h
    split at h <;> cases h
    simp only [FlatValue, hid]
    exact ⟨_, rfl⟩
  rcases enumPhysicalType_cases physical with rfl | rfl | rfl <;>
    exact .after fun n => .ofResult fun value h => hlabel _ _ h

theorem decodeFixedValue_flat {physicalType : PhysicalType}
    (physical : getPhysicalType T = .ok physicalType) (size : isConstantSizePhysicalType physicalType = true) :
    T.id ∉ nestedIds ∧ Gives layout (decodeFixedValue T physicalType) (FlatValue T) := by
  have hflat : T.id ∉ nestedIds := by
    intro hmem
    simp only [nestedIds, List.mem_cons, List.not_mem_nil, or_false] at hmem
    rcases hmem with hid | hid | hid | hid | hid <;> simp only [getPhysicalType, hid] at physical <;>
      cases physical <;> cases size
  refine ⟨hflat, ?_⟩
  cases hid : T.id <;> simp only [getPhysicalType, hid] at physical
  case decimal => exact decodeFixedValue_decimal hid physical
  case enum => exact decodeFixedValue_enum hid physical
  all_goals cases physical
  all_goals try cases size
  case sqlNull | integer =>
    refine .after fun n => .ofResult fun value h => ?_
    rw [decodeDateDecimalOrInt, if_neg (by rw [hid]; decide), decodeDecimalOrInt,
      if_neg (by rw [hid]; decide)] at h
    cases h
    simp only [FlatValue, hid]
    exact ⟨_, rfl⟩
  case smallInt =>
    refine .after fun n => .ofResult fun value h => ?_
    rw [decodeDecimalOrInt, if_neg (by rw [hid]; decide)] at h
    cases h
    simp only [FlatValue, hid]
    exact ⟨_, rfl⟩
  case date =>
    refine .after fun n => .ofResult fun value h => ?_
    rw [decodeDateDecimalOrInt, if_pos hid] at h
    cases h
    simp only [FlatValue, hid]
    exact ⟨_, rfl⟩
  case bigInt | time | timeNs | timestampSec | timestampMs | timestamp | timestampNs | timestampTz | timeTz =>
    refine .after fun n => .ofResult fun value h => ?_
    simp only [decodeInt64LogicalValue, hid] at h
    cases h
    simp only [FlatValue, hid]
    try exact ⟨_, rfl⟩
  case uTinyInt | uSmallInt | uInteger =>
    refine .after fun n => .ofResult fun value h => ?_
    rw [decodeEnumOrNumber, if_pos (by rw [hid]; decide)] at h
    cases h
    simp only [FlatValue, hid]
    exact ⟨_, toNat_setWidth_lt n, rfl⟩
  case hugeInt | uuid =>
    refine .after fun lower => .after fun upper => .ofResult fun value h => ?_
    simp only [decodeInt128Parts, hid] at h
    cases h
    simp only [FlatValue, hid]
    exact ⟨_, rfl⟩
  case boolean =>
    refine .after fun n => .pure ?_
    simp only [FlatValue, hid]
    exact ⟨_, rfl⟩
  case uHugeInt => exact .after fun lower => .after fun upper => .pure (by simp [FlatValue, hid])
  case interval =>
    exact .after fun months => .after fun days => .after fun micros => .pure (by simp [FlatValue, hid])
  all_goals exact .after fun n => .pure (by simp [FlatValue, hid])

theorem decodeFixedVector_decoded {physicalType : PhysicalType} {count : Nat}
    {validity : Option (List Bool)} (physical : getPhysicalType T = .ok physicalType)
    (size : isConstantSizePhysicalType physicalType = true) :
    Gives layout (decodeFixedVector T physicalType count validity) (DecodedColumn T) := by
  obtain ⟨hflat, hvalue⟩ := @decodeFixedValue_flat layout _ _ physical size
  refine .after fun size => .after fun byteLength => .after fun bytes => .ite (fun _ => .throw _) fun _ => ?_
  rw [decodeFixedValues]
  refine Gives.after fun _ => fun c values c' hrun => ?_
  have hvalues : Gives layout (do
      let values ← Decode.collect (fun row => do
        let value ← decodeFixedValue T physicalType
        let valid ← isValid validity row
        pure (if valid then value else .null)) 0 count
      assertEof
      pure values) (DecodedColumn T) := by
    refine (Gives.collect (fun row => ?_) 0 count).bind fun values h => .after fun _ => .pure h
    refine hvalue.bind fun value kind => .after fun valid => .pure ?_
    by_cases hvalid : valid = true
    · rw [if_pos hvalid]
      exact .flat hflat kind
    · rw [if_neg hvalid]
      exact .null T
  simp only [onBytes] at hrun
  split at hrun
  · rename_i values' c'' hinner
    cases hrun
    exact hvalues _ _ _ hinner
  · cases hrun
  · cases hrun

theorem decodeStringLikeValue_flat {raw : Bytes} {value : Value} (physical : getPhysicalType T = .ok .varchar)
    (h : decodeStringLikeValue T raw = .ok value) : T.id ∉ nestedIds ∧ FlatValue T value := by
  cases hid : T.id <;> simp only [getPhysicalType, hid] at physical
  case decimal => rcases decimalPhysicalType_cases physical with h | h | h | h <;> cases h
  case enum => rcases enumPhysicalType_cases physical with h | h | h <;> cases h
  all_goals cases physical
  all_goals simp only [decodeStringLikeValue, hid] at h
  all_goals refine ⟨by decide, ?_⟩
  all_goals simp only [FlatValue, hid]
  case blob | bit | geometry =>
    cases h
    exact ⟨raw, rfl⟩
  all_goals
    obtain ⟨text, -, h⟩ := Except.bind_eq_ok h
    cases h
    exact ⟨text, rfl⟩

theorem decodeVarcharValues_decoded {count : Nat} {validity : Option (List Bool)}
    (physical : getPhysicalType T = .ok .varchar) :
    Gives layout (decodeVarcharValues T count validity) (DecodedColumn T) := by
  refine .after fun rawValues => .after fun _ => ?_
  refine Gives.collect (fun row => .after fun valid => .ite (fun _ => ?_) fun _ => .pure (.null T)) 0 _
  refine Gives.after fun raw => Gives.ofResult fun value h => ?_
  obtain ⟨flat, kind⟩ := decodeStringLikeValue_flat physical h
  exact .flat flat kind

/-! ### Nested columns -/

theorem nested_of_physicalType {physicalType : PhysicalType}
    (physical : getPhysicalType T = .ok physicalType) :
    (physicalType = .struct → T.id = .union ∨ T.id = .struct ∨ T.id = .variant) ∧
      (physicalType = .list → T.id = .list ∨ T.id = .map) ∧ (physicalType = .array → T.id = .array) := by
  cases hid : T.id <;> simp only [getPhysicalType, hid] at physical
  case decimal => rcases decimalPhysicalType_cases physical with rfl | rfl | rfl | rfl <;> simp
  case enum => rcases enumPhysicalType_cases physical with rfl | rfl | rfl <;> simp
  all_goals
    cases physical
    simp

theorem Row.mem_keys_insert {fields : Row} {name key : String} {value : Value} :
    key ∈ (Row.insert fields name value).map Prod.fst ↔ key ∈ fields.map Prod.fst ∨ key = name := by
  induction fields with
  | nil => simp [Row.insert]
  | cons field fields ih =>
      obtain ⟨first, old⟩ := field
      rw [Row.insert]
      by_cases heq : first = name
      · rw [if_pos heq]
        simp only [List.map_cons, List.mem_cons, heq]
        tauto
      · rw [if_neg heq]
        simp only [List.map_cons, List.mem_cons, ih]
        tauto

theorem Row.mem_keys_ofFields {fields : Row} {key : String} :
    key ∈ (Row.ofFields fields).map Prod.fst ↔ key ∈ fields.map Prod.fst := by
  have hfold : ∀ (fields row : Row),
      key ∈ (fields.foldl (fun row field => Row.insert row field.1 field.2) row).map Prod.fst ↔
        key ∈ row.map Prod.fst ∨ key ∈ fields.map Prod.fst := by
    intro fields
    induction fields with
    | nil => simp
    | cons field fields ih =>
        intro row
        rw [List.foldl_cons, ih, Row.mem_keys_insert]
        simp only [List.map_cons, List.mem_cons]
        tauto
  rw [Row.ofFields, hfold]
  simp

section
variable {children : List ChildType} {vectors : List DecodedVector} {fields : Row} {row : Nat}

theorem structRow_decoded (id : T.id = .struct ∨ T.id = .variant)
    (hchildren : getStructChildren T = .ok children)
    (hvectors : ∀ i (hi : i < vectors.length) (hi' : i < children.length),
      DecodedColumn children[i].logicalType vectors[i].values)
    (h : structRow children vectors row = .ok fields) : Decoded T (.struct fields) := by
  have hlen := structRow_complete h
  obtain rfl := structRow_fields h
  have hnames : ((children.zip vectors).map (fieldOf row)).map Prod.fst = children.map ChildType.name := by
    rw [List.map_map]
    show (children.zip vectors).map (ChildType.name ∘ Prod.fst) = _
    rw [← List.map_map, List.map_fst_zip hlen]
  refine .struct id hchildren (Row.keys_ofFields _) (fun name => ?_) fun hnodup child hmem value hvalue => ?_
  · rw [Row.mem_keys_ofFields, hnames]
  · rw [Row.ofFields_of_nodup (by rwa [hnames])] at hvalue
    obtain ⟨i, hi, rfl⟩ := List.getElem_of_mem hmem
    have hi' : i < vectors.length := by omega
    have hfield : fieldOf row (children[i], vectors[i]) ∈ (children.zip vectors).map (fieldOf row) := by
      apply List.mem_map_of_mem
      rw [← List.getElem_zip (h := by rw [List.length_zip]; omega)]
      exact List.getElem_mem _
    have hkeys : (((children.zip vectors).map (fieldOf row)).map Prod.fst).Nodup := by rwa [hnames]
    cases hvalue.symm.trans (Row.get_of_mem hkeys hfield)
    cases hsome : vectors[i].values[row]? with
    | none => exact .null _
    | some value => exact hvectors i hi' hi value (List.mem_of_getElem? hsome)

end

section
variable {decodeVector : LogicalType → Nat → Decoder DecodedVector}
  (h : ∀ T count, Gives layout (decodeVector T count) fun vector => DecodedColumn T vector.values)
include h

theorem decodeStructValues_decoded {count : Nat} {validity : Option (List Bool)}
    (physical : getPhysicalType T = .ok .struct) :
    Gives layout (decodeStructValues decodeVector T count validity) (DecodedColumn T) := by
  have hid := (nested_of_physicalType physical).1 rfl
  apply Gives.result
  intro children hchildren
  have hvectors : Gives layout (readChildVectors decodeVector children count) fun vectors =>
      ∀ i (hi : i < vectors.length) (hi' : i < children.length),
        DecodedColumn children[i].logicalType vectors[i].values := by
    have hlist {read : Nat → Decoder DecodedVector} (hread : ∀ i, Gives layout (read i) fun vector =>
        ∀ hi : i < children.length, DecodedColumn children[i].logicalType vector.values) :=
      Gives.list .decodedVector hread
    refine .required 103 (hlist fun i => ?_)
    by_cases hi : i < children.length
    · rw [List.getElem?_eq_getElem hi]
      exact (h _ count).weaken fun vector _ hvector _ => hvector
    · rw [List.getElem?_eq_none (by omega)]
      exact .throw _
  refine hvectors.bind fun vectors hvectors => .after fun _ => ?_
  refine Gives.collect (fun row => .maskedRow (.result fun fields hfields => .pure ?_)) 0 count
  rcases hid with hid | hid
  · exact .flat (by rw [hid]; decide) (by simp [FlatValue, hid])
  · exact structRow_decoded hid hchildren hvectors hfields

theorem decodeListValues_decoded {count : Nat} {validity : Option (List Bool)}
    (physical : getPhysicalType T = .ok .list) :
    Gives layout (decodeListValues decodeVector T count validity) (DecodedColumn T) := by
  have hid := (nested_of_physicalType physical).2.1 rfl
  refine .after fun listSize => .after fun entries => Gives.result fun childType child => ?_
  refine (Gives.required 106 (h childType listSize)).bind fun childVector hchild => .after fun _ => ?_
  refine Gives.collect (fun row => .after fun entry => .maskedRow <| .after fun stop => ?_) 0 _
  refine (Gives.slice _ _ _).bind fun items hitems => .pure ?_
  exact .list hid child fun item hmem => hchild item (hitems.1 item hmem)

theorem decodeArrayValues_decoded {count : Nat} {validity : Option (List Bool)}
    (physical : getPhysicalType T = .ok .array) :
    Gives layout (decodeArrayValues decodeVector T count validity) (DecodedColumn T) := by
  have hid := (nested_of_physicalType physical).2.2 rfl
  refine .after fun arraySize => Gives.result fun expected hexpected => ?_
  refine .ite (fun _ => .throw _) fun heq => Gives.result fun childType child => ?_
  refine (Gives.required 104 (.after fun childCount => h childType childCount)).bind
    fun childVector hchild => .after fun _ => ?_
  refine Gives.collect (fun row => .maskedRow <| .after fun offset => ?_) 0 _
  refine (Gives.usizeAdd offset arraySize).bind fun stop hstop => ?_
  refine (Gives.slice _ _ _).bind fun items hitems => .pure ?_
  refine .array hid child hexpected ?_ fun item hmem => hchild item (hitems.1 item hmem)
  have hlen := hitems.2
  have hsize := not_not.mp heq
  omega

theorem decodeFlatVectorBody_decoded {count : Nat} {vectorType : VectorType} :
    Gives layout (decodeFlatVectorBody decodeVector T count vectorType)
      fun vector => DecodedColumn T vector.values := by
  refine .after fun _ => .after fun validity => Gives.result fun physicalType physical => ?_
  have hdata : Gives layout (decodeFlatData decodeVector T physicalType count validity)
      (DecodedColumn T) := by
    unfold decodeFlatData
    refine .ite (fun size => decodeFixedVector_decoded physical size) fun _ => ?_
    split
    · exact decodeVarcharValues_decoded physical
    · exact decodeStructValues_decoded h physical
    · exact decodeListValues_decoded h physical
    · exact decodeArrayValues_decoded h physical
    · exact .throw _
  exact hdata.bind fun values hvalues => .pure hvalues

end

theorem decodeSequenceValue_decoded {n : I128} {value : Value}
    (h : decodeSequenceValue T n = .ok value) : Decoded T value := by
  cases hid : T.id <;> simp only [decodeSequenceValue, decodeInt64LogicalValue, hid] at h
  case decimal => exact .flat (by rw [hid]; decide) (decodeDecimal_flat hid h)
  all_goals cases h
  case date | time | timeNs | timestampSec | timestampMs | timestamp | timestampNs | timestampTz | timeTz =>
    refine .flat (by rw [hid]; decide) ?_
    simp [FlatValue, hid]
  all_goals exact .int T _

/-- The last step of every vector. -/
theorem gives_recorded {data : Decoder DecodedVector} {post : DecodedVector → Prop}
    (h : Gives layout data post) (count : Nat) :
    Gives layout (data >>= fun vector => do
      record (.vector count vector.values.length)
      pure vector) post :=
  h.bind fun _ hvector => .after fun _ => .pure hvector

/-- What a dictionary selects are its own values. -/
theorem mem_of_select {dictionary values : List Value} {selection : List Nat}
    (h : (selection.mapM fun position => match dictionary[position]? with
      | some value => .ok value
      | none => .error (.protocol s!"dictionary selection {position} is out of range") : Result _) =
        .ok values) {value : Value} (hmem : value ∈ values) : value ∈ dictionary := by
  induction selection generalizing values with
  | nil =>
      cases h
      cases hmem
  | cons position selection ih =>
      rw [List.mapM_cons] at h
      obtain ⟨first, hfirst, h⟩ := Except.bind_eq_ok h
      obtain ⟨rest, hrest, h⟩ := Except.bind_eq_ok h
      cases h
      rcases List.mem_cons.mp hmem with rfl | hmem
      · split at hfirst <;> cases hfirst
        exact List.mem_of_getElem? ‹_›
      · exact ih hrest hmem

theorem decodeVectorBody_decoded (budget : Nat) (T : LogicalType) (count : Nat) :
    Gives layout (decodeVectorBody budget T count) fun vector => DecodedColumn T vector.values := by
  induction budget generalizing T count with
  | zero => exact .panic .recursion
  | succ budget ih =>
      refine Gives.recursive .vector ?_
      refine .after fun code => .after fun vectorType => ?_
      cases vectorType with
      | flat => exact gives_recorded (decodeFlatVectorBody_decoded fun T count => .object (ih T count)) count
      | fsst => exact gives_recorded (.throw _) count
      | constant =>
          refine gives_recorded ?_ count
          refine (ih T _).bind fun decoded hdecoded => .after fun _ => .pure fun value hmem => ?_
          obtain rfl := List.eq_of_mem_replicate hmem
          cases hvalues : decoded.values with
          | nil => exact .null T
          | cons first rest => exact hdecoded first (hvalues ▸ List.mem_cons_self)
      | dictionary =>
          refine gives_recorded ?_ count
          refine .after fun selection => .after fun dictionaryCount => ?_
          refine (ih T dictionaryCount).bind fun dictionary hdictionary => .after fun _ => ?_
          refine Gives.result fun values hvalues => .pure fun value hmem => ?_
          exact hdictionary value (mem_of_select hvalues hmem)
      | sequence =>
          refine gives_recorded ?_ count
          refine .after fun start => .after fun increment => ?_
          refine (Gives.collect (fun position => .after fun number => ?_) 0 count).bind
            fun values hvalues => .pure hvalues
          exact (Gives.ofResult fun value h => decodeSequenceValue_decoded h).bind
            fun value hvalue => .after fun _ => .pure hvalue

/-- Every value of a decoded column is of one of these kinds. -/
theorem decodeVector_decoded (T : LogicalType) (count : Nat) :
    Gives layout (decodeVector T count) fun vector => DecodedColumn T vector.values :=
  Yields.withBudget fun budget => Gives.object (decodeVectorBody_decoded budget T count)

end QuackProtocol
