import QuackProtocol.CanonicalValues

/-! Data chunks. A chunk of canonical columns is read back as it was written exactly when its gathered
vectors fit in memory and no ENUM label in it lies beyond the index that a column stores. -/

open Decoding Varint

namespace QuackProtocol

/-- The columns with the types they are written as. -/
def DataChunk.parts (chunk : DataChunk) : List (LogicalType × List Value) :=
  chunk.types.zip (chunk.columns.map DecodedVector.values)

/-- A chunk as the program holds it in memory, of types that a column can have. -/
structure DataChunk.InMemory (layout : Layout) (chunk : DataChunk) : Prop where
  sameLength : chunk.columns.length = chunk.types.length
  rowCount_lt : chunk.rowCount < usizeLimit
  typesFit : layout.Fits .logicalType chunk.types.length
  columnsFit : layout.Fits .decodedVector chunk.columns.length
  types : ∀ T ∈ chunk.types, Encodable T ∧ T.Writable layout
  rows : ∀ column ∈ chunk.columns, column.values.length = chunk.rowCount
  rowsFit : ∀ column ∈ chunk.columns, layout.Fits .value column.values.length

/-- The chunk that is read back. -/
def storedChunk (prims : Primitives) (chunk : DataChunk) : DataChunk where
  rowCount := chunk.rowCount
  types := chunk.types.map LogicalType.asRead
  columns := chunk.parts.map fun part =>
    ⟨part.1.asRead, .flat, part.2.map (stored prims part.1)⟩
  columnNames := none

section
variable {layout : Layout} {prims : Primitives} {chunk : DataChunk}

theorem DataChunk.InMemory.length_parts (h : chunk.InMemory layout) :
    chunk.parts.length = chunk.columns.length := by
  rw [DataChunk.parts, List.length_zip, List.length_map, h.sameLength, Nat.min_self]

theorem DataChunk.InMemory.part (h : chunk.InMemory layout) {i : Nat} (hi : i < chunk.columns.length) :
    ∃ (hp : i < chunk.parts.length) (ht : i < chunk.types.length),
      chunk.parts[i] = (chunk.types[i], chunk.columns[i].values) := by
  refine ⟨by rwa [h.length_parts], by rwa [← h.sameLength], ?_⟩
  simp only [DataChunk.parts, List.getElem_zip, List.getElem_map]

theorem DataChunk.InMemory.encodeColumn_eq (h : chunk.InMemory layout) {i : Nat}
    (hi : i < chunk.columns.length) (ht : i < chunk.types.length) :
    encodeColumn layout prims chunk chunk.columns[i] i = encodeVector layout prims chunk.types[i]
      chunk.columns[i].values chunk.columns[i].values.length := by
  have hrows := h.rows _ (List.getElem_mem hi)
  rw [encodeColumn, List.getElem?_eq_getElem ht, hrows]
  exact if_neg (not_not.mpr rfl)

theorem DataChunk.InMemory.encodeColumns_eq (h : chunk.InMemory layout) :
    (chunk.columns.zipIdx.map fun (column, index) => encodeColumn layout prims chunk column index) =
      chunk.parts.map fun part => encodeVector layout prims part.1 part.2 part.2.length := by
  apply List.ext_getElem (by simp [h.length_parts])
  intro i hi hi'
  have hlt : i < chunk.columns.length := by simpa using hi
  obtain ⟨hp, ht, hpart⟩ := h.part hlt
  simp only [List.getElem_map, List.getElem_zipIdx, Nat.zero_add, hpart]
  exact h.encodeColumn_eq hlt ht

theorem DataChunk.InMemory.encodeDataChunk_eq (h : chunk.InMemory layout) :
    encodeDataChunk layout prims chunk = writeObject (Encode.all [
      writeField 100 (writeUleb chunk.rowCount),
      writeField 101 (writeList (chunk.types.map encodeLogicalType)),
      writeField 102 (writeList (chunk.parts.map fun part =>
        encodeVector layout prims part.1 part.2 part.2.length))]) := by
  rw [encodeDataChunk, if_neg (not_not.mpr h.sameLength.symm), h.encodeColumns_eq]

/-- A chunk of storable columns is read back as its stored values. -/
theorem roundTrips_dataChunk (h : chunk.InMemory layout)
    (hfits : ∀ part ∈ chunk.parts, FitsMemory layout part.1 part.2)
    (hvalues : ∀ part ∈ chunk.parts, ∀ value ∈ part.2, Storable prims part.1 value) :
    RoundTrips layout (encodeDataChunk layout prims chunk) decodeDataChunk
      (storedChunk prims chunk) := by
  have htypes : RoundTrips layout (writeList (chunk.types.map encodeLogicalType))
      (readList .logicalType fun _ => decodeLogicalType) (chunk.types.map LogicalType.asRead) :=
    .listMap h.typesFit fun T hT => roundTrips_logicalType (h.types T hT).2
  have hcolumns {read : Nat → Decoder DecodedVector} (hread : ∀ (i : Nat) (T : LogicalType),
      (chunk.types.map LogicalType.asRead)[i]? = some T → read i = decodeVector T chunk.rowCount) :
      RoundTrips layout (writeList (chunk.parts.map fun part =>
        encodeVector layout prims part.1 part.2 part.2.length)) (readList .decodedVector read)
        (storedChunk prims chunk).columns := by
    refine .list (by simp [storedChunk]) (by simpa [storedChunk, h.length_parts] using h.columnsFit)
      fun i hw hv => ?_
    have hi : i < chunk.columns.length := by simpa [h.length_parts] using hw
    obtain ⟨hp, ht, hpart⟩ := h.part hi
    have hmem := List.getElem_mem hp
    have hrows := h.rows _ (List.getElem_mem hi)
    obtain ⟨hencodable, hwritable⟩ := h.types _ (List.getElem_mem ht)
    have hinside : chunk.types[i].Everywhere (LogicalType.InMemory layout) :=
      hwritable.mono fun _ hnode => hnode.2
    rw [hpart] at hmem
    have hvector : RoundTrips layout (encodeVector layout prims chunk.types[i]
        chunk.columns[i].values chunk.columns[i].values.length)
        (decodeVector chunk.types[i].asRead chunk.columns[i].values.length)
        ⟨chunk.types[i].asRead, .flat, chunk.columns[i].values.map (stored prims chunk.types[i])⟩ :=
      roundTrips_vector SameVectors.asRead hencodable hinside (hfits _ hmem) (hvalues _ hmem)
    have htype : (chunk.types.map LogicalType.asRead)[i]? = some chunk.types[i].asRead := by
      rw [List.getElem?_map, List.getElem?_eq_getElem ht, Option.map_some]
    simp only [hread i _ htype, storedChunk, List.getElem_map, hpart]
    rw [← hrows]
    exact hvector
  rw [h.encodeDataChunk_eq]
  refine FieldTrip.object 100 <| .cons 101 (.required (.uleb h.rowCount_lt) (by decide)) <|
    .cons 102 (.required htypes (by decide)) <|
    .cons fieldEnd (.required (hcolumns fun i T h => by simp only [h]) (by decide)) ?_
  rw [if_neg (by simp [storedChunk, h.length_parts, h.sameLength])]
  exact .nil _

theorem Layout.fits_of_allocate {count : Nat} (h : allocate layout .value count = .ok ()) :
    layout.Fits .value count := by
  have hsize : count * layout.sizeOf .value ≤ isizeMax := Outcome.check_eq_ok h
  refine ⟨?_, hsize⟩
  have hword := Nat.mul_le_mul_left count layout.sixteen_le_value
  simp only [isizeMax, usizeLimit] at *
  omega

variable {T : LogicalType} {values : List Value}

/-- The vectors that the encoder gathered fit in memory. -/
theorem childVectors_fit {bytes : Bytes} (hown : layout.Fits .value values.length)
    (hok : encodeVector layout prims T values values.length = .ok bytes)
    {part : LogicalType × List Value} (h : part ∈ childVectors T values) :
    layout.Fits .value part.2.length := by
  rw [encodeVector_eq] at hok
  obtain ⟨inner, hdata, -⟩ := Encode.Within.object (.refl (encodeFlatData layout prims T values
    values.length)) (List.mem_cons_of_mem _ (List.mem_cons_of_mem _ (List.mem_cons_self ..))) bytes hok
  cases childVector_of_mem h with
  | struct => rwa [structColumn, List.length_map]
  | list physical hchild hgather =>
      rw [(encodeFlatData_nested physical).2.1 rfl, encodeListVectorBody_eq hchild hgather] at hdata
      obtain ⟨_, -, hdata⟩ := Outcome.bind_eq_ok hdata
      obtain ⟨_, hallocate, -⟩ := Outcome.bind_eq_ok hdata
      exact Layout.fits_of_allocate hallocate
  | array physical hchild hsize hgather =>
      rw [(encodeFlatData_nested physical).2.2 rfl, encodeArrayVectorBody_eq hchild hsize hgather]
        at hdata
      obtain ⟨_, -, hdata⟩ := Outcome.bind_eq_ok hdata
      obtain ⟨_, hallocate, -⟩ := Outcome.bind_eq_ok hdata
      rw [(gatherArrays_row hgather).1]
      exact Layout.fits_of_allocate hallocate

theorem fitsMemory_of_encode {bytes : Bytes} (hown : layout.Fits .value values.length)
    (hok : encodeVector layout prims T values values.length = .ok bytes) :
    FitsMemory layout T values := by
  induction T using LogicalType.childInduction generalizing values bytes with
  | step T ih =>
      refine .intro hown fun part hmem => ?_
      obtain ⟨inner, hinner, -⟩ := childVectors_within hmem bytes hok
      exact ih part.1 (childVector_of_mem hmem).mem_children (childVectors_fit hown hok hmem) hinner

variable {physicalType : PhysicalType}

theorem atMost_fixedValue (T : LogicalType) (physicalType : PhysicalType) (value : Value) :
    (encodeFixedValue prims T physicalType value).AtMost 16 := by
  have hword {k n : Nat} (hk : k ≤ 16) : Encode.AtMost (.ok (toLe k n)) 16 :=
    .ok (by rwa [length_toLe])
  have hwords {k k' n n' : Nat} (hk : k + k' ≤ 16) :
      Encode.AtMost (Outcome.ok (toLe k n) ++ Outcome.ok (toLe k' n') : Encode) 16 :=
    ((Encode.AtMost.ok le_rfl).append (.ok le_rfl)).mono (by simpa only [length_toLe] using hk)
  unfold encodeFixedValue
  split
  · refine .bind fun size hsize => .ok ?_
    rw [List.length_replicate]
    cases physicalType <;> cases hsize <;> decide
  · cases physicalType
    case bool =>
      apply hword
      decide
    case float | double | int8 | uint8 | int16 | uint16 | int32 | uint32 | int64 | uint64 =>
      refine .bind fun _ _ => hword ?_
      decide
    case int128 | uint128 =>
      refine .bind fun _ _ => hwords ?_
      decide
    case interval =>
      cases value with
      | interval v =>
          have hmonths : (writeFixedI32 v.months).AtMost 4 := .ok (by rw [length_toLe])
          have hdays : (writeFixedI32 v.days).AtMost 4 := .ok (by rw [length_toLe])
          have hmicros : (writeFixedI64 v.micros).AtMost 8 := .ok (by rw [length_toLe])
          exact (hmonths.append hdays).append hmicros
      | _ => exact .err _
    all_goals exact .err _

/-- A scalar column takes a mask and its words. -/
theorem atMost_fixedVector (physical : getPhysicalType T = .ok physicalType)
    (size : isConstantSizePhysicalType physicalType = true) (hid : T.id ≠ .geometry)
    (hlen : values.length < 2 ^ 58) :
    (encodeVector layout prims T values values.length).AtMost (17 * values.length + 64) := by
  have hmask : (writeMask values).AtMost (3 + (2 + (9 + (values.length + 8)) + 0)) := by
    have hflag (b : Bool) : (writeField 100 (writeBool b)).AtMost 3 := .field (.ok le_rfl) 100
    have hsize : (writeValidityMask (values.map fun value => !value.isNull)).length ≤
        values.length + 8 := by
      rw [length_writeValidityMask, List.length_map, validityMaskSize]
      omega
    refine (hflag _).append (.append ?_ .nothing)
    split
    · refine .field (.blob hsize ?_) 101
      simp only [Held, isizeMax]
      omega
    · exact .ok (Nat.zero_le _)
  have hdata : (encodeFlatData layout prims T values values.length).AtMost
      (2 + (9 + 16 * values.length)) := by
    rw [encodeFlatData, physical]
    refine .bind fun t ht => ?_
    cases ht
    rw [if_pos size]
    refine .bind fun _ _ => .bind fun _ _ => .bind fun _ _ => .bind fun data hdata => ?_
    have hwords : ∀ action ∈ values.map (encodeFixedValue prims T physicalType),
        action.AtMost 16 := fun action haction => by
      obtain ⟨value, -, rfl⟩ := List.mem_map.mp haction
      exact atMost_fixedValue T physicalType value
    have hle := Encode.AtMost.all hwords data hdata
    rw [List.length_map] at hle
    refine .field (.blob hle ?_) 102
    simp only [Held, isizeMax]
    omega
  have hnothing : (writeGeometryField T).AtMost 0 := by
    rw [writeGeometryField, if_neg hid]
    exact .ok le_rfl
  rw [encodeVector_eq]
  exact (hnothing.append (hmask.append (hdata.append .nothing))).object.mono (by omega)

/-- A chunk of one column. -/
def columnChunk (T : LogicalType) (values : List Value) : DataChunk :=
  ⟨values.length, [T], [⟨T, .flat, values⟩], none⟩

theorem columnChunk_inMemory (hT : Encodable T) (hwritable : T.Writable layout)
    (htype : layout.Fits .logicalType 1) (hcolumn : layout.Fits .decodedVector 1)
    (hfits : layout.Fits .value values.length) : (columnChunk T values).InMemory layout where
  sameLength := rfl
  rowCount_lt := hfits.count_lt
  typesFit := htype
  columnsFit := hcolumn
  types T' hT' := by
    obtain rfl := List.mem_singleton.mp hT'
    exact ⟨hT, hwritable⟩
  rows column hmem := by
    obtain rfl := List.mem_singleton.mp hmem
    rfl
  rowsFit column hmem := by
    obtain rfl := List.mem_singleton.mp hmem
    exact hfits

/-- A chunk of one scalar column takes its type in addition. -/
theorem atMost_columnChunk {size : Nat} (physical : getPhysicalType T = .ok physicalType)
    (hconstant : isConstantSizePhysicalType physicalType = true) (hid : T.id ≠ .geometry)
    (hlen : values.length < 2 ^ 58) (hT : (encodeLogicalType T).AtMost size)
    (h : (columnChunk T values).InMemory layout) :
    (encodeDataChunk layout prims (columnChunk T values)).AtMost
      (size + (17 * values.length + 128)) := by
  have hcolumn : (encodeVector layout prims T values values.length).AtMost
      (17 * values.length + 64) := atMost_fixedVector physical hconstant hid hlen
  have hcount : (writeField 100 (writeUleb values.length)).AtMost (2 + 9) :=
    .field (.uleb (hlen.trans (by decide))) 100
  have htype : (writeField 101 (writeList [encodeLogicalType T])).AtMost (2 + (9 + (size + 0))) :=
    .field ((Encode.AtMost.uleb (by simp)).append (hT.append .nothing)) 101
  have hdata : (writeField 102 (writeList [encodeVector layout prims T values
      values.length])).AtMost (2 + (9 + (17 * values.length + 64 + 0))) :=
    .field ((Encode.AtMost.uleb (by simp)).append (hcolumn.append .nothing)) 102
  rw [h.encodeDataChunk_eq]
  exact (hcount.append (htype.append (hdata.append .nothing))).object.mono (by omega)

/-! ### Canonical chunks -/

def DataChunk.Canonical (chunk : DataChunk) : Prop :=
  ∀ part ∈ chunk.parts, ∀ value ∈ part.2, QuackProtocol.Canonical part.1 value

/-- No ENUM label of the chunk lies beyond the index that its column stores. -/
def DataChunk.NarrowLabels (chunk : DataChunk) : Prop :=
  ∀ part ∈ chunk.parts, ∀ value ∈ part.2, ¬ HasWideLabel part.1 value

/-- The same rows, of types whose empty aliases may have gone. -/
structure SameChunk (back chunk : DataChunk) : Prop where
  rowCount : back.rowCount = chunk.rowCount
  types : back.types = chunk.types.map LogicalType.asRead
  columns : List.Forall₂ (fun column' column => List.Forall₂ Value.Same column'.values column.values)
    back.columns chunk.columns

/-- The chunk is written, and read back from the bytes written, whatever follows them. -/
def ChunkTrips (layout : Layout) (prims : Primitives) (chunk : DataChunk) : Prop :=
  ∃ bytes, encodeDataChunk layout prims chunk = .ok bytes ∧
    ∀ (reader : Cursor) (suffix : Bytes), reader.Valid → reader.unread = bytes ++ suffix →
      ∃ back reader', decodeDataChunk.run layout reader = .ok (back, reader') ∧
        reader'.unread = suffix ∧ SameChunk back chunk

theorem sameChunk_storedChunk (h : chunk.InMemory layout) :
    SameChunk (storedChunk prims chunk) chunk ↔
      ∀ part ∈ chunk.parts, ∀ value ∈ part.2, (stored prims part.1 value).Same value := by
  have hcolumn (T : LogicalType) (values : List Value) :
      List.Forall₂ Value.Same (values.map (stored prims T)) values ↔
        ∀ value ∈ values, (stored prims T value).Same value := by
    rw [List.forall₂_map_left_iff, List.forall₂_same]
  have hlen : (storedChunk prims chunk).columns.length = chunk.columns.length := by
    simp [storedChunk, h.length_parts]
  constructor
  · intro hsame part hpart
    obtain ⟨i, hp, rfl⟩ := List.getElem_of_mem hpart
    have hi : i < chunk.columns.length := by rwa [← h.length_parts]
    obtain ⟨_, ht, heq⟩ := h.part hi
    have hget := (List.forall₂_iff_get.mp hsame.columns).2 i (by rwa [hlen]) hi
    simp only [storedChunk, List.get_eq_getElem, List.getElem_map, heq] at hget
    rw [heq]
    exact (hcolumn _ _).mp hget
  · intro hall
    refine ⟨rfl, rfl, List.forall₂_iff_get.mpr ⟨hlen, fun i hi hi' => ?_⟩⟩
    obtain ⟨hp, ht, heq⟩ := h.part hi'
    have hmem := List.getElem_mem hp
    simp only [storedChunk, List.get_eq_getElem, List.getElem_map, heq]
    rw [heq] at hmem
    exact (hcolumn _ _).mpr (hall _ hmem)

theorem fitsMemory_of_encodeDataChunk {bytes : Bytes} (h : chunk.InMemory layout)
    (hok : encodeDataChunk layout prims chunk = .ok bytes) :
    ∀ part ∈ chunk.parts, FitsMemory layout part.1 part.2 := by
  intro part hpart
  rw [h.encodeDataChunk_eq] at hok
  have hfield : Encode.Within (encodeVector layout prims part.1 part.2 part.2.length)
      (writeField 102 (writeList (chunk.parts.map fun part =>
        encodeVector layout prims part.1 part.2 part.2.length))) 0 :=
    .field (.list (.refl _) (List.mem_map.mpr ⟨part, hpart, rfl⟩)) 102
  obtain ⟨inner, hinner, -⟩ := hfield.object (by simp) bytes hok
  obtain ⟨i, hp, rfl⟩ := List.getElem_of_mem hpart
  have hi : i < chunk.columns.length := by rwa [← h.length_parts]
  obtain ⟨_, ht, heq⟩ := h.part hi
  rw [heq] at hinner ⊢
  exact fitsMemory_of_encode (h.rowsFit _ (List.getElem_mem hi)) hinner

theorem DataChunk.Canonical.storable (hcanonical : chunk.Canonical)
    (hfloat : ∀ bits, prims.f64ToF32 (prims.f32ToF64 bits) = bits) (h : chunk.InMemory layout)
    {part : LogicalType × List Value} (hpart : part ∈ chunk.parts) {value : Value}
    (hmem : value ∈ part.2) : Storable prims part.1 value ∧
      ((stored prims part.1 value).Same value ↔ ¬ HasWideLabel part.1 value) :=
  storable_canonical hfloat (h.types part.1 (List.of_mem_zip hpart).1).1
    (hcanonical part hpart value hmem)

/-- A canonical chunk that is read back has no label out of reach. -/
theorem narrow_of_chunkTrips (hfloat : ∀ bits, prims.f64ToF32 (prims.f32ToF64 bits) = bits)
    (h : chunk.InMemory layout) (hcanonical : chunk.Canonical)
    (hheld : ∀ bytes, encodeDataChunk layout prims chunk = .ok bytes → Held bytes)
    (htrips : ChunkTrips layout prims chunk) :
    ∀ part ∈ chunk.parts, FitsMemory layout part.1 part.2 ∧
      ∀ value ∈ part.2, ¬ HasWideLabel part.1 value := by
  obtain ⟨bytes, hok, htrip⟩ := htrips
  have hfits := fitsMemory_of_encodeDataChunk h hok
  have hvalue : ∀ part ∈ chunk.parts, ∀ value ∈ part.2, Storable prims part.1 value ∧
      ((stored prims part.1 value).Same value ↔ ¬ HasWideLabel part.1 value) :=
    fun part hpart value hmem => hcanonical.storable hfloat h hpart hmem
  obtain ⟨bytes', hok', hread⟩ := roundTrips_dataChunk h hfits
    fun part hpart value hmem => (hvalue part hpart value hmem).1
  cases hok.symm.trans hok'
  have hreader : Cursor.Valid ⟨bytes, 0⟩ := ⟨Nat.zero_le _, hheld bytes hok⟩
  obtain ⟨back, reader', hrun, -, hsame⟩ := htrip ⟨bytes, 0⟩ [] hreader (by simp [Cursor.unread])
  have hrun' := hread ⟨bytes, 0⟩ hreader [] trivial (by simp [Cursor.unread])
  cases hrun.symm.trans hrun'
  refine fun part hpart => ⟨hfits part hpart, fun value hmem => ?_⟩
  exact (hvalue part hpart value hmem).2.mp ((sameChunk_storedChunk h).mp hsame part hpart value hmem)

/-- A canonical chunk is read back as it was written exactly when its gathered vectors fit in memory
and the place of each of its ENUM labels fits the stored index. The encoder's output is a byte
vector, so it is no longer than the language lets one be. -/
theorem dataChunk_trips_iff (hfloat : ∀ bits, prims.f64ToF32 (prims.f32ToF64 bits) = bits)
    (h : chunk.InMemory layout) (hcanonical : chunk.Canonical)
    (hheld : ∀ bytes, encodeDataChunk layout prims chunk = .ok bytes → Held bytes) :
    ChunkTrips layout prims chunk ↔ ∀ part ∈ chunk.parts, FitsMemory layout part.1 part.2 ∧
      ∀ value ∈ part.2, ¬ HasWideLabel part.1 value := by
  refine ⟨narrow_of_chunkTrips hfloat h hcanonical hheld, fun hall => ?_⟩
  obtain ⟨bytes, hok, hread⟩ := roundTrips_dataChunk h (fun part hpart => (hall part hpart).1)
    fun part hpart value hmem => (hcanonical.storable hfloat h hpart hmem).1
  refine ⟨bytes, hok, fun reader suffix hreader hunread => ?_⟩
  refine ⟨_, _, hread reader hreader suffix trivial hunread,
    Cursor.unread_advance_of_eq hunread, (sameChunk_storedChunk h).mpr ?_⟩
  intro part hpart value hmem
  exact (hcanonical.storable hfloat h hpart hmem).2.mpr ((hall part hpart).2 value hmem)

end

theorem Primitives.floatless_back (bits : F32) :
    Primitives.floatless.f64ToF32 (Primitives.floatless.f32ToF64 bits) = bits := by
  show (BitVec.setWidth 64 bits).setWidth 32 = bits
  rw [BitVec.setWidth_setWidth_of_le _ (by decide), BitVec.setWidth_eq]

def booleanType : LogicalType := ⟨.boolean, none⟩

theorem booleanColumn_fits {values : List Value} (h : values.length ≤ 2) :
    Layout.words.Fits .value values.length := by
  refine ⟨h.trans_lt (by decide), ?_⟩
  simp only [Layout.words, isizeMax]
  omega

theorem booleanColumn_inMemory {values : List Value} (h : values.length ≤ 2) :
    (columnChunk booleanType values).InMemory .words := by
  have hphysical : getPhysicalType booleanType = .ok .bool := rfl
  have hT : Encodable booleanType := .fixed hphysical rfl fun h => by cases h
  have hwritable : booleanType.Writable .words := by
    refine .intro ⟨?_, ?_⟩ fun _ hchild => by cases hchild
    · exact fun _ hinfo => by cases hinfo
    · exact fun _ hinfo => by cases hinfo
  exact columnChunk_inMemory hT hwritable ⟨by decide, by decide⟩ ⟨by decide, by decide⟩ (booleanColumn_fits h)

theorem booleanColumn_parts {values : List Value} (h : values.length ≤ 2) :
    ∀ part ∈ (columnChunk booleanType values).parts, FitsMemory .words part.1 part.2 := by
  intro part hpart
  obtain rfl := List.mem_singleton.mp hpart
  refine .intro (booleanColumn_fits h) fun part hmem => ?_
  cases hmem

theorem atMost_booleanColumn {values : List Value} (h : values.length ≤ 2) :
    (encodeDataChunk .words .floatless (columnChunk booleanType values)).AtMost (13 + (17 * 2 + 128)) := by
  have htype : (encodeLogicalType booleanType).AtMost 13 := by
    rw [booleanType, encodeLogicalType]
    exact ((Encode.AtMost.field (.uleb (by decide)) 100).append
      ((Encode.AtMost.ok le_rfl).append .nothing)).object
  exact (atMost_columnChunk rfl rfl (by decide) (h.trans_lt (by decide)) htype
    (booleanColumn_inMemory h)).mono (by omega)

/-- A BOOLEAN column of two rows. -/
def booleanChunk : DataChunk := columnChunk booleanType [.bool true, .null]

theorem booleanChunk_inMemory : booleanChunk.InMemory .words := booleanColumn_inMemory le_rfl

theorem booleanChunk_values {value : Value} (h : value ∈ [Value.bool true, .null]) :
    Canonical booleanType value ∧ ¬ HasWideLabel booleanType value := by
  rcases List.mem_cons.mp h with rfl | h
  · refine ⟨.scalar ⟨true, rfl⟩, fun hwide => ?_⟩
    cases hwide
  · obtain rfl := List.mem_singleton.mp h
    refine ⟨.null _, fun hwide => ?_⟩
    cases hwide

theorem booleanChunk_canonical : booleanChunk.Canonical := by
  intro part hpart
  obtain rfl := List.mem_singleton.mp hpart
  exact fun value hmem => (booleanChunk_values hmem).1

theorem booleanChunk_narrow : booleanChunk.NarrowLabels := by
  intro part hpart
  obtain rfl := List.mem_singleton.mp hpart
  exact fun value hmem => (booleanChunk_values hmem).2

theorem booleanChunk_fits : ∀ part ∈ booleanChunk.parts, FitsMemory .words part.1 part.2 :=
  booleanColumn_parts le_rfl

theorem atMost_booleanChunk :
    (encodeDataChunk .words .floatless booleanChunk).AtMost (13 + (17 * 2 + 128)) :=
  atMost_booleanColumn le_rfl

theorem dataChunk_trips_booleans : ChunkTrips .words .floatless booleanChunk :=
  (dataChunk_trips_iff Primitives.floatless_back booleanChunk_inMemory booleanChunk_canonical
    fun bytes hok => (atMost_booleanChunk bytes hok).trans (by decide)).mpr fun part hpart =>
      ⟨booleanChunk_fits part hpart, booleanChunk_narrow part hpart⟩

def wideLabel (i : Nat) : String := String.ofList (paddedHex 9 i)

def wideLabels : List String := (List.range (2 ^ 32 + 1)).map wideLabel

def wideEnum : LogicalType := ⟨.enum, some (.enum none wideLabels)⟩

theorem wideLabel_injective {i j : Nat} (hi : i ≤ 2 ^ 32) (hj : j ≤ 2 ^ 32)
    (h : wideLabel i = wideLabel j) : i = j := by
  have hdigits : paddedHex 9 i = paddedHex 9 j := String.ofList_injective h
  have hvalue := congrArg ofHex hdigits
  rw [ofHex_paddedHex, ofHex_paddedHex] at hvalue
  omega

theorem length_utf8Bytes_wideLabel (i : Nat) : (utf8Bytes (wideLabel i)).length ≤ 4 * 9 := by
  have hchars (chars : List Char) :
      (utf8Bytes (String.ofList chars)).length ≤ 4 * chars.length := by
    have hbytes : (utf8Bytes (String.ofList chars)).length =
        (chars.flatMap String.utf8EncodeChar).length := by simp [utf8Bytes, List.utf8Encode]
    rw [hbytes]
    induction chars with
    | nil => exact Nat.zero_le _
    | cons c chars ih =>
        have hsize := c.utf8Size_le_four
        rw [List.flatMap_cons, List.length_append, String.length_utf8EncodeChar, List.length_cons]
        have hrest : (utf8Bytes (String.ofList chars)).length =
            (chars.flatMap String.utf8EncodeChar).length := by simp [utf8Bytes, List.utf8Encode]
        have hle := ih hrest
        omega
  exact (hchars _).trans (by rw [length_paddedHex])

theorem wideEnum_labels : getEnumValues wideEnum = .ok wideLabels := rfl

theorem findIdx_wideLabel :
    (wideLabels.findIdx? fun label => label = wideLabel (2 ^ 32)) = some (2 ^ 32) := by
  rw [List.findIdx?_eq_some_iff_getElem]
  refine ⟨by simp [wideLabels], ?_, fun j hj => ?_⟩
  · simp [wideLabels]
  · simp only [wideLabels, List.getElem_map, List.getElem_range, decide_eq_true_eq]
    intro h
    exact absurd (wideLabel_injective hj.le le_rfl h) hj.ne

theorem wideEnum_writable : wideEnum.Writable .words := by
  have hlen : wideLabels.length = 2 ^ 32 + 1 := by simp [wideLabels]
  refine .intro ⟨?_, ?_⟩ fun _ hchild => by cases hchild
  · intro info hinfo
    cases hinfo
    exact fun h => by cases h
  · intro info hinfo
    cases hinfo
    refine ⟨fun text htext => ?_, fun length hlength => ?_⟩
    · rw [ExtraTypeInfo.texts, List.mem_append] at htext
      have hmem : text ∈ wideLabels := htext.resolve_left List.not_mem_nil
      obtain ⟨i, -, rfl⟩ := List.mem_map.mp hmem
      exact (length_utf8Bytes_wideLabel i).trans (by decide)
    · have heq : length = wideLabels.length := by simpa [ExtraTypeInfo.lengths] using hlength
      rw [heq, hlen]
      exact fun element => ⟨by decide, by simp [Layout.words, isizeMax]⟩

theorem atMost_wideEnum : (encodeLogicalType wideEnum).AtMost (2 ^ 40) := by
  have hlen : wideLabels.length = 2 ^ 32 + 1 := by simp [wideLabels]
  have hlabels : (writeList (wideLabels.map writeString)).AtMost
      (9 + (9 + 36) * (wideLabels.map writeString).length) := by
    refine .list (fun action haction => ?_) (by rw [List.length_map, hlen]; decide)
    obtain ⟨text, htext, rfl⟩ := List.mem_map.mp haction
    obtain ⟨i, -, rfl⟩ := List.mem_map.mp htext
    have hsize := length_utf8Bytes_wideLabel i
    exact .stringBytes hsize (hsize.trans (by decide))
  have hbody : (encodeInfoBody (.enum none wideLabels)).AtMost
      (2 + 9 + (2 + (9 + (9 + 36) * (2 ^ 32 + 1)) + 0)) := by
    rw [encodeInfoBody]
    rw [List.length_map, hlen] at hlabels
    exact (Encode.AtMost.field (.uleb (by rw [hlen]; decide)) 200).append
      ((hlabels.field 201).append .nothing)
  have hinfo : (encodeExtraTypeInfo (.enum none wideLabels)).AtMost
      (2 + 9 + (0 + (2 + 9 + (2 + (9 + (9 + 36) * (2 ^ 32 + 1)) + 0) + 0)) + 2) := by
    rw [encodeExtraTypeInfo]
    exact ((Encode.AtMost.field (.uleb (by decide)) 100).append
      ((Encode.AtMost.ok le_rfl).append (hbody.append .nothing))).object
  rw [wideEnum, encodeLogicalType]
  have hpresent : (writeField 101 (writeNullable (some (encodeExtraTypeInfo
      (.enum none wideLabels))))).AtMost _ := .field ((Encode.AtMost.ok le_rfl).append hinfo) 101
  exact ((Encode.AtMost.field (.uleb (by decide)) 100).append
    (hpresent.append .nothing)).object.mono (by decide)

/-- One row, of the last label. -/
def wideChunk : DataChunk := columnChunk wideEnum [.string (wideLabel (2 ^ 32))]

theorem wideEnum_physical : getPhysicalType wideEnum = .ok .uint32 := by
  rw [physicalType_of_enum rfl wideEnum_labels]
  simp [wideLabels]

theorem wideChunk_inMemory : wideChunk.InMemory .words := by
  have hT : Encodable wideEnum := .fixed wideEnum_physical rfl fun _ h => by
    rw [wideEnum_labels] at h
    simp [wideLabels] at h
  exact columnChunk_inMemory hT wideEnum_writable ⟨by decide, by decide⟩ ⟨by decide, by decide⟩
    ⟨by decide, by decide⟩

theorem wideChunk_canonical : wideChunk.Canonical := by
  intro part hpart value hmem
  obtain rfl := List.mem_singleton.mp hpart
  obtain rfl := List.mem_singleton.mp hmem
  have hmember : wideLabel (2 ^ 32) ∈ wideLabels :=
    List.mem_map.mpr ⟨2 ^ 32, List.mem_range.mpr (Nat.lt_succ_self _), rfl⟩
  exact .scalar ⟨_, wideLabels, rfl, wideEnum_labels, hmember⟩

theorem wideChunk_wide : ¬ wideChunk.NarrowLabels := by
  intro hnarrow
  have hwide : WideLabel wideEnum (wideLabel (2 ^ 32)) :=
    ⟨rfl, wideLabels, 2 ^ 32, wideEnum_labels, findIdx_wideLabel, le_rfl⟩
  exact hnarrow _ (List.mem_singleton_self _) _ (List.mem_singleton_self _) (.label hwide)

theorem wideChunk_fits : ∀ part ∈ wideChunk.parts, FitsMemory .words part.1 part.2 := by
  intro part hpart
  obtain rfl := List.mem_singleton.mp hpart
  have hone : Layout.words.Fits .value 1 := ⟨by decide, by decide⟩
  have hnone : childVectors wideEnum [.string (wideLabel (2 ^ 32))] = [] := by
    rw [childVectors, wideEnum_physical]
  refine .intro hone fun part hmem => ?_
  rw [hnone] at hmem
  cases hmem

theorem atMost_wideChunk :
    (encodeDataChunk .words .floatless wideChunk).AtMost (2 ^ 40 + (17 * 1 + 128)) :=
  atMost_columnChunk wideEnum_physical rfl (fun h => by cases h) (by simp) atMost_wideEnum
    wideChunk_inMemory

/-- A column of that ENUM gives back the first label for the last. -/
theorem not_dataChunk_trips_wideEnum : wideChunk.InMemory .words ∧ wideChunk.Canonical ∧
    ¬ ChunkTrips .words .floatless wideChunk := by
  have hheld (bytes : Bytes) (hok : encodeDataChunk .words .floatless wideChunk = .ok bytes) :
      Held bytes := (atMost_wideChunk bytes hok).trans (by decide)
  refine ⟨wideChunk_inMemory, wideChunk_canonical, fun htrips => ?_⟩
  have hnarrow := narrow_of_chunkTrips Primitives.floatless_back wideChunk_inMemory
    wideChunk_canonical hheld htrips
  exact wideChunk_wide fun part hpart => (hnarrow part hpart).2

end QuackProtocol
