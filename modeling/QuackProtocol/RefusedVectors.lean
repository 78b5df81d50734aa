import QuackProtocol.IntegerColumns
import QuackProtocol.UnreadableValues

/-! The decoder on what the encoder wrote: it refuses a vector exactly if one of its values cannot be
read back. Vectors are taken level by level; a child vector either is read back or refuses already. -/

open Decoding Decode Varint

namespace QuackProtocol

variable {layout : Layout} {prims : Primitives} {T childType : LogicalType}
  {physicalType : PhysicalType} {values : List Value}

theorem maskFits_maskOf (values : List Value) : MaskFits values.length (maskOf values) := by
  intro mask hmask
  rw [maskOf] at hmask
  split at hmask
  · cases hmask
    exact List.length_map _
  · cases hmask

/-- The only values of a fixed-size column that cannot be read back are indices. -/
theorem Unreadable.badIndex {value : Value} (h : Unreadable T value)
    (physical : getPhysicalType T = .ok physicalType)
    (size : isConstantSizePhysicalType physicalType = true) : BadIndex T value := by
  cases h with
  | label bad => exact bad
  | text physical' | field physical' =>
      cases physical.symm.trans physical'
      cases size
  | item physical' =>
      rcases physical' with physical' | physical' <;> cases physical.symm.trans physical' <;> cases size

theorem BadIndex.size {value : Value} (h : BadIndex T value)
    (physical : getPhysicalType T = .ok physicalType) : isConstantSizePhysicalType physicalType = true := by
  obtain ⟨hid, labels, -, hlabels, -⟩ := h
  rcases physicalType_index hid hlabels physical with ⟨rfl, -⟩ | ⟨rfl, -⟩ | ⟨rfl, -⟩ <;> rfl

theorem Unreadable.badText {value : Value} (h : Unreadable T value)
    (physical : getPhysicalType T = .ok .varchar) : BadText T value := by
  cases h with
  | text _ bad => exact bad
  | label bad => cases bad.size physical
  | field physical' => cases physical.symm.trans physical'
  | item physical' => rcases physical' with physical' | physical' <;> cases physical.symm.trans physical'

theorem Unreadable.badField {value : Value} {children : List ChildType} (h : Unreadable T value)
    (physical : getPhysicalType T = .ok .struct) (hchildren : getStructChildren T = .ok children) :
    ∃ child ∈ children, Unreadable child.logicalType (structField child.name value) := by
  cases h with
  | field _ structChildren member inside =>
      cases hchildren.symm.trans structChildren
      exact ⟨_, member, inside⟩
  | label bad => cases bad.size physical
  | text physical' => cases physical.symm.trans physical'
  | item physical' => rcases physical' with physical' | physical' <;> cases physical.symm.trans physical'

theorem Unreadable.badItem {value : Value} (h : Unreadable T value)
    (physical : getPhysicalType T = .ok .list ∨ getPhysicalType T = .ok .array)
    (hchild : getChildType T = .ok childType) :
    ∃ items, value = .list items ∧ ∃ item ∈ items, Unreadable childType item := by
  cases h with
  | item _ child member inside =>
      cases hchild.symm.trans child
      exact ⟨_, rfl, _, member, inside⟩
  | label bad => rcases physical with physical | physical <;> cases bad.size physical
  | text physical' | field physical' =>
      rcases physical with physical | physical <;> cases physical.symm.trans physical'

theorem length_encodeFixedValue {size : Nat} {value : Value} {word : Bytes}
    (hsize : constantSize physicalType = some size)
    (h : encodeFixedValue prims T physicalType value = .ok word) : word.length = size := by
  unfold encodeFixedValue at h
  split at h
  · rw [physicalTypeSize, hsize] at h
    cases h
    exact List.length_replicate
  cases physicalType with
  | bool =>
      cases h
      exact (length_toLe _ _).trans (Option.some.inj hsize)
  | int8 | uint8 | int16 | uint16 | int32 | uint32 | int64 | uint64 | float | double =>
      obtain ⟨number, -, h⟩ := Outcome.bind_eq_ok h
      cases h
      exact (length_toLe _ _).trans (Option.some.inj hsize)
  | int128 | uint128 =>
      obtain ⟨number, -, h⟩ := Outcome.bind_eq_ok h
      cases h
      rw [List.length_append, length_toLe, length_toLe]
      exact Option.some.inj hsize
  | interval =>
      cases value <;> cases h
      rw [List.length_append, List.length_append, length_toLe, length_toLe, length_toLe]
      exact Option.some.inj hsize
  | list | struct | array | varchar | bit | invalid => cases hsize

/-- The data of a fixed-size column that was written. -/
theorem encodeFlatData_words {size : Nat} {data : Bytes}
    (physical : getPhysicalType T = .ok physicalType) (hsize : constantSize physicalType = some size)
    (h : encodeFlatData layout prims T values values.length = .ok data) :
    ∃ words : List Bytes, values.map (encodeFixedValue prims T physicalType) = words.map .ok ∧
      (∀ word ∈ words, word.length = size) ∧ size * values.length ≤ isizeMax ∧
      encodeFlatData layout prims T values values.length = writeField 102 (writeBlob words.flatten) := by
  have hconstant : isConstantSizePhysicalType physicalType = true := by
    rw [isConstantSizePhysicalType, hsize]
    rfl
  obtain ⟨words, hwords⟩ : ∃ words : List Bytes,
      values.map (encodeFixedValue prims T physicalType) = words.map .ok := by
    apply exists_parts
    intro write hmem
    obtain ⟨value, hvalue, rfl⟩ := List.mem_map.mp hmem
    exact encodedWords physical hconstant h value hvalue
  have hsizes : physicalTypeSize physicalType = .ok size := by rw [physicalTypeSize, hsize]
  rw [encodeFlatData_fixed physical hconstant] at h ⊢
  rw [encodeFixedVectorBody, hsizes] at h
  obtain ⟨_, hlift, h⟩ := Outcome.bind_eq_ok h
  cases hlift
  obtain ⟨⟨⟩, hlimit, h⟩ := Outcome.bind_eq_ok h
  obtain ⟨⟨⟩, hroom, -⟩ := Outcome.bind_eq_ok h
  refine ⟨words, hwords, fun word hmem => ?_, Outcome.check_eq_ok hroom, ?_⟩
  · have hword : (.ok word : Encode) ∈ values.map (encodeFixedValue prims T physicalType) := by
      rw [hwords]
      exact List.mem_map_of_mem hmem
    obtain ⟨value, -, hvalue⟩ := List.mem_map.mp hword
    exact length_encodeFixedValue hsize hvalue
  · rw [encodeFixedVectorBody, hsizes]
    show (Outcome.check (size * values.length < usizeLimit) .overflow >>= fun _ =>
      Outcome.check (size * values.length ≤ isizeMax) .capacity >>= fun _ =>
        Encode.all (values.map (encodeFixedValue prims T physicalType)) >>= fun data =>
          writeField 102 (writeBlob data)) = _
    rw [hlimit, hroom, hwords, Encode.all_ok]
    rfl

section
variable {decodeVector : LogicalType → Nat → Decoder DecodedVector}

theorem fieldStop_fixed {data : Bytes} (hfits : layout.Fits .value values.length)
    (physical : getPhysicalType T = .ok physicalType)
    (size : isConstantSizePhysicalType physicalType = true)
    (h : encodeFlatData layout prims T values values.length = .ok data)
    (hbad : ∃ value ∈ values, Unreadable T value) :
    FieldStop layout 102 fieldEnd (encodeFlatData layout prims T values values.length)
      (decodeFlatData decodeVector T physicalType values.length (maskOf values)) .refused := by
  obtain ⟨width, hwidth⟩ := Option.isSome_iff_exists.mp size
  obtain ⟨words, hwords, hword, hroom, hencode⟩ := encodeFlatData_words physical hwidth h
  have hcount : words.length = values.length := by
    rw [← List.length_map Outcome.ok, ← hwords, List.length_map]
  have hlen : words.flatten.length = width * values.length := by
    rw [length_flatten_words hword, hcount]
  have hheld : Held words.flatten := by rwa [Held, hlen]
  have hlabel : ∃ row < values.length, BadLabel T (rowWord width words.flatten row) := by
    obtain ⟨value, hmem, hvalue⟩ := hbad
    obtain ⟨row, hrow, rfl⟩ := List.getElem_of_mem hmem
    refine ⟨row, hrow, ?_⟩
    have hencoded : encodeFixedValue prims T physicalType values[row] = .ok words[row] := by
      have heq := congrArg (fun writes => writes[row]?) hwords
      simpa [List.getElem?_eq_getElem hrow, List.getElem?_eq_getElem (hcount ▸ hrow)] using heq
    have hnull : values[row] ≠ .null := fun heq => by
      rw [heq] at hvalue
      exact not_unreadable_null hvalue
    rw [rowWord_flatten hword (hcount ▸ hrow)]
    exact (fixedValue_cases physical hnull hencoded).1.mpr (hvalue.badIndex physical size)
  have hsizes : physicalTypeSize physicalType = .ok width := by rw [physicalTypeSize, hwidth]
  have hproduct : Reads layout (audit (.product width values.length)
      (usizeMul width values.length) : Decoder Nat) [] (width * values.length) :=
    (Reads.usizeMul (hroom.trans_lt (by decide))).audit _
  have hblob : FieldTrip layout 102 fieldEnd (writeField 102 (writeBlob words.flatten))
      (readRequiredField 102 readBlob) words.flatten := .required (.blob hheld) (by decide)
  rw [hencode, decodeFlatData.eq_def, if_pos size, decodeFixedVector]
  refine .ofResult hsizes (.afterReads hproduct (.thenStops hblob ?_))
  rw [if_neg (not_not.mpr hlen)]
  exact stops_fixedValues hfits hheld hlen (maskFits_maskOf values) physical hwidth hlabel

/-- A row of a column of strings. -/
def decodeStringRow (T : LogicalType) (validity : Option (List Bool)) (rawValues : List Bytes)
    (row : Nat) : Decoder Value := do
  let valid ← audit (.stringRow (validity.map List.length) row) (isValid validity row)
  if valid then do
    let raw ← index rawValues row
    ofResult (decodeStringLikeValue T raw)
  else
    pure .null

theorem stringRow_cases {rawValues : List Bytes} {row : Nat} (hrow : row < values.length)
    (hraw : ∃ raw, rawValues[row]? = some raw ∧ encodeStringLikeValue prims values[row] = .ok raw) :
    (¬ BadText T values[row] ∧
      ∃ w, Reads layout (decodeStringRow T (maskOf values) rawValues row) [] w) ∨
      Stops layout (decodeStringRow T (maskOf values) rawValues row) [] .refused := by
  obtain ⟨raw, hindex, hencode⟩ := hraw
  have hvalid : Reads layout (isValid (maskOf values) row) [] (!values[row].isNull) :=
    reads_isValid hrow
  by_cases hnull : values[row] = .null
  · rw [hnull] at hvalid ⊢
    refine .inl ⟨?_, .null, (hvalid.audit _).bind_nil (ReadsBefore.pure Value.null)⟩
    rintro ⟨_, _, hbytes, -⟩
    cases hbytes
  · rw [Value.isNull_eq_false hnull] at hvalid
    rcases stringValue_cases hnull hencode with ⟨hgood, w, hw⟩ | ⟨-, e, he⟩
    · exact .inl ⟨hgood, w, (hvalid.audit _).bind_nil ((Reads.index hindex).bind_nil (.ofResult hw))⟩
    · exact .inr (Stops.after_nil (hvalid.audit _) (Stops.after_nil (Reads.index hindex) (.ofResult he)))

theorem fieldStop_varchar {data : Bytes} (hfits : layout.Fits .value values.length)
    (physical : getPhysicalType T = .ok .varchar) (hlen : data.length ≤ isizeMax)
    (h : encodeFlatData layout prims T values values.length = .ok data)
    (hbad : ∃ value ∈ values, Unreadable T value) :
    FieldStop layout 102 fieldEnd (encodeFlatData layout prims T values values.length)
      (decodeFlatData decodeVector T .varchar values.length (maskOf values)) .refused := by
  have htexts := encodedTexts physical h
  choose! raw hraw using htexts
  have hlist : RoundTrips layout (writeList (values.map fun value => do
      let bytes ← encodeStringLikeValue prims value
      writeStringBytes bytes)) (readList .blob fun _ => readStringBytes) (values.map raw) := by
    refine .listMap (hfits.of_value (by simp)) fun value hmem => ?_
    rw [(hraw value hmem).1]
    exact .stringBytes ((hraw value hmem).2.trans hlen)
  have hrows {row : Nat} (hrow : row < values.length) :
      (¬ BadText T values[row] ∧
        ∃ w, Reads layout (decodeStringRow T (maskOf values) (values.map raw) row) [] w) ∨
        Stops layout (decodeStringRow T (maskOf values) (values.map raw) row) [] .refused := by
    refine stringRow_cases hrow ⟨raw values[row], ?_, (hraw _ (List.getElem_mem hrow)).1⟩
    rw [List.getElem?_map, List.getElem?_eq_getElem hrow]
    rfl
  rw [encodeFlatData_varchar physical]
  apply FieldStop.thenStops (.required hlist (by decide))
  apply Stops.after_nil (Reads.record _)
  rw [List.length_map]
  apply Stops.collect_nil (fun row hrow => (hrows hrow).imp_left And.right)
  obtain ⟨value, hmem, hvalue⟩ := hbad
  obtain ⟨row, hrow, rfl⟩ := List.getElem_of_mem hmem
  exact ⟨row, hrow, (hrows hrow).resolve_left fun hgood => hgood.1 (hvalue.badText physical)⟩

/-! ### Nested columns -/

/-- A vector is read back, and has no value that cannot be, or it is refused. -/
def Ends (layout : Layout) (prims : Primitives)
    (decodeVector : LogicalType → Nat → Decoder DecodedVector) (part : LogicalType × List Value) : Prop :=
  ((∀ value ∈ part.2, ¬ Unreadable part.1 value) ∧
    RoundTrips layout (encodeVector layout prims part.1 part.2 part.2.length)
      (decodeVector part.1 part.2.length) ⟨part.1, .flat, part.2.map (stored prims part.1)⟩) ∨
  StopsReading layout (encodeVector layout prims part.1 part.2 part.2.length)
    (decodeVector part.1 part.2.length) .refused

theorem Ends.stops {part : LogicalType × List Value} (h : Ends layout prims decodeVector part)
    (hbad : ∃ value ∈ part.2, Unreadable part.1 value) :
    StopsReading layout (encodeVector layout prims part.1 part.2 part.2.length)
      (decodeVector part.1 part.2.length) .refused := by
  obtain ⟨value, hmem, hvalue⟩ := hbad
  exact h.resolve_left fun hgood => hgood.1 value hmem hvalue

section
variable (hends : ∀ part ∈ childVectors T values, Ends layout prims decodeVector part)
  (hbad : ∃ value ∈ values, Unreadable T value)
include hends hbad

theorem fieldStop_struct {children : List ChildType} (hheld : T.InMemory layout)
    (physical : getPhysicalType T = .ok .struct) (hchildren : getStructChildren T = .ok children) :
    FieldStop layout 102 fieldEnd (encodeFlatData layout prims T values values.length)
      (decodeFlatData decodeVector T .struct values.length (maskOf values)) .refused := by
  have hpart {i : Nat} (hi : i < children.length) :
      Ends layout prims decodeVector
        (children[i].logicalType, structColumn children[i].name values) := by
    apply hends _
    rw [childVectors_struct values physical hchildren]
    exact List.mem_map_of_mem (List.getElem_mem hi)
  have hcolumn (name : String) : (structColumn name values).length = values.length := by
    simp [structColumn]
  obtain ⟨value, hvalue, hvalueBad⟩ := hbad
  obtain ⟨child, hmem, hfieldBad⟩ := hvalueBad.badField physical hchildren
  obtain ⟨bad, hbadIndex, rfl⟩ := List.getElem_of_mem hmem
  have hlist {read : Nat → Decoder DecodedVector} (hread : ∀ (i : Nat) (child : ChildType),
      children[i]? = some child → read i = decodeVector child.logicalType values.length) :
      StopsReading layout (writeList (children.map fun child =>
        encodeVector layout prims child.logicalType (structColumn child.name values) values.length))
      (readList .decodedVector read) .refused := by
    refine StopsReading.list ?_ (fun i hi => ?_) ⟨bad, by simpa using hbadIndex, ?_⟩
    · rw [List.length_map]
      exact structChildren_holds hheld hchildren _
    · rw [List.length_map] at hi
      have h := hpart hi
      simp only [Ends, hcolumn] at h
      rw [hread i _ (List.getElem?_eq_getElem hi), List.getElem_map]
      exact h.imp_left fun hgood => ⟨_, hgood.2⟩
    · have h := (hpart hbadIndex).stops ⟨_, List.mem_map_of_mem hvalue, hfieldBad⟩
      simp only [hcolumn] at h
      rw [hread bad _ (List.getElem?_eq_getElem hbadIndex), List.getElem_map]
      exact h
  rw [(encodeFlatData_nested physical).1 rfl, encodeStructVectorBody_eq hchildren]
  refine FieldStop.weaken (.ofResult hchildren ?_) (by decide : 102 ≤ 103)
  exact (FieldStop.required (hlist fun i child h => by simp only [h]) (by decide)).bind

theorem fieldStop_list {childType : LogicalType} {entries : List ListEntry}
    {childValues : List Value} (hown : layout.Fits .value values.length)
    (hfits : layout.Fits .value childValues.length)
    (physical : getPhysicalType T = .ok .list) (hchild : getChildType T = .ok childType)
    (hgather : gatherLists 0 values = .ok (entries, childValues)) :
    FieldStop layout 102 fieldEnd (encodeFlatData layout prims T values values.length)
      (decodeFlatData decodeVector T .list values.length (maskOf values)) .refused := by
  have hstops : StopsReading layout
      (encodeVector layout prims childType childValues childValues.length)
      (decodeVector childType childValues.length) .refused := by
    have hmem : (childType, childValues) ∈ childVectors T values := by
      rw [childVectors_list physical hchild hgather]
      exact List.mem_singleton_self _
    refine (hends _ hmem).stops ?_
    obtain ⟨value, hvalue, hvalueBad⟩ := hbad
    obtain ⟨items, rfl, item, hitem, hitemBad⟩ := hvalueBad.badItem (.inl physical) hchild
    rcases gatherLists_mem hgather hvalue with hnull | ⟨_, hlist, hitems⟩
    · cases hnull
    · cases hlist
      exact ⟨item, hitems item hitem, hitemBad⟩
  rw [encodeFlatData_list hown hfits physical hchild hgather]
  refine FieldStop.weaken ?_ (by decide : 102 ≤ 104)
  refine .later 105 (.required (.uleb hfits.count_lt) (by decide)) ?_
  refine .later 106 (.required (roundTrips_gathered hown hfits hgather) (by decide))
    (.ofResult hchild ?_)
  exact .here fieldEnd (.required hstops (by decide)) .nil

theorem fieldStop_array {childType : LogicalType} {size : U64} {childValues : List Value}
    (hfits : layout.Fits .value childValues.length)
    (physical : getPhysicalType T = .ok .array) (hchild : getChildType T = .ok childType)
    (hsize : getArraySize T = .ok size)
    (hgather : gatherArrays size.toNat values = .ok childValues) :
    FieldStop layout 102 fieldEnd (encodeFlatData layout prims T values values.length)
      (decodeFlatData decodeVector T .array values.length (maskOf values)) .refused := by
  have hlen := (gatherArrays_row hgather).1
  have hcount : size.toNat * values.length < usizeLimit := by
    rw [Nat.mul_comm, ← hlen]
    exact hfits.count_lt
  have hstops : StopsReading layout
      (encodeVector layout prims childType childValues childValues.length)
      (do
        let childCount ← audit (.product size.toNat values.length)
          (usizeMul size.toNat values.length)
        decodeVector childType childCount) .refused := by
    have hmem : (childType, childValues) ∈ childVectors T values := by
      rw [childVectors_array physical hchild hsize hgather]
      exact List.mem_singleton_self _
    have hinside : ∃ item ∈ childValues, Unreadable childType item := by
      obtain ⟨value, hvalue, hvalueBad⟩ := hbad
      obtain ⟨items, rfl, item, hitem, hitemBad⟩ := hvalueBad.badItem (.inr physical) hchild
      rcases gatherArrays_mem hgather hvalue with hnull | ⟨_, hlist, -, hitems⟩
      · cases hnull
      · cases hlist
        exact ⟨item, hitems item hitem, hitemBad⟩
    obtain ⟨bytes, hwrite, hread⟩ := (hends _ hmem).stops hinside
    refine ⟨bytes, hwrite, Stops.after_nil ((Reads.usizeMul hcount).audit _) ?_⟩
    rwa [Nat.mul_comm, ← hlen]
  rw [encodeFlatData_array physical hchild hsize hgather hfits]
  refine FieldStop.weaken ?_ (by decide : 102 ≤ 103)
  refine .later 104 (.required (.uleb size.isLt) (by decide)) (.ofResult hsize ?_)
  rw [if_neg (not_not.mpr rfl)]
  exact .ofResult hchild (.here fieldEnd (.required hstops (by decide)) .nil)

end

end

/-- The data of a vector, by the kind of the column. -/
theorem fieldStop_data {decodeVector : LogicalType → Nat → Decoder DecodedVector} {data : Bytes}
    (henc : Encoded prims T values) (hown : layout.Fits .value values.length)
    (hheld : T.InMemory layout) (hlen : data.length ≤ isizeMax)
    (h : encodeFlatData layout prims T values values.length = .ok data)
    (hends : ∀ part ∈ childVectors T values, Ends layout prims decodeVector part)
    (hbad : ∃ value ∈ values, Unreadable T value) :
    ∃ physicalType, getPhysicalType T = .ok physicalType ∧
      FieldStop layout 102 fieldEnd (encodeFlatData layout prims T values values.length)
        (decodeFlatData decodeVector T physicalType values.length (maskOf values)) .refused := by
  obtain ⟨hT, -⟩ := henc
  cases hT with
  | fixed physical size => exact ⟨_, physical, fieldStop_fixed hown physical size h hbad⟩
  | varchar physical => exact ⟨_, physical, fieldStop_varchar hown physical hlen h hbad⟩
  | struct physical hchildren =>
      exact ⟨_, physical, fieldStop_struct hends hbad hheld physical hchildren⟩
  | list physical =>
      obtain ⟨childType, entries, childValues, hchild, hgather, hfits⟩ := encodedList physical h
      exact ⟨_, physical, fieldStop_list hends hbad hown hfits physical hchild hgather⟩
  | array physical =>
      obtain ⟨childType, size, childValues, hchild, hsize, hgather, hfits⟩ := encodedArray physical h
      exact ⟨_, physical, fieldStop_array hends hbad hfits physical hchild hsize hgather⟩

/-- A vector with a value that cannot be read back is refused, with any budget its bytes pay for. -/
theorem stops_vector (hdistinct : T.Everywhere LogicalType.Distinct)
    (hheld : T.Everywhere (LogicalType.InMemory layout)) {bytes : Bytes} {budget : Nat}
    (hfits : layout.Fits .value values.length)
    (h : encodeVector layout prims T values values.length = .ok bytes)
    (hbytes : bytes.length ≤ isizeMax) (hbudget : bytes.length ≤ budget)
    (hbad : ∃ value ∈ values, Unreadable T value) :
    Stops layout (decodeVectorWithin budget T values.length) bytes .refused := by
  induction hdistinct generalizing values bytes budget with
  | @intro T node inside ih =>
      have henc := encoded_vector (.intro node inside) h hbytes
      obtain ⟨data, hdata, hlen⟩ := encodedData h
      obtain ⟨budget, rfl⟩ : ∃ b, budget = b + 1 := ⟨budget - 1, by omega⟩
      have hends : ∀ part ∈ childVectors T values,
          Ends layout prims (decodeVectorWithin budget) part := by
        intro part hmem
        have hchild := (childVector_of_mem hmem).mem_children
        obtain ⟨inner, hinner, hle⟩ := childVectors_within hmem bytes h
        have hpartFits := childVectors_fit hfits h hmem
        by_cases hpartBad : ∃ value ∈ part.2, Unreadable part.1 value
        · exact .inr ⟨inner, hinner, ih part.1 hchild (hheld.inside hchild) hpartFits hinner
            (by omega) (by omega) hpartBad⟩
        · have hgood : ∀ value ∈ part.2, ¬ Unreadable part.1 value := fun value hvalue hbad =>
            hpartBad ⟨value, hvalue, hbad⟩
          have hpart := encoded_vector (inside part.1 hchild) hinner (by omega)
          obtain ⟨inner', hinner', hread⟩ := roundTripsWithin_vector .refl hpart.encodable
            (hheld.inside hchild) (fitsMemory_of_encode hpartFits hinner) fun value hvalue =>
              (hpart.valued value hvalue).resolve_right (hgood value hvalue)
          cases hinner.symm.trans hinner'
          exact .inl ⟨hgood, inner, hinner, hread budget (by omega)⟩
      obtain ⟨physicalType, physical, hstop⟩ :=
        fieldStop_data henc hfits hheld.node (by omega) hdata hends hbad
      have hflat : FieldStop layout 99 fieldEnd (Encode.all [writeGeometryField T, writeMask values,
            encodeFlatData layout prims T values values.length])
          (decodeFlatVectorBody (decodeVectorWithin budget) T values.length .flat) .refused :=
        .later 100 (fieldTrip_geometry rfl) <| .later 102 (fieldTrip_mask hfits) <|
          .ofResult physical <| .here fieldEnd hstop .nil
      have hvector : StopsReading layout (encodeVector layout prims T values values.length)
          (decodeVectorWithin (budget + 1) T values.length) .refused := by
        rw [encodeVector_eq]
        refine FieldStop.object 99 (.recursive ?_ .vector)
        exact .skip (.ofResult rfl hflat.bind) (by decide)
      obtain ⟨bytes', hwrite, hread⟩ := hvector
      cases h.symm.trans hwrite
      exact hread

/-- What the encoder emits is decoded exactly if no value, at any depth, is bytes that are no text or
a number that is no ENUM index. -/
theorem decodesEncoded_iff {bytes : Bytes} (hdistinct : T.Everywhere LogicalType.Distinct)
    (hheld : T.Everywhere (LogicalType.InMemory layout)) (hfits : layout.Fits .value values.length)
    (h : encodeVector layout prims T values values.length = .ok bytes)
    (hbytes : bytes.length ≤ isizeMax) :
    (∃ vector c, (decodeVector T values.length).run layout ⟨bytes, 0⟩ = .ok (vector, c)) ↔
      ∀ value ∈ values, ¬ Unreadable T value := by
  have henc := encoded_vector hdistinct h hbytes
  constructor
  · rintro ⟨vector, c, hrun⟩ value hmem hbad
    have hstops : Stops layout (decodeVector T values.length) bytes .refused :=
      Stops.withBudget fun budget hlt =>
        stops_vector hdistinct hheld hfits h hbytes hlt.le ⟨value, hmem, hbad⟩
    have hend := hstops ⟨bytes, 0⟩ ⟨Nat.zero_le _, hbytes⟩ [] trivial (by simp [Cursor.unread])
    rw [hrun] at hend
    exact hend.not_ok
  · intro hgood
    have htrip := roundTrips_vector .refl henc.encodable hheld (fitsMemory_of_encode hfits h) fun value hmem =>
      (henc.valued value hmem).resolve_right (hgood value hmem)
    exact ⟨_, _, htrip.run_eq h hbytes⟩

theorem labelType_distinct : labelType.Everywhere LogicalType.Distinct := by
  refine .intro ⟨fun children hchildren => ?_, fun _ h => by cases h⟩ fun child hchild => ?_
  · cases hchildren
  · cases hchild

theorem labelType_inMemory : labelType.Everywhere (LogicalType.InMemory .words) := by
  refine .intro (fun info hinfo => ?_) fun child hchild => ?_
  · obtain rfl := Option.mem_some.mp hinfo
    refine ⟨fun text htext => ?_, fun length hlength element => ?_⟩
    · obtain rfl := List.mem_singleton.mp htext
      exact (show (utf8Bytes "a").length ≤ isizeMax by decide)
    · obtain rfl := List.mem_singleton.mp hlength
      exact ⟨by decide, show 1 * 32 ≤ isizeMax by decide⟩
  · cases hchild

theorem encodeVector_label (index : U64) :
    ∃ bytes, encodeVector .words .floatless labelType [.uint index] 1 = .ok bytes ∧
      bytes.length ≤ isizeMax := by
  have hsize : (encodeVector .words .floatless labelType [.uint index] 1).AtMost (17 * 1 + 64) :=
    atMost_fixedVector rfl rfl (by decide) (show 1 < 2 ^ 58 by decide)
  have hok : ∃ bytes, encodeVector .words .floatless labelType [.uint index] 1 = .ok bytes := by
    have heq : encodeVector .words .floatless labelType [.uint index] 1 = writeObject (Encode.all
        [writeGeometryField labelType, writeMask [.uint index],
          encodeFixedVectorBody .floatless labelType .uint8 [.uint index] 1]) :=
      (encodeVector_eq labelType [.uint index]).trans (by rw [encodeFlatData_fixed rfl rfl]; rfl)
    exact ⟨_, heq.trans rfl⟩
  obtain ⟨bytes, hbytes⟩ := hok
  exact ⟨bytes, hbytes, (hsize bytes hbytes).trans (by decide)⟩

theorem decodesEncoded_label : ∃ bytes,
    encodeVector .words .floatless labelType [.uint 0] 1 = .ok bytes ∧
      ∃ vector c, (decodeVector labelType 1).run .words ⟨bytes, 0⟩ = .ok (vector, c) := by
  obtain ⟨bytes, hbytes, hlen⟩ := encodeVector_label 0
  refine ⟨bytes, hbytes, (decodesEncoded_iff labelType_distinct labelType_inMemory
    ⟨by decide, by decide⟩ hbytes hlen).mpr fun value hmem hbad => ?_⟩
  obtain rfl := List.mem_singleton.mp hmem
  obtain ⟨-, labels, index, hlabels, hindex, hle⟩ := hbad.badIndex rfl rfl
  cases hlabels
  cases hindex
  exact absurd hle (by decide)

/-- The index 1 of an ENUM with one label is written and cannot be read. -/
theorem not_decodesEncoded_label : labelType.Everywhere LogicalType.Distinct ∧ ∃ bytes,
    encodeVector .words .floatless labelType [.uint 1] 1 = .ok bytes ∧
      ∃ e, (decodeVector labelType 1).run .words ⟨bytes, 0⟩ = .err e := by
  obtain ⟨bytes, hbytes, hlen⟩ := encodeVector_label 1
  have hbad : Unreadable labelType (.uint 1) := .label ⟨rfl, ["a"], 1, rfl, rfl, by decide⟩
  have hstops : Stops Layout.words (decodeVector labelType 1) bytes .refused :=
    Stops.withBudget fun budget hlt => stops_vector labelType_distinct labelType_inMemory
      ⟨by decide, by decide⟩ hbytes hlen hlt.le ⟨_, List.mem_singleton_self _, hbad⟩
  exact ⟨labelType_distinct, bytes, hbytes,
    (hstops ⟨bytes, 0⟩ ⟨Nat.zero_le _, hlen⟩ [] trivial (by simp [Cursor.unread])).refused⟩

end QuackProtocol
