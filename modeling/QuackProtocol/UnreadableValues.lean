import QuackProtocol.BinaryStops
import QuackProtocol.ChunkRoundTrip
import QuackProtocol.FixedData

/-! What the encoder accepts and the decoder refuses. Every value that a column takes is either stored
or, at some depth, a byte string that is no text or a number that is no ENUM index; one of these is
enough to stop the decoder. -/

open Decoding Decode Varint

namespace QuackProtocol

variable {layout : Layout} {prims : Primitives} {T childType : LogicalType}
  {physicalType : PhysicalType} {value : Value}

/-- The bits of an index into the labels of an ENUM. -/
def indexWidth (labels : List String) : Nat :=
  if labels.length ≤ 0xff then 8 else if labels.length ≤ 0xffff then 16 else 32

/-- The index of an ENUM value that is given as a number. -/
def Value.labelIndex : Value → Option Nat
  | .uint v | .int v => some v.toNat
  | _ => none

/-- An index that is not the index of a label once it has been narrowed. -/
def BadIndex (T : LogicalType) (value : Value) : Prop :=
  T.id = .enum ∧ ∃ labels index, getEnumValues T = .ok labels ∧ value.labelIndex = some index ∧
    labels.length ≤ index % 2 ^ indexWidth labels

/-- Bytes that are no text, in a column of texts. -/
def BadText (T : LogicalType) (value : Value) : Prop :=
  ∃ raw e, value = .bytes raw ∧ fromUtf8 raw = .error e ∧
    T.id ≠ .blob ∧ T.id ≠ .geometry ∧ T.id ≠ .bit

/-- A value that cannot be read back, for a reason at some depth of it. -/
inductive Unreadable : LogicalType → Value → Prop where
  | text {T : LogicalType} {value : Value} (physical : getPhysicalType T = .ok .varchar)
      (bad : BadText T value) : Unreadable T value
  | label {T : LogicalType} {value : Value} (bad : BadIndex T value) : Unreadable T value
  | field {T : LogicalType} {children : List ChildType} {child : ChildType} {value : Value}
      (physical : getPhysicalType T = .ok .struct)
      (structChildren : getStructChildren T = .ok children) (member : child ∈ children)
      (inside : Unreadable child.logicalType (structField child.name value)) : Unreadable T value
  | item {T childType : LogicalType} {items : List Value} {item : Value}
      (physical : getPhysicalType T = .ok .list ∨ getPhysicalType T = .ok .array)
      (child : getChildType T = .ok childType) (member : item ∈ items)
      (inside : Unreadable childType item) : Unreadable T (.list items)

theorem not_unreadable_null : ¬ Unreadable T .null := by
  intro h
  generalize hvalue : Value.null = value at h
  induction h with
  | text _ bad =>
      obtain ⟨_, _, hbytes, -⟩ := bad
      cases hvalue.trans hbytes
  | label bad =>
      obtain ⟨-, _, _, -, hindex, -⟩ := bad
      rw [← hvalue] at hindex
      cases hindex
  | field _ _ _ _ ih =>
      subst hvalue
      exact ih rfl
  | item => cases hvalue

theorem physicalType_index {labels : List String} (hid : T.id = .enum)
    (hlabels : getEnumValues T = .ok labels) (physical : getPhysicalType T = .ok physicalType) :
    physicalType = .uint8 ∧ indexWidth labels = 8 ∨ physicalType = .uint16 ∧ indexWidth labels = 16 ∨
      physicalType = .uint32 ∧ indexWidth labels = 32 := by
  have h := physical.symm.trans (physicalType_of_enum hid hlabels)
  rw [indexWidth]
  split_ifs at h ⊢ <;> cases h <;> simp

/-- The number stored for an ENUM value. -/
theorem encodeEnumOrNumber_cases {labels : List String} {number : U64} (hid : T.id = .enum)
    (hlabels : getEnumValues T = .ok labels) (h : encodeEnumOrNumber prims T value = .ok number) :
    value.labelIndex = some number.toNat ∨ value.labelIndex = none ∧ number.toNat < labels.length := by
  unfold encodeEnumOrNumber at h
  rw [if_neg (not_not.mpr hid)] at h
  cases value <;> simp only at h
  case uint v =>
    cases h
    exact .inl rfl
  case int v =>
    split at h
    · cases h
      exact .inl rfl
    · cases h
  case string text =>
    obtain ⟨_, hfound, h⟩ := Except.bind_eq_ok h
    cases hlabels.symm.trans hfound
    split at h
    · rename_i index hindex
      cases h
      obtain ⟨hlt, -⟩ := List.findIdx?_eq_some_iff_getElem.mp hindex
      refine .inr ⟨rfl, ?_⟩
      rw [BitVec.toNat_ofNat]
      exact (Nat.mod_le _ _).trans_lt hlt
    · cases h
  all_goals cases h

/-- A stored index has no label exactly if the number given for it has none. -/
theorem badLabel_iff {number : U64} {word : Bytes}
    (hnumber : encodeEnumOrNumber prims T value = .ok number)
    (hword : ∀ labels, T.id = .enum → getEnumValues T = .ok labels →
      ofLe word = number.toNat % 2 ^ indexWidth labels) : BadLabel T word ↔ BadIndex T value := by
  constructor
  · rintro ⟨hid, labels, hlabels, hle⟩
    rw [hword labels hid hlabels] at hle
    rcases encodeEnumOrNumber_cases hid hlabels hnumber with hindex | ⟨-, hlt⟩
    · exact ⟨hid, labels, _, hlabels, hindex, hle⟩
    · exact absurd (hle.trans (Nat.mod_le _ _)) (not_le.mpr hlt)
  · rintro ⟨hid, labels, index, hlabels, hindex, hle⟩
    refine ⟨hid, labels, hlabels, ?_⟩
    rw [hword labels hid hlabels]
    rcases encodeEnumOrNumber_cases hid hlabels hnumber with hindex' | ⟨hnone, -⟩
    · cases hindex.symm.trans hindex'
      exact hle
    · rw [hnone] at hindex
      cases hindex

/-- A column of unsigned words narrow enough to be indices. -/
theorem narrowValue_cases (size : Nat) {word : Bytes}
    (physical : getPhysicalType T = .ok physicalType)
    (hwidth : ∀ labels, T.id = .enum → getEnumValues T = .ok labels → indexWidth labels = 8 * size)
    (hsize : 8 * size ≤ 64)
    (h : (liftM (encodeEnumOrNumber prims T value) >>= fun number =>
      .ok (toLe size (number.setWidth (8 * size)).toNat) : Encode) = .ok word) :
    (BadLabel T word ↔ BadIndex T value) ∧ (¬ BadLabel T word → ∃ w,
      (liftM (encodeEnumOrNumber prims T value) >>= fun number =>
        liftM (decodeEnumOrNumber T ((number.setWidth (8 * size)).setWidth 64)) :
          Outcome QuackError Value) = .ok w) := by
  obtain ⟨number, hlift, h⟩ := Outcome.bind_eq_ok h
  have hnumber := Outcome.lift_eq_ok hlift
  cases h
  have hpow : 256 ^ size = 2 ^ (8 * size) := by rw [Nat.pow_mul]
  have hword : ofLe (toLe size (number.setWidth (8 * size)).toNat) = number.toNat % 2 ^ (8 * size) := by
    rw [ofLe_toLe, hpow, BitVec.toNat_setWidth, Nat.mod_mod]
  refine ⟨badLabel_iff hnumber fun labels hid hlabels => by rw [hwidth labels hid hlabels, hword], ?_⟩
  intro hgood
  have hindex : ((number.setWidth (8 * size)).setWidth 64).toNat =
      ofLe (toLe size (number.setWidth (8 * size)).toNat) := by
    have hle := Nat.pow_le_pow_right (n := 2) (by decide) hsize
    have hlt : number.toNat % 2 ^ (8 * size) < 2 ^ (8 * size) := Nat.mod_lt _ (by positivity)
    rw [hword, BitVec.toNat_setWidth, BitVec.toNat_setWidth, Nat.mod_eq_of_lt (hlt.trans_le hle)]
  rcases decodeEnumOrNumber_cases physical _ hindex with ⟨-, w, hw⟩ | ⟨hbad, -⟩
  · exact ⟨w, by rw [hlift]; exact congrArg liftM hw⟩
  · exact absurd hbad hgood

/-- A value that a fixed-size column takes is stored, unless it is an index without a label. -/
theorem fixedValue_cases {word : Bytes} (physical : getPhysicalType T = .ok physicalType)
    (hnull : value ≠ .null) (h : encodeFixedValue prims T physicalType value = .ok word) :
    (BadLabel T word ↔ BadIndex T value) ∧
      (¬ BadLabel T word → ∃ w, storedFixed prims T physicalType value = .ok w) := by
  have hwide (hpt : ¬ (physicalType = .uint8 ∨ physicalType = .uint16 ∨ physicalType = .uint32)) :
      BadLabel T word ↔ BadIndex T value := by
    have hid : T.id ≠ .enum := by
      intro hid
      obtain ⟨labels, hlabels⟩ := enumValues_of_physical physical hid
      rcases physicalType_index hid hlabels physical with ⟨h, -⟩ | ⟨h, -⟩ | ⟨h, -⟩ <;>
        exact hpt (by simp [h])
    exact iff_of_false (fun hbad => hid hbad.1) fun hbad => hid hbad.1
  unfold encodeFixedValue at h
  rw [Value.isNull_eq_false hnull, if_neg Bool.false_ne_true] at h
  unfold storedFixed
  cases physicalType with
  | bool => exact ⟨hwide (by decide), fun _ => ⟨_, rfl⟩⟩
  | int8 =>
      obtain ⟨number, hnumber, -⟩ := Outcome.bind_eq_ok h
      exact ⟨hwide (by decide), fun _ => ⟨_, by rw [hnumber]; rfl⟩⟩
  | int16 =>
      obtain ⟨number, hnumber, -⟩ := Outcome.bind_eq_ok h
      obtain ⟨w, hw⟩ := decodeDecimalOrInt_ok physical ((number.setWidth 16).signExtend 128)
      exact ⟨hwide (by decide), fun _ => ⟨w, by rw [hnumber]; exact congrArg liftM hw⟩⟩
  | int32 =>
      obtain ⟨number, hnumber, -⟩ := Outcome.bind_eq_ok h
      obtain ⟨w, hw⟩ := decodeDateDecimalOrInt_ok physical (number.setWidth 32)
      exact ⟨hwide (by decide), fun _ => ⟨w, by rw [hnumber]; exact congrArg liftM hw⟩⟩
  | int64 =>
      obtain ⟨number, hnumber, -⟩ := Outcome.bind_eq_ok h
      obtain ⟨w, hw⟩ := decodeInt64LogicalValue_ok physical number
      exact ⟨hwide (by decide), fun _ => ⟨w, by rw [hnumber]; exact congrArg liftM hw⟩⟩
  | int128 =>
      obtain ⟨parts, hparts, -⟩ := Outcome.bind_eq_ok h
      obtain ⟨w, hw⟩ := decodeInt128Parts_ok physical parts
      exact ⟨hwide (by decide), fun _ => ⟨w, by rw [hparts]; exact congrArg liftM hw⟩⟩
  | uint64 | uint128 | float | double =>
      obtain ⟨number, hnumber, -⟩ := Outcome.bind_eq_ok h
      exact ⟨hwide (by decide), fun _ => ⟨_, by rw [hnumber]; rfl⟩⟩
  | interval =>
      refine ⟨hwide (by decide), fun _ => ?_⟩
      cases value <;> cases h
      exact ⟨_, rfl⟩
  | uint8 =>
      refine narrowValue_cases 1 physical (fun labels hid hlabels => ?_) (by decide) h
      rcases physicalType_index hid hlabels physical with ⟨-, h⟩ | ⟨h, -⟩ | ⟨h, -⟩ <;>
        first | exact h | cases h
  | uint16 =>
      refine narrowValue_cases 2 physical (fun labels hid hlabels => ?_) (by decide) h
      rcases physicalType_index hid hlabels physical with ⟨h, -⟩ | ⟨-, h⟩ | ⟨h, -⟩ <;>
        first | exact h | cases h
  | uint32 =>
      refine narrowValue_cases 4 physical (fun labels hid hlabels => ?_) (by decide) h
      rcases physicalType_index hid hlabels physical with ⟨h, -⟩ | ⟨h, -⟩ | ⟨-, h⟩ <;>
        first | exact h | cases h
  | list | struct | array | varchar | bit | invalid => cases h

theorem fromUtf8_cases (raw : Bytes) : (∃ text, fromUtf8 raw = .ok text) ∨ ∃ e, fromUtf8 raw = .error e := by
  cases h : fromUtf8 raw with
  | ok text => exact .inl ⟨text, rfl⟩
  | error e => exact .inr ⟨e, rfl⟩

theorem decodeStringLikeValue_text {raw : Bytes} {text : String} (h : fromUtf8 raw = .ok text) :
    ∃ w, decodeStringLikeValue T raw = .ok w := by
  unfold decodeStringLikeValue
  rw [h]
  split <;> exact ⟨_, rfl⟩

/-- A value that a column of strings takes is stored, unless it is bytes that are no text. -/
theorem stringValue_cases {raw : Bytes} (hnull : value ≠ .null)
    (h : encodeStringLikeValue prims value = .ok raw) :
    (¬ BadText T value ∧ ∃ w, decodeStringLikeValue T raw = .ok w) ∨
      BadText T value ∧ ∃ e, decodeStringLikeValue T raw = .error e := by
  by_cases hbytes : value = .bytes raw
  · subst hbytes
    have hbad : BadText T (.bytes raw) ↔ (∃ e, fromUtf8 raw = .error e) ∧
        T.id ≠ .blob ∧ T.id ≠ .geometry ∧ T.id ≠ .bit := by
      constructor
      · rintro ⟨raw', e, heq, he, hid⟩
        cases heq
        exact ⟨⟨e, he⟩, hid⟩
      · rintro ⟨⟨e, he⟩, hid⟩
        exact ⟨raw, e, rfl, he, hid⟩
    rw [hbad]
    rcases fromUtf8_cases raw with ⟨text, htext⟩ | ⟨e, he⟩
    · refine .inl ⟨?_, decodeStringLikeValue_text htext⟩
      rintro ⟨⟨e, he⟩, -⟩
      cases htext.symm.trans he
    · by_cases hid : T.id ≠ .blob ∧ T.id ≠ .geometry ∧ T.id ≠ .bit
      · refine .inr ⟨⟨⟨e, he⟩, hid⟩, e, ?_⟩
        unfold decodeStringLikeValue
        split
        case h_4 => rw [he]; rfl
        all_goals simp_all
      · refine .inl ⟨fun hbad => hid hbad.2, .bytes raw, ?_⟩
        unfold decodeStringLikeValue
        split
        case h_4 => simp_all
        all_goals rfl
  · have htext : ∃ text, raw = utf8Bytes text := by
      unfold encodeStringLikeValue at h
      split at h
      · exact absurd rfl hnull
      · cases h
        exact absurd rfl hbytes
      · cases h
        exact ⟨_, rfl⟩
      · obtain ⟨text, -, h⟩ := Outcome.bind_eq_ok h
        cases h
        exact ⟨text, rfl⟩
    obtain ⟨text, rfl⟩ := htext
    refine .inl ⟨?_, decodeStringLikeValue_text (fromUtf8_utf8Bytes text)⟩
    rintro ⟨raw', e, rfl, -⟩
    cases h
    exact hbytes rfl

theorem gatherLists_mem {offset : Nat} {values childValues : List Value} {entries : List ListEntry}
    (h : gatherLists offset values = .ok (entries, childValues)) (hmem : value ∈ values) :
    value = .null ∨ ∃ items, value = .list items ∧ ∀ item ∈ items, item ∈ childValues := by
  induction values generalizing offset entries childValues with
  | nil => cases hmem
  | cons first values ih =>
      rcases gatherLists_cons h with ⟨rfl, rest, htail, rfl⟩ | ⟨items, rest, others, rfl, htail, rfl, rfl⟩
      · rcases List.mem_cons.mp hmem with rfl | hmem
        · exact .inl rfl
        · exact ih htail hmem
      · rcases List.mem_cons.mp hmem with rfl | hmem
        · exact .inr ⟨items, rfl, fun item hitem => List.mem_append_left _ hitem⟩
        · rcases ih htail hmem with hnull | ⟨inner, hvalue, hinner⟩
          · exact .inl hnull
          · exact .inr ⟨inner, hvalue, fun item hitem => List.mem_append_right _ (hinner item hitem)⟩

theorem gatherArrays_mem {arraySize : Nat} {values childValues : List Value}
    (h : gatherArrays arraySize values = .ok childValues) (hmem : value ∈ values) :
    value = .null ∨ ∃ items, value = .list items ∧ items.length = arraySize ∧
      ∀ item ∈ items, item ∈ childValues := by
  induction values generalizing childValues with
  | nil => cases hmem
  | cons first values ih =>
      obtain ⟨items, others, hfirst, hlen, htail, rfl⟩ := gatherArrays_cons h
      rcases List.mem_cons.mp hmem with rfl | hmem
      · rcases hfirst with ⟨hnull, -⟩ | hlist
        · exact .inl hnull
        · exact .inr ⟨items, hlist, hlen, fun item hitem => List.mem_append_left _ hitem⟩
      · rcases ih htail hmem with hnull | ⟨inner, hvalue, hsize, hinner⟩
        · exact .inl hnull
        · exact .inr ⟨inner, hvalue, hsize,
            fun item hitem => List.mem_append_right _ (hinner item hitem)⟩

/-! ### What the encoder accepts -/

/-- The children of a STRUCT have names of their own and an ENUM has a label. -/
structure LogicalType.Distinct (T : LogicalType) : Prop where
  names : ∀ children, getStructChildren T = .ok children → (children.map ChildType.name).Nodup
  labels : T.id = .enum → getEnumValues T ≠ .ok []

section
variable {values : List Value} {data : Bytes}

/-- The data of a vector that was written. -/
theorem encodedData {bytes : Bytes}
    (h : encodeVector layout prims T values values.length = .ok bytes) :
    ∃ data, encodeFlatData layout prims T values values.length = .ok data ∧
      data.length + 1 ≤ bytes.length := by
  rw [encodeVector_eq] at h
  exact Encode.Within.object (.refl _) (by simp) bytes h

theorem encodedWords (physical : getPhysicalType T = .ok physicalType)
    (size : isConstantSizePhysicalType physicalType = true)
    (h : encodeFlatData layout prims T values values.length = .ok data) :
    ∀ value ∈ values, ∃ word, encodeFixedValue prims T physicalType value = .ok word := by
  rw [encodeFlatData_fixed physical size] at h
  obtain ⟨width, -, h⟩ := Outcome.bind_eq_ok h
  obtain ⟨-, -, h⟩ := Outcome.bind_eq_ok h
  obtain ⟨-, -, h⟩ := Outcome.bind_eq_ok h
  obtain ⟨words, hwords, -⟩ := Outcome.bind_eq_ok h
  intro value hmem
  have hwithin : Encode.Within (encodeFixedValue prims T physicalType value) _ 0 :=
    .all (.refl _) (List.mem_map_of_mem hmem)
  obtain ⟨word, hword, -⟩ := hwithin words hwords
  exact ⟨word, hword⟩

theorem encodeFlatData_varchar (physical : getPhysicalType T = .ok .varchar) :
    encodeFlatData layout prims T values values.length = encodeVarcharVectorBody prims values := by
  rw [encodeFlatData, physical]
  rfl

theorem encodedTexts (physical : getPhysicalType T = .ok .varchar)
    (h : encodeFlatData layout prims T values values.length = .ok data) :
    ∀ value ∈ values, ∃ raw, encodeStringLikeValue prims value = .ok raw ∧ raw.length ≤ data.length := by
  rw [encodeFlatData_varchar physical] at h
  intro value hmem
  have hwithin : Encode.Within (do
      let bytes ← encodeStringLikeValue prims value
      writeStringBytes bytes) (encodeVarcharVectorBody prims values) 0 :=
    .field (.list (.refl _) (List.mem_map_of_mem hmem)) 102
  obtain ⟨bytes, hbytes, hle⟩ := hwithin data h
  obtain ⟨raw, hraw, hwrite⟩ := Outcome.bind_eq_ok hbytes
  obtain ⟨front, back, -, hback, rfl⟩ := Encode.append_eq_ok hwrite
  cases hback
  rw [List.length_append] at hle
  exact ⟨raw, hraw, by omega⟩

theorem encodedStruct (physical : getPhysicalType T = .ok .struct)
    (h : encodeFlatData layout prims T values values.length = .ok data) :
    ∃ children, getStructChildren T = .ok children := by
  rw [(encodeFlatData_nested physical).1 rfl, encodeStructVectorBody] at h
  split at h
  · rename_i children hchildren
    exact ⟨children, hchildren⟩
  · cases h

theorem encodedList (physical : getPhysicalType T = .ok .list)
    (h : encodeFlatData layout prims T values values.length = .ok data) :
    ∃ childType entries childValues, getChildType T = .ok childType ∧
      gatherLists 0 values = .ok (entries, childValues) ∧ layout.Fits .value childValues.length := by
  rw [(encodeFlatData_nested physical).2.1 rfl, encodeListVectorBody] at h
  split at h
  · rename_i childType hchild
    obtain ⟨-, -, h⟩ := Outcome.bind_eq_ok h
    obtain ⟨⟨entries, childValues⟩, hgather, h⟩ := Outcome.bind_eq_ok h
    obtain ⟨⟨⟩, hallocate, -⟩ := Outcome.bind_eq_ok h
    exact ⟨childType, entries, childValues, hchild, Outcome.lift_eq_ok hgather, Layout.fits_of_allocate hallocate⟩
  · cases h

theorem encodedArray (physical : getPhysicalType T = .ok .array)
    (h : encodeFlatData layout prims T values values.length = .ok data) :
    ∃ childType size childValues, getChildType T = .ok childType ∧ getArraySize T = .ok size ∧
      gatherArrays size.toNat values = .ok childValues ∧ layout.Fits .value childValues.length := by
  rw [(encodeFlatData_nested physical).2.2 rfl, encodeArrayVectorBody] at h
  split at h
  · rename_i childType hchild
    obtain ⟨size, hsize, h⟩ := Outcome.bind_eq_ok h
    obtain ⟨-, -, h⟩ := Outcome.bind_eq_ok h
    obtain ⟨⟨⟩, hallocate, h⟩ := Outcome.bind_eq_ok h
    obtain ⟨childValues, hgather, -⟩ := Outcome.bind_eq_ok h
    have hgather := Outcome.lift_eq_ok hgather
    refine ⟨childType, size, childValues, hchild, Outcome.lift_eq_ok hsize, hgather, ?_⟩
    rw [(gatherArrays_row hgather).1]
    exact Layout.fits_of_allocate hallocate
  · cases h

end

/-- What is known of a vector that was written. -/
structure Encoded (prims : Primitives) (T : LogicalType) (values : List Value) : Prop where
  encodable : Encodable T
  valued : ∀ value ∈ values, Storable prims T value ∨ Unreadable T value

theorem encoded_fixed {values : List Value} {data : Bytes}
    (physical : getPhysicalType T = .ok physicalType)
    (size : isConstantSizePhysicalType physicalType = true) (hdistinct : T.Distinct)
    (h : encodeFlatData layout prims T values values.length = .ok data) :
    Encoded prims T values := by
  refine ⟨.fixed physical size hdistinct.labels, fun value hmem => ?_⟩
  by_cases hnull : value = .null
  · exact hnull ▸ .inl (.null T)
  obtain ⟨word, hword⟩ := encodedWords physical size h value hmem
  obtain ⟨hiff, hgood⟩ := fixedValue_cases physical hnull hword
  by_cases hbad : BadLabel T word
  · exact .inr (.label (hiff.mp hbad))
  · obtain ⟨w, hw⟩ := hgood hbad
    exact .inl (.fixed physical size hnull hw)

theorem encoded_varchar {values : List Value} {data : Bytes}
    (physical : getPhysicalType T = .ok .varchar) (hlen : data.length ≤ isizeMax)
    (h : encodeFlatData layout prims T values values.length = .ok data) :
    Encoded prims T values := by
  refine ⟨.varchar physical, fun value hmem => ?_⟩
  by_cases hnull : value = .null
  · exact hnull ▸ .inl (.null T)
  obtain ⟨raw, hraw, hle⟩ := encodedTexts physical h value hmem
  rcases stringValue_cases hnull hraw with ⟨-, w, hw⟩ | ⟨hbad, -⟩
  · exact .inl (.varchar physical hnull hraw (hle.trans hlen) hw)
  · exact .inr (.text physical hbad)

section
variable {values : List Value} {data : Bytes}
  (hpart : ∀ part ∈ childVectors T values, Encoded prims part.1 part.2)
include hpart

theorem encoded_struct (physical : getPhysicalType T = .ok .struct) (hdistinct : T.Distinct)
    (h : encodeFlatData layout prims T values values.length = .ok data) :
    Encoded prims T values := by
  obtain ⟨children, hchildren⟩ := encodedStruct physical h
  have hfield : ∀ child ∈ children,
      Encoded prims child.logicalType (structColumn child.name values) := by
    intro child hmem
    apply hpart (child.logicalType, structColumn child.name values)
    rw [childVectors_struct values physical hchildren]
    exact List.mem_map_of_mem hmem
  refine ⟨?_, fun value hmem => ?_⟩
  · exact .struct physical hchildren (hdistinct.names children hchildren) fun child hmem =>
      (hfield child hmem).encodable
  · by_cases hnull : value = .null
    · exact hnull ▸ .inl (.null T)
    by_cases hall : ∀ child ∈ children, Storable prims child.logicalType (structField child.name value)
    · exact .inl (.struct physical hchildren hnull hall)
    · simp only [not_forall] at hall
      obtain ⟨child, hchild, hnot⟩ := hall
      rcases (hfield child hchild).valued _ (List.mem_map_of_mem hmem) with hgood | hbad
      · exact absurd hgood hnot
      · exact .inr (.field physical hchildren hchild hbad)

theorem encoded_list (physical : getPhysicalType T = .ok .list)
    (h : encodeFlatData layout prims T values values.length = .ok data) :
    Encoded prims T values := by
  obtain ⟨childType, entries, childValues, hchild, hgather, -⟩ := encodedList physical h
  have hinside : Encoded prims childType childValues := by
    apply hpart (childType, childValues)
    rw [childVectors_list physical hchild hgather]
    exact List.mem_singleton_self _
  refine ⟨.list physical hchild hinside.encodable, fun value hmem => ?_⟩
  rcases gatherLists_mem hgather hmem with rfl | ⟨items, rfl, hitems⟩
  · exact .inl (.null T)
  by_cases hall : ∀ item ∈ items, Storable prims childType item
  · exact .inl (.list physical hchild hall)
  · simp only [not_forall] at hall
    obtain ⟨item, hitem, hnot⟩ := hall
    rcases hinside.valued item (hitems item hitem) with hgood | hbad
    · exact absurd hgood hnot
    · exact .inr (.item (.inl physical) hchild hitem hbad)

theorem encoded_array (physical : getPhysicalType T = .ok .array)
    (h : encodeFlatData layout prims T values values.length = .ok data) :
    Encoded prims T values := by
  obtain ⟨childType, size, childValues, hchild, hsize, hgather, -⟩ := encodedArray physical h
  have hinside : Encoded prims childType childValues := by
    apply hpart (childType, childValues)
    rw [childVectors_array physical hchild hsize hgather]
    exact List.mem_singleton_self _
  refine ⟨.array physical hchild hsize hinside.encodable, fun value hmem => ?_⟩
  rcases gatherArrays_mem hgather hmem with rfl | ⟨items, rfl, hlen, hitems⟩
  · exact .inl (.null T)
  by_cases hall : ∀ item ∈ items, Storable prims childType item
  · exact .inl (.array physical hchild hsize hlen hall)
  · simp only [not_forall] at hall
    obtain ⟨item, hitem, hnot⟩ := hall
    rcases hinside.valued item (hitems item hitem) with hgood | hbad
    · exact absurd hgood hnot
    · exact .inr (.item (.inr physical) hchild hitem hbad)

end

/-- A column is written only with values that are stored or cannot be read back. -/
theorem encoded_vector (hdistinct : T.Everywhere LogicalType.Distinct) {values : List Value}
    {bytes : Bytes} (h : encodeVector layout prims T values values.length = .ok bytes)
    (hbytes : bytes.length ≤ isizeMax) : Encoded prims T values := by
  induction hdistinct generalizing values bytes with
  | @intro T node inside ih =>
      obtain ⟨data, hdata, hlen⟩ := encodedData h
      cases hphysical : getPhysicalType T with
      | error e =>
          rw [encodeFlatData, hphysical] at hdata
          cases hdata
      | ok physicalType =>
          have hpart (part : LogicalType × List Value) (hmem : part ∈ childVectors T values) :
              Encoded prims part.1 part.2 := by
            obtain ⟨inner, hinner, hle⟩ := childVectors_within hmem bytes h
            exact ih part.1 (childVector_of_mem hmem).mem_children hinner (by omega)
          by_cases size : isConstantSizePhysicalType physicalType = true
          · exact encoded_fixed hphysical size node hdata
          cases physicalType with
          | varchar => exact encoded_varchar hphysical (by omega) hdata
          | struct => exact encoded_struct hpart hphysical node hdata
          | list => exact encoded_list hpart hphysical hdata
          | array => exact encoded_array hpart hphysical hdata
          | bit | invalid =>
              rw [encodeFlatData, hphysical] at hdata
              cases hdata
          | _ => exact absurd rfl size

end QuackProtocol
