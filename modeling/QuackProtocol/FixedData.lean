import QuackProtocol.CanonicalValues
import QuackProtocol.DecoderSafety
import QuackProtocol.DecodingStops
import QuackProtocol.FixedColumns

/-! The data of a fixed-size column, word by word, whatever its bytes are. Every word of the right size
is some value, except an ENUM index without a label, and each word is decoded before the validity mask
is asked. -/

open Decoding Decode Varint

namespace QuackProtocol

variable {layout : Layout} {T : LogicalType} {physicalType : PhysicalType} {word : Bytes}

theorem toLe_ofLe (bytes : Bytes) : toLe bytes.length (ofLe bytes) = bytes := by
  induction bytes with
  | nil => rfl
  | cons byte bytes ih =>
      have hbyte := byte.toNat_lt
      have hrest : (byte.toNat + 256 * ofLe bytes) / 256 = ofLe bytes := by omega
      have hlow : (byte.toNat + 256 * ofLe bytes) % 256 = byte.toNat := by omega
      rw [List.length_cons, ofLe, toLe, hrest, hlow, ih, UInt8.ofNat_toNat]

/-- The number that a word of `size` bytes holds, as the reader sees it. -/
theorem toLe_ofNat_ofLe {size : Nat} (h : word.length = size) :
    toLe size (BitVec.ofNat (8 * size) (ofLe word)).toNat = word := by
  have hpow : 256 ^ size = 2 ^ (8 * size) := by rw [Nat.pow_mul]
  have hlt := ofLe_lt word
  rw [h, hpow] at hlt
  rw [BitVec.toNat_ofNat, Nat.mod_eq_of_lt hlt, ← h, toLe_ofLe]

theorem toLe_halves {size size' : Nat} (h : word.length = size + size') :
    toLe size (BitVec.ofNat (8 * size) (ofLe (word.take size))).toNat ++
      toLe size' (BitVec.ofNat (8 * size') (ofLe (word.drop size))).toNat = word := by
  rw [toLe_ofNat_ofLe (by simp [h]), toLe_ofNat_ofLe (by simp [h]), List.take_append_drop]

/-- An index that has no label. -/
def BadLabel (T : LogicalType) (word : Bytes) : Prop :=
  T.id = .enum ∧ ∃ labels, getEnumValues T = .ok labels ∧ labels.length ≤ ofLe word

theorem decodeEnumOrNumber_enum {labels : List String} (hid : T.id = .enum)
    (hlabels : getEnumValues T = .ok labels) (index : U64) :
    decodeEnumOrNumber T index = match labels[index.toNat]? with
      | some label => .ok (.string label)
      | none => .error (.protocol s!"ENUM index {index.toNat} is out of range") := by
  rw [decodeEnumOrNumber, if_neg (not_not.mpr hid), hlabels]
  rfl

theorem decodeEnumOrNumber_cases (physical : getPhysicalType T = .ok physicalType) (index : U64)
    (hindex : index.toNat = ofLe word) :
    (¬ BadLabel T word ∧ ∃ w, decodeEnumOrNumber T index = .ok w) ∨
      (BadLabel T word ∧ ∃ e, decodeEnumOrNumber T index = .error e) := by
  by_cases hid : T.id = .enum
  · obtain ⟨labels, hlabels⟩ := enumValues_of_physical physical hid
    rw [decodeEnumOrNumber_enum hid hlabels, hindex]
    by_cases hlt : ofLe word < labels.length
    · refine .inl ⟨?_, .string labels[ofLe word], by rw [List.getElem?_eq_getElem hlt]⟩
      rintro ⟨-, labels', hlabels', hle⟩
      cases hlabels.symm.trans hlabels'
      omega
    · refine .inr ⟨⟨hid, labels, hlabels, by omega⟩, ?_⟩
      rw [List.getElem?_eq_none (by omega)]
      exact ⟨_, rfl⟩
  · exact .inl ⟨fun h => hid h.1, _, if_pos hid⟩

/-- A narrow unsigned word, which may be an ENUM index. -/
theorem enumWord_cases {size : Nat} (physical : getPhysicalType T = .ok physicalType)
    (hlen : word.length = size) (hsize : 8 * size ≤ 64) {read : Decoder Value}
    (hread : read = readFixed size >>= fun v => ofResult (decodeEnumOrNumber T (v.setWidth 64)))
    (hwords : ∀ (v : BitVec (8 * size)) w, decodeEnumOrNumber T (v.setWidth 64) = .ok w →
      FixedWords T physicalType (toLe size v.toNat) w) :
    (¬ BadLabel T word ∧ ∃ w, FixedWords T physicalType word w) ∨
      (BadLabel T word ∧ Stops layout read word .refused) := by
  have hback := toLe_ofNat_ofLe hlen
  have hindex : ((BitVec.ofNat (8 * size) (ofLe word)).setWidth 64).toNat = ofLe word := by
    have hpow : 256 ^ size = 2 ^ (8 * size) := by rw [Nat.pow_mul]
    have hlt := ofLe_lt word
    rw [hlen, hpow] at hlt
    have hle := Nat.pow_le_pow_right (n := 2) (by decide) hsize
    rw [BitVec.toNat_setWidth, BitVec.toNat_ofNat, Nat.mod_eq_of_lt hlt,
      Nat.mod_eq_of_lt (hlt.trans_le hle)]
  rcases decodeEnumOrNumber_cases physical _ hindex with ⟨hgood, w, hw⟩ | ⟨hbad, e, he⟩
  · refine .inl ⟨hgood, w, ?_⟩
    rw [← hback]
    exact hwords _ w hw
  · refine .inr ⟨hbad, ?_⟩
    have hword : Reads layout (readFixed size) word (BitVec.ofNat (8 * size) (ofLe word)) := by
      have h : Reads layout (readFixed size) (toLe size (BitVec.ofNat (8 * size) (ofLe word)).toNat) _ :=
        reads_readFixed size (BitVec.ofNat (8 * size) (ofLe word))
      rwa [hback] at h
    rw [hread]
    exact Stops.then_nil hword (Stops.ofResult he)

theorem decodeDateDecimalOrInt_ok (physical : getPhysicalType T = .ok physicalType) (v : I32) :
    ∃ w, decodeDateDecimalOrInt T v = .ok w := by
  rw [decodeDateDecimalOrInt]
  split
  · exact ⟨_, rfl⟩
  · exact decodeDecimalOrInt_ok physical _

/-- Every word is read as a value or, where it is an index without a label, refused. -/
theorem word_cases (layout : Layout) (physical : getPhysicalType T = .ok physicalType)
    (hsize : constantSize physicalType = some word.length) :
    (¬ BadLabel T word ∧ ∃ w, FixedWords T physicalType word w) ∨
      (BadLabel T word ∧ Stops layout (decodeFixedValue T physicalType) word .refused) := by
  have hnarrow (h : T.id = .enum) :
      physicalType = .uint8 ∨ physicalType = .uint16 ∨ physicalType = .uint32 := by
    obtain ⟨labels, hlabels⟩ := enumValues_of_physical physical h
    have hindex := physical.symm.trans (physicalType_of_enum h hlabels)
    split_ifs at hindex <;> cases hindex <;> simp
  have hscalar {other : Bytes} {w : Value}
      (hwide : ¬ (physicalType = .uint8 ∨ physicalType = .uint16 ∨ physicalType = .uint32))
      (hback : other = word) (h : FixedWords T physicalType other w) :
      (¬ BadLabel T word ∧ ∃ w, FixedWords T physicalType word w) ∨
        (BadLabel T word ∧ Stops layout (decodeFixedValue T physicalType) word .refused) :=
    .inl ⟨fun hbad => hwide (hnarrow hbad.1), w, hback ▸ h⟩
  have hlen {size : Nat} (h : constantSize physicalType = some size) : word.length = size :=
    Option.some.inj (hsize.symm.trans h)
  cases physicalType with
  | uint8 => exact enumWord_cases physical (hlen rfl) (by decide) rfl fun v w h => .uint8 v h
  | uint16 => exact enumWord_cases physical (hlen rfl) (by decide) rfl fun v w h => .uint16 v h
  | uint32 => exact enumWord_cases physical (hlen rfl) (by decide) rfl fun v w h => .uint32 v h
  | bool => exact hscalar (by decide) (toLe_ofNat_ofLe (hlen rfl)) (.bool _)
  | int8 => exact hscalar (by decide) (toLe_ofNat_ofLe (hlen rfl)) (.int8 _)
  | uint64 => exact hscalar (by decide) (toLe_ofNat_ofLe (hlen rfl)) (.uint64 _)
  | float => exact hscalar (by decide) (toLe_ofNat_ofLe (hlen rfl)) (.float _)
  | double => exact hscalar (by decide) (toLe_ofNat_ofLe (hlen rfl)) (.double _)
  | int16 =>
      obtain ⟨w, hw⟩ := decodeDecimalOrInt_ok physical
        ((BitVec.ofNat (8 * 2) (ofLe word)).signExtend 128)
      exact hscalar (by decide) (toLe_ofNat_ofLe (hlen rfl)) (.int16 _ hw)
  | int32 =>
      obtain ⟨w, hw⟩ := decodeDateDecimalOrInt_ok physical (BitVec.ofNat (8 * 4) (ofLe word))
      exact hscalar (by decide) (toLe_ofNat_ofLe (hlen rfl)) (.int32 _ hw)
  | int64 =>
      obtain ⟨w, hw⟩ := decodeInt64LogicalValue_ok physical (BitVec.ofNat (8 * 8) (ofLe word))
      exact hscalar (by decide) (toLe_ofNat_ofLe (hlen rfl)) (.int64 _ hw)
  | int128 =>
      obtain ⟨w, hw⟩ := decodeInt128Parts_ok physical
        ⟨BitVec.ofNat (8 * 8) (ofLe (word.drop 8)), BitVec.ofNat (8 * 8) (ofLe (word.take 8))⟩
      exact hscalar (by decide) (toLe_halves (hlen rfl)) (.int128 _ hw)
  | uint128 =>
      refine hscalar (by decide) (toLe_halves (hlen rfl)) (.uint128
        ⟨BitVec.ofNat (8 * 8) (ofLe (word.drop 8)), BitVec.ofNat (8 * 8) (ofLe (word.take 8))⟩)
  | interval =>
      have hwidth : word.length = 16 := hlen rfl
      have hfront : (word.take 8).length = 4 + 4 := by simp [hwidth]
      have hback : (word.drop 8).length = 8 := by simp [hwidth]
      refine hscalar (by decide) ?_ (.interval
        ⟨BitVec.ofNat (8 * 4) (ofLe ((word.take 8).take 4)),
          BitVec.ofNat (8 * 4) (ofLe ((word.take 8).drop 4)),
          BitVec.ofNat (8 * 8) (ofLe (word.drop 8))⟩)
      rw [toLe_halves hfront, toLe_ofNat_ofLe hback, List.take_append_drop]
  | list | struct | array | varchar | bit | invalid => cases hsize

/-! ### Columns -/

/-- The word of a row. -/
def rowWord (size : Nat) (data : Bytes) (row : Nat) : Bytes := (data.drop (row * size)).take size

variable {size count row : Nat} {data data' : Bytes} {validity : Option (List Bool)}

theorem length_rowWord (hlen : data.length = size * count) (hrow : row < count) :
    (rowWord size data row).length = size := by
  have hle : row * size + size ≤ size * count := by
    calc row * size + size = size * (row + 1) := by ring
      _ ≤ size * count := Nat.mul_le_mul_left _ hrow
  rw [rowWord, List.length_take, List.length_drop]
  omega

theorem flatten_rowWords (hlen : data.length = size * count) :
    ((List.range count).map (rowWord size data)).flatten = data := by
  induction count generalizing data with
  | zero =>
      rw [Nat.mul_zero, List.length_eq_zero_iff] at hlen
      rw [hlen]
      rfl
  | succ count ih =>
      have hrest : (data.drop size).length = size * count := by
        rw [List.length_drop, hlen, Nat.mul_succ]
        omega
      have hlater : (List.range count).map (fun row => rowWord size data (row + 1)) =
          (List.range count).map (rowWord size (data.drop size)) := by
        apply List.map_congr_left
        intro row _
        rw [rowWord, rowWord, List.drop_drop]
        congr 2
        ring
      rw [List.range_succ_eq_map, List.map_cons, List.map_map, List.flatten_cons]
      show _ ++ ((List.range count).map fun row => rowWord size data (row + 1)).flatten = _
      rw [hlater, ih hrest, rowWord, Nat.zero_mul, List.drop_zero, List.take_append_drop]

/-- The words of rows that lie one after the other. -/
theorem rowWord_flatten {words : List Bytes} (h : ∀ word ∈ words, word.length = size)
    (hrow : row < words.length) : rowWord size words.flatten row = words[row] := by
  induction words generalizing row with
  | nil => cases hrow
  | cons word words ih =>
      obtain ⟨hword, hwords⟩ := List.forall_mem_cons.mp h
      rw [List.flatten_cons, rowWord]
      cases row with
      | zero => rw [Nat.zero_mul, List.drop_zero, ← hword, List.take_left, List.getElem_cons_zero]
      | succ row =>
          rw [Nat.succ_mul, Nat.add_comm, ← hword, List.drop_length_add_append, hword,
            List.getElem_cons_succ]
          exact ih hwords (Nat.lt_of_succ_lt_succ hrow)

theorem length_flatten_words {words : List Bytes} (h : ∀ word ∈ words, word.length = size) :
    words.flatten.length = size * words.length := by
  rw [List.length_flatten, List.map_congr_left h, List.map_const', List.sum_replicate_nat, Nat.mul_comm]

/-- Whether a row is not masked. -/
def rowValid (validity : Option (List Bool)) (row : Nat) : Bool :=
  match validity with
  | some mask => mask.getD row false
  | none => true

theorem reads_rowValid (hmask : MaskFits count validity) (hrow : row < count) :
    Reads layout (isValid validity row) [] (rowValid validity row) := by
  cases validity with
  | none => exact ReadsBefore.pure true
  | some mask =>
      have hlen := hmask mask rfl
      apply Reads.index
      rw [List.getElem?_eq_getElem (by omega), rowValid, List.getD_eq_getElem?_getD,
        List.getElem?_eq_getElem (by omega), Option.getD_some]

/-- A row of a fixed-size column. -/
def decodeFixedRow (T : LogicalType) (physicalType : PhysicalType) (validity : Option (List Bool))
    (row : Nat) : Decoder Value := do
  let value ← decodeFixedValue T physicalType
  let valid ← isValid validity row
  pure (if valid then value else .null)

theorem decodeFixedValues_eq (T : LogicalType) (physicalType : PhysicalType) (data : Bytes)
    (count : Nat) (validity : Option (List Bool)) :
    decodeFixedValues T physicalType data count validity = (do
      withCapacity .value count
      onBytes data (collect (decodeFixedRow T physicalType validity) 0 count >>= fun values =>
        assertEof >>= fun _ => pure values)) := rfl

/-- The values of the rows, where every row has one. -/
def maskRows (validity : Option (List Bool)) (count : Nat) (value : Nat → Value) : List Value :=
  (List.range count).map fun row => if rowValid validity row then value row else .null

section
variable (hfits : layout.Fits .value count) (hheld : Held data) (hlen : data.length = size * count)
  (hmask : MaskFits count validity)
include hfits hheld hlen hmask

theorem reads_fixedValues {value : Nat → Value}
    (hwords : ∀ row < count, FixedWords T physicalType (rowWord size data row) (value row)) :
    Reads layout (decodeFixedValues T physicalType data count validity) []
      (maskRows validity count value) := by
  have hrows : Reads layout (collect (decodeFixedRow T physicalType validity) 0 count) data
      (maskRows validity count value) := by
    have h : Reads layout (collect (decodeFixedRow T physicalType validity) 0
        (maskRows validity count value).length)
        ((List.range count).map (rowWord size data)).flatten (maskRows validity count value) := by
      refine Reads.collect (fun row hrow hrow' => ?_) (by simp [maskRows])
      rw [List.length_map, List.length_range] at hrow
      simp only [maskRows, List.getElem_map, List.getElem_range, Nat.zero_add]
      exact (hwords row hrow).reads.thenReads ((reads_rowValid hmask hrow).thenPure rfl)
    rwa [flatten_rowWords hlen, maskRows, List.length_map, List.length_range] at h
  rw [decodeFixedValues_eq]
  refine (reads_withCapacity hfits).bind_nil (Reads.onBytes ?_ hheld)
  rw [← List.append_nil data]
  exact ReadsBefore.bind hrows (reads_assertEof.bind (.pure _) fun _ h => h) fun _ _ => trivial

/-- A row without a label stops the column, masked or not. -/
theorem stops_fixedValues (physical : getPhysicalType T = .ok physicalType)
    (hsize : constantSize physicalType = some size)
    (hbad : ∃ row < count, BadLabel T (rowWord size data row)) :
    Stops layout (decodeFixedValues T physicalType data count validity) [] .refused := by
  have hword {row : Nat} (hrow : row < count) :
      constantSize physicalType = some (rowWord size data row).length := by
    rw [length_rowWord hlen hrow, hsize]
  have hrows : Stops layout (collect (decodeFixedRow T physicalType validity) 0 count) data .refused := by
    have h : Stops layout (collect (decodeFixedRow T physicalType validity) 0
        ((List.range count).map (rowWord size data)).length)
        ((List.range count).map (rowWord size data)).flatten .refused := by
      refine Stops.collect (fun row hrow => ?_) ?_
      · rw [List.length_map, List.length_range] at hrow
        rw [List.getElem_map, List.getElem_range, Nat.zero_add]
        rcases word_cases layout physical (hword hrow) with ⟨-, w, hw⟩ | ⟨-, hstop⟩
        · exact .inl ⟨_, hw.reads.thenReads ((reads_rowValid hmask hrow).thenPure rfl)⟩
        · exact .inr hstop.bind
      · obtain ⟨row, hrow, hlabel⟩ := hbad
        refine ⟨row, by simpa using hrow, ?_⟩
        rw [List.getElem_map, List.getElem_range, Nat.zero_add]
        rcases word_cases layout physical (hword hrow) with ⟨hgood, -⟩ | ⟨-, hstop⟩
        · exact absurd hlabel hgood
        · exact hstop.bind
    rwa [flatten_rowWords hlen, List.length_map, List.length_range] at h
  rw [decodeFixedValues_eq]
  exact Stops.after_nil (reads_withCapacity hfits) (Stops.onBytes hrows.bind.anywhere hheld)

end

/-- A flat body of the column, as far as its mask and its data. -/
structure FixedBody (layout : Layout) (count : Nat) (c : Cursor) (validity : Option (List Bool))
    (data : Bytes) : Prop where
  valid : c.Valid
  parsed : ∃ c₁ c₂, (readMask count).run layout c = .ok (validity, c₁) ∧
    (readRequiredField 102 readBlob).run layout c₁ = .ok (data, c₂)

/-- The same values, NULL where the mask says so, or an error from both. -/
def SameRows (validity : Option (List Bool)) (out out' : Outcome QuackError (DecodedVector × Cursor)) :
    Prop :=
  (∃ vector c vector' c', out = .ok (vector, c) ∧ out' = .ok (vector', c') ∧
    vector.values = vector'.values ∧
    ∀ row < vector.values.length, rowValid validity row = false →
      vector.values[row]? = some .null) ∨
  (∃ e, out = .err e) ∧ ∃ e, out' = .err e

theorem getElem?_maskRows {value : Nat → Value} (hrow : row < count) :
    (maskRows validity count value)[row]? =
      some (if rowValid validity row then value row else .null) := by
  rw [maskRows, List.getElem?_map, List.getElem?_range hrow]
  rfl

section
variable (decodeVector : LogicalType → Nat → Decoder DecodedVector) {c : Cursor}
  (physical : getPhysicalType T = .ok physicalType) (hsize : constantSize physicalType = some size)
  (hfits : layout.Fits .value count) (hlen : data.length = size * count)
  (hbody : FixedBody layout count c validity data)
include physical hsize hfits hlen hbody

/-- The body ends as its data do. -/
theorem run_fixedBody : MaskFits count validity ∧ Held data ∧ ∃ c' : Cursor, c'.Valid ∧
    (decodeFlatVectorBody decodeVector T count .flat).run layout c =
      (decodeFixedValues T physicalType data count validity >>= fun values =>
        pure ⟨T, .flat, values⟩).run layout c' := by
  obtain ⟨c₁, c₂, hmask, hdata⟩ := hbody.parsed
  have hmoves := (guarded_readMask hfits.count_lt).of_run hbody.valid le_rfl hmask
  have hblob : Guarded layout c₁.remaining 0 (readRequiredField 102 readBlob) Held :=
    guarded_required 102 guarded_readBlob
  have hmoves' := hblob.of_run hmoves.1.valid le_rfl hdata
  have hgeometry : T.id ≠ .geometry := by
    intro hid
    rw [getPhysicalType, hid] at physical
    cases physical
    cases hsize
  have hlimit : size * count < usizeLimit := hlen ▸ hmoves'.2.lt
  refine ⟨hmoves.2, hmoves'.2, c₂, hmoves'.1.valid, ?_⟩
  have hproduct : (audit (.product size count) (usizeMul size count) : Decoder Nat).run layout c₁ =
      .ok (size * count, c₁) := by
    show (usizeMul size count).run layout c₁ = _
    rw [usizeMul, check, if_pos hlimit]
    rfl
  have hfixed : (decodeFlatData decodeVector T physicalType count validity).run layout c₁ =
      (decodeFixedValues T physicalType data count validity).run layout c₂ := by
    have hconstant : isConstantSizePhysicalType physicalType = true := by
      rw [isConstantSizePhysicalType, hsize]
      rfl
    rw [decodeFlatData.eq_def, if_pos hconstant, decodeFixedVector, physicalTypeSize, hsize]
    show (audit (.product size count) (usizeMul size count) >>= fun byteLength => _).run layout c₁ = _
    rw [run_bind_ok hproduct, run_bind_ok hdata, if_neg (not_not.mpr hlen)]
  rw [decodeFlatVectorBody, skipGeometryField, if_neg hgeometry, physical]
  show (readMask count >>= fun validity => _).run layout c = _
  rw [run_bind_ok hmask]
  show (decodeFlatData decodeVector T physicalType count validity >>= fun values => _).run layout c₁ = _
  rw [run_bind, run_bind, hfixed]

/-- The body has a value for every row or, for an index without a label, none at all. -/
theorem fixedBody_cases :
    ((¬ ∃ row < count, BadLabel T (rowWord size data row)) ∧ ∃ value : Nat → Value,
      (∀ row < count, FixedWords T physicalType (rowWord size data row) (value row)) ∧
      ∃ c', (decodeFlatVectorBody decodeVector T count .flat).run layout c =
        .ok (⟨T, .flat, maskRows validity count value⟩, c')) ∨
    (∃ row < count, BadLabel T (rowWord size data row)) ∧
      ∃ e, (decodeFlatVectorBody decodeVector T count .flat).run layout c = .err e := by
  obtain ⟨hmask, hheld, c₂, hc₂, hrun⟩ :=
    run_fixedBody decodeVector physical hsize hfits hlen hbody
  have hword {row : Nat} (hrow : row < count) :
      constantSize physicalType = some (rowWord size data row).length := by
    rw [length_rowWord hlen hrow, hsize]
  rw [hrun]
  by_cases hbad : ∃ row < count, BadLabel T (rowWord size data row)
  · have hstops : Stops layout (decodeFixedValues T physicalType data count validity >>= fun values =>
        pure (⟨T, .flat, values⟩ : DecodedVector)) [] .refused :=
      (stops_fixedValues hfits hheld hlen hmask physical hsize hbad).bind
    exact .inr ⟨hbad, (hstops c₂ hc₂ c₂.unread trivial rfl).refused⟩
  · have hgood : ∀ row, ∃ w, row < count → FixedWords T physicalType (rowWord size data row) w := by
      intro row
      by_cases hrow : row < count
      · rcases word_cases layout physical (hword hrow) with ⟨-, w, hw⟩ | ⟨hlabel, -⟩
        · exact ⟨w, fun _ => hw⟩
        · exact absurd ⟨row, hrow, hlabel⟩ hbad
      · exact ⟨.null, fun h => absurd h hrow⟩
    choose value hvalue using hgood
    have hreads : Reads layout (decodeFixedValues T physicalType data count validity >>= fun values =>
        pure (⟨T, .flat, values⟩ : DecodedVector)) [] ⟨T, .flat, maskRows validity count value⟩ :=
      (reads_fixedValues hfits hheld hlen hmask hvalue).thenPure rfl
    exact .inl ⟨hbad, value, hvalue, _, hreads c₂ hc₂ c₂.unread trivial rfl⟩

end

theorem FixedWords.unique {w w' : Value} (h : FixedWords T physicalType word w)
    (h' : FixedWords T physicalType word w') : w = w' := by
  have hlen : word.length ≤ isizeMax := (constantSize_le h.length).trans (by decide)
  have hread {v : Value} (hv : FixedWords T physicalType word v) :
      (decodeFixedValue T physicalType).run .words ⟨word, 0⟩ = .ok (v, ⟨word, word.length⟩) := by
    have hreads : Reads Layout.words (decodeFixedValue T physicalType) word v := hv.reads
    have hrun := hreads ⟨word, 0⟩ ⟨Nat.zero_le _, hlen⟩ [] trivial (by simp [Cursor.unread])
    simpa [Cursor.advance] using hrun
  cases (hread h).symm.trans (hread h')
  rfl

/-- Two bodies that differ in masked rows only decode alike, exactly if an ENUM index without a label
is in both or in neither: the index of a masked row is looked up all the same. -/
theorem maskedPayload_iff {decodeVector : LogicalType → Nat → Decoder DecodedVector} {c c' : Cursor}
    (physical : getPhysicalType T = .ok physicalType) (hsize : constantSize physicalType = some size)
    (hfits : layout.Fits .value count)
    (hbody : FixedBody layout count c validity data) (hlen : data.length = size * count)
    (hbody' : FixedBody layout count c' validity data') (hlen' : data'.length = size * count)
    (hagree : ∀ row < count, rowValid validity row = true →
      rowWord size data row = rowWord size data' row) :
    SameRows validity ((decodeFlatVectorBody decodeVector T count .flat).run layout c)
        ((decodeFlatVectorBody decodeVector T count .flat).run layout c') ↔
      ((∃ row < count, BadLabel T (rowWord size data row)) ↔
        ∃ row < count, BadLabel T (rowWord size data' row)) := by
  rcases fixedBody_cases decodeVector physical hsize hfits hlen hbody with
    ⟨hgood, value, hvalue, c₂, hrun⟩ | ⟨hbad, e, hrun⟩ <;>
  rcases fixedBody_cases decodeVector physical hsize hfits hlen' hbody' with
    ⟨hgood', value', hvalue', c₂', hrun'⟩ | ⟨hbad', e', hrun'⟩ <;> rw [hrun, hrun']
  · refine iff_of_true (.inl ⟨_, _, _, _, rfl, rfl, ?_, fun row hrow hinvalid => ?_⟩)
      (iff_of_false hgood hgood')
    · apply List.map_congr_left
      intro row hmem
      have hrow := List.mem_range.mp hmem
      cases hvalid : rowValid validity row with
      | false => rfl
      | true =>
          have hword' := hvalue' row hrow
          rw [← hagree row hrow hvalid] at hword'
          rw [(hvalue row hrow).unique hword']
    · rw [maskRows, List.length_map, List.length_range] at hrow
      rw [getElem?_maskRows hrow, hinvalid]
      rfl
  · refine iff_of_false ?_ fun h => hgood (h.mpr hbad')
    rintro (⟨_, _, _, _, -, h, -⟩ | ⟨⟨_, h⟩, -⟩) <;> cases h
  · refine iff_of_false ?_ fun h => hgood' (h.mp hbad)
    rintro (⟨_, _, _, _, h, -, -⟩ | ⟨-, _, h⟩) <;> cases h
  · exact iff_of_true (.inr ⟨⟨_, rfl⟩, _, rfl⟩) (iff_of_true hbad hbad')

/-- A column of one label. -/
def labelType : LogicalType := ⟨.enum, some (.enum none ["a"])⟩

/-- Two rows, the first masked, with the given indices. -/
def maskedBody (first second : UInt8) : Bytes :=
  [100, 0, 1, 101, 0, 8, 2, 0, 0, 0, 0, 0, 0, 0, 102, 0, 2, first, second]

def decodeLabels (body : Bytes) : Outcome QuackError (DecodedVector × Cursor) :=
  (decodeFlatVectorBody decodeVector labelType 2 .flat).run .words ⟨body, 0⟩

theorem maskedBody_same :
    SameRows (some [false, true]) (decodeLabels (maskedBody 1 0)) (decodeLabels (maskedBody 2 0)) := by
  have hagree : ∀ row < 2, rowValid (some [false, true]) row = true →
      rowWord 1 [1, 0] row = rowWord 1 [2, 0] row := by decide
  have hbad (first : UInt8) (h : 1 ≤ first.toNat) :
      ∃ row < 2, BadLabel labelType (rowWord 1 [first, 0] row) :=
    ⟨0, by decide, rfl, _, rfl, h⟩
  have hfirst : FixedBody .words 2 ⟨maskedBody 1 0, 0⟩ (some [false, true]) [1, 0] :=
    ⟨⟨Nat.zero_le _, by decide⟩, _, _, rfl, rfl⟩
  have hsecond : FixedBody .words 2 ⟨maskedBody 2 0, 0⟩ (some [false, true]) [2, 0] :=
    ⟨⟨Nat.zero_le _, by decide⟩, _, _, rfl, rfl⟩
  exact (maskedPayload_iff rfl rfl ⟨by decide, by decide⟩ hfirst rfl hsecond rfl hagree).mpr
    (iff_of_true (hbad 1 (by decide)) (hbad 2 (by decide)))

/-- The index of a NULL row decides between the values and an error. -/
theorem not_maskedBody_same :
    FixedBody .words 2 ⟨maskedBody 0 0, 0⟩ (some [false, true]) [0, 0] ∧
    FixedBody .words 2 ⟨maskedBody 1 0, 0⟩ (some [false, true]) [1, 0] ∧
    (∀ row < 2, rowValid (some [false, true]) row = true →
      rowWord 1 [0, 0] row = rowWord 1 [1, 0] row) ∧
    ¬ SameRows (some [false, true]) (decodeLabels (maskedBody 0 0)) (decodeLabels (maskedBody 1 0)) := by
  refine ⟨⟨⟨Nat.zero_le _, by decide⟩, _, _, rfl, rfl⟩, ⟨⟨Nat.zero_le _, by decide⟩, _, _, rfl, rfl⟩,
    by decide, ?_⟩
  rintro (⟨_, _, _, _, -, h, -⟩ | ⟨⟨_, h⟩, -⟩) <;> cases h

end QuackProtocol
