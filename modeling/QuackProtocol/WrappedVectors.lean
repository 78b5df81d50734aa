import QuackProtocol.BinaryStops
import QuackProtocol.ChunkRoundTrip
import QuackProtocol.FixedColumns

/-! Constant and dictionary vectors. A wrapper is followed, in the same object, by the body of the vector
it wraps, which the decoder reads again from the start under another row count. The rows of a nesting
are those of its flat vector, copied and selected from the inside out. -/

open Decoding Decode Varint

namespace QuackProtocol

/-- A flat vector under any number of constant and dictionary vectors. -/
inductive Wrapping where
  | flat (values : List Value)
  | constant (count : U64) (inner : Wrapping)
  | dictionary (selection : List U32) (inner : Wrapping)

namespace Wrapping

def count : Wrapping → Nat
  | flat values => values.length
  | constant count _ => count.toNat
  | dictionary selection _ => selection.length

def vectorType : Wrapping → VectorType
  | flat _ => .flat
  | constant _ _ => .constant
  | dictionary _ _ => .dictionary

/-- The values of the flat vector. -/
def values : Wrapping → List Value
  | flat values => values
  | constant _ inner => inner.values
  | dictionary _ inner => inner.values

/-- A constant vector wraps a single row, and none if it has no rows itself. -/
def Proper : Wrapping → Prop
  | flat _ => True
  | constant count inner => inner.count = (if 0 < count.toNat then 1 else 0) ∧ inner.Proper
  | dictionary _ inner => inner.Proper

/-- The rows that are denoted; there are none where an index is not below the number of rows that it
selects from. -/
def rows : Wrapping → Option (List Value)
  | flat values => some values
  | constant count inner => inner.rows.map fun rows => rows.flatMap (List.replicate count.toNat)
  | dictionary selection inner => inner.rows.bind fun rows =>
      selection.mapM fun position => rows[position.toNat]?

/-- Every list of rows and of positions on the way to the rows can exist in memory. -/
def Fitting (layout : Layout) : Wrapping → Prop
  | flat _ => True
  | constant count inner => inner.Fitting layout ∧ (inner.rows.isSome → layout.Fits .value count.toNat)
  | dictionary selection inner => layout.Fits .usize selection.length ∧ inner.Fitting layout ∧
      (inner.rows.isSome → layout.Fits .value selection.length)

def selectionBytes (selection : List U32) : Bytes :=
  selection.flatMap fun position => toLe 4 position.toNat

/-- The fields of the wrapped vector. -/
def encodeBody (layout : Layout) (prims : Primitives) (T : LogicalType) : Wrapping → Encode
  | flat values => Encode.all [writeGeometryField T, writeMask values,
      encodeFlatData layout prims T values values.length]
  | constant _ inner => Encode.all [writeField 90 (writeUleb 2), inner.encodeBody layout prims T]
  | dictionary selection inner => Encode.all [writeField 90 (writeUleb 3),
      writeField 91 (writeBlob (selectionBytes selection)), writeField 92 (writeUleb inner.count),
      inner.encodeBody layout prims T]

end Wrapping

def wrappedVector (layout : Layout) (prims : Primitives) (T : LogicalType) (wrapping : Wrapping) :
    Encode := writeObject (wrapping.encodeBody layout prims T)

theorem length_selectionBytes (selection : List U32) :
    (Wrapping.selectionBytes selection).length = selection.length * 4 := by
  induction selection with
  | nil => rfl
  | cons position selection ih =>
      rw [Wrapping.selectionBytes] at ih ⊢
      rw [List.flatMap_cons, List.length_append, length_toLe, ih, List.length_cons]
      omega

theorem fourByteWords_selectionBytes (selection : List U32) :
    fourByteWords (Wrapping.selectionBytes selection) = selection.map BitVec.toNat := by
  induction selection with
  | nil => rfl
  | cons position selection ih =>
      have hword : ofLe (toLe 4 position.toNat) = position.toNat := by
        rw [ofLe_toLe]
        exact Nat.mod_eq_of_lt position.isLt
      rw [Wrapping.selectionBytes] at ih ⊢
      rw [List.flatMap_cons, List.map_cons, ← ih]
      exact congrArg (· :: fourByteWords (selection.flatMap fun position => toLe 4 position.toNat)) hword

variable {layout : Layout} {prims : Primitives} {T : LogicalType} {selection : List U32}

theorem roundTrips_selection (hheld : Held (Wrapping.selectionBytes selection))
    (hfits : layout.Fits .usize selection.length) :
    RoundTrips layout (writeBlob (Wrapping.selectionBytes selection))
      (readSelectionVector selection.length) (selection.map BitVec.toNat) := by
  have hlen := length_selectionBytes selection
  have hlimit : selection.length * 4 < usizeLimit := by
    rw [← hlen]
    exact hheld.lt
  refine .of_reads (((Reads.usizeMul hlimit).audit _).bind_nil ?_)
  have hblob : Reads layout readBlob (uleb (Wrapping.selectionBytes selection).length ++
      Wrapping.selectionBytes selection) (Wrapping.selectionBytes selection) := reads_readBlob hheld
  apply hblob.thenReads
  rw [if_neg (not_not.mpr hlen), hlen, Nat.mul_div_cancel _ (by decide : 0 < 4)]
  refine (reads_withCapacity hfits).bind_nil ?_
  rw [fourByteWords_selectionBytes]
  exact ReadsBefore.pure _

theorem stops_withCapacity {element : Element} {count : Nat}
    (h : ¬ count * layout.sizeOf element ≤ isizeMax) :
    Stops layout (withCapacity element count) [] (.panicked .capacity) :=
  fun c hc rest hrest hunread => (Stops.check h .capacity) c hc rest hrest hunread

theorem stopsReading_selection (hheld : Held (Wrapping.selectionBytes selection))
    (hfits : ¬ layout.Fits .usize selection.length) :
    StopsReading layout (writeBlob (Wrapping.selectionBytes selection))
      (readSelectionVector selection.length) (.panicked .capacity) := by
  have hlen := length_selectionBytes selection
  have hlimit : selection.length * 4 < usizeLimit := by
    rw [← hlen]
    exact hheld.lt
  have hsize : ¬ selection.length * layout.sizeOf .usize ≤ isizeMax := fun h => hfits ⟨by omega, h⟩
  refine ⟨_, rfl, Stops.after_nil ((Reads.usizeMul hlimit).audit _) ?_⟩
  apply Stops.then_nil (reads_readBlob hheld)
  rw [if_neg (not_not.mpr hlen), hlen, Nat.mul_div_cancel _ (by decide : 0 < 4)]
  exact StopsBefore.bind (stops_withCapacity hsize)

/-- The rows at the given positions, as `decode_vector_body` looks them up. -/
def selectRows (rows : List Value) (positions : List Nat) : Result (List Value) :=
  positions.mapM fun position =>
    match rows[position]? with
    | some value => .ok value
    | none => .error (.protocol s!"dictionary selection {position} is out of range")

theorem length_selected {rows selected : List Value} {selection : List U32}
    (h : (selection.mapM fun position => rows[position.toNat]?) = some selected) :
    selected.length = selection.length := by
  induction selection generalizing selected with
  | nil =>
      cases h
      rfl
  | cons position selection ih =>
      rw [List.mapM_cons] at h
      obtain ⟨value, -, h⟩ := Option.bind_eq_some_iff.mp h
      obtain ⟨values, hvalues, h⟩ := Option.bind_eq_some_iff.mp h
      cases h
      rw [List.length_cons, List.length_cons, ih hvalues]

theorem selectRows_cases (f : Value → Value) (rows : List Value) (selection : List U32) :
    (∃ selected, (selection.mapM fun position => rows[position.toNat]?) = some selected ∧
        selectRows (rows.map f) (selection.map BitVec.toNat) = .ok (selected.map f)) ∨
      ((selection.mapM fun position => rows[position.toNat]?) = none ∧
        ∃ e, selectRows (rows.map f) (selection.map BitVec.toNat) = .error e) := by
  induction selection with
  | nil => exact .inl ⟨[], rfl, rfl⟩
  | cons position selection ih =>
      rw [selectRows] at ih ⊢
      rw [List.mapM_cons, List.map_cons, List.mapM_cons, List.getElem?_map]
      cases rows[position.toNat]? with
      | none => exact .inr ⟨rfl, _, rfl⟩
      | some value =>
          rcases ih with ⟨selected, hsome, hok⟩ | ⟨hnone, e, herror⟩
          · refine .inl ⟨value :: selected, ?_, ?_⟩
            · rw [hsome]
              rfl
            · rw [hok]
              rfl
          · refine .inr ⟨?_, e, ?_⟩
            · rw [hnone]
              rfl
            · rw [herror]
              rfl

section
variable {wrapping : Wrapping}

/-- How the decoder leaves the body of a wrapped vector. -/
inductive Wrapping.Ends (layout : Layout) (prims : Primitives) (T : LogicalType) (budget : Nat)
    (wrapping : Wrapping) : Prop where
  | read {rows : List Value} (fitting : wrapping.Fitting layout) (some : wrapping.rows = some rows)
      (length : rows.length = wrapping.count)
      (trip : FieldTrip layout 90 fieldEnd (wrapping.encodeBody layout prims T)
        (decodeVectorBody budget T wrapping.count)
        ⟨T, wrapping.vectorType, rows.map (stored prims T)⟩)
  | refused (fitting : wrapping.Fitting layout) (none : wrapping.rows = none)
      (stop : FieldStop layout 90 fieldEnd (wrapping.encodeBody layout prims T)
        (decodeVectorBody budget T wrapping.count) .refused)
  | panicked (unfitting : ¬ wrapping.Fitting layout)
      (stop : FieldStop layout 90 fieldEnd (wrapping.encodeBody layout prims T)
        (decodeVectorBody budget T wrapping.count) (.panicked .capacity))

/-- A part of the body is written whenever the body is. -/
theorem Encode.Within.body {part : Encode} {actions : List Encode} {fieldId : Nat} {write : Encode}
    (hmem : part ∈ actions) :
    Encode.Within part (Encode.all (writeField fieldId write :: actions)) 1 := by
  intro bytes hok
  obtain ⟨front, back, hfront, hback, rfl⟩ := Encode.append_eq_ok hok
  obtain ⟨id, value, hid, -, rfl⟩ := Encode.append_eq_ok hfront
  cases hid
  obtain ⟨inner, hinner, hle⟩ := (Encode.Within.all (.refl part) hmem) back hback
  exact ⟨inner, hinner, by simp only [List.length_append, length_toLe]; omega⟩

theorem Layout.Fits.of_size {element : Element} {count : Nat} (hlt : count < usizeLimit)
    (h : ¬ layout.Fits element count) : ¬ count * layout.sizeOf element ≤ isizeMax :=
  fun hle => h ⟨hlt, hle⟩

theorem ends_flat {values : List Value} {bytes : Bytes} {budget : Nat} (hT : Encodable T)
    (hheld : T.Everywhere (LogicalType.InMemory layout))
    (hvalues : ∀ value ∈ values, Storable prims T value) (hown : layout.Fits .value values.length)
    (h : (Wrapping.flat values).encodeBody layout prims T = .ok bytes)
    (hbudget : bytes.length < budget) : (Wrapping.flat values).Ends layout prims T budget := by
  obtain ⟨budget, rfl⟩ : ∃ b, budget = b + 1 := ⟨budget - 1, by omega⟩
  have hvector : encodeVector layout prims T values values.length = .ok (bytes ++ toLe 2 fieldEnd) := by
    rw [encodeVector_eq, writeObject]
    show (Wrapping.flat values).encodeBody layout prims T ++ _ = _
    rw [h]
    rfl
  have hmemory := fitsMemory_of_encode hown hvector
  have hchildren : ChildrenTrip layout prims (fun T => T) (decodeVectorWithin budget) T values := by
    intro part hmem
    obtain ⟨hpartT, hpartHeld, hstorable⟩ := childVectors_storable hT hheld hvalues hmem
    obtain ⟨inner, hinner, hread⟩ := roundTripsWithin_vector .refl hpartT hpartHeld
      (hmemory.inside hmem) hstorable
    have hwithin : Encode.Within (encodeVector layout prims part.1 part.2 part.2.length)
        ((Wrapping.flat values).encodeBody layout prims T) 0 :=
      .all (childVector_of_mem hmem).within (by simp)
    obtain ⟨inner', hinner', hle⟩ := hwithin bytes h
    cases hinner.symm.trans hinner'
    exact ⟨inner, hinner, hread budget (by omega)⟩
  have hbody := (fieldTrip_flatBody SameVectors.refl hT hheld.node hmemory hvalues hchildren).weaken
    (by decide : 90 ≤ 99)
  exact .read trivial rfl rfl hbody

theorem held_selection {inner : Wrapping} {bytes : Bytes} (hbytes : bytes.length ≤ isizeMax)
    (h : (Wrapping.dictionary selection inner).encodeBody layout prims T = .ok bytes) :
    Held (Wrapping.selectionBytes selection) := by
  have hblob : Encode.Within (.ok (Wrapping.selectionBytes selection))
      (writeBlob (Wrapping.selectionBytes selection)) 0 := .right (.refl _) _
  have hselected : Encode.Within (.ok (Wrapping.selectionBytes selection))
      ((Wrapping.dictionary selection inner).encodeBody layout prims T) 0 :=
    .all (.field hblob 91) (by simp)
  obtain ⟨_, hok, hshort⟩ := hselected bytes h
  cases hok
  exact (Nat.le_of_add_right_le hshort).trans hbytes

theorem Wrapping.count_lt {bytes : Bytes} (hown : layout.Fits .value wrapping.values.length)
    (h : wrapping.encodeBody layout prims T = .ok bytes) (hbytes : bytes.length ≤ isizeMax) :
    wrapping.count < usizeLimit := by
  cases wrapping with
  | flat values => exact hown.count_lt
  | constant count inner => exact count.isLt
  | dictionary selection inner =>
      have hlt := (held_selection hbytes h).lt
      rw [length_selectionBytes] at hlt
      exact (Nat.le_mul_of_pos_right _ (by decide)).trans_lt hlt

theorem Wrapping.Ends.written {budget : Nat} (h : wrapping.Ends layout prims T budget) :
    Written 90 fieldEnd (Encode.all [wrapping.encodeBody layout prims T]) := by
  obtain ⟨bytes, hwrite, hhead⟩ : Written 90 fieldEnd (wrapping.encodeBody layout prims T) := by
    cases h with
    | read _ _ _ trip => exact .ofTrip trip
    | refused _ _ stop | panicked _ stop =>
        obtain ⟨bytes, hwrite, hhead, -⟩ := stop
        exact ⟨bytes, hwrite, hhead⟩
  exact .cons fieldEnd ⟨bytes, hwrite, hhead⟩ .nil

theorem decodeDictionaryVector_eq (decodeVectorBody : LogicalType → Nat → Decoder DecodedVector)
    (T : LogicalType) (count : Nat) : decodeDictionaryVector decodeVectorBody T count = (do
      let selection ← readRequiredField 91 (readSelectionVector count)
      let dictionaryCount ← readRequiredField 92 readUlebUsize
      let dictionary ← decodeVectorBody T dictionaryCount
      withCapacity .value count
      let values ← ofResult (selectRows dictionary.values selection)
      pure ⟨T, .dictionary, values⟩) := rfl

theorem map_copies (f : Value → Value) {rows : List Value} {n : Nat}
    (h : rows.length = if 0 < n then 1 else 0) :
    (rows.flatMap (List.replicate n)).map f = List.replicate n ((rows.map f).head?.getD .null) := by
  by_cases hn : 0 < n
  · rw [if_pos hn] at h
    obtain ⟨value, rfl⟩ := List.length_eq_one_iff.mp h
    simp
  · obtain rfl : n = 0 := by omega
    rw [if_neg hn] at h
    rw [List.length_eq_zero_iff.mp h]
    rfl

/-- A constant vector ends as its row does, which is copied where the copies fit. -/
theorem ends_constant {count : U64} {inner : Wrapping} {budget : Nat}
    (hcount : inner.count = if 0 < count.toNat then 1 else 0) (hends : inner.Ends layout prims T budget) :
    (Wrapping.constant count inner).Ends layout prims T (budget + 1) := by
  have hcode : FieldTrip layout 90 90 (writeField 90 (writeUleb 2))
      (readOptionalField 90 readUlebU64 0) 2 := .present (.uleb64 2) (by decide) _
  cases hends with
  | @read rows fitting hrows hlen trip =>
      rw [hcount] at hlen trip
      by_cases hfits : layout.Fits .value count.toNat
      · refine .read ⟨fitting, fun _ => hfits⟩ (by rw [Wrapping.rows, hrows]; rfl) ?_ ?_
        · rw [← List.length_map (stored prims T), map_copies _ hlen, List.length_replicate]
          rfl
        · have hconstant : FieldTrip layout 90 fieldEnd (Encode.all [inner.encodeBody layout prims T])
              (decodeConstantVector (decodeVectorBody budget) T count.toNat)
              ⟨T, .constant, (rows.flatMap (List.replicate count.toNat)).map (stored prims T)⟩ := by
            rw [map_copies _ hlen]
            exact .cons fieldEnd trip (.ofReads ((reads_withCapacity hfits).thenPure rfl))
          refine .recursive ?_ .vector
          refine .cons 90 hcode (.ofResult rfl (hconstant.thenReads ?_))
          exact (Reads.record _).bind_nil (ReadsBefore.pure _)
      · refine .panicked (fun h => hfits (h.2 (by rw [hrows]; rfl))) ?_
        refine .recursive ?_ .vector
        refine .later 90 hcode (.ofResult rfl (FieldStop.bind (.later fieldEnd trip (.ofStops ?_))))
        exact StopsBefore.bind (stops_withCapacity (Layout.Fits.of_size count.isLt hfits))
  | refused fitting none stop =>
      refine .refused ⟨fitting, fun hsome => ?_⟩ ?_ ?_
      · rw [none] at hsome
        cases hsome
      · rw [Wrapping.rows, none]
        rfl
      · rw [hcount] at stop
        refine .recursive ?_ .vector
        exact .later 90 hcode (.ofResult rfl (FieldStop.bind (.here fieldEnd stop .nil)))
  | panicked unfitting stop =>
      refine .panicked (fun h => unfitting h.1) ?_
      rw [hcount] at stop
      refine .recursive ?_ .vector
      exact .later 90 hcode (.ofResult rfl (FieldStop.bind (.here fieldEnd stop .nil)))

/-- A dictionary vector ends as its dictionary does, of which the selected rows are taken. -/
theorem ends_dictionary {inner : Wrapping} {bytes : Bytes} {budget : Nat} (hinner : inner.count < usizeLimit)
    (hends : inner.Ends layout prims T budget)
    (h : (Wrapping.dictionary selection inner).encodeBody layout prims T = .ok bytes)
    (hbytes : bytes.length ≤ isizeMax) :
    (Wrapping.dictionary selection inner).Ends layout prims T (budget + 1) := by
  have hheldSelection := held_selection hbytes h
  have hcode : FieldTrip layout 90 91 (writeField 90 (writeUleb 3))
      (readOptionalField 90 readUlebU64 0) 3 := .present (.uleb64 3) (by decide) _
  by_cases hpositions : layout.Fits .usize selection.length
  case neg =>
    refine .panicked (fun h => hpositions h.1) (.recursive ?_ .vector)
    refine .later 91 hcode (.ofResult rfl (FieldStop.bind ?_))
    rw [decodeDictionaryVector_eq]
    refine .here 92 (.required (stopsReading_selection hheldSelection hpositions) (by decide)) ?_
    exact .cons 90 (.field rfl (by decide)) hends.written
  have hselection : FieldTrip layout 91 92 (writeField 91 (writeBlob (Wrapping.selectionBytes selection)))
      (readRequiredField 91 (readSelectionVector selection.length)) (selection.map BitVec.toNat) :=
    .required (roundTrips_selection hheldSelection hpositions) (by decide)
  have hcount : FieldTrip layout 92 90 (writeField 92 (writeUleb inner.count))
      (readRequiredField 92 readUlebUsize) inner.count :=
    .required (.uleb hinner) (by decide)
  cases hends with
  | @read rows fitting hrows hlen trip =>
      by_cases hfits : layout.Fits .value selection.length
      case neg =>
        refine .panicked (fun h => hfits (h.2.2 (by rw [hrows]; rfl))) ?_
        refine .recursive ?_ .vector
        refine .later 91 hcode (.ofResult rfl (FieldStop.bind ?_))
        refine .later 92 hselection (.later 90 hcount (.later fieldEnd trip (.ofStops ?_)))
        exact StopsBefore.bind (stops_withCapacity (Layout.Fits.of_size hpositions.count_lt hfits))
      have hfitting : (Wrapping.dictionary selection inner).Fitting layout :=
        ⟨hpositions, fitting, fun _ => hfits⟩
      rcases selectRows_cases (stored prims T) rows selection with
        ⟨selected, hselect, hok⟩ | ⟨hselect, e, herror⟩
      · refine .read hfitting (by rw [Wrapping.rows, hrows]; exact hselect) (length_selected hselect) ?_
        have hdictionary : FieldTrip layout 91 fieldEnd (Encode.all [
              writeField 91 (writeBlob (Wrapping.selectionBytes selection)),
              writeField 92 (writeUleb inner.count), inner.encodeBody layout prims T])
            (decodeDictionaryVector (decodeVectorBody budget) T selection.length)
            ⟨T, .dictionary, selected.map (stored prims T)⟩ := by
          rw [decodeDictionaryVector_eq]
          refine .cons 92 hselection (.cons 90 hcount (.cons fieldEnd trip (.ofReads ?_)))
          exact (reads_withCapacity hfits).bind_nil ((Reads.ofResult hok).thenPure rfl)
        refine .recursive ?_ .vector
        refine .cons 91 hcode (.ofResult rfl (hdictionary.thenReads ?_))
        exact (Reads.record _).bind_nil (ReadsBefore.pure _)
      · refine .refused hfitting (by rw [Wrapping.rows, hrows]; exact hselect) ?_
        refine .recursive ?_ .vector
        refine .later 91 hcode (.ofResult rfl (FieldStop.bind ?_))
        rw [decodeDictionaryVector_eq]
        refine .later 92 hselection (.later 90 hcount (.later fieldEnd trip (.ofStops ?_)))
        exact Stops.after_nil (reads_withCapacity hfits) (StopsBefore.bind (Stops.ofResult herror))
  | refused fitting none stop =>
      refine .refused ⟨hpositions, fitting, fun hsome => ?_⟩ ?_ ?_
      · rw [none] at hsome
        cases hsome
      · rw [Wrapping.rows, none]
        rfl
      · refine .recursive ?_ .vector
        refine .later 91 hcode (.ofResult rfl (FieldStop.bind ?_))
        exact .later 92 hselection (.later 90 hcount (.here fieldEnd stop .nil))
  | panicked unfitting stop =>
      refine .panicked (fun h => unfitting h.2.1) ?_
      refine .recursive ?_ .vector
      refine .later 91 hcode (.ofResult rfl (FieldStop.bind ?_))
      exact .later 92 hselection (.later 90 hcount (.here fieldEnd stop .nil))

/-- The body of a nesting is read as its rows, refused for an index that is out of range, or too large
for memory. -/
theorem wrapping_ends {bytes : Bytes} {budget : Nat} (hT : Encodable T)
    (hheld : T.Everywhere (LogicalType.InMemory layout)) (hproper : wrapping.Proper)
    (hvalues : ∀ value ∈ wrapping.values, Storable prims T value)
    (hown : layout.Fits .value wrapping.values.length)
    (h : wrapping.encodeBody layout prims T = .ok bytes) (hbytes : bytes.length ≤ isizeMax)
    (hbudget : bytes.length < budget) : wrapping.Ends layout prims T budget := by
  induction wrapping generalizing bytes budget with
  | flat values => exact ends_flat hT hheld hvalues hown h hbudget
  | constant count inner ih =>
      obtain ⟨hcount, hinner⟩ := hproper
      obtain ⟨innerBytes, hwrite, hle⟩ : ∃ innerBytes,
          inner.encodeBody layout prims T = .ok innerBytes ∧ innerBytes.length + 1 ≤ bytes.length :=
        Encode.Within.body (by simp) bytes h
      obtain ⟨budget, rfl⟩ : ∃ b, budget = b + 1 := ⟨budget - 1, by omega⟩
      exact ends_constant hcount (ih hinner hvalues hown hwrite (by omega) (by omega))
  | dictionary selection inner ih =>
      obtain ⟨innerBytes, hwrite, hle⟩ : ∃ innerBytes,
          inner.encodeBody layout prims T = .ok innerBytes ∧ innerBytes.length + 1 ≤ bytes.length :=
        Encode.Within.body (by simp) bytes h
      obtain ⟨budget, rfl⟩ : ∃ b, budget = b + 1 := ⟨budget - 1, by omega⟩
      have hinner : inner.count < usizeLimit := Wrapping.count_lt hown hwrite (by omega)
      exact ends_dictionary hinner (ih hproper hvalues hown hwrite (by omega) (by omega)) h hbytes

/-! ### Wrapped and plain vectors -/

theorem Wrapping.mem_rows {rows : List Value} (h : wrapping.rows = some rows) :
    ∀ value ∈ rows, value ∈ wrapping.values := by
  induction wrapping generalizing rows with
  | flat values =>
      cases h
      exact fun _ hmem => hmem
  | constant count inner ih =>
      obtain ⟨innerRows, hinner, rfl⟩ := Option.map_eq_some_iff.mp h
      intro value hmem
      obtain ⟨row, hrow, hcopy⟩ := List.mem_flatMap.mp hmem
      obtain rfl := (List.mem_replicate.mp hcopy).2
      exact ih hinner _ hrow
  | dictionary selection inner ih =>
      obtain ⟨innerRows, hinner, hselect⟩ := Option.bind_eq_some_iff.mp h
      intro value hmem
      apply ih hinner value
      clear h ih hinner
      induction selection generalizing rows with
      | nil =>
          cases hselect
          cases hmem
      | cons position selection ih =>
          rw [List.mapM_cons] at hselect
          obtain ⟨row, hrow, hselect⟩ := Option.bind_eq_some_iff.mp hselect
          obtain ⟨selected, hselected, hselect⟩ := Option.bind_eq_some_iff.mp hselect
          cases hselect
          rcases List.mem_cons.mp hmem with rfl | hmem
          · exact List.mem_of_getElem? hrow
          · exact ih hselected hmem

theorem Wrapping.Fitting.rows_fit {rows : List Value} (h : wrapping.Fitting layout)
    (hown : layout.Fits .value wrapping.values.length) (hrows : wrapping.rows = some rows)
    (hlen : rows.length = wrapping.count) : layout.Fits .value rows.length := by
  rw [hlen]
  cases wrapping with
  | flat values => exact hown
  | constant count inner =>
      obtain ⟨innerRows, hinner, -⟩ := Option.map_eq_some_iff.mp hrows
      exact h.2 (by rw [hinner]; rfl)
  | dictionary selection inner =>
      obtain ⟨innerRows, hinner, -⟩ := Option.bind_eq_some_iff.mp hrows
      exact h.2.2 (by rw [hinner]; rfl)

/-- The wrapped vector is read as the plain vector of its rows is, and refused if it has no rows. -/
def WrappedAgrees (layout : Layout) (prims : Primitives) (T : LogicalType) (wrapping : Wrapping)
    (bytes : Bytes) : Prop :=
  match wrapping.rows with
  | some rows => ∃ vector c,
      (decodeVector T wrapping.count).run layout ⟨bytes, 0⟩ = .ok (vector, c) ∧
        ∀ plain, encodeVector layout prims T rows rows.length = .ok plain → plain.length ≤ isizeMax →
          ∃ vector' c', (decodeVector T wrapping.count).run layout ⟨plain, 0⟩ = .ok (vector', c') ∧
            vector.values = vector'.values
  | none => ∃ e, (decodeVector T wrapping.count).run layout ⟨bytes, 0⟩ = .err e

theorem run_of_body {body : Encode} {bytes : Bytes} {count : Nat} {vector : DecodedVector}
    (h : writeObject body = .ok bytes) (hbytes : bytes.length ≤ isizeMax)
    (htrip : FieldTrip layout 90 fieldEnd body (decodeVectorBody (bytes.length + 1) T count) vector) :
    (decodeVector T count).run layout ⟨bytes, 0⟩ = .ok (vector, ⟨bytes, bytes.length⟩) := by
  have hrun := (FieldTrip.object 90 htrip).run_eq h hbytes
  exact hrun

theorem run_stops_of_body {body : Encode} {bytes : Bytes} {count : Nat} {stop : Stop}
    (h : writeObject body = .ok bytes) (hbytes : bytes.length ≤ isizeMax)
    (hstop : FieldStop layout 90 fieldEnd body (decodeVectorBody (bytes.length + 1) T count) stop) :
    ((decodeVector T count).run layout ⟨bytes, 0⟩).StopsAs stop := by
  obtain ⟨bytes', hwrite, hread⟩ := FieldStop.object 90 hstop
  cases h.symm.trans hwrite
  exact hread ⟨bytes, 0⟩ ⟨Nat.zero_le _, hbytes⟩ [] trivial (by simp [Cursor.unread])

theorem wrappedVector_ends {bytes : Bytes} (hT : Encodable T)
    (hheld : T.Everywhere (LogicalType.InMemory layout)) (hproper : wrapping.Proper)
    (hvalues : ∀ value ∈ wrapping.values, Storable prims T value)
    (hown : layout.Fits .value wrapping.values.length)
    (h : wrappedVector layout prims T wrapping = .ok bytes) (hbytes : bytes.length ≤ isizeMax) :
    wrapping.Ends layout prims T (bytes.length + 1) := by
  obtain ⟨body, hend, hbody, -, rfl⟩ := Encode.append_eq_ok h
  rw [List.length_append] at hbytes ⊢
  exact wrapping_ends hT hheld hproper hvalues hown hbody (by omega) (by omega)

/-- Wrapped and plain vectors agree exactly where every list of rows on the way fits in memory. -/
theorem wrappedAgrees_iff {bytes : Bytes}
    (hfloat : ∀ bits, prims.f64ToF32 (prims.f32ToF64 bits) = bits) (hT : Encodable T)
    (hheld : T.Everywhere (LogicalType.InMemory layout)) (hproper : wrapping.Proper)
    (hcanonical : ∀ value ∈ wrapping.values, Canonical T value)
    (hown : layout.Fits .value wrapping.values.length)
    (h : wrappedVector layout prims T wrapping = .ok bytes) (hbytes : bytes.length ≤ isizeMax) :
    WrappedAgrees layout prims T wrapping bytes ↔ wrapping.Fitting layout := by
  have hstorable : ∀ value ∈ wrapping.values, Storable prims T value := fun value hmem =>
    (storable_canonical hfloat hT (hcanonical value hmem)).1
  cases wrappedVector_ends hT hheld hproper hstorable hown h hbytes with
  | @read rows fitting hrows hlen trip =>
      refine ⟨fun _ => fitting, fun _ => ?_⟩
      have hrun := run_of_body h hbytes trip
      have hfits := fitting.rows_fit hown hrows hlen
      simp only [WrappedAgrees, hrows]
      refine ⟨_, _, hrun, fun plain hplain hlenPlain => ?_⟩
      have htrip := roundTrips_vector .refl hT hheld (fitsMemory_of_encode hfits hplain)
        fun value hmem => hstorable value (Wrapping.mem_rows hrows value hmem)
      rw [← hlen]
      exact ⟨_, _, htrip.run_eq hplain hlenPlain, rfl⟩
  | refused fitting none stop =>
      refine ⟨fun _ => fitting, fun _ => ?_⟩
      simp only [WrappedAgrees, none]
      exact (run_stops_of_body h hbytes stop).refused
  | panicked unfitting stop =>
      refine ⟨fun hagrees => ?_, fun hfitting => absurd hfitting unfitting⟩
      have hpanic := run_stops_of_body h hbytes stop
      cases hrows : wrapping.rows with
      | some rows =>
          simp only [WrappedAgrees, hrows] at hagrees
          obtain ⟨vector, c, hrun, -⟩ := hagrees
          rw [hrun] at hpanic
          exact absurd hpanic Outcome.StopsAs.not_ok
      | none =>
          simp only [WrappedAgrees, hrows] at hagrees
          obtain ⟨e, hrun⟩ := hagrees
          rw [hrun] at hpanic
          cases hpanic

end

def copiedRow (copies : U64) : Wrapping := .dictionary [0] (.constant copies (.flat [.bool true]))

theorem encodeBody_true : ∃ bytes,
    (Wrapping.flat [.bool true]).encodeBody .words .floatless booleanType = .ok bytes := by
  have heq : (Wrapping.flat [.bool true]).encodeBody .words .floatless booleanType = Encode.all
      [writeGeometryField booleanType, writeMask [.bool true],
        encodeFixedVectorBody .floatless booleanType .bool [.bool true] 1] := by
    rw [Wrapping.encodeBody, encodeFlatData_fixed rfl rfl]
    rfl
  exact ⟨_, heq.trans rfl⟩

theorem atMost_encodeBody_true :
    ((Wrapping.flat [.bool true]).encodeBody .words .floatless booleanType).AtMost (17 * 1 + 64) := by
  intro bytes hok
  have hvector : encodeVector .words .floatless booleanType [.bool true] 1 =
      .ok (bytes ++ toLe 2 fieldEnd) := by
    refine (encodeVector_eq booleanType [.bool true]).trans ?_
    rw [writeObject]
    show (Wrapping.flat [.bool true]).encodeBody .words .floatless booleanType ++ _ = _
    rw [hok]
    rfl
  have hsize : (encodeVector .words .floatless booleanType [.bool true] 1).AtMost (17 * 1 + 64) :=
    atMost_fixedVector rfl rfl (by decide) (show 1 < 2 ^ 58 by decide)
  have hlen := hsize _ hvector
  rw [List.length_append] at hlen
  exact (Nat.le_add_right _ _).trans hlen

theorem wrappedVector_copiedRow (copies : U64) (hcopies : copies.toNat < 2 ^ 63) : ∃ bytes,
    wrappedVector .words .floatless booleanType (copiedRow copies) = .ok bytes ∧
      bytes.length ≤ isizeMax := by
  have hsize : (wrappedVector .words .floatless booleanType (copiedRow copies)).AtMost
      (2 + 9 + (2 + (9 + 4) + (2 + 9 + ((2 + 9 + (17 * 1 + 64 + 0)) + 0))) + 2) := by
    have hcode : (writeField 90 (writeUleb 3)).AtMost (2 + 9) := .field (.uleb (by decide)) 90
    have hheld : Held (Wrapping.selectionBytes [0]) := show 4 ≤ isizeMax by decide
    have hselection : (writeField 91 (writeBlob (Wrapping.selectionBytes [0]))).AtMost (2 + (9 + 4)) :=
      .field (.blob (by decide) hheld) 91
    have hcount : (writeField 92 (writeUleb copies.toNat)).AtMost (2 + 9) := .field (.uleb hcopies) 92
    have hinner : (writeField 90 (writeUleb 2)).AtMost (2 + 9) := .field (.uleb (by decide)) 90
    exact .object (hcode.append (hselection.append (hcount.append
      ((hinner.append (atMost_encodeBody_true.append .nothing)).append .nothing))))
  obtain ⟨inner, hinner⟩ := encodeBody_true
  have hok : ∃ bytes, wrappedVector .words .floatless booleanType (copiedRow copies) = .ok bytes := by
    simp only [wrappedVector, copiedRow, Wrapping.encodeBody]
    rw [Wrapping.encodeBody] at hinner
    rw [hinner]
    exact ⟨_, rfl⟩
  obtain ⟨bytes, hbytes⟩ := hok
  exact ⟨bytes, hbytes, (hsize bytes hbytes).trans (by decide)⟩

theorem booleanType_held : booleanType.Everywhere (LogicalType.InMemory .words) :=
  .intro (fun _ hinfo => by cases hinfo) fun _ hchild => by cases hchild

theorem booleanType_encodable : Encodable booleanType :=
  have hphysicalType : getPhysicalType booleanType = .ok .bool := rfl
  .fixed hphysicalType rfl fun h => by cases h

theorem copiedRow_canonical (copies : U64) :
    ∀ value ∈ (copiedRow copies).values, Canonical booleanType value := by
  intro value hmem
  obtain rfl := List.mem_singleton.mp hmem
  exact .scalar ⟨true, rfl⟩

theorem copiedRow_proper {copies : U64} (h : 0 < copies.toNat) : (copiedRow copies).Proper :=
  ⟨(if_pos h).symm, trivial⟩

theorem copiedRow_rows {copies : U64} (h : 0 < copies.toNat) :
    (copiedRow copies).rows = some [.bool true] := by
  have hfirst : (List.replicate copies.toNat (Value.bool true))[0]? = some (.bool true) := by
    rw [List.getElem?_replicate, if_pos h]
  simp only [copiedRow, Wrapping.rows, Option.map_some, Option.bind_some, List.flatMap_singleton,
    List.mapM_cons, List.mapM_nil]
  exact congrArg (fun row => row.bind fun value => some [value]) hfirst

theorem wrappedAgrees_copiedRow : ∃ bytes,
    wrappedVector .words .floatless booleanType (copiedRow 3) = .ok bytes ∧
      WrappedAgrees .words .floatless booleanType (copiedRow 3) bytes := by
  obtain ⟨bytes, hbytes, hlen⟩ := wrappedVector_copiedRow 3 (by decide)
  refine ⟨bytes, hbytes, (wrappedAgrees_iff Primitives.floatless_back booleanType_encodable
    booleanType_held (copiedRow_proper (by decide)) (copiedRow_canonical 3) ⟨by decide, by decide⟩ hbytes
      hlen).mpr ?_⟩
  exact ⟨⟨by decide, by decide⟩, ⟨trivial, fun _ => ⟨by decide, by decide⟩⟩,
    fun _ => ⟨by decide, by decide⟩⟩

def manyCopies : U64 := BitVec.ofNat 64 (2 ^ 60)

theorem toNat_manyCopies : manyCopies.toNat = 2 ^ 60 := by decide

/-- With `2 ^ 60` copies the one row selected is not reached: the decoder makes room for all of them. -/
theorem not_wrappedAgrees_copiedRow : (copiedRow manyCopies).Proper ∧
    (copiedRow manyCopies).rows = some [.bool true] ∧ ∃ bytes,
      wrappedVector .words .floatless booleanType (copiedRow manyCopies) = .ok bytes ∧
        (decodeVector booleanType 1).run .words ⟨bytes, 0⟩ = .panic .capacity := by
  have hpos : 0 < manyCopies.toNat := by rw [toNat_manyCopies]; decide
  have hunfit : ¬ (copiedRow manyCopies).Fitting .words := fun h => by
    have hroom := (h.2.1.2 rfl).size_le
    rw [toNat_manyCopies] at hroom
    exact absurd hroom (by decide)
  obtain ⟨bytes, hbytes, hlen⟩ := wrappedVector_copiedRow manyCopies (by rw [toNat_manyCopies]; decide)
  refine ⟨copiedRow_proper hpos, copiedRow_rows hpos, bytes, hbytes, ?_⟩
  have hstorable : ∀ value ∈ (copiedRow manyCopies).values, Storable .floatless booleanType value :=
    fun value hmem => (storable_canonical Primitives.floatless_back booleanType_encodable
      (copiedRow_canonical manyCopies value hmem)).1
  cases wrappedVector_ends booleanType_encodable booleanType_held (copiedRow_proper hpos) hstorable
    ⟨by decide, by decide⟩ hbytes hlen with
  | read fitting | refused fitting => exact absurd fitting hunfit
  | panicked _ stop => exact (run_stops_of_body hbytes hlen stop).panicked

end QuackProtocol
