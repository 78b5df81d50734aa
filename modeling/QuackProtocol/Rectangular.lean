import QuackProtocol.DecodingRules
import QuackProtocol.Vectors

/-! Whether a decoded vector has as many values as rows were asked for. Every encoding ties the two
together except the flat VARCHAR vector, which takes the number of its strings from the wire. The
trace says of each vector, at every nesting level, how many rows it was asked for and how many
values it got, and of each flat VARCHAR vector how many strings it declared. -/

open Decoding Decode Varint

namespace QuackProtocol

variable {layout : Layout} {α β : Type}

/-- The entries that are not about a vector as a whole. -/
def Event.Plain : Event → Prop
  | .strings _ _ | .vector _ _ => False
  | _ => True

instance : DecidablePred Event.Plain
  | .strings _ _ | .vector _ _ => .isFalse id
  | .bytes _ _ | .reserve _ _ | .product _ _ | .signExtension _ | .sequence _ _ _
  | .stringRow _ _ | .entryEnd _ _ | .entry _ _ _ | .arrayRow _ _ _ | .enter _ | .leave => .isTrue trivial

/-- A decoder of something else than vectors. -/
abbrev Quiet (m : Decoder α) : Prop := Emits Event.Plain m

namespace Quiet

theorem capacity (element : Element) (count : Nat) : Quiet (withCapacity element count) :=
  Emits.ask.bind fun _ => .audit trivial (.check .capacity)

theorem ensure (length : Nat) : Quiet (ensure length) :=
  Emits.cursor.bind fun _ => (Emits.usizeAdd _ _).bind fun _ => .ite (.throw _) (.pure _)

theorem assertEof : Quiet assertEof := Emits.cursor.bind fun _ => .ite (.pure _) (.throw _)

theorem peekFieldId : Quiet peekFieldId := by
  refine (ensure 2).bind fun _ => Emits.cursor.bind fun _ => (Emits.index _ _).bind fun low => ?_
  exact (Emits.usizeAdd _ _).bind fun _ => (Emits.index _ _).bind fun high => .pure _

theorem readFieldId : Quiet readFieldId := by
  refine peekFieldId.bind fun value => Emits.cursor.bind fun _ => ?_
  exact (Emits.usizeAdd _ _).bind fun _ => (Emits.setOffset _).bind fun _ => .pure _

theorem mismatch (message : Cursor → String) :
    Quiet (do let reader ← cursor; protocolError (α := α) (message reader)) :=
  Emits.cursor.bind fun _ => .throw _

theorem readEndObject : Quiet readEndObject :=
  readFieldId.bind fun _ => .ite (.pure _) (mismatch _)

theorem object {read : Decoder α} (h : Quiet read) : Quiet (readObject read) :=
  Emits.bind h fun _ => readEndObject.bind fun _ => .pure _

theorem required {read : Decoder α} (fieldId : Nat) (h : Quiet read) :
    Quiet (readRequiredField fieldId read) := readFieldId.bind fun _ => .ite h (mismatch _)

theorem optional {read : Decoder α} (fieldId : Nat) (defaultValue : α) (h : Quiet read) :
    Quiet (readOptionalField fieldId read defaultValue) :=
  peekFieldId.bind fun _ => .ite (readFieldId.bind fun _ => h) (.pure _)

theorem readByte : Quiet readByte := by
  refine (ensure 1).bind fun _ => Emits.cursor.bind fun _ => (Emits.index _ _).bind fun value => ?_
  exact (Emits.usizeAdd _ _).bind fun _ => (Emits.setOffset _).bind fun _ => .pure _

theorem readBytes (length : Nat) : Quiet (readBytes length) := by
  refine Emits.cursor.bind fun _ => (Emits.audit trivial (ensure length)).bind fun _ => ?_
  exact (Emits.usizeAdd _ _).bind fun _ => (Emits.setOffset _).bind fun _ => .slice _ _ _

theorem readBool : Quiet readBool :=
  readByte.bind fun _ => .ite (.pure _) (.ite (.pure _) (.throw _))

theorem shiftLeft128 (value : BitVec 128) (shift : Nat) : Quiet (shiftLeft128 value shift) :=
  (Emits.check .overflow).bind fun _ => .pure _

theorem readUlebLoop (passes : Nat) (result : U128) (shift : Nat) :
    Quiet (readUlebLoop passes result shift) := by
  induction passes generalizing result shift with
  | zero => exact .throw _
  | succ passes ih =>
      exact readByte.bind fun _ => (shiftLeft128 _ _).bind fun _ => .ite (.pure _) (ih _ _)

theorem readSlebLoop (passes : Nat) (result : I128) (shift : Nat) :
    Quiet (readSlebLoop passes result shift) := by
  induction passes generalizing result shift with
  | zero => exact .throw _
  | succ passes ih =>
      refine readByte.bind fun _ => (shiftLeft128 _ _).bind fun _ => .ite (.ite (.pure _) ?_) (ih _ _)
      exact (Emits.audit trivial (shiftLeft128 _ _)).bind fun _ => .pure _

theorem uleb : Quiet readUlebU64 :=
  (readUlebLoop 19 0 0).bind fun _ => .ite (.pure _) (.throw _)

theorem usize : Quiet readUlebUsize :=
  (readUlebLoop 19 0 0).bind fun _ => .ite (.pure _) (.throw _)

theorem blob : Quiet readBlob := usize.bind readBytes

theorem string : Quiet readString := blob.bind fun _ => .ofResult _

theorem list {readElement : Nat → Decoder α} (element : Element)
    (h : ∀ index, Quiet (readElement index)) : Quiet (readList element readElement) :=
  usize.bind fun _ => (capacity _ _).bind fun _ => .collect h _ _

theorem nullable {readValue : Decoder α} (h : Quiet readValue) : Quiet (readNullable readValue) :=
  readBool.bind fun _ => .ite (Emits.bind h fun _ => .pure _) (.pure _)

theorem readFixed (size : Nat) : Quiet (readFixed size) := by
  have hbytes : Quiet (readArray size) :=
    (ensure size).bind fun _ => Emits.cursor.bind fun _ => (Emits.usizeAdd _ _).bind fun _ =>
      (Emits.setOffset _).bind fun _ => .slice _ _ _
  exact hbytes.bind fun _ => .pure _

theorem readOptionalString (fieldId : Nat) : Quiet (readOptionalString fieldId) :=
  .optional _ _ (string.bind fun _ => .pure _)

theorem rejectField (fieldId : Nat) (message : String) : Quiet (rejectField fieldId message) :=
  peekFieldId.bind fun _ => .ite (.throw _) (.pure _)

theorem decodeInfoBody {decodeLogicalType : Decoder LogicalType} (h : Quiet decodeLogicalType)
    (typeAlias : Option String) (typeId : ExtraTypeInfoType) :
    Quiet (decodeInfoBody decodeLogicalType typeAlias typeId) := by
  cases typeId with
  | invalid => exact .pure _
  | generic => exact .pure _
  | decimal => exact (optional 200 _ uleb).bind fun _ => (optional 201 _ uleb).bind fun _ => .pure _
  | string => exact (optional 200 _ string).bind fun _ => .pure _
  | list => exact (required 200 h).bind fun _ => .pure _
  | struct =>
      have hchildren : Quiet (decodeChildTypes decodeLogicalType) :=
        list _ fun _ => object <| (required 0 string).bind fun _ => (required 1 h).bind fun _ =>
          .pure _
      exact (optional 200 _ hchildren).bind fun _ => .pure _
  | enum =>
      refine (required 200 usize).bind fun _ => ?_
      exact (required 201 (list _ fun _ => string)).bind fun _ => .ite (.throw _) (.pure _)
  | aggregateState =>
      refine (required 200 string).bind fun _ => (required 201 h).bind fun _ => ?_
      exact (required 202 (list _ fun _ => h)).bind fun _ => .pure _
  | array => exact (required 200 h).bind fun _ => (required 201 uleb).bind fun _ => .pure _
  | any => exact (required 200 h).bind fun _ => (required 201 uleb).bind fun _ => .pure _
  | template => exact (optional 200 _ string).bind fun _ => .pure _
  | integerLiteral => exact (rejectField _ _).bind fun _ => .pure _
  | geo =>
      have hcrs : Quiet decodeCoordinateReferenceSystem :=
        object <| (readOptionalString 100).bind fun _ => .pure _
      exact (optional 200 _ hcrs).bind fun _ => .pure _
  | unbound =>
      refine (rejectField _ _).bind fun _ => (readOptionalString 200).bind fun _ => ?_
      exact (readOptionalString 201).bind fun _ => (readOptionalString 202).bind fun _ => .pure _

theorem decodeLogicalTypeWithin (budget : Nat) : Quiet (decodeLogicalTypeWithin budget) := by
  induction budget with
  | zero => exact .panic _
  | succ budget ih =>
      refine .nested trivial trivial <| object ?_
      refine (required 100 uleb).bind fun _ => (Emits.ofResult _).bind fun id => ?_
      refine (optional 101 _ (nullable <| object ?_)).bind fun _ => .pure _
      refine (required 100 uleb).bind fun _ => (Emits.ofResult _).bind fun typeId => ?_
      refine (readOptionalString 101).bind fun typeAlias => (rejectField _ _).bind fun _ => ?_
      exact decodeInfoBody ih typeAlias typeId

theorem decodeLogicalType : Quiet decodeLogicalType := .withBudget decodeLogicalTypeWithin

theorem readMask (count : Nat) : Quiet (readMask count) := by
  have hmask : Quiet (readValidityMask count) := by
    refine (Emits.usizeMul _ _).bind fun _ => blob.bind fun _ => .ite (.throw _) ?_
    exact (capacity _ _).bind fun _ => .pure _
  refine (required 100 readBool).bind fun _ => .ite ?_ (.pure _)
  exact (required 101 hmask).bind fun _ => .pure _

theorem isValid (validity : Option (List Bool)) (row : Nat) : Quiet (isValid validity row) := by
  cases validity with
  | none => exact .pure _
  | some mask => exact .index mask row

theorem maskedRow {validity : Option (List Bool)} {row : Nat} {value : Decoder Value}
    (h : Quiet value) : Quiet (maskedRow validity row value) :=
  (isValid validity row).bind fun _ => .ite h (.pure _)

theorem decodeFixedValue (T : LogicalType) (physicalType : PhysicalType) :
    Quiet (decodeFixedValue T physicalType) := by
  cases physicalType with
  | bool | int8 | uint64 | float | double => exact (readFixed _).bind fun _ => .pure _
  | uint8 | int16 | uint16 | int32 | uint32 | int64 =>
      exact (readFixed _).bind fun _ => .ofResult _
  | int128 => exact (readFixed 8).bind fun _ => (readFixed 8).bind fun _ => .ofResult _
  | uint128 => exact (readFixed 8).bind fun _ => (readFixed 8).bind fun _ => .pure _
  | interval =>
      exact (readFixed 4).bind fun _ => (readFixed 4).bind fun _ => (readFixed 8).bind fun _ => .pure _
  | _ => exact .throw _

theorem skipGeometryField (T : LogicalType) : Quiet (skipGeometryField T) := by
  refine .ite (peekFieldId.bind fun _ => .ite ?_ (.pure _)) (.pure _)
  exact (required 99 uleb).bind fun _ => .pure _

theorem readListEntries (count : Nat) : Quiet (readListEntries count) := by
  refine (list _ fun _ => object ?_).bind fun _ => .ite (.throw _) (.pure _)
  exact (required 100 usize).bind fun _ => (required 101 usize).bind fun _ => .pure _

theorem readSelectionVector (count : Nat) : Quiet (readSelectionVector count) := by
  refine (Emits.audit trivial (.usizeMul _ _)).bind fun _ => blob.bind fun _ => .ite (.throw _) ?_
  exact (capacity _ _).bind fun _ => .pure _

end Quiet

/-! ### Vectors -/

/-- The flat VARCHAR vectors are vectors, and the only ones with another number of values than rows. -/
def Balanced (trace : List Event) : Prop :=
  ∀ count values, (.strings count values ∈ trace → .vector count values ∈ trace) ∧
    (.vector count values ∈ trace → values = count ∨ .strings count values ∈ trace)

namespace Balanced

variable {s t : List Event} {count values : Nat}

theorem of_plain (h : ∀ e ∈ t, e.Plain) : Balanced t :=
  fun _ _ => ⟨fun hmem => (h _ hmem).elim, fun hmem => (h _ hmem).elim⟩

theorem append (hs : Balanced s) (ht : Balanced t) : Balanced (s ++ t) := by
  intro count values
  simp only [List.mem_append]
  refine ⟨Or.imp (hs count values).1 (ht count values).1, ?_⟩
  rintro (hmem | hmem)
  · exact ((hs count values).2 hmem).imp_right .inl
  · exact ((ht count values).2 hmem).imp_right .inr

theorem vector (h : values = count) : Balanced [.vector count values] := by
  intro count' values'
  simp only [List.mem_singleton, Event.vector.injEq, reduceCtorEq, false_implies, or_false, true_and]
  rintro ⟨rfl, rfl⟩
  exact h

/-- A flat VARCHAR vector. -/
theorem strings (hs : ∀ e ∈ s, e.Plain) (ht : ∀ e ∈ t, e.Plain) :
    Balanced (s ++ .strings count values :: (t ++ [.vector count values])) := by
  intro count' values'
  have hplain : ∀ e : Event, ¬ e.Plain → e ∉ s ∧ e ∉ t := fun e he =>
    ⟨fun hmem => he (hs e hmem), fun hmem => he (ht e hmem)⟩
  have hstrings := hplain (.strings count' values') id
  have hvector := hplain (.vector count' values') id
  simp only [List.mem_append, List.mem_cons, List.not_mem_nil, hstrings, hvector, false_or,
    Event.strings.injEq, Event.vector.injEq, reduceCtorEq, or_false]
  exact ⟨id, .inr⟩

/-- Every vector has a value for each row exactly if every flat VARCHAR vector declares one. -/
theorem vectors_iff (h : Balanced t) :
    (∀ count values, .vector count values ∈ t → values = count) ↔
      ∀ count declared, .strings count declared ∈ t → declared = count := by
  constructor
  · exact fun hall count declared hmem => hall count declared ((h count declared).1 hmem)
  · intro hall count values hmem
    exact ((h count values).2 hmem).elim id (hall count values)

end Balanced

/-- A successful run has a balanced trace, and its value satisfies `post`. -/
def Even (layout : Layout) (m : Decoder α) (post : α → Prop) : Prop :=
  Yields layout m fun a t => Balanced t ∧ post a

namespace Even

variable {m m' : Decoder α} {f : α → Decoder β} {post post₂ : α → Prop} {post' : β → Prop}

theorem quiet (h : Quiet m) : Even layout m fun _ => True :=
  (Yields.of_emits h).weaken fun _ _ hplain => ⟨.of_plain hplain, trivial⟩

theorem pure {a : α} (h : post a) : Even layout (pure a) post := Yields.pure ⟨.of_plain (by simp), h⟩

theorem throw (e : QuackError) : Even layout (throw e : Decoder α) post := Yields.throw e

theorem weaken (hm : Even layout m post) (h : ∀ a, post a → post₂ a) : Even layout m post₂ :=
  Yields.weaken hm fun a _ ha => ⟨ha.1, h a ha.2⟩

theorem bind (hm : Even layout m post) (hf : ∀ a, post a → Even layout (f a) post') :
    Even layout (m >>= f) post' :=
  Yields.bind hm fun a _ ha => Yields.weaken (hf a ha.2) fun _ _ hb => ⟨ha.1.append hb.1, hb.2⟩

/-- After a step that decodes no vector. -/
theorem after (hm : Quiet m) (hf : ∀ a, Even layout (f a) post') : Even layout (m >>= f) post' :=
  (quiet hm).bind fun a _ => hf a

/-- Before a step that decodes no vector. -/
theorem before (hm : Even layout m post) (hf : ∀ a, Quiet (f a)) :
    Even layout (m >>= f) fun _ => True := hm.bind fun a _ => quiet (hf a)

theorem ite {holds : Prop} [Decidable holds] (hm : holds → Even layout m post)
    (hm' : ¬ holds → Even layout m' post) : Even layout (if holds then m else m') post :=
  Yields.ite hm hm'

theorem object {read : Decoder α} (h : Even layout read post) : Even layout (readObject read) post :=
  h.bind fun _ ha => after Quiet.readEndObject fun _ => pure ha

theorem required {read : Decoder α} (fieldId : Nat) (h : Even layout read post) :
    Even layout (readRequiredField fieldId read) post :=
  after Quiet.readFieldId fun _ => ite (fun _ => h) fun _ => after .cursor fun _ => throw _

theorem collect {f : Nat → Decoder α} (hf : ∀ i, Even layout (f i) fun _ => True)
    (start count : Nat) :
    Even layout (collect f start count) fun values => values.length = count := by
  induction count generalizing start with
  | zero => exact pure rfl
  | succ count ih =>
      refine (hf start).bind fun value _ => (ih (start + 1)).bind fun values hvalues => ?_
      exact pure (by simp [hvalues])

theorem list {readElement : Nat → Decoder α} (element : Element)
    (h : ∀ i, Even layout (readElement i) fun _ => True) :
    Even layout (readList element readElement) fun _ => True :=
  after Quiet.usize fun _ => after (Quiet.capacity _ _) fun _ => (collect h _ _).weaken fun _ _ => trivial

/-- A list of values that are not vectors. -/
theorem rows {f : Nat → Decoder α} (hf : ∀ i, Quiet (f i)) (count : Nat) :
    Even layout (Decode.collect f 0 count) fun values => values.length = count :=
  collect (fun i => quiet (hf i)) 0 count

end Even

theorem even_decodeSequenceVector (T : LogicalType) (count : Nat) :
    Even layout (decodeSequenceVector T count) fun vector => vector.values.length = count := by
  refine .after (.required 91 (Quiet.readSlebLoop 19 0 0)) fun start => ?_
  refine .after (.required 92 (Quiet.readSlebLoop 19 0 0)) fun increment => ?_
  refine (Even.rows (fun position => ?_) count).bind fun values hvalues => .pure hvalues
  have hnumber : Quiet (sequenceNumber start increment position) :=
    .audit trivial ((Emits.check .overflow).bind fun _ => .pure _)
  refine hnumber.bind fun _ => (Emits.ofResult _).bind fun value => ?_
  exact (Quiet.capacity _ _).bind fun _ => .pure value

theorem even_decodeFixedVector (T : LogicalType) (physicalType : PhysicalType) (count : Nat)
    (validity : Option (List Bool)) :
    Even layout (decodeFixedVector T physicalType count validity)
      fun values => values.length = count := by
  refine .after (.ofResult _) fun size => .after (.audit trivial (.usizeMul _ _)) fun byteLength => ?_
  refine .after (.required 102 .blob) fun bytes => .ite (fun _ => .throw _) fun _ => ?_
  refine .after (.capacity _ _) fun _ => ?_
  have hvalue : ∀ row, Quiet (do
      let value ← decodeFixedValue T physicalType
      let valid ← isValid validity row
      pure (if valid then value else .null)) := fun row =>
    (Quiet.decodeFixedValue T physicalType).bind fun _ => (Quiet.isValid _ _).bind fun _ => .pure _
  have hvalues : Even layout (do
      let values ← collect (fun row => do
        let value ← decodeFixedValue T physicalType
        let valid ← isValid validity row
        pure (if valid then value else .null)) 0 count
      assertEof
      pure values) fun values => values.length = count :=
    (Even.rows hvalue count).bind fun _ hlen => .after .assertEof fun _ => .pure hlen
  intro c values c' hrun
  simp only [onBytes] at hrun
  split at hrun
  · rename_i values' c'' hinner
    cases hrun
    exact hvalues _ _ _ hinner
  · cases hrun
  · cases hrun

/-- The values of a flat vector, once the vector is entered in the trace. -/
def Counted (count : Nat) (values : List Value) (t : List Event) : Prop :=
  Balanced (t ++ [.vector count values.length])

theorem Even.counted {m : Decoder (List Value)} {count : Nat}
    (h : Even layout m fun values => values.length = count) : Yields layout m (Counted count) :=
  Yields.weaken h fun _ _ hvalues => hvalues.1.append (.vector hvalues.2)

/-- The one encoding that takes the number of its values from the wire. -/
theorem counted_decodeVarcharValues (T : LogicalType) (count : Nat) (validity : Option (List Bool)) :
    Yields layout (decodeVarcharValues T count validity) (Counted count) := by
  have hstrings : Quiet (readRequiredField 102 (readList .blob fun _ => readStringBytes)) :=
    .required 102 (.list _ fun _ => .blob)
  refine (Yields.of_emits hstrings).bind fun rawValues front hfront => ?_
  refine (Yields.record _).bind fun _ entry hentry => ?_
  have hrows : ∀ row, Quiet (do
      let valid ← audit (.stringRow (validity.map List.length) row) (isValid validity row)
      if valid then do
        let raw ← index rawValues row
        ofResult (decodeStringLikeValue T raw)
      else
        pure .null) := fun row =>
    (Emits.audit trivial (Quiet.isValid _ _)).bind fun _ =>
      .ite ((Emits.index _ _).bind fun _ => .ofResult _) (.pure _)
  have hlength : Even layout (collect _ 0 rawValues.length) _ := Even.rows hrows rawValues.length
  intro c values c' hrun
  have hback := Emits.collect hrows 0 rawValues.length layout c
  rw [Counted, hentry, (hlength c values c' hrun).2]
  simp only [List.append_assoc, List.cons_append, List.nil_append]
  exact .strings hfront hback

section
variable {decodeVector : LogicalType → Nat → Decoder DecodedVector}
  (h : ∀ T count, Even layout (decodeVector T count) fun _ => True)
include h

theorem even_decodeStructValues (T : LogicalType) (count : Nat) (validity : Option (List Bool)) :
    Even layout (decodeStructValues decodeVector T count validity)
      fun values => values.length = count := by
  refine .after (.ofResult _) fun children => ?_
  refine (Even.required 103 (.list .decodedVector fun childIndex => ?_)).bind fun childVectors _ => ?_
  · cases children[childIndex]? with
    | some child => exact h _ _
    | none => exact .throw _
  refine .after (.capacity _ _) fun _ => .rows (fun row => .maskedRow ?_) count
  exact (Emits.ofResult _).bind fun _ => .pure _

theorem even_decodeListValues (T : LogicalType) (count : Nat) (validity : Option (List Bool)) :
    Even layout (decodeListValues decodeVector T count validity)
      fun values => values.length = count := by
  refine .after (.required 104 .usize) fun listSize => ?_
  have hentries : Even layout (readListEntries count) fun entries => entries.length = count := by
    refine .after (.list _ fun _ => .object ?_) fun entries =>
      .ite (fun _ => .throw _) fun hlen => .pure (not_not.mp hlen)
    exact (Quiet.required 100 .usize).bind fun _ => (Quiet.required 101 .usize).bind fun _ => .pure _
  refine (Even.required 105 hentries).bind fun entries hlen => ?_
  refine .after (.ofResult _) fun childType => ?_
  refine (Even.required 106 (h childType listSize)).bind fun childVector _ => ?_
  refine .after (.capacity _ _) fun _ => hlen ▸ .rows (fun row => ?_) entries.length
  refine (Emits.index _ _).bind fun entry => Quiet.maskedRow ?_
  have hstop : Quiet (audit (.entryEnd entry.offset entry.length)
      (usizeAdd entry.offset entry.length)) := .audit trivial (.usizeAdd _ _)
  exact hstop.bind fun stop => (Emits.audit trivial (.slice _ _ _)).bind fun items => .pure _

theorem even_decodeArrayValues (T : LogicalType) (count : Nat) (validity : Option (List Bool)) :
    Even layout (decodeArrayValues decodeVector T count validity)
      fun values => values.length = count := by
  refine .after (.required 103 .usize) fun arraySize => .after (.ofResult _) fun expected => ?_
  refine .ite (fun _ => .throw _) fun _ => .after (.ofResult _) fun childType => ?_
  have hproduct : Quiet (audit (.product arraySize count) (usizeMul arraySize count)) :=
    .audit trivial (.usizeMul _ _)
  refine (Even.required 104 (.after hproduct fun childCount => h childType childCount)).bind
    fun childVector _ => ?_
  refine .after (.capacity _ _) fun _ => .rows (fun row => .maskedRow ?_) count
  refine (Emits.usizeMul _ _).bind fun offset => (Emits.usizeAdd _ _).bind fun stop => ?_
  exact (Emits.audit trivial (.slice _ _ _)).bind fun items => .pure _

theorem counted_decodeFlatData (T : LogicalType) (physicalType : PhysicalType) (count : Nat)
    (validity : Option (List Bool)) :
    Yields layout (decodeFlatData decodeVector T physicalType count validity) (Counted count) := by
  unfold decodeFlatData
  refine .ite (fun _ => (even_decodeFixedVector T physicalType count validity).counted) fun _ => ?_
  split
  · exact counted_decodeVarcharValues T count validity
  · exact (even_decodeStructValues h T count validity).counted
  · exact (even_decodeListValues h T count validity).counted
  · exact (even_decodeArrayValues h T count validity).counted
  · exact .throw _

theorem counted_decodeFlatVectorBody (T : LogicalType) (count : Nat) (vectorType : VectorType) :
    Yields layout (decodeFlatVectorBody decodeVector T count vectorType)
      fun vector t => Counted count vector.values t := by
  refine (Yields.of_emits (Quiet.skipGeometryField T)).bind fun _ skipped hskipped => ?_
  refine (Yields.of_emits (Quiet.readMask count)).bind fun validity mask hmask => ?_
  have hphysical : Quiet (ofResult (getPhysicalType T)) := .ofResult _
  refine (Yields.of_emits hphysical).bind fun physicalType nothing hnothing => ?_
  refine (counted_decodeFlatData h T physicalType count validity).bind fun values t hvalues => ?_
  refine .pure ?_
  have hfront : Balanced (skipped ++ (mask ++ nothing)) :=
    (Balanced.of_plain hskipped).append ((Balanced.of_plain hmask).append (.of_plain hnothing))
  have hwhole := hfront.append hvalues
  simpa [Counted] using hwhole

end

/-- What a decoded vector leaves in the trace: its own entry, among balanced ones. -/
def Told (count : Nat) (vector : DecodedVector) (t : List Event) : Prop :=
  Balanced t ∧ .vector count vector.values.length ∈ t

theorem Told.after {count : Nat} {vector : DecodedVector} {s t : List Event}
    (hs : ∀ e ∈ s, e.Plain) (h : Told count vector t) : Told count vector (s ++ t) :=
  ⟨(Balanced.of_plain hs).append h.1, List.mem_append_right _ h.2⟩

theorem told_after {m : Decoder α} {next : α → Decoder DecodedVector} {count : Nat} (hm : Quiet m)
    (h : ∀ a, Yields layout (next a) (Told count)) : Yields layout (m >>= next) (Told count) :=
  (Yields.of_emits hm).bind fun a _ hs => (h a).weaken fun _ _ ht => ht.after hs

theorem told_recursive {body : Decoder DecodedVector} {count : Nat} (h : Yields layout body (Told count)) :
    Yields layout (recursive .vector body) (Told count) := by
  have henter : Balanced [.enter .vector] := .of_plain (List.forall_mem_singleton.mpr trivial)
  have hleave : Balanced [.leave] := .of_plain (List.forall_mem_singleton.mpr trivial)
  refine .nested (h.weaken fun vector t ht => ?_)
  exact ⟨(henter.append ht.1).append hleave, List.mem_append_left _ (List.mem_cons_of_mem _ ht.2)⟩

/-- The last step of every vector. -/
theorem told_record {data : Decoder DecodedVector} {count : Nat}
    (h : Yields layout data fun vector t => Counted count vector.values t) :
    Yields layout (data >>= fun vector => do
      record (.vector count vector.values.length)
      pure vector) (Told count) := by
  refine h.bind fun vector t ht => (Yields.record _).bind fun _ entry hentry => .pure ?_
  subst hentry
  exact ⟨by simpa [Counted] using ht, by simp⟩

theorem Even.countedVector {m : Decoder DecodedVector} {count : Nat}
    (h : Even layout m fun vector => vector.values.length = count) :
    Yields layout m fun vector t => Counted count vector.values t :=
  Yields.weaken h fun _ _ hvector => hvector.1.append (.vector hvector.2)

theorem length_fourByteWords {bytes : Bytes} {count : Nat} (h : bytes.length = count * 4) :
    (fourByteWords bytes).length = count := by
  induction count generalizing bytes with
  | zero =>
      rw [Nat.zero_mul, List.length_eq_zero_iff] at h
      rw [h]
      rfl
  | succ count ih =>
      obtain ⟨a, b, c, d, rest, rfl⟩ : ∃ a b c d rest, bytes = a :: b :: c :: d :: rest := by
        match bytes, h with
        | [], h | [_], h | [_, _], h | [_, _, _], h =>
            simp only [List.length_cons, List.length_nil] at h
            omega
        | a :: b :: c :: d :: rest, _ => exact ⟨a, b, c, d, rest, rfl⟩
      simp only [List.length_cons] at h
      rw [fourByteWords, List.length_cons, ih (by omega)]

theorem even_readSelectionVector (count : Nat) :
    Even layout (readSelectionVector count) fun selection => selection.length = count := by
  have hproduct : Even layout (audit (.product count 4) (usizeMul count 4)) fun z => z = count * 4 :=
    .after (.record trivial) fun _ => (Yields.usizeMul count 4).weaken fun _ _ h =>
      ⟨.of_plain (by simp [h.2]), h.1⟩
  refine hproduct.bind fun expectedBytes hexpected => .after .blob fun bytes => ?_
  refine .ite (fun _ => .throw _) fun hlen => .after (.capacity _ _) fun _ => .pure ?_
  exact length_fourByteWords ((not_not.mp hlen).trans hexpected)

theorem length_of_mapM_eq_ok {f : α → Result β} {items : List α} {values : List β}
    (h : items.mapM f = .ok values) : values.length = items.length := by
  induction items generalizing values with
  | nil =>
      cases h
      rfl
  | cons item items ih =>
      rw [List.mapM_cons] at h
      cases hitem : f item with
      | error e =>
          rw [hitem] at h
          cases h
      | ok value =>
          cases hitems : items.mapM f with
          | error e =>
              rw [hitem, hitems] at h
              cases h
          | ok rest =>
              rw [hitem, hitems] at h
              cases h
              simp [ih hitems]

theorem told_decodeVectorBody (budget : Nat) (T : LogicalType) (count : Nat) :
    Yields layout (decodeVectorBody budget T count) (Told count) := by
  induction budget generalizing T count with
  | zero => exact .panic .recursion
  | succ budget ih =>
      have hinner : ∀ T count, Even layout (decodeVectorBody budget T count) fun _ => True :=
        fun T count => Yields.weaken (ih T count) fun _ _ h => ⟨h.1, trivial⟩
      refine told_recursive ?_
      refine told_after (.optional 90 _ .uleb) fun code => told_after (.ofResult _) fun vectorType => ?_
      cases vectorType with
      | flat =>
          exact told_record (counted_decodeFlatVectorBody (fun T count => .object (hinner T count)) _ _ _)
      | fsst => exact told_record (.throw _)
      | constant =>
          refine told_record (Even.countedVector ((hinner _ _).bind fun decoded _ => ?_))
          exact .after (.capacity _ _) fun _ => .pure (by simp)
      | dictionary =>
          refine told_record (Even.countedVector ?_)
          refine (Even.required 91 (even_readSelectionVector count)).bind fun selection hlen => ?_
          refine .after (.required 92 .usize) fun dictionaryCount => ?_
          refine (hinner _ _).bind fun dictionary _ => .after (.capacity _ _) fun _ => ?_
          refine Even.bind (Yields.ofResult fun values h => ?_) fun values hvalues => .pure hvalues
          exact ⟨.of_plain (by simp), (length_of_mapM_eq_ok h).trans hlen⟩
      | sequence => exact told_record (even_decodeSequenceVector T count).countedVector

theorem told_decodeVector (T : LogicalType) (count : Nat) :
    Yields layout (decodeVector T count) (Told count) := by
  refine .withBudget fun budget => ?_
  refine (told_decodeVectorBody budget T count).bind fun vector t ht => ?_
  refine (Yields.of_emits Quiet.readEndObject).bind fun _ back hback => .pure ?_
  exact ⟨by simpa using ht.1.append (.of_plain hback), by simp [ht.2]⟩

theorem even_decodeDataChunk : Even layout decodeDataChunk fun _ => True := by
  refine .object <| .after (.required 100 .usize) fun rowCount => ?_
  refine .after (.required 101 (.list _ fun _ => .decodeLogicalType)) fun types => ?_
  refine (Even.required 102 (.list .decodedVector fun index => ?_)).bind fun columns _ => ?_
  · cases types[index]? with
    | some T => exact Yields.weaken (told_decodeVector T rowCount) fun _ _ h => ⟨h.1, trivial⟩
    | none => exact .throw _
  · exact .ite (fun _ => .throw _) fun _ => .pure trivial

theorem yields_readObject {read : Decoder α} {post : α → List Event → Prop}
    (h : Yields layout read post) (hmono : ∀ a s t, post a t → post a (t ++ s)) :
    Yields layout (readObject read) post := by
  refine h.bind fun a t ht => (Yields.of_emits Quiet.readEndObject).bind fun _ s _ => .pure ?_
  simpa using hmono a s t ht

/-- The column at `index`, for which the chunk must declare a type. -/
theorem columnTold (rowCount : Nat) (types : List LogicalType) (index : Nat) :
    Yields layout (match types[index]? with
      | some T => decodeVector T rowCount
      | none => protocolError s!"column vector {index} has no matching logical type")
      fun column t => .vector rowCount column.values.length ∈ t := by
  cases types[index]? with
  | some T => exact (told_decodeVector T rowCount).weaken fun _ _ h => h.2
  | none => exact .throw _

/-- Each column's vector was asked for the chunk's row count. -/
theorem columnsTold_decodeDataChunk : Yields layout decodeDataChunk fun chunk t =>
    ∀ column ∈ chunk.columns, .vector chunk.rowCount column.values.length ∈ t := by
  refine yields_readObject ?_ fun chunk s t h column hmem => List.mem_append_left _ (h column hmem)
  have hlater : ∀ (chunk : DataChunk) (s t : List Event),
      (∀ column ∈ chunk.columns, .vector chunk.rowCount column.values.length ∈ t) →
      ∀ column ∈ chunk.columns, .vector chunk.rowCount column.values.length ∈ s ++ t :=
    fun chunk s t h column hmem => List.mem_append_right _ (h column hmem)
  refine .after (fun rowCount => .after (fun types => ?_) hlater) hlater
  have hwider : ∀ (columns : List DecodedVector) (s t : List Event),
      (∀ column ∈ columns, .vector rowCount column.values.length ∈ t) →
      ∀ column ∈ columns, .vector rowCount column.values.length ∈ s ++ t :=
    fun columns s t h column hmem => List.mem_append_right _ (h column hmem)
  refine Yields.bind (.after (fun actual => .ite (fun _ => ?_) fun _ => ?_) hwider)
    fun columns t ht => .ite (fun _ => .throw _) fun _ => .pure (by simpa using ht)
  · refine .after (fun length => .after (fun _ => ?_) hwider) hwider
    refine (Yields.collect (columnTold rowCount types) (fun column s t u h => ?_) 0 length).weaken
      fun columns t h => h.2
    exact List.mem_append_left _ (List.mem_append_right _ h)
  · exact .after (fun _ => .throw _) hwider

/-- A decoded vector has a value for each row at every nesting level, and so has every column of a
chunk, exactly if every flat VARCHAR vector inside declares as many strings as rows. -/
theorem decoded_rectangular_iff (layout : Layout) :
    (∀ T count c vector c', (decodeVector T count).run layout c = .ok (vector, c') →
      ((vector.values.length = count ∧
          ∀ rows values, .vector rows values ∈ (decodeVector T count).trace layout c → values = rows) ↔
        ∀ rows declared, .strings rows declared ∈ (decodeVector T count).trace layout c →
          declared = rows)) ∧
    ∀ c chunk c', decodeDataChunk.run layout c = .ok (chunk, c') →
      (((∀ column ∈ chunk.columns, column.values.length = chunk.rowCount) ∧
          ∀ rows values, .vector rows values ∈ decodeDataChunk.trace layout c → values = rows) ↔
        ∀ rows declared, .strings rows declared ∈ decodeDataChunk.trace layout c →
          declared = rows) := by
  constructor
  · intro T count c vector c' hrun
    obtain ⟨hbalanced, htold⟩ := told_decodeVector T count c vector c' hrun
    rw [← hbalanced.vectors_iff]
    exact ⟨And.right, fun hall => ⟨hall _ _ htold, hall⟩⟩
  · intro c chunk c' hrun
    have htold := columnsTold_decodeDataChunk c chunk c' hrun
    rw [← (even_decodeDataChunk c chunk c' hrun).1.vectors_iff]
    exact ⟨And.right, fun hall => ⟨fun column hmem => hall _ _ (htold column hmem), hall⟩⟩

/-- A chunk of the given row count with a BLOB column that declares one string. -/
def blobChunk (rows : UInt8) : Bytes :=
  [100, 0, rows, 101, 0, 1, 100, 0, 26, 0xff, 0xff, 102, 0, 1, 100, 0, 0, 102, 0, 1, 0] ++
  [0xff, 0xff, 0xff, 0xff]

theorem blobChunk_rectangular : ∃ chunk c',
    decodeDataChunk.run .words ⟨blobChunk 1, 0⟩ = .ok (chunk, c') ∧
      ∀ column ∈ chunk.columns, column.values.length = chunk.rowCount := by
  have htrace : ∀ e ∈ decodeDataChunk.trace .words ⟨blobChunk 1, 0⟩,
      e = .strings 1 1 ∨ e = .vector 1 1 ∨ e.Plain := by
    decide +kernel
  refine ⟨_, _, rfl, ?_⟩
  have hiff := (decoded_rectangular_iff .words).2 ⟨blobChunk 1, 0⟩ _ _ rfl
  refine (hiff.mpr fun rows declared hmem => ?_).1
  rcases htrace _ hmem with h | h | h <;> cases h
  rfl

/-- Two rows are asked for and one string is accepted. -/
theorem not_blobChunk_rectangular : ∃ chunk c',
    decodeDataChunk.run .words ⟨blobChunk 2, 0⟩ = .ok (chunk, c') ∧
      ¬ ∀ column ∈ chunk.columns, column.values.length = chunk.rowCount := by
  refine ⟨_, _, rfl, fun hall => ?_⟩
  exact absurd (hall _ (List.mem_singleton_self _)) (by decide)

end QuackProtocol
