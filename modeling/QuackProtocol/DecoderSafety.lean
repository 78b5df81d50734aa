import QuackProtocol.BinarySafety
import QuackProtocol.Messages

/-! When decoding a message panics. Lengths, row counts and list entries come from the wire, each
declared independently of the others, and the decoder checks some of them and not the rest. The
trace of a run holds the quantities it does not check; the run panics exactly where one of them is
out of range. -/

open Decoding Decode Varint

namespace QuackProtocol

variable {layout : Layout} {α β : Type} {n : Nat}

/-- A decoder that panics at unsound entries only, whatever it returns. -/
def Safe (layout : Layout) (n : Nat) (m : Decoder α) : Prop := Guarded layout n 0 m fun _ => True

namespace Safe

theorem of_guarded {k : Nat} {m : Decoder α} {post : α → Prop} (h : Guarded layout n k m post) :
    Safe layout n m := h.weaken (Nat.zero_le _) fun _ _ => trivial

theorem bind {m : Decoder α} {f : α → Decoder β} (hm : Safe layout n m)
    (hf : ∀ a, Safe layout n (f a)) : Safe layout n (m >>= f) := hm.seq fun a _ => hf a

/-- After a step whose result is known to satisfy `post`. -/
theorem seq {k : Nat} {m : Decoder α} {f : α → Decoder β} {post : α → Prop}
    (hm : Guarded layout n k m post) (hf : ∀ a, post a → Safe layout n (f a)) :
    Safe layout n (m >>= f) := Guarded.seq hm hf

/-- After a step that has read `k` bytes. -/
theorem after {k : Nat} {m : Decoder α} {f : α → Decoder β} {post : α → Prop}
    (hm : Guarded layout n k m post) (hf : k ≤ n → ∀ a, post a → Safe layout (n - k) (f a)) :
    Safe layout n (m >>= f) := Guarded.after hm hf

/-- A step entered in the trace, safe where the entry is sound. -/
theorem audit {entry : Event} {step : Decoder α} (hsound : entry.Sound layout → Safe layout n step)
    (hpanic : ¬ entry.Sound layout →
      ∀ c, step.run layout c = .panic entry.cause ∧ step.trace layout c = []) :
    Safe layout n (audit entry step) := Guarded.audit hsound hpanic

theorem pure (a : α) : Safe layout n (pure a : Decoder α) := Guarded.pure trivial

theorem throw (e : QuackError) : Safe layout n (throw e : Decoder α) := Guarded.throw e

theorem ite {holds : Prop} [Decidable holds] {m m' : Decoder α} (hm : Safe layout n m)
    (hm' : Safe layout n m') : Safe layout n (if holds then m else m') :=
  Guarded.ite (fun _ => hm) fun _ => hm'

theorem ofResult (x : Result α) : Safe layout n (ofResult x) := Guarded.ofResult fun _ _ => trivial

theorem required {read : Decoder α} (fieldId : Nat) (h : Safe layout n read) :
    Safe layout n (readRequiredField fieldId read) := guarded_required fieldId h

theorem optional {read : Decoder α} (fieldId : Nat) (defaultValue : α) (h : Safe layout n read) :
    Safe layout n (readOptionalField fieldId read defaultValue) :=
  guarded_readOptionalField fieldId h trivial

/-- Where an optional field is there, what follows it has two bytes less to read. -/
theorem optionalBind {read : Decoder α} {next : α → Decoder β} {defaultValue : α} (fieldId : Nat)
    (hread : Safe layout n read) (hthere : 2 ≤ n → ∀ a, Safe layout (n - 2) (next a))
    (hdefault : Safe layout n (next defaultValue)) :
    Safe layout n (readOptionalField fieldId read defaultValue >>= next) :=
  guarded_optional_bind fieldId (fun _ => hread.fewer (Nat.sub_le _ _)) (fun hle a _ => hthere hle a)
    hdefault

theorem object {read : Decoder α} (h : Safe layout n read) : Safe layout n (readObject read) :=
  guarded_readObject h

theorem list {readElement : Nat → Decoder α} (element : Element)
    (h : ∀ index, Safe layout n (readElement index)) :
    Safe layout n (readList element readElement) := of_guarded (guarded_readList element h)

theorem nullable {readValue : Decoder α} (h : Safe layout n readValue) :
    Safe layout n (readNullable readValue) := of_guarded (guarded_readNullable h)

theorem onBytes {bytes : Bytes} {m : Decoder α} (h : Safe layout bytes.length m)
    (hlen : bytes.length ≤ isizeMax) : Safe layout n (onBytes bytes m) := Guarded.onBytes h hlen

theorem collect {f : Nat → Decoder α} {count : Nat} (h : ∀ i < count, Safe layout n (f i)) :
    Safe layout n (collect f 0 count) :=
  of_guarded (Guarded.collect fun i _ hi => h i (by omega))

theorem index {xs : List α} {i : Nat} (h : i < xs.length) : Safe layout n (index xs i) :=
  of_guarded (Guarded.index h)

theorem capacity (element : Element) (count : Nat) : Safe layout n (withCapacity element count) :=
  of_guarded (guarded_withCapacity element count)

theorem record (entry : Event) (h : entry.Sound layout) : Safe layout n (record entry) :=
  Guarded.record h

theorem recursive {callee : Recursive} {body : Decoder α} (h : Safe layout n body) :
    Safe layout n (recursive callee body) :=
  Guarded.nested trivial trivial h

theorem usize : Safe layout n readUlebUsize := of_guarded guarded_readUlebUsize

theorem blob : Safe layout n readBlob := of_guarded guarded_readBlob

end Safe

theorem safe_readOptionalString (fieldId : Nat) : Safe layout n (readOptionalString fieldId) :=
  .optional fieldId none (.bind guarded_readString fun _ => .pure _)

theorem safe_rejectField (fieldId : Nat) (message : String) :
    Safe layout n (rejectField fieldId message) :=
  .bind guarded_peekFieldId fun _ => .ite (.throw _) (.pure _)

section
variable {decodeLogicalType : Decoder LogicalType}

theorem safe_decodeInfoBody (h : Safe layout n decodeLogicalType) (typeAlias : Option String)
    (typeId : ExtraTypeInfoType) : Safe layout n (decodeInfoBody decodeLogicalType typeAlias typeId) := by
  cases typeId with
  | invalid => exact .pure _
  | generic => exact .pure _
  | decimal =>
      refine .bind (.optional 200 _ guarded_readUlebU64) fun width => ?_
      exact .bind (.optional 201 _ guarded_readUlebU64) fun scale => .pure _
  | string => exact .bind (.optional 200 _ guarded_readString) fun collation => .pure _
  | list => exact .bind (.required 200 h) fun childType => .pure _
  | struct =>
      have hchildren : Safe layout n (decodeChildTypes decodeLogicalType) :=
        .list .childType fun _ => .object <|
          .bind (.required 0 guarded_readString) fun name =>
            .bind (.required 1 h) fun logicalType => .pure _
      exact .bind (.optional 200 _ hchildren) fun childTypes => .pure _
  | enum =>
      refine .bind (.required 200 .usize) fun valuesCount => ?_
      refine .bind (.required 201 (.list .string fun _ => guarded_readString)) fun values => ?_
      exact .ite (.throw _) (.pure _)
  | aggregateState =>
      refine .bind (.required 200 guarded_readString) fun functionName => ?_
      refine .bind (.required 201 h) fun returnType => ?_
      exact .bind (.required 202 (.list .logicalType fun _ => h)) fun boundArgumentTypes => .pure _
  | array =>
      refine .bind (.required 200 h) fun childType => ?_
      exact .bind (.required 201 guarded_readUlebU64) fun size => .pure _
  | any =>
      refine .bind (.required 200 h) fun targetType => ?_
      exact .bind (.required 201 guarded_readUlebU64) fun castScore => .pure _
  | template => exact .bind (.optional 200 _ guarded_readString) fun name => .pure _
  | integerLiteral => exact .bind (safe_rejectField _ _) fun _ => .pure _
  | geo =>
      have hcrs : Safe layout n decodeCoordinateReferenceSystem :=
        .object <| .bind (safe_readOptionalString 100) fun definition => .pure _
      exact .bind (.optional 200 _ hcrs) fun crs => .pure _
  | unbound =>
      refine .bind (safe_rejectField _ _) fun _ => ?_
      refine .bind (safe_readOptionalString 200) fun name => ?_
      refine .bind (safe_readOptionalString 201) fun catalog => ?_
      exact .bind (safe_readOptionalString 202) fun schema => .pure _

theorem safe_decodeExtraTypeInfo (h : Safe layout n decodeLogicalType) :
    Safe layout n (decodeExtraTypeInfo decodeLogicalType) := by
  refine .object <| .bind (.required 100 guarded_readUlebU64) fun code => ?_
  refine .bind (.ofResult _) fun typeId => ?_
  refine .bind (safe_readOptionalString 101) fun typeAlias => ?_
  exact .bind (safe_rejectField _ _) fun _ => safe_decodeInfoBody h typeAlias typeId

end

/-- Each level of a type takes the two bytes of its first field, so the budget never runs out. -/
theorem safe_decodeLogicalTypeWithin {budget : Nat} (hn : n < budget) :
    Safe layout n (decodeLogicalTypeWithin budget) := by
  induction budget generalizing n with
  | zero => exact absurd hn (Nat.not_lt_zero n)
  | succ budget ih =>
      refine .recursive (.object ?_)
      have hcode : Guarded layout n 2 (readRequiredField 100 readUlebU64) (fun _ => True) :=
        guarded_readRequiredField 100 fun _ => guarded_readUlebU64
      refine .after hcode fun hle code _ => ?_
      have hinner : Safe layout (n - 2) (decodeLogicalTypeWithin budget) := ih (by omega)
      refine .bind (.ofResult _) fun id => ?_
      refine .bind (.optional 101 _ ?_) fun typeInfo => .pure _
      exact .nullable (safe_decodeExtraTypeInfo hinner)

theorem safe_decodeLogicalType : Safe layout n decodeLogicalType :=
  Guarded.withBudget fun _ => safe_decodeLogicalTypeWithin (Nat.lt_succ_self _)

/-- A mask, where there is one, has a bit for each row. -/
def MaskFits (count : Nat) (validity : Option (List Bool)) : Prop :=
  ∀ mask ∈ validity, mask.length = count

theorem guarded_readValidityMask {count : Nat} (hcount : count < usizeLimit) :
    Guarded layout n 0 (readValidityMask count) (fun mask => mask.length = count) := by
  have hsize : (count + 63) / 64 * 8 < usizeLimit := by
    simp only [usizeLimit] at hcount ⊢
    omega
  refine (Guarded.usizeMul hsize).seq fun expectedBytes _ => ?_
  refine guarded_readBlob.seq fun bytes _ => ?_
  refine Guarded.ite (fun _ => Guarded.throw _) fun _ => ?_
  exact (guarded_withCapacity .bool count).seq fun _ _ => Guarded.pure (by simp)

theorem guarded_readMask {count : Nat} (hcount : count < usizeLimit) :
    Guarded layout n 2 (readMask count) (MaskFits count) := by
  have hflag : Guarded layout n 2 (readRequiredField 100 readBool) (fun _ => True) :=
    guarded_readRequiredField 100 fun _ => guarded_readBool
  refine hflag.first fun _ present _ => ?_
  refine Guarded.ite (fun _ => ?_) fun _ => Guarded.pure (by simp [MaskFits])
  refine .seq (guarded_required 101 (guarded_readValidityMask hcount)) fun mask hmask => ?_
  exact Guarded.pure (by simpa [MaskFits] using hmask)

theorem safe_isValid {count row : Nat} {validity : Option (List Bool)}
    (hmask : MaskFits count validity) (hrow : row < count) : Safe layout n (isValid validity row) := by
  cases validity with
  | none => exact .pure _
  | some mask => exact .index (by rwa [hmask mask rfl])

theorem safe_maskedRow {count row : Nat} {validity : Option (List Bool)} {value : Decoder Value}
    (hmask : MaskFits count validity) (hrow : row < count) (h : Safe layout n value) :
    Safe layout n (maskedRow validity row value) :=
  .bind (safe_isValid hmask hrow) fun _ => .ite h (.pure _)

theorem safe_decodeFixedValue (T : LogicalType) (physicalType : PhysicalType) :
    Safe layout n (decodeFixedValue T physicalType) := by
  have hfixed : ∀ size ≤ 8, Safe layout n (readFixed size) := fun size h =>
    guarded_readFixed (h.trans (by decide))
  cases physicalType with
  | bool => exact .bind (hfixed 1 (by decide)) fun _ => .pure _
  | int8 => exact .bind (hfixed 1 (by decide)) fun _ => .pure _
  | uint8 => exact .bind (hfixed 1 (by decide)) fun _ => .ofResult _
  | int16 => exact .bind (hfixed 2 (by decide)) fun _ => .ofResult _
  | uint16 => exact .bind (hfixed 2 (by decide)) fun _ => .ofResult _
  | int32 => exact .bind (hfixed 4 (by decide)) fun _ => .ofResult _
  | uint32 => exact .bind (hfixed 4 (by decide)) fun _ => .ofResult _
  | int64 => exact .bind (hfixed 8 (by decide)) fun _ => .ofResult _
  | uint64 => exact .bind (hfixed 8 (by decide)) fun _ => .pure _
  | float => exact .bind (hfixed 4 (by decide)) fun _ => .pure _
  | double => exact .bind (hfixed 8 (by decide)) fun _ => .pure _
  | int128 =>
      exact .bind (hfixed 8 (by decide)) fun _ => .bind (hfixed 8 (by decide)) fun _ => .ofResult _
  | uint128 =>
      exact .bind (hfixed 8 (by decide)) fun _ => .bind (hfixed 8 (by decide)) fun _ => .pure _
  | interval =>
      refine .bind (hfixed 4 (by decide)) fun months => .bind (hfixed 4 (by decide)) fun days => ?_
      exact .bind (hfixed 8 (by decide)) fun micros => .pure _
  | _ => exact .throw _

/-! ### Vectors -/

theorem safe_readSelectionVector (count : Nat) :
    Safe layout n (readSelectionVector count) := by
  refine .seq (guarded_product count 4) fun expectedBytes _ => ?_
  exact Safe.bind .blob fun bytes => .ite (.throw _) (.bind (.capacity _ _) fun _ => .pure _)

theorem safe_sequenceNumber (start increment : I128) (index : Nat) :
    Safe layout n (sequenceNumber start increment index) := by
  refine Guarded.audit (fun hsound c hc _ => ?_) fun hnot c => ?_
  · have hrange : InI128 (increment.toInt * index) ∧
        InI128 (start.toInt + increment.toInt * index) := hsound
    refine (GuardedAt.check hrange .overflow).bind fun _ _ hstay => ?_
    exact GuardedAt.pure ⟨hstay ▸ hc.moves, trivial⟩
  · have hover : ¬ (InI128 (increment.toInt * index) ∧
        InI128 (start.toInt + increment.toInt * index)) := hnot
    simp only [check_of_not hover, panic_bind]
    exact ⟨rfl, rfl⟩

theorem safe_decodeSequenceVector (T : LogicalType) (count : Nat) :
    Safe layout n (decodeSequenceVector T count) := by
  refine .bind (.required 91 guarded_readSlebI128) fun start => ?_
  refine .bind (.required 92 guarded_readSlebI128) fun increment => ?_
  refine .bind (.collect fun position _ => ?_) fun values => .pure _
  refine .bind (safe_sequenceNumber _ _ _) fun _ => .bind (.ofResult _) fun value => ?_
  exact .bind (.capacity _ _) fun _ => .pure value

theorem safe_decodeFixedVector {T : LogicalType} {physicalType : PhysicalType} {count : Nat}
    {validity : Option (List Bool)} (hmask : MaskFits count validity) :
    Safe layout n (decodeFixedVector T physicalType count validity) := by
  refine .bind (.ofResult _) fun size => ?_
  refine .seq (guarded_product size count) fun byteLength _ => ?_
  refine .seq (guarded_required 102 guarded_readBlob) fun bytes hlen => .ite (.throw _) ?_
  refine .bind (.capacity _ _) fun _ => .onBytes ?_ hlen
  refine Safe.bind (.collect fun row hrow => ?_) fun values => ?_
  · refine .bind (safe_decodeFixedValue T physicalType) fun value => ?_
    exact .bind (safe_isValid hmask hrow) fun _ => .pure _
  · exact .bind guarded_assertEof fun _ => .pure _

theorem safe_decodeVarcharValues (T : LogicalType) (count : Nat) (validity : Option (List Bool)) :
    Safe layout n (decodeVarcharValues T count validity) := by
  refine .bind (.required 102 (.list .blob fun _ => .blob)) fun rawValues => ?_
  refine .bind (.record _ trivial) fun _ => ?_
  refine .collect fun row hrow => ?_
  have hvalid : Safe layout n (audit (.stringRow (validity.map List.length) row)
      (isValid validity row)) := by
    cases validity with
    | none => exact .audit (fun _ => .pure _) fun hnot => absurd (by simp [Event.Sound]) hnot
    | some mask =>
        refine .audit (fun hsound => ?_) fun hnot c => ?_
        · exact Safe.index (hsound mask.length rfl)
        · have hover : mask[row]? = none := by
            rw [List.getElem?_eq_none_iff]
            by_contra hlt
            exact hnot fun length hlength => by simp at hlength; omega
          rw [isValid, index, hover]
          exact ⟨rfl, rfl⟩
  refine Safe.bind hvalid fun valid => .ite ?_ (.pure _)
  exact .bind (.index (by omega)) fun raw => .ofResult _

section
variable {decodeVector : LogicalType → Nat → Decoder DecodedVector}

theorem safe_decodeStructValues (T : LogicalType) {count : Nat} {validity : Option (List Bool)}
    (h : ∀ child, Safe layout n (decodeVector child count)) (hmask : MaskFits count validity) :
    Safe layout n (decodeStructValues decodeVector T count validity) := by
  refine .bind (.ofResult _) fun children => ?_
  refine .bind (.required 103 (.list .decodedVector fun childIndex => ?_)) fun childVectors => ?_
  · cases children[childIndex]? with
    | some child => exact h _
    | none => exact .throw _
  refine .bind (.capacity _ _) fun _ => ?_
  refine .collect fun row hrow => ?_
  exact safe_maskedRow hmask hrow (.bind (.ofResult _) fun _ => .pure _)

theorem guarded_readListEntries (count : Nat) :
    Guarded layout n 0 (readListEntries count) (fun entries => entries.length = count) := by
  have hentry : Safe layout n (readObject do
      let offset ← readRequiredField 100 readUlebUsize
      let length ← readRequiredField 101 readUlebUsize
      Pure.pure (ListEntry.mk offset length)) :=
    .object <| .bind (.required 100 .usize) fun _ => .bind (.required 101 .usize) fun _ => .pure _
  refine (guarded_readList .listEntry fun _ => hentry).seq fun entries _ => ?_
  exact Guarded.ite (fun _ => Guarded.throw _) fun h => Guarded.pure (not_not.mp h)

/-- The entry of a row over the values of the child vector. -/
theorem safe_listItems (values : List Value) (entry : ListEntry) :
    Safe layout n (do
      let stop ← audit (.entryEnd entry.offset entry.length) (usizeAdd entry.offset entry.length)
      let items ← audit (.entry values.length entry.offset entry.length)
        (slice values entry.offset stop)
      pure (Value.list items)) := by
  have hend : Guarded layout n 0
      (audit (.entryEnd entry.offset entry.length) (usizeAdd entry.offset entry.length) : Decoder Nat)
      (fun stop => stop = entry.offset + entry.length) := by
    refine Guarded.audit (fun hsound => Guarded.usizeAdd hsound) fun hnot c => ?_
    have hover : ¬ entry.offset + entry.length < usizeLimit := hnot
    rw [usizeAdd, check_of_not hover, panic_bind]
    exact ⟨rfl, rfl⟩
  refine .seq hend fun stop hstop => .bind ?_ fun items => .pure _
  subst hstop
  refine .audit (fun hsound => Guarded.slice ⟨Nat.le_add_right _ _, hsound⟩) fun hnot c => ?_
  have hover : ¬ (entry.offset ≤ entry.offset + entry.length ∧
      entry.offset + entry.length ≤ values.length) := fun h => hnot h.2
  rw [slice, check_of_not hover, panic_bind]
  exact ⟨rfl, rfl⟩

theorem safe_decodeListValues (T : LogicalType) {count : Nat} {validity : Option (List Bool)}
    (h : ∀ child, ∀ listSize < usizeLimit, Safe layout n (decodeVector child listSize))
    (hmask : MaskFits count validity) :
    Safe layout n (decodeListValues decodeVector T count validity) := by
  refine .seq (guarded_required 104 guarded_readUlebUsize) fun listSize hlistSize => ?_
  refine .seq (guarded_required 105 (guarded_readListEntries count)) fun entries hentries => ?_
  refine .bind (.ofResult _) fun childType => ?_
  refine .bind (.required 106 (h childType listSize hlistSize)) fun childVector => ?_
  refine .bind (.capacity _ _) fun _ => ?_
  refine .collect fun row hrow => ?_
  refine Safe.bind (.index (by omega)) fun entry => ?_
  exact safe_maskedRow hmask (hentries ▸ hrow) (safe_listItems _ _)

/-- The rows before a row of an array column end where it starts, within the product. -/
theorem safe_arrayItems (values : List Value) {arraySize count row : Nat}
    (hproduct : arraySize * count < usizeLimit) (hrow : row < count) :
    Safe layout n (do
      let offset ← usizeMul row arraySize
      let stop ← usizeAdd offset arraySize
      let items ← audit (.arrayRow values.length arraySize row) (slice values offset stop)
      pure (Value.list items)) := by
  have hnext : row * arraySize + arraySize ≤ arraySize * count := by
    calc row * arraySize + arraySize = arraySize * (row + 1) := by ring
      _ ≤ arraySize * count := Nat.mul_le_mul_left _ hrow
  refine .seq (Guarded.usizeMul (by omega)) fun offset hoffset => ?_
  subst hoffset
  refine .seq (Guarded.usizeAdd (by omega)) fun stop hstop => .bind ?_ fun items => .pure _
  subst hstop
  refine .audit (fun hsound => Guarded.slice ⟨Nat.le_add_right _ _, hsound⟩) fun hnot c => ?_
  have hover : ¬ (row * arraySize ≤ row * arraySize + arraySize ∧
      row * arraySize + arraySize ≤ values.length) := fun h => hnot h.2
  rw [slice, check_of_not hover, panic_bind]
  exact ⟨rfl, rfl⟩

theorem safe_decodeArrayValues (T : LogicalType) {count : Nat} {validity : Option (List Bool)}
    (h : ∀ child, ∀ childCount < usizeLimit, Safe layout n (decodeVector child childCount))
    (hmask : MaskFits count validity) :
    Safe layout n (decodeArrayValues decodeVector T count validity) := by
  refine .bind (.required 103 .usize) fun arraySize => ?_
  refine .bind (.ofResult _) fun expected => .ite (.throw _) ?_
  refine .bind (.ofResult _) fun childType => ?_
  have hchild : Guarded layout n 0 (readRequiredField 104 do
      let childCount ← audit (.product arraySize count) (usizeMul arraySize count)
      decodeVector childType childCount) (fun _ => arraySize * count < usizeLimit) := by
    refine guarded_required 104 ((guarded_product arraySize count).seq fun childCount hcount => ?_)
    exact (h childType childCount (hcount.1 ▸ hcount.2)).weaken le_rfl fun _ _ => hcount.2
  refine .seq hchild fun childVector hproduct => ?_
  refine .bind (.capacity _ _) fun _ => ?_
  refine .collect fun row hrow => ?_
  exact safe_maskedRow hmask hrow (safe_arrayItems _ hproduct (by omega))

theorem safe_decodeFlatData (T : LogicalType) (physicalType : PhysicalType) {count : Nat}
    {validity : Option (List Bool)} (hcount : count < usizeLimit)
    (h : ∀ child, ∀ childCount < usizeLimit, Safe layout n (decodeVector child childCount))
    (hmask : MaskFits count validity) :
    Safe layout n (decodeFlatData decodeVector T physicalType count validity) := by
  unfold decodeFlatData
  refine .ite (safe_decodeFixedVector hmask) ?_
  split
  · exact safe_decodeVarcharValues T count validity
  · exact safe_decodeStructValues T (fun child => h child count hcount) hmask
  · exact safe_decodeListValues T h hmask
  · exact safe_decodeArrayValues T h hmask
  · exact .throw _

theorem safe_skipGeometryField (T : LogicalType) : Safe layout n (skipGeometryField T) := by
  refine .ite (.bind guarded_peekFieldId fun next => .ite ?_ (.pure _)) (.pure _)
  exact .bind (.required 99 guarded_readUlebU64) fun _ => .pure _

/-- The children come after the two bytes of the mask's field at least. -/
theorem safe_decodeFlatVectorBody (T : LogicalType) {count : Nat} (hcount : count < usizeLimit)
    (vectorType : VectorType)
    (h : 2 ≤ n → ∀ child, ∀ childCount < usizeLimit,
      Safe layout (n - 2) (decodeVector child childCount)) :
    Safe layout n (decodeFlatVectorBody decodeVector T count vectorType) := by
  refine .bind (safe_skipGeometryField T) fun _ => ?_
  refine .after (guarded_readMask hcount) fun hle validity hmask => ?_
  refine .bind (.ofResult _) fun physicalType => ?_
  exact .bind (safe_decodeFlatData T physicalType hcount (h hle) hmask) fun values => .pure _

end

/-- Each level takes two bytes: a constant or a dictionary vector its type, a flat one its mask. -/
theorem safe_decodeVectorBody {budget : Nat} (hn : n < budget) (T : LogicalType) {count : Nat}
    (hcount : count < usizeLimit) : Safe layout n (decodeVectorBody budget T count) := by
  induction budget generalizing n T count with
  | zero => exact absurd hn (Nat.not_lt_zero n)
  | succ budget ih =>
      have hflat : ∀ {left : Nat}, left ≤ n → Safe layout left (decodeFlatVectorBody
          (fun child length => readObject (decodeVectorBody budget child length)) T count .flat) := by
        intro left hleft
        refine safe_decodeFlatVectorBody T hcount .flat fun hle child childCount hchild => ?_
        exact .object (ih (by omega) child hchild)
      have hdone : ∀ {left : Nat} (vector : DecodedVector), Safe layout left
          (record (.vector count vector.values.length) >>= fun _ => Pure.pure vector) :=
        fun vector => .bind (.record _ trivial) fun _ => .pure _
      refine .recursive (.optionalBind 90 guarded_readUlebU64 (fun hle code => ?_) ?_)
      · refine .bind (.ofResult _) fun vectorType => ?_
        cases vectorType with
        | flat => exact .bind (hflat (Nat.sub_le _ _)) hdone
        | fsst => exact .bind (.throw _) hdone
        | constant =>
            refine .bind (.bind (ih (by omega) T ?_) fun decoded => ?_) hdone
            · simp only [usizeLimit]
              split <;> omega
            · exact .bind (.capacity _ _) fun _ => .pure _
        | dictionary =>
            refine .bind (.bind (.required 91 (safe_readSelectionVector count)) fun selection => ?_) hdone
            refine .seq (guarded_required 92 guarded_readUlebUsize) fun dictionaryCount hsize => ?_
            refine .bind (ih (by omega) T hsize) fun dictionary => ?_
            refine .bind (.capacity _ _) fun _ => ?_
            exact .bind (.ofResult _) fun values => .pure _
        | sequence => exact .bind (safe_decodeSequenceVector T count) hdone
      · have hdefault : ∀ vectorType, VectorType.tryFrom 0 = .ok vectorType → vectorType = .flat :=
          fun vectorType h => by cases h; rfl
        refine .seq (Guarded.ofResult hdefault) fun vectorType hvectorType => ?_
        subst hvectorType
        exact .bind (hflat le_rfl) hdone

theorem safe_decodeVector (T : LogicalType) {count : Nat} (hcount : count < usizeLimit) :
    Safe layout n (decodeVector T count) :=
  Guarded.withBudget fun _ => Safe.object (safe_decodeVectorBody (Nat.lt_succ_self _) T hcount)

theorem safe_decodeDataChunk : Safe layout n decodeDataChunk := by
  refine .object ?_
  refine .seq (guarded_required 100 guarded_readUlebUsize) fun rowCount hrowCount => ?_
  refine .bind (.required 101 (.list .logicalType fun _ => safe_decodeLogicalType)) fun types => ?_
  refine .bind (.required 102 (.list .decodedVector fun index => ?_)) fun columns => ?_
  · cases types[index]? with
    | some T => exact safe_decodeVector T hrowCount
    | none => exact .throw _
  · exact .ite (.throw _) (.pure _)

theorem safe_decodeDataChunkWrapper : Safe layout n decodeDataChunkWrapper :=
  .object (.required 300 safe_decodeDataChunk)

theorem safe_decodeHeader : Safe layout n decodeHeader := by
  refine .object <| .bind (.required 1 guarded_readUlebU64) fun code => ?_
  refine .bind (.ofResult _) fun messageType => ?_
  refine .bind (safe_readOptionalString 2) fun connectionId => ?_
  exact .bind (.required 3 guarded_readUlebU64) fun clientQueryIdRaw => .pure _

theorem safe_readSomeIndex : Safe layout n readSomeIndex :=
  .bind guarded_readUlebU64 fun _ => .pure _

theorem safe_readOptionalIndex (fieldId : Nat) : Safe layout n (readOptionalIndex fieldId) :=
  .bind (.optional fieldId none safe_readSomeIndex) fun _ => .pure _

theorem safe_readText (fieldId : Nat) : Safe layout n (readText fieldId) :=
  .optional fieldId "" guarded_readString

theorem safe_readChunkPointerList : Safe layout n readChunkPointerList := by
  refine .list .dataChunk fun _ => .bind (.nullable safe_decodeDataChunkWrapper) fun chunk => ?_
  cases chunk with
  | some chunk => exact .pure _
  | none => exact .throw _

theorem safe_decodePrepareResponse (header : MessageHeader) :
    Safe layout n (decodePrepareResponse header) := by
  refine .object ?_
  refine .bind (.optional 1 _ (.list .logicalType fun _ => safe_decodeLogicalType)) fun types => ?_
  refine .bind (.optional 2 _ (.list .string fun _ => guarded_readString)) fun names => ?_
  refine .bind (.optional 3 _ guarded_readBool) fun needsMoreFetch => ?_
  refine .bind (.optional 4 _ safe_readChunkPointerList) fun results => ?_
  exact .bind (.required 5 guarded_readHugeIntParts) fun resultUuid => .pure _

theorem safe_decodeErrorResponse (header : MessageHeader) :
    Safe layout n (decodeErrorResponse header) :=
  .object <| .bind (safe_readText 1) fun _ => .pure _

theorem safe_decodeBodyV1 (header : MessageHeader) : Safe layout n (decodeBodyV1 header) := by
  unfold decodeBodyV1
  split
  · refine .object <| .bind (safe_readOptionalString 1) fun authString => ?_
    refine .bind (safe_readOptionalString 2) fun clientDuckdbVersion => ?_
    refine .bind (safe_readOptionalString 3) fun clientPlatform => ?_
    refine .bind (.optional 4 _ guarded_readUlebU64) fun minSupportedQuackVersion => ?_
    exact .bind (.optional 5 _ guarded_readUlebU64) fun maxSupportedQuackVersion => .pure _
  · refine .object <| .bind (safe_readOptionalString 1) fun serverDuckdbVersion => ?_
    refine .bind (safe_readOptionalString 2) fun serverPlatform => ?_
    exact .bind (.optional 3 _ safe_readSomeIndex) fun quackVersion => .pure _
  · exact .object <| .bind (safe_readText 1) fun sql => .pure _
  · exact safe_decodePrepareResponse header
  · exact .object <| .bind (.required 1 guarded_readHugeIntParts) fun resultUuid => .pure _
  · refine .object <| .bind (.optional 1 _ safe_readChunkPointerList) fun results => ?_
    exact .bind (.required 2 guarded_readUlebU64) fun batchIndex => .pure _
  · refine .object <| .bind (safe_readOptionalString 1) fun schemaName => ?_
    refine .bind (safe_readText 2) fun tableName => ?_
    refine .bind (.optional 3 _ (.nullable safe_decodeDataChunkWrapper)) fun appendChunk => ?_
    cases appendChunk with
    | some appendChunk => exact .pure _
    | none => exact .throw _
  · exact .object (.pure _)
  · exact .object (.pure _)
  · exact safe_decodeErrorResponse header
  · exact .throw _

theorem safe_decodeBodyV3 (header : MessageHeader) : Safe layout n (decodeBodyV3 header) := by
  unfold decodeBodyV3
  split
  · refine .object <| .bind (safe_readOptionalString 1) fun authString => ?_
    refine .bind (safe_readOptionalString 2) fun clientDuckdbVersion => ?_
    refine .bind (safe_readOptionalString 3) fun clientPlatform => ?_
    refine .bind (.optional 4 _ guarded_readUlebU64) fun minSupportedQuackVersion => ?_
    refine .bind (.optional 5 _ guarded_readUlebU64) fun maxSupportedQuackVersion => ?_
    refine .bind (safe_readOptionalString 6) fun clientId => ?_
    exact .bind (.optional 7 _ guarded_readUlebU64) fun heartbeatTimeoutSeconds => .pure _
  · refine .object <| .bind (safe_readOptionalString 1) fun serverDuckdbVersion => ?_
    refine .bind (safe_readOptionalString 2) fun serverPlatform => ?_
    refine .bind (.optional 3 _ safe_readSomeIndex) fun quackVersion => ?_
    exact .bind (.optional 4 _ safe_readSomeIndex) fun heartbeatTimeoutSeconds => .pure _
  · refine .object <| .bind (safe_readText 1) fun sql => ?_
    refine .bind (.required 2 guarded_readHugeIntParts) fun queryUuid => ?_
    exact .bind (safe_readOptionalIndex 3) fun inlineRows => .pure _
  · exact safe_decodePrepareResponse header
  · refine .object <| .bind (.required 1 guarded_readHugeIntParts) fun resultUuid => ?_
    refine .bind (safe_readOptionalIndex 2) fun batchIndex => ?_
    exact .bind (.optional 3 _ guarded_readUlebU64) fun ackIndex => .pure _
  · refine .bind (.object <| .bind (.optional 1 _ guarded_readUlebU64) fun chunkCount => ?_)
      fun counts => ?_
    · refine .bind (safe_readOptionalIndex 2) fun totalBatches => ?_
      exact .bind (safe_readOptionalIndex 3) fun batchIndex => .pure _
    · refine .bind (.capacity _ _) fun _ => ?_
      exact .bind (.collect fun _ _ => safe_decodeDataChunk) fun results => .pure _
  · exact .object (.pure _)
  · exact .object (.pure _)
  · exact .object (.pure _)
  · exact safe_decodeErrorResponse header
  · exact .throw _

theorem safe_decodeMessage (quackVersion : U64) : Safe layout n (decodeMessage quackVersion) := by
  refine .bind safe_decodeHeader fun header => .bind ?_ fun message => ?_
  · refine .ite (safe_decodeBodyV1 header) (.ite (safe_decodeBodyV3 header) (.throw _))
  · exact .bind guarded_assertEof fun _ => .pure message

/-- What decoding a message enters in its trace. -/
def decodeMessageTrace (layout : Layout) (bytes : Bytes) (quackVersion : U64) : List Event :=
  (decodeMessage quackVersion).trace layout ⟨bytes, 0⟩

theorem decodeMessageForVersion_returns {bytes : Bytes} {quackVersion : U64} :
    (decodeMessageForVersion layout bytes quackVersion).Returns ↔
      ((decodeMessage quackVersion).run layout ⟨bytes, 0⟩).Returns := by
  unfold decodeMessageForVersion
  cases (decodeMessage quackVersion).run layout ⟨bytes, 0⟩ <;> rfl

theorem decodeMessageForVersion_panics {bytes : Bytes} {quackVersion : U64} {cause : Panic} :
    decodeMessageForVersion layout bytes quackVersion = .panic cause ↔
      (decodeMessage quackVersion).run layout ⟨bytes, 0⟩ = .panic cause := by
  unfold decodeMessageForVersion
  cases (decodeMessage quackVersion).run layout ⟨bytes, 0⟩ with
  | ok out => exact iff_of_false nofun nofun
  | err e => exact iff_of_false nofun nofun
  | panic p =>
      constructor <;> intro h <;> cases h <;> rfl

theorem decodeMessageForVersion_panics_iff {bytes : Bytes} (hlen : bytes.length ≤ isizeMax)
    (quackVersion : U64) (cause : Panic) :
    decodeMessageForVersion layout bytes quackVersion = .panic cause ↔
      ∃ e ∈ decodeMessageTrace layout bytes quackVersion, ¬ e.Sound layout ∧ e.cause = cause := by
  have hguarded : Safe layout bytes.length (decodeMessage quackVersion) :=
    safe_decodeMessage quackVersion
  rw [decodeMessageForVersion_panics]
  exact hguarded.panics_iff ⟨Nat.zero_le _, hlen⟩ (by simp [Cursor.remaining]) cause

/-- A batch with one row of a LIST column: the entry has the given length, its child no value. -/
def listBatch (length : UInt8) : Bytes :=
  [1, 0, 8, 3, 0, 0, 0xff, 0xff, 1, 0, 1, 0xff, 0xff, 100, 0, 1, 101, 0, 1] ++
  [100, 0, 101, 101, 0, 1, 100, 0, 4, 200, 0, 100, 0, 13, 0xff, 0xff, 0xff, 0xff, 0xff, 0xff] ++
  [102, 0, 1, 100, 0, 0, 104, 0, 0, 105, 0, 1, 100, 0, 0, 101, 0, length, 0xff, 0xff] ++
  [106, 0, 100, 0, 0, 102, 0, 0, 0xff, 0xff, 0xff, 0xff, 0xff, 0xff]

end QuackProtocol
