import QuackProtocol.BinaryRoundTrip

/-! The reader's own steps are safe: whatever the bytes, a reader panics only at a quantity that it
took from the wire and entered in the trace, and the bytes it has read tell how far it got. -/

open Decoding Decode Varint

namespace QuackProtocol

variable {layout : Layout} {α β : Type} {n k k' : Nat}

theorem guardedAt_ensure {c : Cursor} {length : Nat} (hstop : c.offset + length < usizeLimit) :
    GuardedAt layout c (ensure length)
      (fun _ c' => c = c' ∧ c.offset + length ≤ c.bytes.length) := by
  apply GuardedAt.cursor.bind
  rintro _ _ ⟨rfl, rfl⟩
  refine (GuardedAt.usizeAdd hstop).bind ?_
  rintro _ _ ⟨rfl, rfl⟩
  split
  · exact GuardedAt.throw _
  · exact GuardedAt.pure ⟨rfl, by omega⟩

/-- A length that no byte string has is no overflow either. -/
theorem offset_add_lt {c : Cursor} (hc : c.Valid) {length : Nat} (h : length ≤ isizeMax) :
    c.offset + length < usizeLimit := by
  have hroom := hc.offset_le
  have hsize := hc.length_le
  simp only [isizeMax, usizeLimit] at *
  omega

/-- A field id is there to be read once it has been looked at. -/
theorem guardedAt_peekFieldId {c : Cursor} (hc : c.Valid) :
    GuardedAt layout c peekFieldId (fun _ c' => c' = c ∧ c.offset + 2 ≤ c.bytes.length) := by
  have hstop : c.offset + 2 < usizeLimit := offset_add_lt hc (by decide)
  refine (guardedAt_ensure hstop).bind ?_
  rintro _ _ ⟨rfl, hroom⟩
  apply GuardedAt.cursor.bind
  rintro _ _ ⟨rfl, rfl⟩
  refine (GuardedAt.index (by omega)).bind ?_
  rintro low _ ⟨-, rfl⟩
  refine (GuardedAt.usizeAdd (by omega)).bind ?_
  rintro _ _ ⟨rfl, rfl⟩
  refine (GuardedAt.index (by omega)).bind ?_
  rintro high _ ⟨-, rfl⟩
  exact GuardedAt.pure ⟨rfl, hroom⟩

theorem guarded_peekFieldId : Guarded layout n 0 peekFieldId (fun _ => True) := by
  intro c hc _
  refine (guardedAt_peekFieldId hc).weaken ?_
  rintro _ _ ⟨rfl, -⟩
  exact ⟨hc.moves, trivial⟩

/-- What is left to do once the bytes are known to be there. -/
theorem guardedAt_skip {c : Cursor} (hc : c.Valid) {length : Nat}
    (hroom : c.offset + length ≤ c.bytes.length) {f : Nat → Unit → Decoder α}
    {post : α → Cursor → Prop}
    (hf : GuardedAt layout (c.advance length) (f (c.offset + length) ()) post) :
    GuardedAt layout c (usizeAdd c.offset length >>= fun stop => setOffset stop >>= f stop)
      post := by
  have hstop : c.offset + length < usizeLimit := by
    have hsize := hc.length_le
    simp only [isizeMax, usizeLimit] at *
    omega
  refine (GuardedAt.usizeAdd hstop).bind ?_
  rintro _ _ ⟨rfl, rfl⟩
  refine (GuardedAt.setOffset _).bind ?_
  rintro _ _ rfl
  exact hf

theorem moves_of_le {c : Cursor} (hc : c.Valid) {length : Nat}
    (hroom : c.offset + length ≤ c.bytes.length) : c.Moves length (c.advance length) :=
  hc.moves_advance (by simp only [Cursor.remaining]; omega)

theorem guarded_readFieldId : Guarded layout n 2 readFieldId (fun _ => True) := by
  intro c hc _
  refine (guardedAt_peekFieldId hc).bind ?_
  rintro id _ ⟨rfl, hroom⟩
  apply GuardedAt.cursor.bind
  rintro _ _ ⟨rfl, rfl⟩
  exact guardedAt_skip hc hroom (GuardedAt.pure ⟨moves_of_le hc hroom, trivial⟩)

theorem guarded_readByte : Guarded layout n 1 readByte (fun _ => True) := by
  intro c hc _
  have hstop : c.offset + 1 < usizeLimit := offset_add_lt hc (by decide)
  refine (guardedAt_ensure hstop).bind ?_
  rintro _ _ ⟨rfl, hroom⟩
  apply GuardedAt.cursor.bind
  rintro _ _ ⟨rfl, rfl⟩
  refine (GuardedAt.index (by omega)).bind ?_
  rintro value _ ⟨-, rfl⟩
  exact guardedAt_skip hc hroom (GuardedAt.pure ⟨moves_of_le hc hroom, trivial⟩)

/-- The bytes up to the new position. -/
theorem guardedAt_window {c : Cursor} (hc : c.Valid) {length : Nat}
    (hroom : c.offset + length ≤ c.bytes.length) :
    GuardedAt layout c
      (usizeAdd c.offset length >>= fun stop => setOffset stop >>= fun _ =>
        slice c.bytes c.offset stop : Decoder Bytes)
      (fun bytes c' => c.Moves length c' ∧ bytes.length = length) := by
  apply guardedAt_skip hc hroom
  refine (GuardedAt.slice ⟨Nat.le_add_right _ _, hroom⟩).weaken ?_
  rintro bytes _ ⟨rfl, rfl⟩
  refine ⟨moves_of_le hc hroom, ?_⟩
  simp only [List.length_take, List.length_drop]
  omega

theorem guarded_readArray {size : Nat} (h : size ≤ isizeMax) :
    Guarded layout n 0 (readArray size) (fun _ => True) := by
  intro c hc _
  refine (guardedAt_ensure (offset_add_lt hc h)).bind ?_
  rintro _ _ ⟨rfl, hroom⟩
  apply GuardedAt.cursor.bind
  rintro _ _ ⟨rfl, rfl⟩
  exact (guardedAt_window hc hroom).weaken fun _ _ h => ⟨h.1.weaken (Nat.zero_le _), trivial⟩

/-- The only step of the reader that adds a length from the wire. -/
theorem guarded_readBytes (length : Nat) :
    Guarded layout n 0 (readBytes length) (fun bytes => bytes.length = length ∧ length ≤ isizeMax) := by
  intro c hc _
  apply GuardedAt.cursor.bind
  rintro _ _ ⟨rfl, rfl⟩
  refine (GuardedAt.audit (fun hsound => guardedAt_ensure hsound) fun hnot => ?_).bind ?_
  · have hover : ¬ c.offset + length < usizeLimit := hnot
    have hsum : (usizeAdd c.offset length : Decoder Nat) = panic .overflow := by
      rw [usizeAdd, check_of_not hover, panic_bind]
    have hcursor : (cursor : Decoder Cursor).run layout c = .ok (c, c) := rfl
    rw [ensure, run_bind_ok hcursor, trace_bind, hcursor]
    simp only [hsum, panic_bind]
    exact ⟨rfl, rfl⟩
  · rintro _ _ ⟨rfl, hroom⟩
    refine (guardedAt_window hc hroom).weaken fun bytes c' h => ⟨h.1.weaken (Nat.zero_le _), h.2, ?_⟩
    have hsize := hc.length_le
    omega

theorem guarded_readFixed {size : Nat} (h : size ≤ isizeMax) :
    Guarded layout n 0 (readFixed size) (fun _ => True) :=
  (guarded_readArray h).seq fun _ _ => Guarded.pure trivial

theorem guarded_protocolError (message : String) (post : α → Prop) :
    Guarded layout n k (protocolError message) post := Guarded.throw _

theorem guarded_assertEof : Guarded layout n 0 assertEof (fun _ => True) := by
  intro c hc _
  apply GuardedAt.cursor.bind
  rintro _ _ ⟨rfl, rfl⟩
  split
  · exact GuardedAt.pure ⟨hc.moves, trivial⟩
  · exact GuardedAt.throw _

theorem guarded_withCapacity (element : Element) (count : Nat) :
    Guarded layout n 0 (withCapacity element count)
      (fun _ => count * layout.sizeOf element ≤ isizeMax) := by
  intro c hc _
  apply GuardedAt.ask.bind
  rintro _ _ ⟨rfl, rfl⟩
  refine GuardedAt.audit (fun hsound => ?_) fun hnot => ?_
  · have hfits : count * layout.sizeOf element ≤ isizeMax := hsound
    exact (GuardedAt.check hfits _).weaken fun _ _ h => ⟨h ▸ hc.moves, hfits⟩
  · have hlarge : ¬ count * layout.sizeOf element ≤ isizeMax := hnot
    rw [reserve, check_of_not hlarge]
    exact ⟨rfl, rfl⟩

/-- A product that is taken from the wire. -/
theorem guarded_product (x y : Nat) :
    Guarded layout n 0 (audit (.product x y) (usizeMul x y) : Decoder Nat)
      (fun z => z = x * y ∧ x * y < usizeLimit) := by
  refine Guarded.audit (fun hsound => ?_) fun hnot c => ?_
  · exact (Guarded.usizeMul hsound).weaken le_rfl fun _ h => ⟨h, hsound⟩
  · have hover : ¬ x * y < usizeLimit := hnot
    rw [usizeMul, check_of_not hover, panic_bind]
    exact ⟨rfl, rfl⟩

/-! ### Fields -/

theorem guarded_readRequiredField {read : Decoder α} {post : α → Prop} (fieldId : Nat)
    (h : 2 ≤ n → Guarded layout (n - 2) 0 read post) :
    Guarded layout n 2 (readRequiredField fieldId read) post := by
  apply guarded_readFieldId.first
  intro hn _ _
  apply Guarded.ite (fun _ => h hn)
  intro _ c hc _
  refine GuardedAt.cursor.bind fun _ _ _ => GuardedAt.throw _

/-- The rule for a field whose position in the input matters no more. -/
theorem guarded_required {read : Decoder α} {post : α → Prop} (fieldId : Nat)
    (h : Guarded layout n 0 read post) :
    Guarded layout n 0 (readRequiredField fieldId read) post :=
  (guarded_readRequiredField fieldId fun _ => h.fewer (Nat.sub_le _ _)).weaken (Nat.zero_le _)
    fun _ h => h

/-- Where an optional field is there, what follows it has two bytes less to read. -/
theorem guarded_optional_bind {read : Decoder α} {next : α → Decoder β} {defaultValue : α}
    {post : α → Prop} {post' : β → Prop} (fieldId : Nat)
    (hread : 2 ≤ n → Guarded layout (n - 2) 0 read post)
    (hthere : 2 ≤ n → ∀ a, post a → Guarded layout (n - 2) 0 (next a) post')
    (hdefault : Guarded layout n 0 (next defaultValue) post') :
    Guarded layout n 0 (readOptionalField fieldId read defaultValue >>= next) post' := by
  unfold readOptionalField
  rw [bind_assoc]
  apply guarded_peekFieldId.seq
  intro actual _
  split
  · rw [bind_assoc]
    exact guarded_readFieldId.after fun hn _ _ => (hread hn).seq (hthere hn)
  · rw [pure_bind]
    exact hdefault

theorem guarded_readOptionalField {read : Decoder α} {defaultValue : α} {post : α → Prop}
    (fieldId : Nat) (h : Guarded layout n 0 read post) (hdefault : post defaultValue) :
    Guarded layout n 0 (readOptionalField fieldId read defaultValue) post := by
  apply guarded_peekFieldId.seq
  intro actual _
  refine Guarded.ite (fun _ => ?_) fun _ => Guarded.pure hdefault
  exact (guarded_readFieldId.weaken (Nat.zero_le _) fun _ h => h).seq fun _ _ => h

theorem guarded_readObject {read : Decoder α} {post : α → Prop} (h : Guarded layout n 0 read post) :
    Guarded layout n 0 (readObject read) post := by
  apply h.seq
  intro result hresult
  have hend : Guarded layout n 0 readEndObject (fun _ => True) := by
    refine (guarded_readFieldId.weaken (Nat.zero_le _) fun _ h => h).seq fun fieldId _ => ?_
    apply Guarded.ite (fun _ => Guarded.pure trivial)
    intro _ c _ _
    exact GuardedAt.cursor.bind fun _ _ _ => GuardedAt.throw _
  exact hend.seq fun _ _ => Guarded.pure hresult

theorem guarded_readBool : Guarded layout n 0 readBool (fun _ => True) := by
  refine (guarded_readByte.weaken (Nat.zero_le _) fun _ h => h).seq fun value _ => ?_
  apply Guarded.ite (fun _ => Guarded.pure trivial)
  intro _
  exact Guarded.ite (fun _ => Guarded.pure trivial) fun _ => guarded_protocolError _ _

theorem guarded_shiftLeft128 (value : BitVec 128) {shift : Nat} (h : shift < 128) :
    Guarded layout n 0 (shiftLeft128 value shift) (fun _ => True) :=
  fun _ hc _ => (GuardedAt.check h .overflow).bind fun _ _ hstay =>
    GuardedAt.pure ⟨hstay ▸ hc.moves, trivial⟩

/-- Nineteen groups of seven bits: the last shift is by 126. -/
theorem guarded_readUlebLoop {passes shift : Nat} (h : shift + 7 * passes ≤ 133) (result : U128) :
    Guarded layout n 0 (readUlebLoop passes result shift) (fun _ => True) := by
  induction passes generalizing shift result with
  | zero => exact guarded_protocolError _ _
  | succ passes ih =>
      refine (guarded_readByte.weaken (Nat.zero_le _) fun _ h => h).seq fun byte _ => ?_
      refine (guarded_shiftLeft128 _ (by omega)).seq fun group _ => ?_
      apply Guarded.ite (fun _ => Guarded.pure trivial)
      intro _
      exact ih (by omega) _

theorem guarded_signExtension (shift : Nat) :
    Guarded layout n 0 (audit (.signExtension shift) (shiftLeft128 (BitVec.allOnes 128) shift))
      (fun _ => True) := by
  apply Guarded.audit (fun hsound => guarded_shiftLeft128 _ hsound)
  intro hnot c
  have hover : ¬ shift < 128 := hnot
  rw [shiftLeft128, check_of_not hover, panic_bind]
  exact ⟨rfl, rfl⟩

/-- The sign is extended by one more group, for which the shift can be 133. -/
theorem guarded_readSlebLoop {passes shift : Nat} (h : shift + 7 * passes ≤ 133) (result : I128) :
    Guarded layout n 0 (readSlebLoop passes result shift) (fun _ => True) := by
  induction passes generalizing shift result with
  | zero => exact guarded_protocolError _ _
  | succ passes ih =>
      refine (guarded_readByte.weaken (Nat.zero_le _) fun _ h => h).seq fun byte _ => ?_
      refine (guarded_shiftLeft128 _ (by omega)).seq fun group _ => ?_
      refine Guarded.ite (fun _ => ?_) fun _ => ih (by omega) _
      apply Guarded.ite (fun _ => Guarded.pure trivial)
      intro _
      exact (guarded_signExtension (shift + 7)).seq fun _ _ => Guarded.pure trivial

theorem guarded_readUlebU128 : Guarded layout n 0 readUlebU128 (fun _ => True) :=
  guarded_readUlebLoop (by decide) _

theorem guarded_readUlebU64 : Guarded layout n 0 readUlebU64 (fun _ => True) :=
  guarded_readUlebU128.seq fun _ _ =>
    Guarded.ite (fun _ => Guarded.pure trivial) fun _ => guarded_protocolError _ _

theorem guarded_readUlebUsize : Guarded layout n 0 readUlebUsize (fun size => size < usizeLimit) :=
  guarded_readUlebU128.seq fun _ _ =>
    Guarded.ite (fun h => Guarded.pure h) fun _ => guarded_protocolError _ _

theorem guarded_readSlebI128 : Guarded layout n 0 readSlebI128 (fun _ => True) :=
  guarded_readSlebLoop (by decide) _

theorem guarded_readSlebI64 : Guarded layout n 0 readSlebI64 (fun _ => True) :=
  guarded_readSlebI128.seq fun _ _ =>
    Guarded.ite (fun _ => Guarded.pure trivial) fun _ => guarded_protocolError _ _

theorem guarded_readHugeIntParts : Guarded layout n 0 readHugeIntParts (fun _ => True) :=
  guarded_readSlebI64.seq fun _ _ => guarded_readUlebU64.seq fun _ _ => Guarded.pure trivial

theorem guarded_readBlob : Guarded layout n 0 readBlob (fun bytes => bytes.length ≤ isizeMax) :=
  guarded_readUlebUsize.seq fun length _ =>
    (guarded_readBytes length).weaken le_rfl fun _ h => h.1.trans_le h.2

theorem guarded_readString : Guarded layout n 0 readString (fun _ => True) :=
  guarded_readBlob.seq fun _ _ => Guarded.ofResult fun _ _ => trivial

theorem guarded_readList {readElement : Nat → Decoder α} {post : α → Prop} (element : Element)
    (h : ∀ index, Guarded layout n 0 (readElement index) post) :
    Guarded layout n 0 (readList element readElement) (fun items =>
      items.length * layout.sizeOf element ≤ isizeMax ∧ ∀ item ∈ items, post item) := by
  apply guarded_readUlebUsize.seq
  intro length _
  refine (guarded_withCapacity element length).seq fun _ hsize => ?_
  refine (Guarded.collect fun index _ _ => h index).weaken le_rfl fun items hitems => ?_
  rw [hitems.1]
  exact ⟨hsize, hitems.2⟩

theorem guarded_readNullable {readValue : Decoder α} {post : α → Prop}
    (h : Guarded layout n 0 readValue post) :
    Guarded layout n 0 (readNullable readValue) (fun value => ∀ a ∈ value, post a) := by
  apply guarded_readBool.seq
  intro present _
  refine Guarded.ite (fun _ => ?_) fun _ => Guarded.pure (by simp)
  exact h.seq fun value hvalue => Guarded.pure (by simpa using hvalue)

end QuackProtocol
