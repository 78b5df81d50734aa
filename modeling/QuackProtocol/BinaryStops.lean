import QuackProtocol.BinaryRoundTrip
import QuackProtocol.DecodingStops

/-! Objects that are written but not read back: the fields in front are read, one field stops the
reader, and the fields behind it do not matter. -/

open Decoding Decode Varint

namespace QuackProtocol

variable {layout : Layout} {α β : Type} {stop : Stop}

/-- What is written ends the reader without a value. -/
def StopsReading (layout : Layout) (write : Encode) (read : Decoder α) (stop : Stop) : Prop :=
  ∃ bytes, write = .ok bytes ∧ Stops layout read bytes stop

/-- Fields are written with ids from `lo` on, in front of fields with ids from `hi` on. -/
def Written (lo hi : Nat) (write : Encode) : Prop :=
  ∃ bytes, write = .ok bytes ∧ ∀ rest, FieldsFrom hi rest → FieldsFrom lo (bytes ++ rest)

/-- Fields that are written so and stop their reader. -/
def FieldStop (layout : Layout) (lo hi : Nat) (write : Encode) (read : Decoder α) (stop : Stop) : Prop :=
  ∃ bytes, write = .ok bytes ∧ (∀ rest, FieldsFrom hi rest → FieldsFrom lo (bytes ++ rest)) ∧
    StopsBefore layout (FieldsFrom hi) read bytes stop

namespace Written

variable {lo mid hi fieldId : Nat} {write : Encode}

theorem nil : Written hi hi (Encode.all []) := ⟨[], rfl, fun _ h => h⟩

theorem ofTrip {read : Decoder α} {a : α} (h : FieldTrip layout lo hi write read a) :
    Written lo hi write := by
  obtain ⟨bytes, hwrite, hhead, -⟩ := h
  exact ⟨bytes, hwrite, hhead⟩

theorem field {bytes : Bytes} (h : write = .ok bytes) (hid : fieldId < 2 ^ 16) :
    Written fieldId hi (writeField fieldId write) := by
  subst h
  refine ⟨toLe 2 fieldId ++ bytes, rfl, fun rest _ => ?_⟩
  exact ⟨fieldId, bytes ++ rest, le_rfl, hid, by rw [List.append_assoc]⟩

theorem cons {writes : List Encode} (mid : Nat) (h : Written lo mid write)
    (h' : Written mid hi (Encode.all writes)) : Written lo hi (Encode.all (write :: writes)) := by
  obtain ⟨bytes, rfl, hhead⟩ := h
  obtain ⟨bytes', hwrite, hhead'⟩ := h'
  refine ⟨bytes ++ bytes', ?_, fun rest hrest => ?_⟩
  · rw [Encode.all, hwrite]
    rfl
  · rw [List.append_assoc]
    exact hhead _ (hhead' rest hrest)

end Written

namespace FieldStop

variable {lo hi fieldId : Nat} {write : Encode} {read : Decoder α}

theorem recursive (h : FieldStop layout lo hi write read stop) (callee : Recursive) :
    FieldStop layout lo hi write (recursive callee read) stop := h

theorem bind {next : α → Decoder β} (h : FieldStop layout lo hi write read stop) :
    FieldStop layout lo hi write (read >>= next) stop := by
  obtain ⟨bytes, hwrite, hhead, hread⟩ := h
  exact ⟨bytes, hwrite, hhead, hread.bind⟩

/-- A step before the first field, which reads no byte. -/
theorem afterReads {next : α → Decoder β} {a : α} (hread : Reads layout read [] a)
    (h : FieldStop layout lo hi write (next a) stop) :
    FieldStop layout lo hi write (read >>= next) stop := by
  obtain ⟨bytes, hwrite, hhead, hnext⟩ := h
  have hstops := StopsBefore.after hread hnext fun _ _ => trivial
  exact ⟨bytes, hwrite, hhead, hstops⟩

/-- A step after the last field. -/
theorem ofStops (h : Stops layout read [] stop) : FieldStop layout hi hi (Encode.all []) read stop :=
  ⟨[], rfl, fun _ h => h, StopsBefore.anywhere h⟩

/-- The fields are read, and the step behind them stops. -/
theorem thenStops {next : α → Decoder β} {a : α} (h : FieldTrip layout lo hi write read a)
    (hnext : Stops layout (next a) [] stop) : FieldStop layout lo hi write (read >>= next) stop := by
  obtain ⟨bytes, hwrite, hhead, hread⟩ := h
  have hstops := StopsBefore.after hread (StopsBefore.anywhere hnext) fun rest h => h
  rw [List.append_nil] at hstops
  exact ⟨bytes, hwrite, hhead, hstops⟩

/-- The first field stops. -/
theorem here (mid : Nat) {writes : List Encode} {next : α → Decoder β}
    (h : FieldStop layout lo mid write read stop) (h' : Written mid hi (Encode.all writes)) :
    FieldStop layout lo hi (Encode.all (write :: writes)) (read >>= next) stop := by
  obtain ⟨bytes, rfl, hhead, hread⟩ := h
  obtain ⟨bytes', hwrite, hhead'⟩ := h'
  refine ⟨bytes ++ bytes', ?_, fun rest hrest => ?_, (hread.more hhead').bind⟩
  · rw [Encode.all, hwrite]
    rfl
  · rw [List.append_assoc]
    exact hhead _ (hhead' rest hrest)

/-- A later field stops. -/
theorem later (mid : Nat) {writes : List Encode} {next : α → Decoder β} {a : α}
    (h : FieldTrip layout lo mid write read a)
    (h' : FieldStop layout mid hi (Encode.all writes) (next a) stop) :
    FieldStop layout lo hi (Encode.all (write :: writes)) (read >>= next) stop := by
  obtain ⟨bytes, rfl, hhead, hread⟩ := h
  obtain ⟨bytes', hwrite, hhead', hread'⟩ := h'
  refine ⟨bytes ++ bytes', ?_, fun rest hrest => ?_, StopsBefore.after hread hread' hhead'⟩
  · rw [Encode.all, hwrite]
    rfl
  · rw [List.append_assoc]
    exact hhead _ (hhead' rest hrest)

theorem single (h : FieldStop layout lo hi write read stop) :
    FieldStop layout lo hi (Encode.all [write]) read stop := by
  obtain ⟨bytes, rfl, hhead, hread⟩ := h
  rw [← List.append_nil bytes] at hhead hread
  exact ⟨bytes ++ [], rfl, hhead, hread⟩

theorem ofResult {x : Result α} {next : α → Decoder β} {a : α} (hx : x = .ok a)
    (h : FieldStop layout lo hi write (next a) stop) :
    FieldStop layout lo hi write (Decode.ofResult x >>= next) stop := by
  subst hx
  exact h

theorem weaken {mid : Nat} (h : FieldStop layout mid hi write read stop) (hle : lo ≤ mid) :
    FieldStop layout lo hi write read stop := by
  obtain ⟨bytes, hwrite, hhead, hread⟩ := h
  exact ⟨bytes, hwrite, fun rest hrest => (hhead rest hrest).mono hle, hread⟩

theorem required (h : StopsReading layout write read stop) (hid : fieldId < 2 ^ 16) :
    FieldStop layout fieldId hi (writeField fieldId write) (readRequiredField fieldId read) stop := by
  obtain ⟨bytes, rfl, hread⟩ := h
  refine ⟨toLe 2 fieldId ++ bytes, rfl, fun rest _ => ?_, ?_⟩
  · exact ⟨fieldId, bytes ++ rest, le_rfl, hid, by rw [List.append_assoc]⟩
  · refine StopsBefore.anywhere (Stops.after (reads_readFieldId hid) ?_)
    rw [if_pos rfl]
    exact hread

/-- Behind an optional field that is not among the fields written. -/
theorem skip {next : β → Decoder α} {readField : Decoder β} {defaultValue : β}
    (h : FieldStop layout lo hi write (next defaultValue) stop) (hid : fieldId < lo) :
    FieldStop layout lo hi write (readOptionalField fieldId readField defaultValue >>= next) stop := by
  obtain ⟨bytes, hwrite, hhead, hread⟩ := h
  have habsent : FieldTrip layout lo lo (.ok []) (readOptionalField fieldId readField defaultValue)
      defaultValue := .absent hid
  obtain ⟨_, hnil, -, hskip⟩ := habsent
  cases hnil
  exact ⟨bytes, hwrite, hhead, StopsBefore.after hskip hread hhead⟩

theorem object (lo : Nat) (h : FieldStop layout lo fieldEnd write read stop) :
    StopsReading layout (writeObject write) (readObject read) stop := by
  obtain ⟨bytes, rfl, -, hread⟩ := h
  refine ⟨bytes ++ toLe 2 fieldEnd, rfl, StopsBefore.bind (hread.more fun rest _ => ?_)⟩
  exact ⟨fieldEnd, rest, le_rfl, by decide, rfl⟩

end FieldStop

theorem Encode.all_ok (parts : List Bytes) : Encode.all (parts.map .ok) = .ok parts.flatten := by
  induction parts with
  | nil => rfl
  | cons part parts ih =>
      rw [List.map_cons, Encode.all, ih]
      rfl

theorem exists_parts {writes : List Encode} (h : ∀ write ∈ writes, ∃ bytes, write = .ok bytes) :
    ∃ parts : List Bytes, writes = parts.map .ok := by
  induction writes with
  | nil => exact ⟨[], rfl⟩
  | cons write writes ih =>
      obtain ⟨hwrite, hwrites⟩ := List.forall_mem_cons.mp h
      obtain ⟨bytes, rfl⟩ := hwrite
      obtain ⟨parts, rfl⟩ := ih hwrites
      exact ⟨bytes :: parts, rfl⟩

/-- A list one of whose elements stops its reader, the others being read or stopping likewise. -/
theorem StopsReading.list {writes : List Encode} {read : Nat → Decoder α} {element : Element}
    (hfits : layout.Fits element writes.length)
    (h : ∀ i (hi : i < writes.length),
      (∃ a, RoundTrips layout writes[i] (read i) a) ∨ StopsReading layout writes[i] (read i) stop)
    (hstop : ∃ i, ∃ hi : i < writes.length, StopsReading layout writes[i] (read i) stop) :
    StopsReading layout (writeList writes) (readList element read) stop := by
  obtain ⟨parts, rfl⟩ : ∃ parts : List Bytes, writes = parts.map .ok := by
    apply exists_parts
    intro write hmem
    obtain ⟨i, hi, rfl⟩ := List.getElem_of_mem hmem
    rcases h i hi with ⟨a, bytes, hwrite, -⟩ | ⟨bytes, hwrite, -⟩ <;> exact ⟨bytes, hwrite⟩
  rw [List.length_map] at hfits
  refine ⟨uleb parts.length ++ parts.flatten, ?_, ?_⟩
  · rw [writeList, List.length_map, Encode.all_ok]
    rfl
  refine Stops.after (reads_readUlebUsize hfits.count_lt) (Stops.after_nil (reads_withCapacity hfits) ?_)
  refine Stops.collect (fun i hi => ?_) ?_
  · rw [Nat.zero_add]
    rcases h i (by simpa using hi) with ⟨a, bytes, hwrite, hread⟩ | ⟨bytes, hwrite, hread⟩ <;>
      rw [List.getElem_map] at hwrite <;> cases hwrite
    · exact .inl ⟨a, hread⟩
    · exact .inr hread
  · obtain ⟨i, hi, bytes, hwrite, hread⟩ := hstop
    rw [List.getElem_map] at hwrite
    cases hwrite
    refine ⟨i, by simpa using hi, ?_⟩
    rwa [Nat.zero_add]

end QuackProtocol
