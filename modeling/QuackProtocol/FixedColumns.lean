import QuackProtocol.VectorRoundTrip

/-! Columns of a fixed-size physical type, whatever values they are given: when the encoder fails, and
what the decoder reads where it does not. -/

open Decoding Decode

namespace QuackProtocol

variable {layout : Layout} {prims : Primitives} {α : Type}

/-- The action writes something or fails; it does not panic. -/
def Encode.Returns (write : Encode) : Prop := (∃ bytes, write = .ok bytes) ∨ ∃ e, write = .err e

theorem Encode.all_err {actions : List Encode} (h : ∀ action ∈ actions, action.Returns)
    (herr : ∃ action ∈ actions, ∃ e, action = .err e) : ∃ e, Encode.all actions = .err e := by
  induction actions with
  | nil => simp at herr
  | cons action actions ih =>
      obtain ⟨hhead, htail⟩ := List.forall_mem_cons.mp h
      rcases hhead with ⟨bytes, rfl⟩ | ⟨e, rfl⟩
      · have hrest : ∃ action ∈ actions, ∃ e, action = .err e := by simpa using herr
        obtain ⟨e, he⟩ := ih htail hrest
        refine ⟨e, ?_⟩
        show Encode.append (.ok bytes) (Encode.all actions) = .err e
        rw [he]
        rfl
      · exact ⟨e, rfl⟩

/-- Reading what was written, from the start of it. -/
theorem RoundTrips.run_eq {write : Encode} {read : Decoder α} {a : α} {bytes : Bytes}
    (h : RoundTrips layout write read a) (hwrite : write = .ok bytes) (hlen : bytes.length ≤ isizeMax) :
    read.run layout ⟨bytes, 0⟩ = .ok (a, ⟨bytes, bytes.length⟩) := by
  obtain ⟨written, hok, hread⟩ := h
  cases hwrite.symm.trans hok
  have hrun := hread ⟨bytes, 0⟩ ⟨Nat.zero_le _, hlen⟩ [] trivial (by simp [Cursor.unread])
  simpa [Cursor.advance] using hrun

/-- A vector without its data is no vector. -/
theorem encodeVector_flat_err {T : LogicalType} {values : List Value} {e : QuackError}
    (h : encodeFlatData layout prims T values values.length = .err e) :
    encodeVector layout prims T values values.length = .err e := by
  have hgeometry : ∃ front, writeGeometryField T = .ok front := by
    unfold writeGeometryField
    split
    · exact ⟨_, rfl⟩
    · exact ⟨_, rfl⟩
  have hmask : ∃ front, writeMask values = .ok front := by
    unfold writeMask
    simp only
    split
    · exact ⟨_, rfl⟩
    · exact ⟨_, rfl⟩
  obtain ⟨front, hfront⟩ := hgeometry
  obtain ⟨mask, hmask⟩ := hmask
  rw [encodeVector_eq, h, hfront, hmask]
  rfl

section
variable {T : LogicalType} {physicalType : PhysicalType} {values : List Value}
  (physical : getPhysicalType T = .ok physicalType)
  (size : isConstantSizePhysicalType physicalType = true)
include physical size

theorem childVectors_fixed : childVectors T values = [] := by
  rw [childVectors, physical]
  cases physicalType <;> first | rfl | cases size

theorem fitsMemory_fixed (hfits : layout.Fits .value values.length) : FitsMemory layout T values := by
  refine .intro hfits fun part hpart => ?_
  rw [childVectors_fixed physical size] at hpart
  cases hpart

theorem encodeFlatData_fixed : encodeFlatData layout prims T values values.length =
    encodeFixedVectorBody prims T physicalType values values.length := by
  rw [encodeFlatData, physical]
  show (if isConstantSizePhysicalType physicalType then _ else _) = _
  rw [if_pos size]

/-- A column that cannot store one of its values is refused. -/
theorem encodeVector_fixed_err (hfits : layout.Fits .value values.length)
    (hreturns : ∀ value ∈ values, (encodeFixedValue prims T physicalType value).Returns)
    (herr : ∃ value ∈ values, ∃ e, encodeFixedValue prims T physicalType value = .err e) :
    ∃ e, encodeVector layout prims T values values.length = .err e := by
  obtain ⟨width, hwidth⟩ : ∃ width, constantSize physicalType = some width :=
    Option.isSome_iff_exists.mp size
  have hroom : width * values.length ≤ isizeMax :=
    (Nat.mul_le_mul_right _ (constantSize_le hwidth)).trans hfits.sixteen_mul_le
  have hlt : width * values.length < usizeLimit := hroom.trans_lt (by decide)
  obtain ⟨e, he⟩ : ∃ e, Encode.all (values.map (encodeFixedValue prims T physicalType)) = .err e := by
    refine Encode.all_err (fun action haction => ?_) ?_
    · obtain ⟨value, hmem, rfl⟩ := List.mem_map.mp haction
      exact hreturns value hmem
    · obtain ⟨value, hmem, e, he⟩ := herr
      exact ⟨_, List.mem_map_of_mem hmem, e, he⟩
  have hbody : encodeFlatData layout prims T values values.length = .err e := by
    rw [encodeFlatData_fixed physical size, encodeFixedVectorBody, physicalTypeSize, hwidth]
    show (Outcome.check (width * values.length < usizeLimit) .overflow >>= fun _ =>
      Outcome.check (width * values.length ≤ isizeMax) .capacity >>= fun _ =>
        Encode.all (values.map (encodeFixedValue prims T physicalType)) >>= fun data =>
          writeField 102 (writeBlob data)) = _
    rw [he, Outcome.check, if_pos hlt, Outcome.check, if_pos hroom]
    rfl
  exact ⟨e, encodeVector_flat_err hbody⟩

end

end QuackProtocol
