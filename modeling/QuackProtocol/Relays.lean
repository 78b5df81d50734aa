import QuackProtocol.InferredColumns
import QuackProtocol.MessagesRoundTrip

/-! What has been read off the wire and is sent on. What a column gives back for a value is canonical for the
column, so that the column gives it back unchanged; a message that was read is written and read again as it
is. -/

open Decoding Decode Narrowing

namespace QuackProtocol

/-- A renaming of types on which neither side of the wire depends. -/
structure SameColumns (φ : LogicalType → LogicalType) : Prop extends SameVectors φ where
  sameParse : ∀ T text, parseDecimalString (φ T) text = parseDecimalString T text

section
variable {φ : LogicalType → LogicalType} {prims : Primitives} {T : LogicalType} {physicalType : PhysicalType}
  {value w : Value}

theorem SameColumns.asRead : SameColumns LogicalType.asRead where
  toSameVectors := .asRead
  sameParse T text := by
    rw [parseDecimalString, parseDecimalString, LogicalType.asRead_typeInfo]
    rcases T.typeInfo with _ | info
    · rfl
    · cases info <;> simp only [Option.map_some, ExtraTypeInfo.asRead]

theorem SameColumns.decimalToUnscaled (h : SameColumns φ) (T : LogicalType) (value : Value) :
    decimalToUnscaled prims (φ T) value = decimalToUnscaled prims T value := by
  cases value with
  | string text => exact h.sameParse T text
  | _ => rfl

theorem SameColumns.storedFixed (h : SameColumns φ) (T : LogicalType) (physicalType : PhysicalType)
    (value : Value) : storedFixed prims (φ T) physicalType value = storedFixed prims T physicalType value := by
  unfold QuackProtocol.storedFixed
  simp only [encodeEnumOrNumber, encodeDecimalOrInteger, encodeDateDecimalOrInteger, encodeInt64LogicalValue,
    encodeInt128Parts, decodeEnumOrNumber, decodeDecimalOrInt, decodeDateDecimalOrInt, decodeInt64LogicalValue,
    decodeInt128Parts, h.sameId, h.sameEnum, h.sameDecimal, h.decimalToUnscaled]

theorem SameColumns.childType (h : SameColumns φ) {childType : LogicalType}
    (hchild : getChildType T = .ok childType) : getChildType (φ T) = .ok (φ childType) := by
  rw [h.sameChild, hchild]
  rfl

theorem SameColumns.structChildren (h : SameColumns φ) {children : List ChildType}
    (hchildren : getStructChildren T = .ok children) :
    getStructChildren (φ T) = .ok (children.map (ChildType.under φ)) := by
  rw [h.sameChildren, hchildren]
  rfl

/-- A value that a column stores is stored alike by the renamed column. -/
theorem SameColumns.storable (h : SameColumns φ) (hvalue : Storable prims T value) :
    Storable prims (φ T) value ∧ stored prims (φ T) value = stored prims T value := by
  induction hvalue with
  | null T => exact ⟨.null _, by rw [stored_null, stored_null]⟩
  | @fixed T physicalType value w physical size notNull word =>
      have hphysical := (h.samePhysical T).trans physical
      have hword := (h.storedFixed T physicalType value).trans word
      exact ⟨.fixed hphysical size notNull hword, by
        rw [stored_fixed hphysical size notNull hword, stored_fixed physical size notNull word]⟩
  | @varchar T value w raw physical notNull text held back =>
      have hphysical := (h.samePhysical T).trans physical
      have hback := (h.decodeStringLike T raw).trans back
      exact ⟨.varchar hphysical notNull text held hback, by
        rw [stored_varchar hphysical notNull text hback, stored_varchar physical notNull text back]⟩
  | @struct T children value physical structChildren notNull fields ih =>
      have hphysical := (h.samePhysical T).trans physical
      have hchildren := h.structChildren structChildren
      refine ⟨.struct hphysical hchildren notNull
        (List.forall_mem_map.mpr fun child hmem => (ih child hmem).1), ?_⟩
      rw [stored_struct hphysical hchildren notNull, stored_struct physical structChildren notNull, List.map_map]
      refine congrArg (fun fields => Value.struct (Row.ofFields fields)) (List.map_congr_left fun child hmem => ?_)
      exact congrArg (Prod.mk child.name) (ih child hmem).2
  | @list T childType items physical child inside ih =>
      have hphysical := (h.samePhysical T).trans physical
      have hchild := h.childType child
      refine ⟨.list hphysical hchild fun item hmem => (ih item hmem).1, ?_⟩
      rw [stored_list (.inl hphysical) hchild, stored_list (.inl physical) child]
      exact congrArg Value.list (List.map_congr_left fun item hmem => (ih item hmem).2)
  | @array T childType size items physical child arraySize length inside ih =>
      have hphysical := (h.samePhysical T).trans physical
      have hchild := h.childType child
      refine ⟨.array hphysical hchild ((h.sameSize T).trans arraySize) length
        fun item hmem => (ih item hmem).1, ?_⟩
      rw [stored_list (.inr hphysical) hchild, stored_list (.inr physical) child]
      exact congrArg Value.list (List.map_congr_left fun item hmem => (ih item hmem).2)

theorem SameColumns.encodable (h : SameColumns φ) (hT : Encodable T) : Encodable (φ T) := by
  induction hT with
  | @fixed T physicalType physical size labels =>
      refine .fixed ((h.samePhysical T).trans physical) size fun hid => ?_
      rw [h.sameEnum]
      exact labels ((h.sameId T).symm.trans hid)
  | @varchar T physical => exact .varchar ((h.samePhysical T).trans physical)
  | @struct T children physical structChildren distinct inside ih =>
      refine .struct ((h.samePhysical T).trans physical) (h.structChildren structChildren) ?_
        (List.forall_mem_map.mpr ih)
      rw [List.map_map]
      exact distinct
  | @list T childType physical child inside ih =>
      exact .list ((h.samePhysical T).trans physical) (h.childType child) ih
  | @array T childType size physical child arraySize inside ih =>
      exact .array ((h.samePhysical T).trans physical) (h.childType child) ((h.sameSize T).trans arraySize) ih

/-- The bytes of a text are those that it was read from. -/
theorem utf8Bytes_fromUtf8 {raw : Bytes} {text : String} (h : fromUtf8 raw = .ok text) : utf8Bytes text = raw := by
  rw [fromUtf8] at h
  split at h
  · rename_i other hother
    cases h
    rw [String.fromUTF8?] at hother
    split at hother
    · cases hother
      simp [utf8Bytes, String.fromUTF8]
    · cases hother
  · cases h

/-- The display of a UUID is a UUID in lower case. -/
theorem uuidText_display (parts : HugeIntParts) : UuidText parts.display := by
  obtain ⟨a, b, c, d, e, hdigits, ha, hb, hc, hd, he⟩ := exists_fields (length_digits parts)
  have hhex := isHex_digits parts
  rw [hdigits] at hhex
  simp only [IsHex, List.forall_mem_append] at hhex
  obtain ⟨hexa, hexb, hexc, hexd, hexe⟩ := hhex
  refine ⟨a, b, c, d, e, ?_, ha, hb, hc, hd, he, hexa, hexb, hexc, hexd, hexe⟩
  rw [toList_display, hdigits, hyphenated_fields ha hb hc hd]

/-- A word of a column of plain integers, in the 64 bits of a value. -/
theorem signedRange_word {width : Nat} (n : BitVec width) (hpos : 0 < width) (hle : width ≤ 64) :
    SignedRange width ((n.signExtend 128).setWidth 64).toInt := by
  have hrange := signedRange_toInt n hpos
  rw [toInt_setWidth _ (by decide), toInt_signExtend _ (by omega),
    (bmod_eq_self_iff (by decide) _).mpr (hrange.mono hle)]
  exact hrange

/-- What a column of numbers or of times gives back is a value of its type. -/
theorem scalarOf_word (physical : getPhysicalType T = .ok physicalType)
    (size : isConstantSizePhysicalType physicalType = true) (hid : T.id ≠ .enum)
    (h : storedFixed prims T physicalType value = .ok w) : ScalarOf T w := by
  by_cases hdecimal : T.id = .decimal
  · obtain ⟨⟨width, scale⟩, hscale, -⟩ : ∃ parts, getDecimalWidthAndScale T = .ok parts ∧ True := by
      simp only [getPhysicalType, hdecimal, decimalPhysicalType] at physical
      obtain ⟨parts, hparts, -⟩ := Except.bind_eq_ok physical
      exact ⟨parts, hparts, trivial⟩
    exact scalarOf_decimal hdecimal hscale physical h
  cases hT : T.id <;> simp only [getPhysicalType, hT] at physical
  case enum => exact absurd hT hid
  case decimal => exact absurd hT hdecimal
  case boolean =>
    cases physical
    cases h
    simp only [ScalarOf, hT]
    exact ⟨_, rfl⟩
  case tinyInt =>
    cases physical
    obtain ⟨number, -, h⟩ := Outcome.bind_eq_ok h
    cases h
    simp only [ScalarOf, hT]
    refine ⟨_, rfl, ?_⟩
    rw [toInt_signExtend _ (by decide)]
    exact signedRange_toInt _ (by decide)
  case smallInt =>
    cases physical
    obtain ⟨number, -, h⟩ := Outcome.bind_eq_ok h
    rw [decodeDecimalOrInt, if_neg hdecimal] at h
    cases h
    simp only [ScalarOf, hT]
    exact ⟨_, rfl, signedRange_word _ (by decide) (by decide)⟩
  case integer | sqlNull =>
    cases physical
    obtain ⟨number, -, h⟩ := Outcome.bind_eq_ok h
    rw [decodeDateDecimalOrInt, if_neg (by rw [hT]; decide), decodeDecimalOrInt, if_neg hdecimal] at h
    cases h
    simp only [ScalarOf, hT]
    exact ⟨_, rfl, signedRange_word _ (by decide) (by decide)⟩
  case date =>
    cases physical
    obtain ⟨number, -, h⟩ := Outcome.bind_eq_ok h
    rw [decodeDateDecimalOrInt, if_pos hT] at h
    cases h
    simp only [ScalarOf, hT]
    exact ⟨_, rfl⟩
  case uTinyInt | uSmallInt | uInteger =>
    cases physical
    obtain ⟨number, -, h⟩ := Outcome.bind_eq_ok h
    rw [decodeEnumOrNumber, if_pos hid] at h
    cases h
    simp only [ScalarOf, hT]
    exact ⟨_, rfl, toNat_setWidth_lt _⟩
  case bigInt | time | timeNs | timeTz | timestampSec | timestampMs | timestamp | timestampNs | timestampTz =>
    cases physical
    obtain ⟨number, -, h⟩ := Outcome.bind_eq_ok h
    simp only [decodeInt64LogicalValue, hT] at h
    cases h
    simp only [ScalarOf, hT]
    exact ⟨_, rfl⟩
  case uBigInt | pointer | float | double | uHugeInt =>
    cases physical
    obtain ⟨number, -, h⟩ := Outcome.bind_eq_ok h
    cases h
    simp only [ScalarOf, hT]
    exact ⟨_, rfl⟩
  case hugeInt =>
    cases physical
    obtain ⟨parts, -, h⟩ := Outcome.bind_eq_ok h
    rw [decodeInt128Parts, if_neg (by rw [hT]; decide), if_neg hdecimal] at h
    cases h
    simp only [ScalarOf, hT]
    exact ⟨_, rfl⟩
  case uuid =>
    cases physical
    obtain ⟨parts, -, h⟩ := Outcome.bind_eq_ok h
    rw [decodeInt128Parts, if_pos hT] at h
    cases h
    simp only [ScalarOf, hT]
    exact ⟨_, rfl, uuidText_display parts⟩
  case interval =>
    cases physical
    cases value with
    | interval v =>
        cases h
        simp only [ScalarOf, hT]
        exact ⟨_, rfl⟩
    | _ => cases h
  all_goals
    cases physical
    cases size

/-- What an ENUM column gives back is a label whose first place it can store. -/
theorem label_word (physical : getPhysicalType T = .ok physicalType)
    (hid : T.id = .enum) (h : storedFixed prims T physicalType value = .ok w) :
    ScalarOf T w ∧ storedFixed prims T physicalType w = .ok w := by
  obtain ⟨labels, hlabels⟩ : ∃ labels, getEnumValues T = .ok labels := by
    rw [getPhysicalType, hid] at physical
    obtain ⟨labels, hlabels, -⟩ := Except.bind_eq_ok physical
    exact ⟨labels, hlabels⟩
  have hdecoded {index : U64} (hindex : index.toNat < 2 ^ 32) (h : decodeEnumOrNumber T index = .ok w) :
      ScalarOf T w ∧ storedFixed prims T physicalType w = .ok w := by
    rw [decodeEnumOrNumber, if_neg (not_not.mpr hid), hlabels, Except.ok_bind] at h
    split at h
    · rename_i label hlabel
      cases h
      have hmem := List.mem_of_getElem? hlabel
      refine ⟨by simp only [ScalarOf, hid]; exact ⟨label, labels, rfl, hlabels, hmem⟩, ?_⟩
      obtain ⟨first, hfirst⟩ : ∃ first, (labels.findIdx? fun other => other = label) = some first := by
        rw [← Option.isSome_iff_exists, List.findIdx?_isSome, List.any_eq_true]
        exact ⟨label, hmem, decide_eq_true rfl⟩
      obtain ⟨kept, hkept, hstored⟩ := @storedFixed_label prims _ _ _ _ _ hid physical hlabels hfirst
      -- the first place of the label is not behind the one that was stored
      have hle : first ≤ index.toNat := by
        obtain ⟨hlt, heq⟩ := List.getElem?_eq_some_iff.mp hlabel
        by_contra hbehind
        obtain ⟨hfirstLt, -, hbefore⟩ := List.findIdx?_eq_some_iff_getElem.mp hfirst
        exact hbefore _ (not_le.mp hbehind) (decide_eq_true heq)
      rwa [(label_kept_iff hfirst hkept).mpr (hle.trans_lt hindex)] at hstored
    · cases h
  have hnarrow {width : Nat} (n : BitVec width) (hwidth : width ≤ 32) : (n.setWidth 64).toNat < 2 ^ 32 := by
    rw [BitVec.toNat_setWidth]
    exact (Nat.mod_le _ _).trans_lt (n.isLt.trans_le (Nat.pow_le_pow_right (by decide) hwidth))
  rcases physicalType_index hid hlabels physical with ⟨rfl, -⟩ | ⟨rfl, -⟩ | ⟨rfl, -⟩
  all_goals
    obtain ⟨number, -, h⟩ := Outcome.bind_eq_ok h
    exact hdecoded (hnarrow _ (by decide)) (Outcome.lift_eq_ok h)

/-- What a column of texts or byte strings gives back is a value of its type. -/
theorem scalarOf_stringLike {raw : Bytes} (physical : getPhysicalType T = .ok .varchar) (held : Held raw)
    (back : decodeStringLikeValue T raw = .ok w) : ScalarOf T w := by
  have htext (hid : T.id ≠ .blob ∧ T.id ≠ .geometry ∧ T.id ≠ .bit) :
      ∃ text, w = .string text ∧ HeldText text := by
    unfold decodeStringLikeValue at back
    split at back
    · rename_i hT
      exact absurd hT hid.1
    · rename_i hT
      exact absurd hT hid.2.1
    · rename_i hT
      exact absurd hT hid.2.2
    · obtain ⟨text, hread, hback⟩ := Except.bind_eq_ok back
      cases hback
      refine ⟨text, rfl, ?_⟩
      rwa [HeldText, utf8Bytes_fromUtf8 hread]
  cases hT : T.id <;> simp only [getPhysicalType, hT] at physical
  case decimal => rcases decimalPhysicalType_cases physical with h | h | h | h <;> cases h
  case enum =>
    rw [enumPhysicalType] at physical
    obtain ⟨labels, -, physical⟩ := Except.bind_eq_ok physical
    split_ifs at physical <;> cases physical
  case blob | geometry | bit =>
    simp only [decodeStringLikeValue, hT] at back
    cases back
    simp only [ScalarOf, hT]
    exact ⟨raw, rfl, held⟩
  case bigNum | varchar | char | type | aggregateState =>
    simp only [ScalarOf, hT]
    exact htext (by rw [hT]; decide)
  all_goals cases physical

/-- A value that a column stores is canonical once it comes back, and the column gives it back unchanged from
then on. -/
theorem stored_settles (hfloat : ∀ bits, prims.f64ToF32 (prims.f32ToF64 bits) = bits) (hT : Encodable T)
    (h : Storable prims T value) :
    Canonical T (stored prims T value) ∧ stored prims T (stored prims T value) = stored prims T value := by
  induction h with
  | null T =>
      rw [stored_null]
      exact ⟨.null T, stored_null⟩
  | @fixed T physicalType value w physical size notNull word =>
      rw [stored_fixed physical size notNull word]
      have hagain : ScalarOf T w ∧ storedFixed prims T physicalType w = .ok w := by
        by_cases hid : T.id = .enum
        · exact label_word physical hid word
        · have hscalar := scalarOf_word physical size hid word
          exact ⟨hscalar, storedFixed_scalar physical size hid hscalar hfloat⟩
      exact ⟨.scalar hagain.1, stored_fixed physical size hagain.1.ne_null hagain.2⟩
  | @varchar T value w raw physical notNull text held back =>
      rw [stored_varchar physical notNull text back]
      have hscalar := scalarOf_stringLike physical held back
      obtain ⟨again, hagain, -, hback⟩ := @stringLike_scalar prims _ _ physical hscalar
      exact ⟨.scalar hscalar, stored_varchar physical hscalar.ne_null hagain hback⟩
  | @struct T children value physical structChildren notNull fields ih =>
      obtain ⟨distinct, hinside⟩ := hT.fields physical structChildren
      have hnodup : ((children.map fun child => (child.name,
          stored prims child.logicalType (structField child.name value))).map Prod.fst).Nodup := by
        rw [List.map_map]
        exact distinct
      rw [stored_struct physical structChildren notNull, Row.ofFields_of_nodup hnodup]
      have hget (child : ChildType) (hmem : child ∈ children) :=
        Row.get_of_mem hnodup (List.mem_map.mpr ⟨child, hmem, rfl⟩)
      constructor
      · refine .struct physical structChildren (by rw [List.map_map]; rfl) fun child hmem field hfield => ?_
        cases (hget child hmem).symm.trans hfield
        exact (ih child hmem (hinside child hmem)).1
      · rw [stored_struct physical structChildren (fun h => by cases h)]
        have hfields : (children.map fun child => (child.name, stored prims child.logicalType
            (structField child.name (.struct (children.map fun child => (child.name,
              stored prims child.logicalType (structField child.name value))))))) =
            children.map fun child => (child.name,
              stored prims child.logicalType (structField child.name value)) := by
          refine List.map_congr_left fun child hmem => ?_
          rw [structField_eq (hget child hmem), (ih child hmem (hinside child hmem)).2]
        rw [hfields, Row.ofFields_of_nodup hnodup]
  | @list T childType items physical child inside ih =>
      have hinside := hT.items (.inl physical) child
      rw [stored_list (.inl physical) child, stored_list (.inl physical) child, List.map_map]
      exact ⟨.list physical child (List.forall_mem_map.mpr fun item hmem => (ih item hmem hinside).1),
        congrArg Value.list (List.map_congr_left fun item hmem => (ih item hmem hinside).2)⟩
  | @array T childType size items physical child arraySize length inside ih =>
      have hinside := hT.items (.inr physical) child
      rw [stored_list (.inr physical) child, stored_list (.inr physical) child, List.map_map]
      exact ⟨.array physical child arraySize (by rw [List.length_map, length])
          (List.forall_mem_map.mpr fun item hmem => (ih item hmem hinside).1),
        congrArg Value.list (List.map_congr_left fun item hmem => (ih item hmem hinside).2)⟩

end

section
variable {layout : Layout} {φ : LogicalType → LogicalType} {prims : Primitives} {T : LogicalType}
  {values childValues : List Value}

/-- Lists whose items are replaced are gathered to the items that replace them. -/
theorem gatherLists_replaced {f g : Value → Value} (hnull : f .null = .null)
    (hlists : ∀ items, .list items ∈ values → f (.list items) = .list (items.map g)) {offset : Nat}
    {entries : List ListEntry} (h : gatherLists offset values = .ok (entries, childValues)) :
    gatherLists offset (values.map f) = .ok (entries, childValues.map g) := by
  induction values generalizing offset entries childValues with
  | nil =>
      cases h
      rfl
  | cons value values ih =>
      have hrest := fun items hmem => hlists items (List.mem_cons_of_mem _ hmem)
      rw [List.map_cons]
      rcases gatherLists_cons h with ⟨rfl, rest, htail, rfl⟩ | ⟨items, rest, others, rfl, htail, rfl, rfl⟩
      · rw [hnull, gatherLists, ih hrest htail]
        rfl
      · rw [hlists items List.mem_cons_self, gatherLists, List.length_map, ih hrest htail, List.map_append]
        rfl

theorem gatherArrays_replaced {f g : Value → Value} (hnull : f .null = .null) (hitem : g .null = .null)
    (hlists : ∀ items, .list items ∈ values → f (.list items) = .list (items.map g)) {arraySize : Nat}
    (h : gatherArrays arraySize values = .ok childValues) :
    gatherArrays arraySize (values.map f) = .ok (childValues.map g) := by
  induction values generalizing childValues with
  | nil =>
      cases h
      rfl
  | cons value values ih =>
      have hrest := fun items hmem => hlists items (List.mem_cons_of_mem _ hmem)
      obtain ⟨items, others, hvalue, hlen, htail, rfl⟩ := gatherArrays_cons h
      rw [List.map_cons, List.map_append]
      rcases hvalue with ⟨rfl, rfl⟩ | rfl
      · rw [hnull, gatherArrays, ih hrest htail, List.map_replicate, hitem]
        rfl
      · rw [hlists items List.mem_cons_self, gatherArrays, if_pos (by rw [List.length_map, hlen]), ih hrest htail]
        rfl

/-- The vectors under what a column gives back. -/
theorem childVectors_stored (h : SameColumns φ) (hT : Encodable T)
    (hvalues : ∀ value ∈ values, Storable prims T value) : childVectors (φ T) (values.map (stored prims T)) =
      (childVectors T values).map fun part => (φ part.1, part.2.map (stored prims part.1)) := by
  cases hT with
  | fixed physical size labels =>
      rw [childVectors_fixed ((h.samePhysical T).trans physical) size, childVectors_fixed physical size]
      rfl
  | varchar physical =>
      rw [childVectors, childVectors, h.samePhysical, physical]
      rfl
  | @struct _ children physical structChildren distinct inside =>
      rw [childVectors_struct _ ((h.samePhysical T).trans physical) (h.structChildren structChildren),
        childVectors_struct _ physical structChildren, List.map_map, List.map_map]
      refine List.map_congr_left fun child hmem => ?_
      simp only [Function.comp_apply, ChildType.under, structColumn, List.map_map, Prod.mk.injEq, true_and]
      refine List.map_congr_left fun value hvalue => ?_
      rw [Function.comp_apply, Function.comp_apply]
      by_cases hnull : value = .null
      · rw [hnull, stored_null]
        exact stored_null.symm
      · have hnodup : ((children.map fun child => (child.name,
            stored prims child.logicalType (structField child.name value))).map Prod.fst).Nodup := by
          rw [List.map_map]
          exact distinct
        rw [stored_struct physical structChildren hnull, Row.ofFields_of_nodup hnodup]
        exact structField_eq (Row.get_of_mem hnodup (List.mem_map.mpr ⟨child, hmem, rfl⟩))
  | @list _ childType physical child inside =>
      obtain ⟨entries, childValues, hgather⟩ := gatherLists_ok 0 fun value hmem hnull =>
        ((hvalues value hmem).items physical child hnull).imp fun _ hitems => hitems.1
      have hstored := gatherLists_replaced stored_null
        (fun items _ => @stored_list prims T childType items (.inl physical) child) hgather
      rw [childVectors_list ((h.samePhysical T).trans physical) (h.childType child) hstored,
        childVectors_list physical child hgather]
      rfl
  | @array _ childType size physical child arraySize inside =>
      obtain ⟨childValues, hgather⟩ := @gatherArrays_ok size.toNat values fun value hmem hnull =>
        ((hvalues value hmem).arrayItems physical child arraySize hnull).imp fun _ hitems => ⟨hitems.1, hitems.2.1⟩
      have hstored := gatherArrays_replaced stored_null stored_null
        (fun items _ => @stored_list prims T childType items (.inr physical) child) hgather
      rw [childVectors_array ((h.samePhysical T).trans physical) (h.childType child)
        ((h.sameSize T).trans arraySize) hstored, childVectors_array physical child arraySize hgather]
      rfl

/-- What a column gives back needs no larger vectors. -/
theorem FitsMemory.stored (h : SameColumns φ) (hT : Encodable T)
    (hheld : T.Everywhere (LogicalType.InMemory layout)) (hvalues : ∀ value ∈ values, Storable prims T value)
    (hfits : FitsMemory layout T values) : FitsMemory layout (φ T) (values.map (stored prims T)) := by
  induction hfits with
  | @intro T values own inside ih =>
      refine .intro (by rwa [List.length_map]) ?_
      rw [childVectors_stored h hT hvalues]
      refine List.forall_mem_map.mpr fun part hpart => ?_
      obtain ⟨hencodable, hinside, hstorable⟩ := childVectors_storable hT hheld hvalues hpart
      exact ih part hpart hencodable hinside hstorable
end

theorem nonEmptyText_again (text : Option String) : nonEmptyText (nonEmptyText text) = nonEmptyText text := by
  simp [nonEmptyText]

theorem mem_nonEmptyText {text : String} {given : Option String} (h : text ∈ (nonEmptyText given).toList) :
    text ∈ given.toList := by
  have hmem : text ∈ nonEmptyText given := Option.mem_toList.mp h
  exact Option.mem_toList.mpr (Option.mem_filter_iff.mp hmem).1

theorem LogicalType.children_asRead (T : LogicalType) : T.asRead.children = T.children.map LogicalType.asRead := by
  rw [LogicalType.children, LogicalType.children, LogicalType.asRead_typeInfo]
  rcases T.typeInfo with _ | info
  · rfl
  · cases info <;> simp [ExtraTypeInfo.asRead, ExtraTypeInfo.children, ChildType.asRead_eq]

theorem LogicalType.asRead_asRead (T : LogicalType) : T.asRead.asRead = T.asRead := by
  induction T using LogicalType.childInduction with
  | step T ih =>
      obtain ⟨id, _ | info⟩ := T
      · rw [LogicalType.asRead, LogicalType.asRead]
      · rw [LogicalType.asRead, LogicalType.asRead]
        have hinside : ∀ child ∈ info.children, child.asRead.asRead = child.asRead := ih
        congr 2
        cases info <;> simp only [ExtraTypeInfo.asRead, nonEmptyText_again]
        case list | array | any =>
          rw [hinside _ (List.mem_singleton_self _)]
        case struct a childTypes =>
          rw [List.map_map]
          refine congrArg _ (List.map_congr_left fun child hmem => ?_)
          rw [Function.comp_apply, ChildType.asRead_eq, ChildType.asRead_eq,
            hinside _ (List.mem_map_of_mem (f := fun child => child.logicalType) hmem)]
        case aggregateState a functionName returnType boundArgumentTypes =>
          rw [hinside _ (List.mem_cons_self ..), List.map_map]
          exact congrArg _ (List.map_congr_left fun T hmem => hinside _ (List.mem_cons_of_mem _ hmem))

theorem ExtraTypeInfo.InMemory.asRead {layout : Layout} {info : ExtraTypeInfo} (h : info.InMemory layout) :
    info.asRead.InMemory layout := by
  refine ⟨fun text htext => h.texts text ?_, fun length hlength => h.lengths length ?_⟩
  · cases info <;>
      simp only [ExtraTypeInfo.asRead, ExtraTypeInfo.texts, ExtraTypeInfo.typeAlias, List.mem_append]
        at htext ⊢ <;>
      refine htext.imp mem_nonEmptyText fun hrest => ?_
    case struct a childTypes => simpa [ChildType.asRead_eq] using hrest
    all_goals exact hrest
  · have hlengths : info.asRead.lengths = info.lengths := by
      cases info <;> simp [ExtraTypeInfo.asRead, ExtraTypeInfo.lengths]
    rwa [hlengths] at hlength

theorem LogicalType.Writable.asRead {layout : Layout} {T : LogicalType} (h : T.Writable layout) :
    T.asRead.Writable layout := by
  induction T using LogicalType.childInduction with
  | step T ih =>
      obtain ⟨hliteral, hmemory⟩ := h.node
      refine .intro ⟨fun info hinfo => ?_, fun info hinfo => ?_⟩ fun child hchild => ?_
      · rw [LogicalType.asRead_typeInfo] at hinfo
        obtain ⟨given, hgiven, rfl⟩ := Option.mem_map.mp hinfo
        have hid : given.asRead.typeId = given.typeId := by
          cases given <;> simp only [ExtraTypeInfo.asRead, ExtraTypeInfo.typeId]
        rw [hid]
        exact hliteral given hgiven
      · rw [LogicalType.asRead_typeInfo] at hinfo
        obtain ⟨given, hgiven, rfl⟩ := Option.mem_map.mp hinfo
        exact (hmemory given hgiven).asRead
      · rw [LogicalType.children_asRead] at hchild
        obtain ⟨given, hgiven, rfl⟩ := List.mem_map.mp hchild
        exact ih given hgiven (h.inside hgiven)

/-! ### Chunks that have been read -/

section
variable {layout : Layout} {prims : Primitives} {chunk : DataChunk}

theorem parts_storedChunk (h : chunk.InMemory layout) : (storedChunk prims chunk).parts =
    chunk.parts.map fun part => (part.1.asRead, part.2.map (stored prims part.1)) := by
  have htypes : chunk.parts.map Prod.fst = chunk.types := by
    rw [DataChunk.parts, List.map_fst_zip (by rw [List.length_map, h.sameLength])]
  rw [DataChunk.parts, storedChunk, ← htypes, List.map_map, List.map_map, List.zip_map']
  rfl

theorem part_inMemory (h : chunk.InMemory layout) {part : LogicalType × List Value} (hpart : part ∈ chunk.parts) :
    (Encodable part.1 ∧ part.1.Writable layout) ∧ part.2.length = chunk.rowCount ∧
      layout.Fits .value part.2.length := by
  obtain ⟨i, hi, rfl⟩ := List.getElem_of_mem hpart
  have hcolumn : i < chunk.columns.length := by rwa [← h.length_parts]
  obtain ⟨_, htype, heq⟩ := h.part hcolumn
  rw [heq]
  exact ⟨h.types _ (List.getElem_mem htype), h.rows _ (List.getElem_mem hcolumn),
    h.rowsFit _ (List.getElem_mem hcolumn)⟩

/-- A chunk that has been read can be sent on, and is read as it is. -/
theorem DataChunk.Stores.again (hfloat : ∀ bits, prims.f64ToF32 (prims.f32ToF64 bits) = bits)
    (h : chunk.Stores layout prims) : (storedChunk prims chunk).Stores layout prims ∧
      storedChunk prims (storedChunk prims chunk) = storedChunk prims chunk := by
  have hmemory := h.inMemory
  have hlength : (storedChunk prims chunk).columns.length = chunk.columns.length := by
    rw [storedChunk, List.length_map, hmemory.length_parts]
  have hkept (part : LogicalType × List Value) (hpart : part ∈ chunk.parts) (value : Value)
      (hvalue : value ∈ part.2) : Storable prims part.1.asRead (stored prims part.1 value) ∧
        stored prims part.1.asRead (stored prims part.1 value) = stored prims part.1 value := by
    have hT := (part_inMemory hmemory hpart).1.1
    obtain ⟨hcanonical, hagain⟩ := stored_settles hfloat hT (h.storable part hpart value hvalue)
    obtain ⟨hstorable, hsame⟩ := SameColumns.asRead.storable (storable_canonical hfloat hT hcanonical).1
    exact ⟨hstorable, hsame.trans hagain⟩
  constructor
  · refine ⟨⟨?_, hmemory.rowCount_lt, ?_, ?_, ?_, ?_, ?_⟩, ?_⟩
    · rw [hlength, hmemory.sameLength, storedChunk, List.length_map]
    · rw [storedChunk, List.length_map]
      exact hmemory.typesFit
    · rw [hlength]
      exact hmemory.columnsFit
    · refine List.forall_mem_map.mpr fun T hT => ?_
      exact ⟨SameColumns.asRead.encodable (hmemory.types T hT).1, (hmemory.types T hT).2.asRead⟩
    · refine List.forall_mem_map.mpr fun part hpart => ?_
      rw [List.length_map]
      exact (part_inMemory hmemory hpart).2.1
    · refine List.forall_mem_map.mpr fun part hpart => ?_
      rw [List.length_map]
      exact (part_inMemory hmemory hpart).2.2
    · rw [parts_storedChunk hmemory]
      refine List.forall_mem_map.mpr fun part hpart => List.forall_mem_map.mpr fun value hvalue => ?_
      exact (hkept part hpart value hvalue).1
  · have hcolumns : (storedChunk prims (storedChunk prims chunk)).columns = (storedChunk prims chunk).columns := by
      have hparts := @parts_storedChunk layout prims chunk hmemory
      show (storedChunk prims chunk).parts.map _ = chunk.parts.map _
      rw [hparts, List.map_map]
      refine List.map_congr_left fun part hpart => ?_
      rw [Function.comp_apply, LogicalType.asRead_asRead, List.map_map]
      exact congrArg (DecodedVector.mk part.1.asRead .flat)
        (List.map_congr_left fun value hvalue => (hkept part hpart value hvalue).2)
    have htypes : (storedChunk prims (storedChunk prims chunk)).types = (storedChunk prims chunk).types := by
      rw [storedChunk, storedChunk, List.map_map]
      exact List.map_congr_left fun T _ => LogicalType.asRead_asRead T
    show DataChunk.mk _ (storedChunk prims (storedChunk prims chunk)).types
      (storedChunk prims (storedChunk prims chunk)).columns none = _
    rw [hcolumns, htypes]
    rfl

end

/-- A chunk that has been read is written again, and read as it is. -/
theorem roundTrips_storedChunk (hfloat : ∀ bits, prims.f64ToF32 (prims.f32ToF64 bits) = bits)
    (h : chunk.Stores layout prims) (hfits : ∀ part ∈ chunk.parts, FitsMemory layout part.1 part.2) :
    RoundTrips layout (encodeDataChunk layout prims (storedChunk prims chunk)) decodeDataChunk
      (storedChunk prims (storedChunk prims chunk)) := by
  have hagain := (h.again hfloat).1
  refine roundTrips_dataChunk hagain.inMemory ?_ hagain.storable
  rw [parts_storedChunk h.inMemory]
  refine List.forall_mem_map.mpr fun part hpart => ?_
  obtain ⟨⟨hT, hwritable⟩, -, -⟩ := part_inMemory h.inMemory hpart
  exact (hfits part hpart).stored .asRead hT (hwritable.mono fun _ hnode => hnode.2) (h.storable part hpart)

theorem validIndex_again (index : Option U64) : validIndex (validIndex index) = validIndex index := by
  simp [validIndex]

theorem MessageHeader.asRead_asRead (header : MessageHeader) : header.asRead.asRead = header.asRead := by
  rw [MessageHeader.asRead, MessageHeader.asRead, nonEmptyText_again, validIndex_again]

section
variable {layout : Layout} {prims : Primitives} {message : QuackMessage} {quackVersion : U64} {bytes : Bytes}

theorem QuackMessage.InMemory.readWith (h : message.InMemory layout) (f : DataChunk → DataChunk) :
    (message.readWith f quackVersion).InMemory layout := by
  have htexts : (message.readWith f quackVersion).texts ⊆ message.texts := by
    intro text htext
    have hheader : ∀ text ∈ (message.readWith f quackVersion).header.connectionId.toList,
        text ∈ message.header.connectionId.toList := by
      have hsame : (message.readWith f quackVersion).header = message.header.asRead := by cases message <;> rfl
      rw [hsame]
      exact fun _ => mem_nonEmptyText
    cases message <;> simp only [QuackMessage.readWith, QuackMessage.texts, List.mem_append] at htext hheader ⊢ <;>
      refine htext.imp (hheader text) fun hbody => ?_
    case connectionRequest =>
      refine hbody.imp (Or.imp (Or.imp mem_nonEmptyText mem_nonEmptyText) mem_nonEmptyText) fun hclient => ?_
      split at hclient
      · exact mem_nonEmptyText hclient
      · cases hclient
    case connectionResponse => exact hbody.imp mem_nonEmptyText mem_nonEmptyText
    case appendRequest => exact hbody.imp mem_nonEmptyText id
    all_goals exact hbody
  refine ⟨fun text htext => h.texts text (htexts htext), ?_, ?_, ?_, ?_⟩
  · cases message <;> try exact fun T hT => by cases hT
    exact List.forall_mem_map.mpr fun T hT => (h.types T hT).asRead
  · cases message <;> try exact h.typesFit
    simpa [QuackMessage.readWith, QuackMessage.resultTypes] using h.typesFit
  · cases message <;> exact h.namesFit
  · rw [QuackMessage.chunks_readWith, List.length_map]
    exact h.chunksFit

theorem QuackMessage.AsksFromOne.readWith (h : message.AsksFromOne quackVersion) (f : DataChunk → DataChunk) :
    (message.readWith f quackVersion).AsksFromOne quackVersion := by
  cases message <;> try exact trivial
  case fetchRequest header resultUuid batchIndex ackIndex =>
    rw [QuackMessage.readWith]
    split
    · rename_i hthree
      cases batchIndex with
      | none => exact trivial
      | some batchIndex =>
          rw [validIndex, Option.filter_some]
          split
          · exact h
          · exact trivial
    · exact trivial

theorem QuackMessage.ofType_readWith {f : DataChunk → DataChunk} (h : message.messageType = message.variantType) :
    (message.readWith f quackVersion).messageType = (message.readWith f quackVersion).variantType := by
  cases message <;> exact h

theorem QuackMessage.readWith_again {f : DataChunk → DataChunk}
    (hchunks : ∀ chunk ∈ message.chunks, f (f chunk) = f chunk) :
    (message.readWith f quackVersion).readWith f quackVersion = message.readWith f quackVersion := by
  have hmap {chunks : List DataChunk} (h : ∀ chunk ∈ chunks, f (f chunk) = f chunk) :
      (chunks.map f).map f = chunks.map f := by
    rw [List.map_map]
    exact List.map_congr_left h
  have htypes (types : List LogicalType) :
      (types.map LogicalType.asRead).map LogicalType.asRead = types.map LogicalType.asRead := by
    rw [List.map_map]
    exact List.map_congr_left fun T _ => LogicalType.asRead_asRead T
  cases message <;> simp only [QuackMessage.readWith, MessageHeader.asRead_asRead, nonEmptyText_again]
  case connectionRequest | connectionResponse | prepareRequest | fetchRequest =>
    split <;> simp [nonEmptyText_again, validIndex_again]
  case prepareResponse header types names needsMoreFetch results resultUuid =>
    rw [@hmap results hchunks, htypes]
  case fetchResponse header results totalBatches batchIndex =>
    rw [@hmap results hchunks, validIndex_again]
    split <;> simp [validIndex_again]
  case appendRequest header schemaName tableName chunk => rw [hchunks chunk (List.mem_singleton_self _)]

/-- A message that has been read has what its version asks for, except a FETCH of the index that stands for
none. -/
theorem QuackMessage.Supported.readWith (h : message.Supported quackVersion) (f : DataChunk → DataChunk)
    (hindex : ∀ header resultUuid ackIndex,
      message ≠ .fetchRequest header resultUuid (some optionalIndexInvalid) ackIndex) :
    (message.readWith f quackVersion).Supported quackVersion := by
  cases message <;> try exact h
  case prepareRequest header sql queryUuid inlineRows =>
    intro hthree
    rw [if_pos hthree]
    exact h hthree
  case fetchRequest header resultUuid batchIndex ackIndex =>
    intro hthree
    rw [if_pos hthree]
    cases batchIndex with
    | none => exact absurd rfl (h hthree)
    | some batchIndex =>
        have hvalid : batchIndex ≠ optionalIndexInvalid := by
          rintro rfl
          exact hindex _ _ _ rfl
        rw [validIndex, Option.filter_some, if_pos (by simpa using hvalid)]
        exact fun heq => by cases heq

/-- A message that has been read off the wire is a message that can be sent: it is written again, unless it is
a FETCH of the index that stands for none, and what it is written as is read as the same message. -/
theorem message_relayed (hversion : quackVersion = quackV1 ∨ quackVersion = quackV3)
    (hfloat : ∀ bits, prims.f64ToF32 (prims.f32ToF64 bits) = bits) (hmemory : message.InMemory layout)
    (htype : message.messageType = message.variantType) (hasks : message.AsksFromOne quackVersion)
    (hchunks : ∀ chunk ∈ message.chunks, chunk.Stores layout prims)
    (hok : encodeMessageForVersion layout prims message quackVersion = .ok bytes) (hheld : Held bytes) :
    ∃ back, decodeMessageForVersion layout bytes quackVersion = .ok back ∧
      ((∀ header resultUuid ackIndex,
          message ≠ .fetchRequest header resultUuid (some optionalIndexInvalid) ackIndex) →
        ∃ bytes', encodeMessageForVersion layout prims back quackVersion = .ok bytes') ∧
      ∀ bytes', encodeMessageForVersion layout prims back quackVersion = .ok bytes' → Held bytes' →
        decodeMessageForVersion layout bytes' quackVersion = .ok back := by
  refine ⟨_, decodeMessage_stored hversion hmemory htype hasks hchunks hok hheld, fun hindex => ?_,
    fun bytes' hok' hheld' => ?_⟩
  · have hagain : ∀ chunk ∈ (message.readWith (storedChunk prims) quackVersion).chunks,
        RoundTrips layout (encodeDataChunk layout prims chunk) decodeDataChunk (storedChunk prims chunk) := by
      rw [QuackMessage.chunks_readWith]
      refine List.forall_mem_map.mpr fun chunk hmem => ?_
      obtain ⟨inner, hinner, -⟩ := chunk_within hmem quackVersion bytes hok
      have hstores := hchunks chunk hmem
      exact roundTrips_storedChunk hfloat hstores (fitsMemory_of_encodeDataChunk hstores.inMemory hinner)
    obtain ⟨bytes', hbytes', -⟩ := message_stored hversion (hmemory.readWith _)
      (QuackMessage.ofType_readWith htype) (hasks.readWith _)
      ((supported_of_encode hversion hok).readWith _ hindex) hagain
    exact ⟨bytes', hbytes'⟩
  · have hagain : ∀ chunk ∈ (message.readWith (storedChunk prims) quackVersion).chunks,
        chunk.Stores layout prims := by
      rw [QuackMessage.chunks_readWith]
      exact List.forall_mem_map.mpr fun chunk hmem => ((hchunks chunk hmem).again hfloat).1
    have hback := decodeMessage_stored hversion (hmemory.readWith _) (QuackMessage.ofType_readWith htype)
      (hasks.readWith _) hagain hok' hheld'
    rwa [QuackMessage.readWith_again fun chunk hmem => ((hchunks chunk hmem).again hfloat).2] at hback

end

/-- A BOOLEAN column with a number in it, which is stored as false. -/
def looseChunk : DataChunk := columnChunk booleanType [.int 1, .null]

theorem looseChunk_stores : looseChunk.Stores .words .floatless := by
  refine ⟨booleanColumn_inMemory le_rfl, fun part hpart value hmem => ?_⟩
  obtain rfl := List.mem_singleton.mp hpart
  simp only [List.mem_cons, List.not_mem_nil, or_false] at hmem
  rcases hmem with rfl | rfl
  · exact .fixed rfl rfl (fun h => by cases h) rfl
  · exact .null _

theorem storedChunk_loose :
    (storedChunk .floatless looseChunk).columns.map DecodedVector.values = [[.bool false, .null]] := by
  have hstored : stored .floatless booleanType (.int 1) = .bool false :=
    stored_fixed rfl rfl (fun h => by cases h) rfl
  have hnull : stored .floatless booleanType .null = .null := by
    rw [stored]
    rfl
  simp only [storedChunk, looseChunk, columnChunk, DataChunk.parts, List.zip_cons_cons, List.zip_nil_left,
    List.map_cons, List.map_nil, hstored, hnull]

/-- The number is gone once the reply has been read, and what is written then is what is read again. -/
theorem message_relayed_loose : ∃ bytes back bytes',
    encodeMessageForVersion .words .floatless (chunkReply looseChunk) quackV3 = .ok bytes ∧
      decodeMessageForVersion .words bytes quackV3 = .ok back ∧
      (∀ chunk ∈ back.chunks, chunk.columns.map DecodedVector.values = [[.bool false, .null]]) ∧
      encodeMessageForVersion .words .floatless back quackV3 = .ok bytes' ∧
      (Held bytes' → decodeMessageForVersion .words bytes' quackV3 = .ok back) := by
  obtain ⟨inner, hinner, -⟩ := roundTrips_dataChunk looseChunk_stores.inMemory (booleanColumn_parts le_rfl)
    looseChunk_stores.storable
  obtain ⟨bytes, hbytes, hlen⟩ := chunkReply_encode hinner
  have hheld : Held bytes := by
    have hsize := atMost_booleanColumn (le_refl 2) inner hinner
    simp only [Held, isizeMax]
    omega
  have hchunks : ∀ chunk ∈ (chunkReply looseChunk).chunks, chunk.Stores .words .floatless := fun chunk hmem => by
    rw [List.mem_singleton.mp hmem]
    exact looseChunk_stores
  obtain ⟨back, hback, hwrites, hagain⟩ := message_relayed (.inr rfl) Primitives.floatless_back
    (chunkReply_inMemory _) rfl trivial hchunks hbytes hheld
  obtain ⟨bytes', hbytes'⟩ := hwrites fun _ _ _ h => by cases h
  refine ⟨bytes, back, bytes', hbytes, hback, fun chunk hmem => ?_, hbytes', hagain bytes' hbytes'⟩
  have hread := decodeMessage_stored (.inr rfl) (chunkReply_inMemory _) rfl trivial hchunks hbytes hheld
  cases hback.symm.trans hread
  rw [QuackMessage.chunks_readWith] at hmem
  obtain ⟨other, hother, rfl⟩ := List.mem_map.mp hmem
  rw [List.mem_singleton.mp hother]
  exact storedChunk_loose

end QuackProtocol
