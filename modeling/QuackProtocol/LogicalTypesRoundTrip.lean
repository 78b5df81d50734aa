import QuackProtocol.BinaryRoundTrip
import QuackProtocol.LogicalTypes

/-! A logical type is read back as it was written, except that an empty alias is read back as no
alias. -/

open Decoding Decode

namespace QuackProtocol

variable {layout : Layout} {α β : Type}

def nonEmptyText (typeAlias : Option String) : Option String := typeAlias.filter fun text => text ≠ ""

mutual

def LogicalType.asRead : LogicalType → LogicalType
  | ⟨id, some info⟩ => ⟨id, some info.asRead⟩
  | ⟨id, none⟩ => ⟨id, none⟩
termination_by T => sizeOf T

def ExtraTypeInfo.asRead (info : ExtraTypeInfo) : ExtraTypeInfo :=
  match info with
  | .invalid a => .invalid (nonEmptyText a)
  | .generic a => .generic (nonEmptyText a)
  | .decimal a width scale => .decimal (nonEmptyText a) width scale
  | .string a collation => .string (nonEmptyText a) collation
  | .list a childType => .list (nonEmptyText a) childType.asRead
  | .struct a childTypes => .struct (nonEmptyText a) (childTypes.map fun child => child.asRead)
  | .enum a values => .enum (nonEmptyText a) values
  | .aggregateState a functionName returnType boundArgumentTypes =>
      .aggregateState (nonEmptyText a) functionName returnType.asRead
        (boundArgumentTypes.map fun T => T.asRead)
  | .array a childType size => .array (nonEmptyText a) childType.asRead size
  | .any a targetType castScore => .any (nonEmptyText a) targetType.asRead castScore
  | .template a name => .template (nonEmptyText a) name
  | .integerLiteral a => .integerLiteral (nonEmptyText a)
  | .geo a crs => .geo (nonEmptyText a) crs
  | .unbound a name catalog schema => .unbound (nonEmptyText a) name catalog schema
termination_by sizeOf info

def ChildType.asRead : ChildType → ChildType
  | ⟨name, logicalType⟩ => ⟨name, logicalType.asRead⟩
termination_by child => sizeOf child

end

theorem ChildType.asRead_eq (child : ChildType) :
    child.asRead = ⟨child.name, child.logicalType.asRead⟩ := by
  cases child
  rw [ChildType.asRead]

@[simp] theorem LogicalType.asRead_id (T : LogicalType) : T.asRead.id = T.id := by
  obtain ⟨id, _ | info⟩ := T <;> rw [LogicalType.asRead]

theorem LogicalType.asRead_typeInfo (T : LogicalType) :
    T.asRead.typeInfo = T.typeInfo.map ExtraTypeInfo.asRead := by
  obtain ⟨id, _ | info⟩ := T <;> rw [LogicalType.asRead] <;> rfl

/-- The property holds at every node of a type. -/
inductive LogicalType.Everywhere (P : LogicalType → Prop) : LogicalType → Prop where
  | intro {T : LogicalType} (node : P T) (inside : ∀ child ∈ T.children, Everywhere P child) :
      Everywhere P T

theorem LogicalType.Everywhere.node {P : LogicalType → Prop} {T : LogicalType}
    (h : T.Everywhere P) : P T := by
  cases h
  assumption

theorem LogicalType.Everywhere.inside {P : LogicalType → Prop} {T child : LogicalType}
    (h : T.Everywhere P) (hchild : child ∈ T.children) : child.Everywhere P := by
  cases h with
  | intro _ inside => exact inside child hchild

theorem LogicalType.Everywhere.mono {P Q : LogicalType → Prop} {T : LogicalType}
    (h : T.Everywhere P) (hPQ : ∀ node, P node → Q node) : T.Everywhere Q := by
  induction h with
  | intro node _ ih => exact .intro (hPQ _ node) ih

theorem LogicalType.Everywhere.and {P Q : LogicalType → Prop} {T : LogicalType} (h : T.Everywhere P)
    (h' : T.Everywhere Q) : T.Everywhere fun node => P node ∧ Q node := by
  induction T using LogicalType.childInduction with
  | step T ih =>
      exact ⟨⟨h.node, h'.node⟩, fun child hmem => ih child hmem (h.inside hmem) (h'.inside hmem)⟩

namespace ExtraTypeInfo

/-- The strings of a node. -/
def texts (info : ExtraTypeInfo) : List String :=
  info.typeAlias.toList ++ match info with
    | string _ collation => [collation]
    | struct _ childTypes => childTypes.map fun child => child.name
    | enum _ values => values
    | aggregateState _ functionName _ _ => [functionName]
    | template _ name => [name]
    | geo _ crs => crs.definition.toList
    | unbound _ name catalog schema => name.toList ++ catalog.toList ++ schema.toList
    | _ => []

/-- The lengths of the vectors of a node. -/
def lengths : ExtraTypeInfo → List Nat
  | struct _ childTypes => [childTypes.length]
  | enum _ values => [values.length]
  | aggregateState _ _ _ boundArgumentTypes => [boundArgumentTypes.length]
  | _ => []

/-- The vectors of a node, by element and length. -/
def vectors : ExtraTypeInfo → List (Element × Nat)
  | struct _ childTypes => [(.childType, childTypes.length)]
  | enum _ values => [(.string, values.length)]
  | aggregateState _ _ _ boundArgumentTypes => [(.logicalType, boundArgumentTypes.length)]
  | _ => []

/-- The strings and vectors of a node are allocations: none is larger than an object can be. -/
structure Allocated (layout : Layout) (info : ExtraTypeInfo) : Prop where
  texts : ∀ text ∈ info.texts, HeldText text
  vectors : ∀ vector ∈ info.vectors, layout.Fits vector.1 vector.2

/-- The strings and vectors of a node exist in memory, whatever the vectors are made of. -/
structure InMemory (layout : Layout) (info : ExtraTypeInfo) : Prop where
  texts : ∀ text ∈ info.texts, HeldText text
  lengths : ∀ length ∈ info.lengths, layout.Holds length

theorem InMemory.allocated {layout : Layout} {info : ExtraTypeInfo} (h : info.InMemory layout) :
    info.Allocated layout := by
  refine ⟨h.texts, fun vector hvector => ?_⟩
  have hlength : vector.2 ∈ info.lengths := by
    cases info with
    | struct | enum | aggregateState =>
        obtain rfl := List.mem_singleton.mp hvector
        exact List.mem_singleton_self _
    | _ => cases hvector
  exact h.lengths _ hlength _

end ExtraTypeInfo

def LogicalType.Allocated (layout : Layout) (T : LogicalType) : Prop :=
  ∀ info ∈ T.typeInfo, info.Allocated layout

def LogicalType.InMemory (layout : Layout) (T : LogicalType) : Prop :=
  ∀ info ∈ T.typeInfo, info.InMemory layout

def LogicalType.NotIntegerLiteral (T : LogicalType) : Prop :=
  ∀ info ∈ T.typeInfo, info.typeId ≠ .integerLiteral

/-- A type in memory, without INTEGER_LITERAL information. -/
def LogicalType.Writable (layout : Layout) (T : LogicalType) : Prop :=
  T.Everywhere fun node => node.NotIntegerLiteral ∧ node.InMemory layout

@[simp] theorem LogicalTypeId.tryFrom_code (id : LogicalTypeId) :
    LogicalTypeId.tryFrom (BitVec.ofNat 64 id.code) = .ok id := by
  cases id <;> rfl

theorem LogicalTypeId.code_lt (id : LogicalTypeId) : id.code < 2 ^ 64 := by
  cases id <;> decide

@[simp] theorem ExtraTypeInfoType.tryFrom_code (typeId : ExtraTypeInfoType) :
    ExtraTypeInfoType.tryFrom (BitVec.ofNat 64 typeId.code) = .ok typeId := by
  cases typeId <;> rfl

theorem ExtraTypeInfoType.code_lt (typeId : ExtraTypeInfoType) : typeId.code < 2 ^ 64 := by
  cases typeId <;> decide

theorem RoundTrips.code {code : Nat} (h : code < 2 ^ 64) :
    RoundTrips layout (writeUleb code) readUlebU64 (BitVec.ofNat 64 code) := by
  have htrip : RoundTrips layout (writeUleb (BitVec.ofNat 64 code).toNat) readUlebU64 _ := .uleb64 _
  rwa [BitVec.toNat_ofNat, Nat.mod_eq_of_lt h] at htrip

theorem RoundTrips.someString {text : String} (h : HeldText text) :
    RoundTrips layout (writeString text) readSomeString (some text) :=
  (RoundTrips.string h).thenPure rfl

theorem FieldTrip.optionalString {fieldId hi : Nat} {text : Option String}
    (h : ∀ content ∈ text, HeldText content) (hid : fieldId < hi) (hhi : hi ≤ 2 ^ 16) :
    FieldTrip layout fieldId hi (writeSomeString fieldId text) (readOptionalString fieldId)
      text := by
  cases text with
  | some content => exact FieldTrip.present (RoundTrips.someString (h content rfl)) (by omega) none
  | none => exact (FieldTrip.absent hid).weaken hid.le

/-- The bytes begin with a field id other than the given one. -/
def OtherField (fieldId : Nat) (bytes : Bytes) : Prop :=
  ∃ next rest, next ≠ fieldId ∧ next < 2 ^ 16 ∧ bytes = Varint.toLe 2 next ++ rest

theorem FieldsFrom.other {fieldId lo : Nat} {bytes : Bytes} (h : FieldsFrom lo bytes)
    (hlt : fieldId < lo) : OtherField fieldId bytes := by
  obtain ⟨next, rest, hle, hnext⟩ := h
  exact ⟨next, rest, by omega, hnext⟩

theorem OtherField.optional {fieldId other : Nat} {text : Option String} {front back : Bytes}
    (hwrite : writeSomeString fieldId text = .ok front) (hne : fieldId ≠ other)
    (hlt : fieldId < 2 ^ 16) (hback : OtherField other back) : OtherField other (front ++ back) := by
  cases text with
  | some content =>
      cases hwrite
      exact ⟨fieldId, _, hne, hlt, rfl⟩
  | none =>
      cases hwrite
      exact hback

theorem reads_rejectField (fieldId : Nat) (message : String) :
    ReadsBefore layout (OtherField fieldId) (rejectField fieldId message) [] () := by
  rintro c hc _ ⟨next, rest, hne, hlt, rfl⟩ hunread
  rw [rejectField, run_bind_ok (peeks_fieldId hlt hc hunread), if_neg hne]
  rfl

theorem FieldTrip.reject {lo hi fieldId : Nat} {message : String} {write : Encode}
    {read : Decoder α} {a : α} (h : FieldTrip layout lo hi write read a)
    (hother : ∀ bytes, write = .ok bytes → ∀ rest, FieldsFrom hi rest →
      OtherField fieldId (bytes ++ rest)) :
    FieldTrip layout lo hi write (rejectField fieldId message >>= fun _ => read) a := by
  obtain ⟨bytes, hwrite, hhead, hread⟩ := h
  exact ⟨bytes, hwrite, hhead,
    (reads_rejectField fieldId message).bind hread fun rest => hother bytes hwrite rest⟩

theorem FieldTrip.rejectBelow {lo hi fieldId : Nat} {message : String} {write : Encode}
    {read : Decoder α} {a : α} (h : FieldTrip layout lo hi write read a) (hlt : fieldId < lo) :
    FieldTrip layout lo hi write (rejectField fieldId message >>= fun _ => read) a := by
  apply h.reject
  intro bytes hwrite rest hrest
  obtain ⟨bytes', hwrite', hhead, -⟩ := h
  cases hwrite.symm.trans hwrite'
  exact (hhead rest hrest).other hlt

/-! ### The codec -/

section
variable {decode : Decoder LogicalType}

theorem roundTrips_childTypes {childTypes : List ChildType}
    (hlen : layout.Fits .childType childTypes.length)
    (hnames : ∀ child ∈ childTypes, HeldText child.name)
    (hchild : ∀ child ∈ childTypes,
      RoundTrips layout (encodeLogicalType child.logicalType) decode child.logicalType.asRead) :
    RoundTrips layout (encodeChildTypes childTypes) (decodeChildTypes decode)
      (childTypes.map ChildType.asRead) := by
  rw [encodeChildTypes]
  refine RoundTrips.listMap hlen fun child hmem => FieldTrip.object 0 ?_
  rw [ChildType.asRead_eq]
  exact .cons _ (.required (.string (hnames child hmem)) (by decide))
    (.cons _ (.required (hchild child hmem) (by decide)) (.nil _))

theorem roundTrips_coordinateReferenceSystem {crs : CoordinateReferenceSystem}
    (h : ∀ text ∈ crs.definition, HeldText text) :
    RoundTrips layout (encodeCoordinateReferenceSystem crs) decodeCoordinateReferenceSystem crs :=
  FieldTrip.object _ (.cons _ (.optionalString h (by decide) (by decide)) (.nil crs))

theorem fieldTrip_enumInfo {typeAlias : Option String} {values : List String}
    (hlen : layout.Fits .string values.length) (hvalues : ∀ value ∈ values, HeldText value) :
    FieldTrip layout 200 fieldEnd
      (Encode.all [writeField 200 (writeUleb values.length),
        writeField 201 (writeList (values.map writeString))])
      (decodeEnumInfo typeAlias) (.enum typeAlias values) := by
  have hlist : RoundTrips layout (writeList (values.map writeString))
      (readList .string fun _ => readString) values := by
    have htrip : RoundTrips layout (writeList (values.map writeString))
        (readList .string fun _ => readString) (values.map id) :=
      .listMap hlen fun value hmem => .string (hvalues value hmem)
    rwa [List.map_id] at htrip
  refine .cons 201 (.required (.uleb hlen.count_lt) (by decide)) ?_
  refine .cons fieldEnd (.required hlist (by decide)) ?_
  rw [if_neg (by simp)]
  exact .nil _

theorem fieldTrip_unbound {typeAlias name catalog schema : Option String}
    (hname : ∀ text ∈ name, HeldText text)
    (hcatalog : ∀ text ∈ catalog, HeldText text)
    (hschema : ∀ text ∈ schema, HeldText text) :
    FieldTrip layout 200 fieldEnd
      (Encode.all [writeSomeString 200 name, writeSomeString 201 catalog,
        writeSomeString 202 schema])
      (decodeInfoBody decode typeAlias .unbound) (.unbound typeAlias name catalog schema) := by
  refine .reject (.cons _ (.optionalString hname (by decide) (by decide))
    (.cons _ (.optionalString hcatalog (by decide) (by decide))
      (.cons _ (.optionalString hschema (by decide) (by decide)) (.nil _)))) ?_
  -- The field 204 is refused only where one of 200, 201, 202 or the end is next.
  intro bytes hwrite rest hrest
  obtain ⟨_, _, hname, htail, rfl⟩ := Encode.append_eq_ok hwrite
  obtain ⟨_, _, hcatalog, htail', rfl⟩ := Encode.append_eq_ok htail
  obtain ⟨_, _, hschema, hnil, rfl⟩ := Encode.append_eq_ok htail'
  cases hnil
  rw [List.append_nil, List.append_assoc, List.append_assoc]
  exact .optional hname (by decide) (by decide) <| .optional hcatalog (by decide) (by decide) <|
    .optional hschema (by decide) (by decide) <| hrest.other (by decide)

theorem fieldTrip_infoBody {info : ExtraTypeInfo} (hinfo : info.typeId ≠ .integerLiteral)
    (hheld : info.Allocated layout)
    (hchild : ∀ T ∈ info.children, RoundTrips layout (encodeLogicalType T) decode T.asRead) :
    FieldTrip layout 200 fieldEnd (encodeInfoBody info)
      (decodeInfoBody decode (nonEmptyText info.typeAlias) info.typeId) info.asRead := by
  have htexts := hheld.texts
  have hvectors := hheld.vectors
  cases info <;>
    simp only [ExtraTypeInfo.texts, ExtraTypeInfo.vectors, ExtraTypeInfo.children,
      List.mem_append, List.mem_singleton, List.not_mem_nil, Option.mem_toList, List.mem_map,
      List.forall_mem_cons, forall_eq, or_imp, forall_and, forall_exists_index, and_imp,
      forall_apply_eq_imp_iff₂] at htexts hvectors hchild <;>
    rw [encodeInfoBody, ExtraTypeInfo.asRead]
  case invalid | generic => exact (FieldTrip.nil _).weaken (by decide)
  case decimal a width scale =>
    exact .cons _ (.present (.uleb64 width) (by decide) 0)
      (.cons _ (.present (.uleb64 scale) (by decide) 0) (.nil _))
  case string a collation =>
    exact .cons _ (.present (.string htexts.2) (by decide) "") (.nil _)
  case list a childType => exact .cons _ (.required hchild (by decide)) (.nil _)
  case struct a childTypes =>
    exact .cons _ (.present (roundTrips_childTypes hvectors htexts.2 hchild) (by decide) [])
      (.nil _)
  case enum a values => exact fieldTrip_enumInfo hvectors htexts.2
  case aggregateState a functionName returnType boundArgumentTypes =>
    exact .cons _ (.required (.string htexts.2) (by decide))
      (.cons _ (.required hchild.1 (by decide))
        (.cons _ (.required (.listMap hvectors hchild.2) (by decide)) (.nil _)))
  case array a childType size =>
    exact .cons _ (.required hchild (by decide))
      (.cons _ (.required (.uleb64 size) (by decide)) (.nil _))
  case any a targetType castScore =>
    exact .cons _ (.required hchild (by decide))
      (.cons _ (.required (.uleb64 castScore) (by decide)) (.nil _))
  case template a name => exact .cons _ (.present (.string htexts.2) (by decide) "") (.nil _)
  case integerLiteral => exact absurd rfl hinfo
  case geo a crs =>
    exact .cons _ (.present (roundTrips_coordinateReferenceSystem htexts.2) (by decide) ⟨none⟩)
      (.nil _)
  case unbound a name catalog schema =>
    exact fieldTrip_unbound htexts.2.1.1 htexts.2.1.2 htexts.2.2

theorem roundTrips_extraTypeInfo {info : ExtraTypeInfo} (hinfo : info.typeId ≠ .integerLiteral)
    (hheld : info.Allocated layout)
    (hchild : ∀ T ∈ info.children, RoundTrips layout (encodeLogicalType T) decode T.asRead) :
    RoundTrips layout (encodeExtraTypeInfo info) (decodeExtraTypeInfo decode) info.asRead := by
  rw [encodeExtraTypeInfo]
  have htexts : ∀ text ∈ nonEmptyText info.typeAlias, HeldText text := fun text hmem => by
    have hsome : info.typeAlias = some text := (Option.mem_filter_iff.mp hmem).1
    exact hheld.texts text (by simp [ExtraTypeInfo.texts, hsome])
  have halias : FieldTrip layout 101 200 (writeAlias info.typeAlias) (readOptionalString 101)
      (nonEmptyText info.typeAlias) := .optionalString htexts (by decide) (by decide)
  have hbody := fieldTrip_infoBody hinfo hheld hchild
  refine FieldTrip.object 100 <|
    .cons 101 (.required (.code info.typeId.code_lt) (by decide)) ?_
  refine .ofResult (ExtraTypeInfoType.tryFrom_code _) (halias.cons _ (.rejectBelow ?_ (by decide)))
  exact hbody.single

end

theorem childTypes_within {childTypes : List ChildType} {child : ChildType}
    (h : child ∈ childTypes) :
    Encode.Within (encodeLogicalType child.logicalType) (encodeChildTypes childTypes) 1 := by
  rw [encodeChildTypes]
  refine .list (.object (.field (.refl _) 1) ?_) (List.mem_map_of_mem h)
  simp

theorem infoBody_within {info : ExtraTypeInfo} {T : LogicalType} (h : T ∈ info.children) :
    Encode.Within (encodeLogicalType T) (encodeInfoBody info) 0 := by
  cases info <;> simp only [ExtraTypeInfo.children, List.not_mem_nil, List.mem_map,
    List.mem_cons, or_false] at h <;> rw [encodeInfoBody]
  case list | array | any =>
    subst h
    exact .all (.field (.refl _) 200) (by simp)
  case struct a childTypes =>
    obtain ⟨child, hmem, rfl⟩ := h
    exact .all (.field ((childTypes_within hmem).fewer (Nat.zero_le _)) 200) (by simp)
  case aggregateState a functionName returnType boundArgumentTypes =>
    rcases h with rfl | hmem
    · exact .all (.field (.refl _) 201) (by simp)
    · exact .all (.field (.list (.refl _) (List.mem_map_of_mem hmem)) 202) (by simp)

theorem logicalType_within {T child : LogicalType} (h : child ∈ T.children) :
    Encode.Within (encodeLogicalType child) (encodeLogicalType T) 1 := by
  obtain ⟨id, _ | info⟩ := T
  · cases h
  · rw [encodeLogicalType, encodeExtraTypeInfo]
    have hinfo : Encode.Within (encodeLogicalType child) (writeObject (Encode.all [
        writeField 100 (writeUleb info.typeId.code), writeAlias info.typeAlias,
        encodeInfoBody info])) 1 := .object (infoBody_within h) (by simp)
    exact (Encode.Within.object (.field (.right hinfo (writeBool true)) 101)
      (.tail _ (.head _))).fewer (by omega)

/-- One level of a type, given the decoder of the levels inside. -/
theorem roundTrips_logicalType_step {T : LogicalType} {budget : Nat}
    (hliteral : T.NotIntegerLiteral) (hheld : T.Allocated layout)
    (hchild : ∀ child ∈ T.children, RoundTrips layout (encodeLogicalType child)
      (decodeLogicalTypeWithin budget) child.asRead) :
    RoundTrips layout (encodeLogicalType T) (decodeLogicalTypeWithin (budget + 1)) T.asRead := by
  obtain ⟨id, typeInfo⟩ := T
  rw [encodeLogicalType.eq_def, decodeLogicalTypeWithin]
  refine RoundTrips.recursive (FieldTrip.object 100 <|
    .cons 101 (.required (.code id.code_lt) (by decide)) ?_) _
  refine .ofResult (LogicalTypeId.tryFrom_code _) ?_
  cases typeInfo with
  | none =>
      rw [LogicalType.asRead]
      exact .cons fieldEnd ((FieldTrip.absent (by decide)).weaken (by decide)) (.nil _)
  | some info =>
      rw [LogicalType.asRead]
      have hinfo := roundTrips_extraTypeInfo (hliteral info rfl) (hheld info rfl) hchild
      exact .cons fieldEnd (.present hinfo.nullable (by decide) none) (.nil _)

theorem roundTripsWithin_logicalType {T : LogicalType}
    (h : T.Everywhere fun node => node.NotIntegerLiteral ∧ node.Allocated layout) :
    RoundTripsWithin layout (encodeLogicalType T) decodeLogicalTypeWithin T.asRead := by
  induction T using LogicalType.childInduction with
  | step T ih =>
      have hnode := h.node
      have hparts : ∀ child ∈ T.children, RoundTripsWithin layout (encodeLogicalType child)
          decodeLogicalTypeWithin child.asRead := fun child hmem => ih child hmem (h.inside hmem)
      refine .step hparts (fun child hmem => logicalType_within hmem) ?_
        (fun budget hchild => roundTrips_logicalType_step hnode.1 hnode.2 hchild)
      obtain ⟨id, _ | info⟩ := T <;> rw [encodeLogicalType] <;> exact .nil_object _

/-- The codec of logical types, for types of any nesting. -/
theorem roundTrips_logicalType {T : LogicalType} (h : T.Writable layout) :
    RoundTrips layout (encodeLogicalType T) decodeLogicalType T.asRead :=
  (roundTripsWithin_logicalType
    (h.mono fun _ hnode => ⟨hnode.1, fun info hinfo => (hnode.2 info hinfo).allocated⟩)).withBudget

/-- Every type without INTEGER_LITERAL information is written and read back. -/
theorem logicalType_codec {T : LogicalType} (hheld : T.Everywhere (LogicalType.Allocated layout))
    (hliteral : T.Everywhere LogicalType.NotIntegerLiteral) :
    RoundTrips layout (encodeLogicalType T) decodeLogicalType T.asRead :=
  (roundTripsWithin_logicalType (hliteral.and hheld)).withBudget

/-- INTEGER[] with an empty alias. -/
def integersType (typeAlias : Option String) : LogicalType :=
  ⟨.list, some (.list typeAlias ⟨.integer, none⟩)⟩

theorem asRead_integersType : (integersType (some "")).asRead = integersType none := by
  rw [integersType, LogicalType.asRead, ExtraTypeInfo.asRead, LogicalType.asRead]
  rfl

theorem everywhere_integersType {P : LogicalType → Prop} (h : P (integersType (some "")))
    (hitem : P ⟨.integer, none⟩) : (integersType (some "")).Everywhere P := by
  refine ⟨h, fun child hchild => ?_⟩
  obtain rfl := List.mem_singleton.mp hchild
  exact ⟨hitem, fun _ hnone => nomatch hnone⟩

theorem logicalType_codec_integers :
    RoundTrips .words (encodeLogicalType (integersType (some ""))) decodeLogicalType (integersType none) := by
  rw [← asRead_integersType]
  apply logicalType_codec
  · apply everywhere_integersType
    · rintro _ ⟨⟩
      exact ⟨List.forall_mem_singleton.mpr (Nat.zero_le _), fun _ hnone => nomatch hnone⟩
    · exact fun _ hnone => nomatch hnone
  · apply everywhere_integersType
    · rintro _ ⟨⟩
      exact nofun
    · exact fun _ hnone => nomatch hnone

end QuackProtocol
