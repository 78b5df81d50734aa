import Mathlib.Data.List.ReduceOption
import QuackProtocol.ArrowSlots
import QuackProtocol.DecodedValues

/-! Whether the Arrow bridge takes every column that the decoder returns. What can stand in its way is
listed in the order in which the bridge comes upon it: a documented limit that a column exceeds, or a
value that does not fit its column. The first obstacle decides how the build ends. -/

open Decoding Narrowing

namespace QuackProtocol

variable {arrow : ArrowLibrary} {T childType : LogicalType} {D : DataType} {values : List Value}
  {α β : Type}

/-- The failures that the bridge documents: a time of day outside of the day, an interval too long for
nanoseconds, a decimal beyond the limits of Arrow, and a column too long for 32-bit offsets. -/
def BuildError.Documented : BuildError → Prop
  | .outOfRange id _ => id = .time ∨ id = .timeNs
  | .intervalOverflow _ | .decimalLimits _ _ | .decimalRejected _ | .offsetLimit _ | .byteLimit _ _ => True
  | _ => False

inductive Obstacle where
  | limit
  | misfit
  deriving DecidableEq

/-- A plain integer fits the columns of signed integers, in their range. -/
def IntFits (id : LogicalTypeId) (n : I64) : Prop :=
  match id with
  | .tinyInt => SignedRange 8 n.toInt
  | .smallInt => SignedRange 16 n.toInt
  | .integer => SignedRange 32 n.toInt
  | .bigInt => True
  | _ => False

instance (id : LogicalTypeId) (n : I64) : Decidable (IntFits id n) := by
  unfold IntFits
  split <;> infer_instance

def childNames (T : LogicalType) : List String :=
  match getStructChildren T with
  | .ok children => children.map ChildType.name
  | .error _ => []

def dayLimit : TimeUnit → Int
  | .micros => microsecondsInDay
  | .nanos => nanosecondsInDay

/-- What stands in the way of one row: a plain integer in a column of other values, a row of a struct
type that declares a name twice, or a limit. -/
def rowObstacle (T : LogicalType) : Value → Option Obstacle
  | .int n => if IntFits T.id n then none else some .misfit
  | .struct _ => if (childNames T).Nodup then none else some .misfit
  | .time time =>
    if 0 ≤ time.value.toInt ∧ time.value.toInt < dayLimit time.unit then none else some .limit
  | .interval interval => if SignedRange 64 (interval.micros.toInt * 1000) then none else some .limit
  | _ => none

def byteLength : Value → Nat
  | .string text => (utf8Bytes text).length
  | .bytes raw => raw.length
  | _ => 0

def limitUnless (holds : Prop) [Decidable holds] : List Obstacle := if holds then [] else [.limit]

/-- What stands in the way of a column without parts, once all rows fit. Its texts have `bytes` bytes. -/
def columnObstacles (arrow : ArrowLibrary) (T : LogicalType) (bytes : Nat) : List Obstacle :=
  match T.id with
  | .varchar | .char | .enum | .uuid | .blob | .geometry | .bit => limitUnless (bytes ≤ i32Max)
  | .hugeInt | .uHugeInt => limitUnless ((arrow.decimal256Limits hugeIntPrecision 0).isOk = true)
  | .decimal =>
    match decimalPrecisionAndScale T with
    | .ok (precision, scale) => limitUnless ((arrow.decimal128Limits precision scale).isOk = true)
    | .error _ => []
  | _ => []

/-- The rows of a list column; `count` is the number of items before. -/
def listObstacles (T : LogicalType) (count : Nat) : List Value → List Obstacle
  | [] => []
  | .list items :: values =>
    limitUnless (count + items.length ≤ i32Max) ++ listObstacles T (count + items.length) values
  | .null :: values => limitUnless (count ≤ i32Max) ++ listObstacles T count values
  | value :: values => (rowObstacle T value).toList ++ listObstacles T count values

/-- The memory for the windows of an array column. -/
def windowObstacles (count width : Nat) : List Obstacle :=
  if count * width * wordSize ≤ isizeMax then [] else [.misfit]

def listItems (values : List Value) : List Value :=
  values.flatMap fun
    | .list items => items
    | _ => []

def windowItems (width : Nat) (values : List Value) : List Value :=
  values.flatMap fun
    | .list items => items
    | _ => List.replicate width .null

/-- What stands in the way of a column: its own rows first, then the columns inside. -/
def obstacles (arrow : ArrowLibrary) (T : LogicalType) (values : List Value) : List Obstacle :=
  match T.id with
  | .list | .map =>
    match _h : getChildType T with
    | .ok childType => listObstacles T 0 values ++ obstacles arrow childType (listItems values)
    | .error _ => []
  | .array =>
    match _h : getChildType T with
    | .ok childType =>
      match arraySize T with
      | .ok size => windowObstacles values.length size.toNat ++ values.filterMap (rowObstacle T) ++
        obstacles arrow childType (windowItems size.toNat values)
      | .error _ => []
    | .error _ => []
  | .struct | .variant =>
    match _h : getStructChildren T with
    | .ok children => values.filterMap (rowObstacle T) ++ children.attach.flatMap fun child =>
      obstacles arrow child.val.logicalType (structColumn child.val.name values)
    | .error _ => []
  | _ => values.filterMap (rowObstacle T) ++ columnObstacles arrow T (values.map byteLength).sum
termination_by sizeOf T
decreasing_by
  · exact LogicalType.sizeOf_lt_of_mem_children (getChildType_mem _h)
  · exact LogicalType.sizeOf_lt_of_mem_children (getChildType_mem _h)
  · exact LogicalType.sizeOf_lt_of_mem_children (getStructChildren_mem _h child.property)

/-! ### How a build ends -/

/-- The end of a build that comes upon these obstacles, in this order. -/
def EndsAs (obstacles : List Obstacle) (outcome : Outcome BuildError α) : Prop :=
  match obstacles with
  | [] => ∃ a, outcome = .ok a
  | .limit :: _ => ∃ e : BuildError, outcome = .err e ∧ e.Documented
  | .misfit :: _ =>
    (∃ e : BuildError, outcome = .err e ∧ ¬ e.Documented) ∨ ∃ cause, outcome = .panic cause

/-- The build gives an array or fails for a documented reason. -/
def OnlyDocumented (outcome : Outcome BuildError α) : Prop :=
  (∃ a, outcome = .ok a) ∨ ∃ e : BuildError, outcome = .err e ∧ e.Documented

namespace EndsAs

variable {x : Outcome BuildError α} {f : α → Outcome BuildError β} {first rest : List Obstacle}

/-- The first obstacle decides. -/
theorem onlyDocumented_iff (h : EndsAs first x) : OnlyDocumented x ↔ first.head? ≠ some .misfit := by
  cases first with
  | nil => exact iff_of_true (.inl h) (by decide)
  | cons obstacle rest =>
      cases obstacle with
      | limit => exact iff_of_true (.inr h) (by simp)
      | misfit =>
          refine iff_of_false ?_ (by simp)
          rcases h with ⟨e, rfl, hnot⟩ | ⟨cause, rfl⟩
          · rintro (⟨a, ha⟩ | ⟨e', he, hdocumented⟩)
            · cases ha
            · cases he
              exact hnot hdocumented
          · rintro (⟨a, ha⟩ | ⟨e', he, -⟩)
            · cases ha
            · cases he

theorem pure (a : α) : EndsAs [] (Pure.pure a : Outcome BuildError α) := ⟨a, rfl⟩

theorem misfit {e : BuildError} (h : ¬ e.Documented) : EndsAs [.misfit] (.err e : Outcome BuildError α) :=
  .inl ⟨e, rfl, h⟩

theorem limit {e : BuildError} (h : e.Documented) : EndsAs [.limit] (.err e : Outcome BuildError α) :=
  ⟨e, rfl, h⟩

theorem bind (hx : EndsAs first x) (hf : ∀ a, x = .ok a → EndsAs rest (f a)) :
    EndsAs (first ++ rest) (x >>= f) := by
  cases first with
  | nil =>
      obtain ⟨a, rfl⟩ := hx
      exact hf a rfl
  | cons obstacle first =>
      cases obstacle with
      | limit =>
          obtain ⟨e, rfl, he⟩ := hx
          exact ⟨e, rfl, he⟩
      | misfit =>
          rcases hx with ⟨e, rfl, he⟩ | ⟨cause, rfl⟩
          · exact .inl ⟨e, rfl, he⟩
          · exact .inr ⟨cause, rfl⟩

/-- A last step that meets nothing. -/
theorem last (hx : EndsAs first x) (hf : ∀ a, x = .ok a → ∃ b, f a = .ok b) : EndsAs first (x >>= f) := by
  have h : EndsAs (first ++ []) (x >>= f) := hx.bind hf
  rwa [List.append_nil] at h

end EndsAs

theorem lift_bind (x : Build α) (f : α → Build β) :
    (liftM (x >>= f) : Outcome BuildError β) = (liftM x : Outcome BuildError α) >>= fun a => liftM (f a) := by
  cases x <;> rfl

/-- How a step of the builder that only fails ends. -/
abbrev EndsBuild (obstacles : List Obstacle) (x : Build α) : Prop :=
  EndsAs obstacles (liftM x : Outcome BuildError α)

namespace EndsBuild

variable {x : Build α} {f : α → Build β} {first rest : List Obstacle}

theorem bind (hx : EndsBuild first x) (hf : ∀ a, x = .ok a → EndsBuild rest (f a)) :
    EndsBuild (first ++ rest) (x >>= f) := by
  rw [EndsBuild, lift_bind]
  exact EndsAs.bind hx fun a ha => hf a (Outcome.lift_eq_ok ha)

theorem map {g : α → β} (hx : EndsBuild first x) : EndsBuild first (g <$> x) := by
  have h : EndsBuild (first ++ []) (x >>= fun a => .ok (g a)) := hx.bind fun a _ => EndsAs.pure _
  rw [List.append_nil] at h
  cases x <;> exact h

/-- A last step that only computes. -/
theorem last {g : α → β} (hx : EndsBuild first x) : EndsBuild first (x >>= fun a => pure (g a)) := by
  cases x <;> exact hx.map (g := g)

end EndsBuild

/-- The rows of a column, one after the other. -/
theorem endsAs_mapM {f : Value → Build α}
    (h : ∀ value ∈ values, EndsBuild (rowObstacle T value).toList (f value)) :
    EndsBuild (values.filterMap (rowObstacle T)) (values.mapM f) := by
  induction values with
  | nil => exact EndsAs.pure []
  | cons value values ih =>
      obtain ⟨hvalue, hvalues⟩ := List.forall_mem_cons.mp h
      have hsplit : (value :: values).filterMap (rowObstacle T) =
          (rowObstacle T value).toList ++ values.filterMap (rowObstacle T) := by
        cases hrow : rowObstacle T value <;> simp [hrow]
      rw [hsplit, List.mapM_cons]
      exact hvalue.bind fun a _ => (ih hvalues).last

theorem endsAs_collect {extract : Value → Build α}
    (h : ∀ value ∈ values, value ≠ .null → EndsBuild (rowObstacle T value).toList (extract value)) :
    EndsBuild (values.filterMap (rowObstacle T)) (collectSlots extract values) := by
  apply endsAs_mapM
  intro value hmem
  cases value with
  | null => exact EndsAs.pure none
  | _ => exact (h _ hmem (fun hnull => by cases hnull)).map

theorem Decoded.of_flat {value : Value} (flat : T.id ∉ nestedIds) (h : Decoded T value) :
    value = .null ∨ (∃ n, value = .int n) ∨ FlatValue T value := by
  cases h with
  | null => exact .inl rfl
  | int T n => exact .inr (.inl ⟨n, rfl⟩)
  | flat _ kind => exact .inr (.inr kind)
  | list id => rcases id with id | id <;> exact absurd (by rw [id]; decide) flat
  | array id => exact absurd (by rw [id]; decide) flat
  | struct id => rcases id with id | id <;> exact absurd (by rw [id]; decide) flat

section
variable {extract : Value → Build α}

theorem endsAs_misfit {n : I64} {e : BuildError} (hfits : ¬ IntFits T.id n) (he : ¬ e.Documented) :
    EndsBuild (rowObstacle T (.int n)).toList (.error e : Build α) := by
  rw [rowObstacle, if_neg hfits]
  exact EndsAs.misfit he

theorem endsAs_flat (flat : T.id ∉ nestedIds) (hvalues : DecodedColumn T values)
    (hint : ∀ n, EndsBuild (rowObstacle T (.int n)).toList (extract (.int n)))
    (hkind : ∀ value, FlatValue T value → EndsBuild (rowObstacle T value).toList (extract value)) :
    EndsBuild (values.filterMap (rowObstacle T)) (collectSlots extract values) := by
  apply endsAs_collect
  intro value hmem hnull
  rcases (hvalues value hmem).of_flat flat with h | ⟨n, rfl⟩ | kind
  · exact absurd h hnull
  · exact hint n
  · exact hkind value kind

/-- A column whose values are no plain integers. -/
theorem endsAs_others {id : LogicalTypeId} (flat : T.id ∉ nestedIds) (hvalues : DecodedColumn T values)
    (hfits : ∀ n, ¬ IntFits T.id n) (hmismatch : ∀ n, extract (.int n) = .error (.mismatch id (.int n)))
    (hkind : ∀ value, FlatValue T value → EndsBuild (rowObstacle T value).toList (extract value)) :
    EndsBuild (values.filterMap (rowObstacle T)) (collectSlots extract values) := by
  refine endsAs_flat flat hvalues (fun n => ?_) hkind
  rw [hmismatch]
  exact endsAs_misfit (hfits n) fun h => h

theorem endsAs_buildInts {extract : Value → Build Int} (flat : T.id ∉ nestedIds)
    (hvalues : DecodedColumn T values)
    (hint : ∀ n, EndsBuild (rowObstacle T (.int n)).toList (extract (.int n)))
    (hkind : ∀ value, FlatValue T value → EndsBuild (rowObstacle T value).toList (extract value)) :
    EndsBuild (values.filterMap (rowObstacle T)) (buildInts D extract values) :=
  EndsBuild.last (endsAs_flat flat hvalues (fun n => (hint n).map) fun value kind => (hkind value kind).map)

end

theorem endsAs_limitUnless {holds : Prop} [Decidable holds] {x : Build α} (hok : holds → ∃ a, x = .ok a)
    (herr : ¬ holds → ∃ e : BuildError, x = .error e ∧ e.Documented) :
    EndsBuild (limitUnless holds) x := by
  by_cases h : holds
  · obtain ⟨a, rfl⟩ := hok h
    rw [limitUnless, if_pos h]
    exact ⟨a, rfl⟩
  · obtain ⟨e, rfl, he⟩ := herr h
    rw [limitUnless, if_neg h]
    exact ⟨e, rfl, he⟩

theorem endsAs_withLimits {limits : Except String Unit} {x : Build ArrowArray} {before : List Obstacle}
    (hx : EndsBuild before x) : EndsBuild (before ++ limitUnless (limits.isOk = true))
      (x >>= fun array => withLimits limits array) := by
  refine hx.bind fun array _ => endsAs_limitUnless (fun h => ?_) fun h => ?_
  · cases limits with
    | ok u => exact ⟨array, rfl⟩
    | error text => cases h
  · cases limits with
    | ok u => exact absurd rfl h
    | error text => exact ⟨.decimalRejected text, rfl, trivial⟩

theorem endsAs_byteCapacity {id : LogicalTypeId} {lengths : List Nat} :
    EndsBuild (limitUnless (lengths.sum ≤ i32Max)) (byteCapacity id lengths) := by
  refine endsAs_limitUnless (fun h => ⟨(), ?_⟩) fun h => ⟨.byteLimit id lengths.sum, ?_, trivial⟩
  · rw [byteCapacity, if_neg (by omega)]
    rfl
  · rw [byteCapacity, if_pos (by omega)]
    rfl

/-- The bytes of a column, counted once its rows have been taken apart. -/
theorem sum_byteLength {extract : Value → Build β} (size : β → Nat) {slots : List (Option β)}
    (hextract : ∀ value b, extract value = .ok b → byteLength value = size b)
    (h : collectSlots extract values = .ok slots) :
    (slots.reduceOption.map size).sum = (values.map byteLength).sum := by
  have hrows := Except.mapM_ok_iff.mp h
  clear h
  induction hrows with
  | nil => rfl
  | @cons value slot values slots hvalue _ ih =>
      cases hslot : slot with
      | none =>
          subst hslot
          have hnull : value = .null := by
            cases value <;> first
              | rfl
              | (obtain ⟨b, -, h⟩ := Except.map_eq_ok hvalue
                 cases h)
          subst hnull
          rw [List.reduceOption_cons_of_none, ih, List.map_cons, List.sum_cons]
          exact (Nat.zero_add _).symm
      | some b =>
          subst hslot
          have hb : extract value = .ok b := by
            cases value <;> first
              | cases hvalue
              | (obtain ⟨b', hb', h⟩ := Except.map_eq_ok hvalue
                 cases h
                 exact hb')
          rw [List.reduceOption_cons_of_some, List.map_cons, List.sum_cons, ih, List.map_cons,
            List.sum_cons, hextract value b hb]

theorem endsAs_buildTexts {id : LogicalTypeId}
    (hslots : EndsBuild (values.filterMap (rowObstacle T)) (collectSlots (asStr id) values)) :
    EndsBuild (values.filterMap (rowObstacle T) ++ limitUnless ((values.map byteLength).sum ≤ i32Max))
      (buildTexts id values) := by
  refine hslots.bind fun strings hstrings => EndsBuild.last ?_
  rw [← sum_byteLength (fun text => (utf8Bytes text).length) (fun value text htext => ?_) hstrings]
  · exact endsAs_byteCapacity
  · cases value <;> cases htext
    rfl

theorem endsAs_buildBlobs {id : LogicalTypeId}
    (hslots : EndsBuild (values.filterMap (rowObstacle T)) (collectSlots (asBytes id) values)) :
    EndsBuild (values.filterMap (rowObstacle T) ++ limitUnless ((values.map byteLength).sum ≤ i32Max))
      (buildBlobs id values) := by
  refine hslots.bind fun blobs hblobs => EndsBuild.last ?_
  rw [← sum_byteLength List.length (fun value raw hraw => ?_) hblobs]
  · exact endsAs_byteCapacity
  · cases value <;> cases hraw
    rfl

theorem endsAs_narrowInt {id : LogicalTypeId} {width : Nat} {n : I64} (hid : id ≠ .time ∧ id ≠ .timeNs)
    (h : IntFits T.id n ↔ SignedRange width n.toInt) :
    EndsBuild (rowObstacle T (.int n)).toList (narrowInt id width (.int n)) := by
  by_cases hrange : SignedRange width n.toInt
  · have hok : narrowInt id width (.int n) = .ok n.toInt := if_pos hrange
    rw [rowObstacle, if_pos (h.mpr hrange), hok]
    exact EndsAs.pure _
  · have herr : narrowInt id width (.int n) = .error (.outOfRange id n.toInt) := if_neg hrange
    rw [herr]
    exact endsAs_misfit (fun hfits => hrange (h.mp hfits)) fun hdocumented =>
      hdocumented.elim hid.1 hid.2

theorem endsAs_narrowUint {id : LogicalTypeId} {width : Nat} {n : U64} (h : n.toNat < 2 ^ width) :
    EndsBuild (rowObstacle T (.uint n)).toList (Scalar.int <$> narrowUint id width (.uint n)) := by
  have hok : narrowUint id width (.uint n) = .ok (n.toNat : Int) := if_pos h
  rw [hok]
  exact EndsAs.pure _

theorem endsAs_asTime {id : LogicalTypeId} {unit : TimeUnit} {n : I64} (hid : id = .time ∨ id = .timeNs) :
    EndsBuild (rowObstacle T (.time ⟨unit, n⟩)).toList (asTime id unit (.time ⟨unit, n⟩)) := by
  have heq : asTime id unit (.time ⟨unit, n⟩) =
      if 0 ≤ n.toInt ∧ n.toInt < dayLimit unit then .ok n else .error (.outOfRange id n.toInt) := by
    cases unit <;> rfl
  rw [heq, rowObstacle]
  by_cases hday : 0 ≤ n.toInt ∧ n.toInt < dayLimit unit
  · rw [if_pos hday, if_pos hday]
    exact EndsAs.pure _
  · rw [if_neg hday, if_neg hday]
    exact EndsAs.limit hid

theorem endsAs_asInterval {id : LogicalTypeId} {interval : IntervalValue} :
    EndsBuild (rowObstacle T (.interval interval)).toList (asInterval id (.interval interval)) := by
  rw [rowObstacle, asInterval]
  by_cases hrange : SignedRange 64 (interval.micros.toInt * 1000)
  · rw [if_pos hrange, if_pos hrange]
    exact EndsAs.pure _
  · rw [if_neg hrange, if_neg hrange]
    exact EndsAs.limit trivial

theorem endsAs_sqlNull (hid : T.id = .sqlNull) (hvalues : DecodedColumn T values) :
    EndsBuild (values.filterMap (rowObstacle T)) (match values.find? fun value => !value.isNull with
      | some value => .error (.mismatch .sqlNull value)
      | none => .ok (ArrowArray.null values.length)) := by
  cases hfind : values.find? fun value => !value.isNull with
  | none =>
      have hnulls : values.filterMap (rowObstacle T) = [] := by
        apply List.filterMap_eq_nil_iff.mpr
        intro value hmem
        have hnull := List.find?_eq_none.mp hfind value hmem
        cases value <;> first | rfl | exact absurd rfl hnull
      rw [hnulls]
      exact EndsAs.pure _
  | some value =>
      obtain ⟨hvalue, before, after, rfl, hbefore⟩ := List.find?_eq_some_iff_append.mp hfind
      have hnulls : before.filterMap (rowObstacle T) = [] := by
        apply List.filterMap_eq_nil_iff.mpr
        intro value hmem
        have hnull := hbefore value hmem
        cases value <;> first | rfl | cases hnull
      have hint : ∃ n, value = .int n := by
        rcases (hvalues value (by simp)).of_flat (by rw [hid]; decide) with rfl | hint | kind
        · cases hvalue
        · exact hint
        · simpa only [FlatValue, hid] using kind
      obtain ⟨n, rfl⟩ := hint
      have hmisfit : rowObstacle T (.int n) = some .misfit := if_neg (by rw [hid]; exact id)
      rw [List.filterMap_append, hnulls, List.filterMap_cons, hmisfit]
      exact EndsAs.misfit id

/-- A column without parts. -/
theorem endsAs_buildScalar (hD : arrowScalarType T = .ok D) (flat : T.id ∉ nestedIds)
    (hvalues : DecodedColumn T values) :
    EndsBuild (values.filterMap (rowObstacle T) ++ columnObstacles arrow T (values.map byteLength).sum)
      (buildScalar arrow T values) := by
  cases hid : T.id <;> simp only [arrowScalarType, hid] at hD <;> try cases hD
  all_goals simp only [columnObstacles, buildScalar, hid, List.append_nil]
  case sqlNull => exact endsAs_sqlNull hid hvalues
  case boolean | float | double =>
    refine EndsBuild.last (endsAs_others flat hvalues (by simp [IntFits, hid]) (fun n => rfl)
      fun value kind => ?_)
    simp only [FlatValue, hid] at kind
    obtain ⟨b, rfl⟩ := kind
    exact EndsAs.pure _
  case tinyInt | smallInt | integer =>
    refine endsAs_buildInts flat hvalues (fun n => endsAs_narrowInt (by decide) (by rw [hid]; rfl))
      fun value kind => ?_
    simp only [FlatValue, hid] at kind
    obtain ⟨n, rfl⟩ := kind
    exact endsAs_narrowInt (by decide) (by rw [hid]; rfl)
  case bigInt =>
    have hint (n : I64) : EndsBuild (rowObstacle T (.int n)).toList (BitVec.toInt <$> asInt .bigInt (.int n)) := by
      rw [rowObstacle, if_pos (by rw [hid]; trivial)]
      exact EndsAs.pure _
    apply endsAs_buildInts flat hvalues hint
    intro value kind
    simp only [FlatValue, hid] at kind
    obtain ⟨n, rfl⟩ := kind
    exact hint n
  case uTinyInt | uSmallInt | uInteger =>
    refine EndsBuild.last (endsAs_others flat hvalues (by simp [IntFits, hid]) (fun n => rfl)
      fun value kind => ?_)
    simp only [FlatValue, hid] at kind
    obtain ⟨n, hn, rfl⟩ := kind
    exact endsAs_narrowUint hn
  case uBigInt | date | timestampSec | timestampMs | timestamp | timestampNs | timestampTz =>
    refine EndsBuild.last (endsAs_others flat hvalues (by simp [IntFits, hid]) (fun n => rfl)
      fun value kind => ?_)
    simp only [FlatValue, hid] at kind
    obtain ⟨n, rfl⟩ := kind
    exact EndsAs.pure _
  case hugeInt | uHugeInt =>
    refine endsAs_withLimits (EndsBuild.last
      (endsAs_others flat hvalues (by simp [IntFits, hid]) (fun n => rfl)
      fun value kind => ?_))
    simp only [FlatValue, hid] at kind
    obtain ⟨n, rfl⟩ := kind
    exact EndsAs.pure _
  case decimal =>
    obtain ⟨⟨precision, scale⟩, hlimits, -⟩ := Except.bind_eq_ok hD
    rw [hlimits]
    refine endsAs_withLimits (EndsBuild.last
      (endsAs_others flat hvalues (by simp [IntFits, hid]) (fun n => rfl)
      fun value kind => ?_))
    simp only [FlatValue, hid] at kind
    obtain ⟨decimal, rfl⟩ := kind
    exact EndsAs.pure _
  case varchar | char | enum | uuid =>
    refine endsAs_buildTexts (endsAs_others flat hvalues (by simp [IntFits, hid]) (fun n => rfl)
      fun value kind => ?_)
    simp only [FlatValue, hid] at kind
    obtain ⟨text, rfl⟩ := kind
    exact EndsAs.pure _
  case blob | geometry | bit =>
    refine endsAs_buildBlobs (endsAs_others flat hvalues (by simp [IntFits, hid]) (fun n => rfl)
      fun value kind => ?_)
    simp only [FlatValue, hid] at kind
    obtain ⟨raw, rfl⟩ := kind
    exact EndsAs.pure _
  case time | timeNs =>
    refine EndsBuild.last (endsAs_others flat hvalues (by simp [IntFits, hid]) (fun n => rfl)
      fun value kind => ?_)
    simp only [FlatValue, hid] at kind
    obtain ⟨n, rfl⟩ := kind
    exact ((endsAs_asTime (by simp)).map).map
  case interval =>
    refine EndsBuild.last (endsAs_others flat hvalues (by simp [IntFits, hid]) (fun n => rfl)
      fun value kind => ?_)
    simp only [FlatValue, hid] at kind
    obtain ⟨interval, rfl⟩ := kind
    exact endsAs_asInterval

/-- The values of a nested column. -/
theorem Decoded.of_nested {value : Value} (nested : T.id ∈ nestedIds) (h : Decoded T value) :
    value = .null ∨ (∃ n, value = .int n) ∨
      ((T.id = .list ∨ T.id = .map ∨ T.id = .array) ∧ ∃ items, value = .list items) ∨
      ((T.id = .struct ∨ T.id = .variant) ∧ ∃ row, value = .struct row) := by
  cases h with
  | null => exact .inl rfl
  | int T n => exact .inr (.inl ⟨n, rfl⟩)
  | flat flat => exact absurd nested flat
  | list id => exact .inr (.inr (.inl ⟨id.imp_right .inl, _, rfl⟩))
  | array id => exact .inr (.inr (.inl ⟨.inr (.inr id), _, rfl⟩))
  | struct id => exact .inr (.inr (.inr ⟨id, _, rfl⟩))

theorem rowObstacle_int {n : I64} (nested : T.id ∈ nestedIds) : rowObstacle T (.int n) = some .misfit := by
  apply if_neg
  intro h
  simp only [nestedIds, List.mem_cons, List.not_mem_nil, or_false] at nested
  rcases nested with hid | hid | hid | hid | hid <;> rw [hid] at h <;> exact h

theorem endsAs_gatherItems {count : Nat} (id : T.id = .list ∨ T.id = .map) (hvalues : DecodedColumn T values) :
    EndsBuild (listObstacles T count values) (gatherItems T.id count values) := by
  have nested : T.id ∈ nestedIds := by rcases id with id | id <;> rw [id] <;> decide
  have hoffset (count : Nat) : EndsBuild (limitUnless (count ≤ i32Max)) (gatherItems.offsetOf T.id count) :=
    endsAs_limitUnless (fun h => ⟨count, if_pos h⟩) fun h => ⟨.offsetLimit T.id, if_neg h, trivial⟩
  induction values generalizing count with
  | nil => exact EndsAs.pure _
  | cons value values ih =>
      obtain ⟨hvalue, hrest⟩ := List.forall_mem_cons.mp hvalues
      rcases hvalue.of_nested nested with rfl | ⟨n, rfl⟩ | ⟨-, items, rfl⟩ | ⟨id', -⟩
      · exact (hoffset count).bind fun offset _ => (ih hrest).last
      · rw [listObstacles, rowObstacle_int nested]
        · exact EndsAs.misfit fun h => h
        · exact fun _ h => by cases h
        · exact fun h => by cases h
      · exact (hoffset _).bind fun offset _ => (ih hrest).last
      · rcases id with id | id <;> rw [id] at id' <;> rcases id' with h | h <;> cases h

theorem gatherItems_items {id : LogicalTypeId} {count : Nat} {offsets : List Nat} {validity : List Bool}
    {items : List Value} (h : gatherItems id count values = .ok (offsets, validity, items)) :
    items = listItems values ∧ (count :: offsets).IsChain (· ≤ ·) ∧
      (count :: offsets).getLast? = some (count + items.length) := by
  induction values generalizing count items offsets validity with
  | nil =>
      cases h
      simp [listItems]
  | cons value values ih =>
      obtain ⟨own, rest, rfl, offsets', _, _, rfl, -, hrest, hcase⟩ := gatherItems_cons h
      obtain ⟨hitems, hsorted, hlast⟩ := ih hrest
      refine ⟨?_, List.isChain_cons_cons.mpr ⟨Nat.le_add_right _ _, hsorted⟩, ?_⟩
      · rw [hitems]
        rcases hcase with ⟨rfl, rfl, -⟩ | ⟨rfl, -⟩
        · rfl
        · rfl
      · rw [List.getLast?_cons_cons, hlast, List.length_append, Nat.add_assoc]

/-- Every list of an array column is as long as the type says. -/
theorem Decoded.length_eq {items : List Value} {size : Int} (id : T.id = .array)
    (hsize : arraySize T = .ok size) (h : Decoded T (.list items)) : items.length = size.toNat := by
  obtain ⟨declared, hdeclared, hsize⟩ := Except.bind_eq_ok hsize
  cases h with
  | flat flat => exact absurd (by rw [id]; decide) flat
  | list id' => rcases id' with h | h <;> rw [id] at h <;> cases h
  | array _ _ arraySize length =>
      rw [arraySize] at hdeclared
      cases hdeclared
      split at hsize <;> cases hsize
      rw [length, Int.toNat_natCast]

theorem endsAs_gatherWindows {size : Int} (id : T.id = .array) (hsize : arraySize T = .ok size)
    (hvalues : DecodedColumn T values) :
    EndsBuild (values.filterMap (rowObstacle T)) (gatherWindows T.id size.toNat values) := by
  have nested : T.id ∈ nestedIds := by rw [id]; decide
  induction values with
  | nil => exact EndsAs.pure _
  | cons value values ih =>
      obtain ⟨hvalue, hrest⟩ := List.forall_mem_cons.mp hvalues
      rcases hvalue.of_nested nested with rfl | ⟨n, rfl⟩ | ⟨-, items, rfl⟩ | ⟨id', -⟩
      · rw [List.filterMap_cons_none rfl]
        exact (ih hrest).last
      · rw [List.filterMap_cons_some (rowObstacle_int nested)]
        exact EndsAs.misfit fun h => h
      · rw [List.filterMap_cons_none rfl, gatherWindows,
          if_neg (not_not.mpr (hvalue.length_eq id hsize))]
        exact (ih hrest).last
      · rw [id] at id'
        rcases id' with h | h <;> cases h

theorem gatherWindows_items {id : LogicalTypeId} {width : Nat} {validity : List Bool} {items : List Value}
    (h : gatherWindows id width values = .ok (validity, items)) : items = windowItems width values := by
  induction values generalizing items validity with
  | nil =>
      cases h
      rfl
  | cons value values ih =>
      obtain ⟨own, rest, rfl, -, _, _, -, hrest, hcase⟩ := gatherWindows_cons h
      rw [ih hrest]
      rcases hcase with ⟨rfl, rfl, -⟩ | ⟨rfl, -⟩
      · rfl
      · rfl

theorem Decoded.items {items : List Value} (child : getChildType T = .ok childType)
    (nested : T.id ∈ nestedIds) (h : Decoded T (.list items)) : DecodedColumn childType items := by
  cases h with
  | flat flat => exact absurd nested flat
  | list _ child' inside =>
      cases child.symm.trans child'
      exact inside
  | array _ child' _ _ inside =>
      cases child.symm.trans child'
      exact inside

theorem decoded_listItems (child : getChildType T = .ok childType) (nested : T.id ∈ nestedIds)
    (hvalues : DecodedColumn T values) : DecodedColumn childType (listItems values) := by
  intro item hmem
  obtain ⟨value, hvalue, hitem⟩ := List.mem_flatMap.mp hmem
  cases value with
  | list items => exact (hvalues _ hvalue).items child nested item hitem
  | _ => cases hitem

theorem decoded_windowItems {width : Nat} (child : getChildType T = .ok childType)
    (nested : T.id ∈ nestedIds) (hvalues : DecodedColumn T values) :
    DecodedColumn childType (windowItems width values) := by
  intro item hmem
  obtain ⟨value, hvalue, hitem⟩ := List.mem_flatMap.mp hmem
  cases value with
  | list items => exact (hvalues _ hvalue).items child nested item hitem
  | _ =>
      rw [List.eq_of_mem_replicate hitem]
      exact .null childType

section
variable {children : List ChildType} {row : Row} {child : ChildType}

/-- A decoded row of a struct column. -/
theorem Decoded.fields (structChildren : getStructChildren T = .ok children) (nested : T.id ∈ nestedIds)
    (h : Decoded T (.struct row)) : (row.map Prod.fst).Nodup ∧
      (∀ name, name ∈ row.map Prod.fst ↔ name ∈ children.map ChildType.name) ∧
      ((children.map ChildType.name).Nodup → ∀ child ∈ children, ∀ value,
        Row.get row child.name = some value → Decoded child.logicalType value) := by
  cases h with
  | flat flat => exact absurd nested flat
  | struct _ structChildren' keys names inside =>
      cases structChildren.symm.trans structChildren'
      exact ⟨keys, names, inside⟩

/-- A row has as many fields as its type has children exactly if their names are distinct. -/
theorem arity_iff (keys : (row.map Prod.fst).Nodup)
    (names : ∀ name, name ∈ row.map Prod.fst ↔ name ∈ children.map ChildType.name) :
    row.length = children.length ↔ (children.map ChildType.name).Nodup := by
  have hrow : (row.map Prod.fst).length = row.length := List.length_map ..
  have hchildren : (children.map ChildType.name).length = children.length := List.length_map ..
  rw [← hrow, ← hchildren]
  constructor
  · intro hlen
    have hsub := List.subperm_of_subset keys fun name hname => (names name).mp hname
    exact (hsub.perm_of_length_le hlen.ge).nodup_iff.mp keys
  · exact fun hnodup => ((List.perm_ext_iff_of_nodup keys hnodup).mpr names).length_eq

theorem endsAs_structValidity (id : T.id = .struct ∨ T.id = .variant)
    (structChildren : getStructChildren T = .ok children) (hvalues : DecodedColumn T values) :
    EndsBuild (values.filterMap (rowObstacle T)) (values.mapM (structValidity T.id children.length)) := by
  have nested : T.id ∈ nestedIds := by rcases id with id | id <;> rw [id] <;> decide
  apply endsAs_mapM
  intro value hmem
  have hvalue := hvalues value hmem
  rcases hvalue.of_nested nested with rfl | ⟨n, rfl⟩ | ⟨id', -⟩ | ⟨-, row, rfl⟩
  · exact EndsAs.pure _
  · rw [rowObstacle_int nested]
    exact EndsAs.misfit fun h => h
  · rcases id with id | id <;> rw [id] at id' <;> rcases id' with h | h | h <;> cases h
  · obtain ⟨keys, names, -⟩ := hvalue.fields structChildren nested
    have harity := arity_iff keys names
    have hnames : childNames T = children.map ChildType.name := by rw [childNames, structChildren]
    rw [rowObstacle, structValidity, hnames]
    by_cases hnodup : (children.map ChildType.name).Nodup
    · rw [if_pos hnodup, if_neg (not_not.mpr (harity.mpr hnodup))]
      exact EndsAs.pure _
    · rw [if_neg hnodup, if_pos fun hlen => hnodup (harity.mp hlen)]
      exact EndsAs.misfit fun h => h

theorem mapM_eq_map {f : Value → Build β} {g : Value → β} (h : ∀ value ∈ values, f value = .ok (g value)) :
    values.mapM f = .ok (values.map g) := by
  induction values with
  | nil => rfl
  | cons value values ih =>
      obtain ⟨hvalue, hvalues⟩ := List.forall_mem_cons.mp h
      rw [List.mapM_cons, hvalue, ih hvalues]
      rfl

theorem structSlot_eq {id : LogicalTypeId} {childIndex : Nat} (keys : (row.map Prod.fst).Nodup)
    (hname : child.name ∈ row.map Prod.fst) :
    structSlot id child childIndex (.struct row) = .ok (structField child.name (.struct row)) := by
  obtain ⟨value, hvalue⟩ := Option.isSome_iff_exists.mp (Row.get_isSome.mpr hname)
  have hbyName : structSlot.byName id child row = .ok value := by rw [structSlot.byName, hvalue]
  rw [structField, hvalue, Option.getD_some, structSlot]
  split
  · rename_i name field hfield
    by_cases heq : name = child.name
    · rw [if_pos heq]
      have hget := Row.get_of_mem keys (List.mem_of_getElem? hfield)
      rw [heq, hvalue] at hget
      cases hget
      rfl
    · rw [if_neg heq, hbyName]
  · exact hbyName

/-- A row that passed is NULL, or there in full. -/
theorem complete_of_validity (nested : T.id ∈ nestedIds) (structChildren : getStructChildren T = .ok children)
    {value : Value} {valid : Bool} (hvalue : Decoded T value)
    (h : structValidity T.id children.length value = .ok valid) :
    value = .null ∨ ∃ row, value = .struct row ∧ (children.map ChildType.name).Nodup := by
  rcases structValidity_ok h with ⟨hnull, -⟩ | ⟨row, rfl, -⟩
  · exact .inl hnull
  · obtain ⟨keys, names, -⟩ := hvalue.fields structChildren nested
    refine .inr ⟨row, rfl, (arity_iff keys names).mp ?_⟩
    rw [structValidity] at h
    by_contra hlen
    rw [if_pos hlen] at h
    cases h

/-- Where every row passed, the column of a child has its field of every row. -/
theorem structSlot_column {childIndex : Nat} {validity : List Bool} (hchild : child ∈ children)
    (nested : T.id ∈ nestedIds) (structChildren : getStructChildren T = .ok children)
    (hvalues : DecodedColumn T values)
    (hvalidity : values.mapM (structValidity T.id children.length) = .ok validity) :
    values.mapM (structSlot T.id child childIndex) = .ok (structColumn child.name values) ∧
      DecodedColumn child.logicalType (structColumn child.name values) := by
  have hrows := Except.mapM_ok_iff.mp hvalidity
  have hcomplete (value : Value) (hmem : value ∈ values) :
      value = .null ∨ ∃ row, value = .struct row ∧ (children.map ChildType.name).Nodup := by
    obtain ⟨i, hi, rfl⟩ := List.getElem_of_mem hmem
    have hi' : i < validity.length := by rwa [← hrows.length_eq]
    exact complete_of_validity nested structChildren (hvalues _ hmem) (hrows.get hi hi')
  have hname : child.name ∈ children.map ChildType.name := List.mem_map_of_mem hchild
  constructor
  · apply mapM_eq_map
    intro value hmem
    rcases hcomplete value hmem with rfl | ⟨row, rfl, -⟩
    · rfl
    · obtain ⟨keys, names, -⟩ := (hvalues _ hmem).fields structChildren nested
      exact structSlot_eq keys ((names _).mpr hname)
  · intro field hfield
    obtain ⟨value, hmem, rfl⟩ := List.mem_map.mp hfield
    rcases hcomplete value hmem with rfl | ⟨row, rfl, hnodup⟩
    · exact .null _
    · obtain ⟨keys, names, inside⟩ := (hvalues _ hmem).fields structChildren nested
      obtain ⟨value, hvalue⟩ := Option.isSome_iff_exists.mp (Row.get_isSome.mpr ((names _).mpr hname))
      rw [structField, hvalue]
      exact inside hnodup child hchild value hvalue

end

/-- The constructors of the Arrow library take parts that belong together: children of the fields' types,
as many offsets, windows and slots as rows. -/
structure ArrowLibrary.Accepts (arrow : ArrowLibrary) : Prop where
  list : ∀ {item : ArrowField} {offsets : List Nat} {child : ArrowArray} {validity : List Bool},
    item.nullable = true → child.dataType = item.dataType → offsets.head? = some 0 →
      offsets.IsChain (· ≤ ·) → offsets.getLast? = some child.length →
      offsets.length = validity.length + 1 → ∃ array, arrow.tryNewList item offsets child validity = .ok array
  fixedSizeList : ∀ {item : ArrowField} {size : Int} {child : ArrowArray} {validity : List Bool},
    item.nullable = true → child.dataType = item.dataType → 0 ≤ size →
      child.length = validity.length * size.toNat →
      ∃ array, arrow.tryNewFixedSizeList item size child validity = .ok array
  struct : ∀ {fields : List ArrowField} {children : List ArrowArray} {validity : List Bool} {length : Nat},
    List.Forall₂ (fun field child => field.nullable = true ∧ child.dataType = field.dataType ∧
      child.length = length) fields children → validity.length = length →
      ∃ array, arrow.tryNewStruct fields children validity length = .ok array

theorem obstacles_flat (flat : T.id ∉ nestedIds) :
    obstacles arrow T values =
      values.filterMap (rowObstacle T) ++ columnObstacles arrow T (values.map byteLength).sum := by
  rw [obstacles]
  cases hid : T.id <;> simp only [hid] at flat ⊢ <;> exact absurd (by decide) flat

theorem obstacles_list (id : T.id = .list ∨ T.id = .map) (child : getChildType T = .ok childType) :
    obstacles arrow T values = listObstacles T 0 values ++ obstacles arrow childType (listItems values) := by
  rw [obstacles]
  rcases id with hid | hid <;> simp only [hid] <;> split
  all_goals first
    | (rename_i childType' child'
       cases child.symm.trans child'
       rfl)
    | (rename_i e he
       cases child.symm.trans he)

theorem obstacles_array {size : Int} (id : T.id = .array) (child : getChildType T = .ok childType)
    (hsize : arraySize T = .ok size) :
    obstacles arrow T values = windowObstacles values.length size.toNat ++
      values.filterMap (rowObstacle T) ++ obstacles arrow childType (windowItems size.toNat values) := by
  rw [obstacles]
  simp only [id]
  split
  · rename_i childType' child'
    cases child.symm.trans child'
    rw [hsize]
  · rename_i e he
    cases child.symm.trans he

theorem obstacles_struct {children : List ChildType} (id : T.id = .struct ∨ T.id = .variant)
    (structChildren : getStructChildren T = .ok children) :
    obstacles arrow T values = values.filterMap (rowObstacle T) ++ children.flatMap fun child =>
      obstacles arrow child.logicalType (structColumn child.name values) := by
  have hattach : (children.attach.flatMap fun child =>
      obstacles arrow child.val.logicalType (structColumn child.val.name values)) =
        children.flatMap fun child => obstacles arrow child.logicalType (structColumn child.name values) := by
    conv_rhs => rw [← List.attach_map_subtype_val children, List.flatMap_map]
  rw [obstacles]
  rcases id with hid | hid <;> simp only [hid] <;> split
  all_goals first
    | (rename_i children' hchildren
       cases structChildren.symm.trans hchildren
       exact congrArg _ hattach)
    | (rename_i e he
       cases structChildren.symm.trans he)

theorem endsAs_sequence {lists : List (List Obstacle)} {actions : List (Outcome BuildError α)}
    (h : List.Forall₂ EndsAs lists actions) : EndsAs lists.flatten (sequence actions) := by
  induction h with
  | nil => exact EndsAs.pure _
  | cons hfirst _ ih => exact hfirst.bind fun a _ => ih.last fun rest _ => ⟨_, rfl⟩

theorem accepted {x : Except String ArrowArray} (h : ∃ array, x = .ok array) :
    ∃ array, (liftM (x.mapError BuildError.rejected) : Outcome BuildError ArrowArray) = .ok array := by
  obtain ⟨array, rfl⟩ := h
  exact ⟨array, rfl⟩

theorem endsAs_windows {count width : Nat} {next : Outcome BuildError α} {rest : List Obstacle}
    (h : EndsAs rest next) : EndsAs (windowObstacles count width ++ rest) (do
      Outcome.check (count * width < usizeLimit) .overflow
      Outcome.check (count * width * wordSize ≤ isizeMax) .capacity
      next) := by
  rw [windowObstacles, Outcome.check, Outcome.check]
  by_cases hfits : count * width * wordSize ≤ isizeMax
  · have hproduct : count * width < usizeLimit := by
      simp only [wordSize, isizeMax] at hfits
      simp only [usizeLimit]
      omega
    rw [if_pos hfits, if_pos hfits, if_pos hproduct]
    exact h
  · rw [if_neg hfits, if_neg hfits]
    by_cases hproduct : count * width < usizeLimit
    · rw [if_pos hproduct]
      exact .inr ⟨_, rfl⟩
    · rw [if_neg hproduct]
      exact .inr ⟨_, rfl⟩

/-- The build of a decoded column ends as its first obstacle says. -/
theorem endsAs_buildArray (harrow : arrow.Stores) (haccepts : arrow.Accepts) (hD : arrowType T = .ok D)
    (hvalues : DecodedColumn T values) : EndsAs (obstacles arrow T values) (buildArray arrow T D values) := by
  induction T using LogicalType.childInduction generalizing D values with
  | step T ih =>
      cases arrowTyped hD with
      | scalar flat scalarType =>
          rw [obstacles_flat flat, buildArray_scalar flat]
          exact endsAs_buildScalar scalarType flat hvalues
      | @list childType itemType id child item =>
          have nested : T.id ∈ nestedIds := by rcases id with id | id <;> rw [id] <;> decide
          rw [obstacles_list id child, buildArray_list id, buildList_eq child]
          apply EndsAs.bind (endsAs_gatherItems id hvalues)
          intro gathered hgathered
          obtain ⟨offsets, validity, items⟩ := gathered
          have hgather := Outcome.lift_eq_ok hgathered
          obtain ⟨rfl, hsorted, hlast⟩ := gatherItems_items hgather
          obtain ⟨hoffsets, hvalidity, -⟩ := gatherItems_rows hgather
          refine (ih childType (getChildType_mem child) item (decoded_listItems child nested hvalues)).last
            fun inner hinner => accepted ?_
          obtain ⟨hdataType, hlength⟩ := buildArray_shape harrow item hinner
          refine haccepts.list rfl hdataType rfl hsorted ?_ (by rw [List.length_cons, hoffsets, hvalidity])
          rw [hlast, hlength, Nat.zero_add]
      | @array childType itemType size id child item hsize =>
          have nested : T.id ∈ nestedIds := by rw [id]; decide
          rw [obstacles_array id child hsize, buildArray_array id,
            buildFixedSizeList_eq child (arraySize_nonneg hsize), List.append_assoc]
          refine endsAs_windows (EndsAs.bind (endsAs_gatherWindows id hsize hvalues) fun gathered hgathered => ?_)
          obtain ⟨validity, items⟩ := gathered
          have hgather := Outcome.lift_eq_ok hgathered
          obtain rfl := gatherWindows_items hgather
          obtain ⟨hvalidity, hitems, -⟩ := gatherWindows_rows hgather
          refine (ih childType (getChildType_mem child) item (decoded_windowItems child nested hvalues)).last
            fun inner hinner => accepted ?_
          obtain ⟨hdataType, hlength⟩ := buildArray_shape harrow item hinner
          exact haccepts.fixedSizeList rfl hdataType (arraySize_nonneg hsize)
            (by rw [hlength, hitems, hvalidity])
      | @struct children fields id structChildren fieldTypes =>
          have nested : T.id ∈ nestedIds := by rcases id with id | id <;> rw [id] <;> decide
          rw [obstacles_struct id structChildren, buildArray_struct id,
            buildStruct_eq structChildren fieldTypes.length_eq]
          apply EndsAs.bind (endsAs_structValidity id structChildren hvalues)
          intro validity hvalid
          have hvalidity := Outcome.lift_eq_ok hvalid
          have hcolumn (j : Nat) (hj : j < children.length) :
              values.mapM (structSlot T.id children[j] j) = .ok (structColumn children[j].name values) ∧
                DecodedColumn children[j].logicalType (structColumn children[j].name values) :=
            structSlot_column (List.getElem_mem hj) nested structChildren hvalues hvalidity
          have hbuild (j : Nat) (hj : j < children.length) (hj' : j < fields.length) :
              buildChild arrow T.id values ((children[j], fields[j]), j) =
                buildArray arrow children[j].logicalType fields[j].dataType
                  (structColumn children[j].name values) := by
            rw [buildChild, (hcolumn j hj).1]
            rfl
          have hends : List.Forall₂ EndsAs
              (children.map fun child => obstacles arrow child.logicalType (structColumn child.name values))
              ((children.zip fields).zipIdx.map (buildChild arrow T.id values)) := by
            refine List.forall₂_iff_get.mpr ⟨by simp [fieldTypes.length_eq], fun j hj hj' => ?_⟩
            rw [List.length_map] at hj
            have hf : j < fields.length := by rwa [← fieldTypes.length_eq]
            simp only [List.get_eq_getElem, List.getElem_map, List.getElem_zipIdx, List.getElem_zip, Nat.zero_add]
            obtain ⟨dataType, hdataType, hfield⟩ := fieldTypes.get hj hf
            rw [List.get_eq_getElem] at hdataType hfield
            rw [hbuild j hj hf, hfield]
            exact ih _ (getStructChildren_mem structChildren (List.getElem_mem hj)) hdataType (hcolumn j hj).2
          rw [List.flatMap_def]
          refine (endsAs_sequence hends).last fun arrays harrays => accepted (haccepts.struct ?_ ?_)
          · have hsequence := sequence_ok harrays
            have hlen : fields.length = arrays.length := by
              rw [← hsequence.length_eq]
              simp [fieldTypes.length_eq]
            refine List.forall₂_iff_get.mpr ⟨hlen, fun j hj hj' => ?_⟩
            have hc : j < children.length := by rwa [fieldTypes.length_eq]
            have harray := hsequence.get (by simpa [fieldTypes.length_eq] using hj) hj'
            simp only [List.get_eq_getElem, List.getElem_map, List.getElem_zipIdx, List.getElem_zip,
              Nat.zero_add] at harray ⊢
            obtain ⟨dataType, hdataType, hfield⟩ := fieldTypes.get hc hj
            rw [List.get_eq_getElem] at hdataType hfield
            rw [hbuild j hc hj, hfield] at harray
            obtain ⟨htype, hlength⟩ := buildArray_shape harrow hdataType harray
            rw [hfield]
            exact ⟨rfl, htype, by rw [hlength, structColumn, List.length_map]⟩
          · exact (Except.mapM_ok_iff.mp hvalidity).length_eq.symm

theorem ArrowLibrary.accepting_accepts : ArrowLibrary.accepting.Accepts where
  list _ _ _ _ _ _ := ⟨_, rfl⟩
  fixedSizeList _ _ _ _ := ⟨_, rfl⟩
  struct _ _ := ⟨_, rfl⟩

end QuackProtocol
