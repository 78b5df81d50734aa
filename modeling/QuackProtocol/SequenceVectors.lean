import QuackProtocol.BinaryStops
import QuackProtocol.FixedData
import QuackProtocol.IntegerColumns

/-! Sequence vectors against flat ones. A sequence decides on the variant of its values by a dispatch of
its own and narrows its numbers to 64 bits; a flat vector decides by the physical type. -/

open Decoding Decode Varint Narrowing

namespace QuackProtocol

variable {layout : Layout}

theorem length_sleb_le {v : Int} {groups : Nat} (hlo : -2 ^ (7 * groups + 6) ≤ v)
    (hhi : v < 2 ^ (7 * groups + 6)) : (sleb v).length ≤ groups + 1 := by
  induction groups generalizing v with
  | zero =>
      rcases sleb_cases v with ⟨-, -, hbytes⟩ | ⟨hbig, -⟩
      · rw [hbytes]
        exact le_rfl
      · norm_num at hlo hhi
        omega
  | succ groups ih =>
      rcases sleb_cases v with ⟨-, -, hbytes⟩ | ⟨-, hbytes⟩
      · rw [hbytes]
        exact Nat.le_add_left _ _
      · have hpow : (2 : Int) ^ (7 * (groups + 1) + 6) = 2 ^ (7 * groups + 6) * 0x80 := by
          rw [show 7 * (groups + 1) + 6 = 7 * groups + 6 + 7 by omega, pow_add]
          rfl
        rw [hpow] at hlo hhi
        rw [hbytes, List.length_cons]
        exact Nat.succ_le_succ (ih (by omega) (by omega))

/-- The numbers whose sign is extended inside 128 bits. -/
def ShortSign (v : I128) : Prop := -2 ^ 125 ≤ v.toInt

instance (v : I128) : Decidable (ShortSign v) := inferInstanceAs (Decidable (_ ≤ _))

theorem roundTrips_sleb {v : I128} (h : ShortSign v) :
    RoundTrips layout (writeSleb v.toInt) readSlebI128 v := by
  have hlt : v.toInt < 2 ^ 127 := BitVec.toInt_lt
  have hloop : Reads layout (readSlebLoop 19 0 0) (sleb v.toInt)
      (BitVec.ofInt 128 (0 + v.toInt * 2 ^ 0)) := by
    by_cases hneg : v.toInt < 0
    · exact reads_readSlebLoop (by decide) (by decide) (by decide : 18 ≤ 19) h
        (by norm_num; omega) (by decide) fun _ => by decide
    · exact reads_readSlebLoop (by decide) (by decide) (by decide : 19 ≤ 19) (by norm_num; omega)
        (by norm_num; omega) (by decide) fun h => absurd h hneg
  rw [pow_zero, mul_one, zero_add, BitVec.ofInt_toInt] at hloop
  exact .of_reads hloop

/-- A negative number of nineteen groups panics at its last one. -/
theorem stops_readSlebLoop {v : Int} {groups shift : Nat} {result : I128}
    (hshift : shift + 7 * groups = 126) (hlo : -2 ^ (7 * groups + 1) ≤ v) (hneg : v < 0)
    (hhi : 0 < groups → v < -2 ^ (7 * groups - 1)) :
    Stops layout (readSlebLoop (groups + 1) result shift) (sleb v) (.panicked .overflow) := by
  induction groups generalizing v shift result with
  | zero =>
      have hmod : (v % 0x80).toNat < 128 := by omega
      have hreach : Reads layout (shiftLeft128 (BitVec.ofNat 128
          (UInt8.ofNat (v % 0x80).toNat &&& 0x7f).toNat) shift) [] _ :=
        reads_shiftLeft128 _ (by omega)
      norm_num at hlo
      rcases sleb_cases v with ⟨-, -, hbytes⟩ | ⟨hbig, -⟩
      · rw [hbytes, readSlebLoop_succ]
        refine Stops.then_nil (reads_readByte _) (Stops.after_nil hreach ?_)
        rw [if_pos (group_last _ hmod).1, if_neg (by rw [group_sign _ hmod]; omega)]
        have hover : ¬ shift + 7 < 128 := by omega
        exact (Stops.audit (Stops.check hover .overflow).bind _).bind
      · omega
  | succ groups ih =>
      have hmod : (v % 0x80).toNat < 128 := by omega
      have hreach : Reads layout (shiftLeft128 (BitVec.ofNat 128
          ((UInt8.ofNat (v % 0x80).toNat ||| 0x80) &&& 0x7f).toNat) shift) [] _ :=
        reads_shiftLeft128 _ (by omega)
      have hlow : (2 : Int) ^ (7 * (groups + 1) + 1) = 2 ^ (7 * groups + 1) * 0x80 := by
        rw [show 7 * (groups + 1) + 1 = 7 * groups + 1 + 7 by omega, pow_add]
        rfl
      have hhigh : (2 : Int) ^ (7 * (groups + 1) - 1) = 2 ^ (7 * groups) * 0x40 := by
        rw [show 7 * (groups + 1) - 1 = 7 * groups + 6 by omega, pow_add]
        rfl
      have hpos : (1 : Int) ≤ 2 ^ (7 * groups) := one_le_pow₀ (by decide)
      have hbig := hhi (Nat.succ_pos _)
      rw [hlow] at hlo
      rw [hhigh] at hbig
      rcases sleb_cases v with ⟨hmin, -, -⟩ | ⟨-, hbytes⟩
      · omega
      · rw [hbytes, readSlebLoop_succ]
        refine Stops.after (reads_readByte _) (Stops.after_nil hreach ?_)
        rw [if_neg (group_more _ hmod).1]
        apply ih (by omega) (by omega) (by omega)
        intro hgroups
        have hrest : (2 : Int) ^ (7 * groups) = 2 ^ (7 * groups - 1) * 2 := by
          rw [← pow_succ]
          congr 1
          omega
        omega

theorem stops_sleb {v : I128} (h : ¬ ShortSign v) :
    Stops layout readSlebI128 (sleb v.toInt) (.panicked .overflow) := by
  have hlo := BitVec.le_toInt v
  have hlong : v.toInt < -2 ^ 125 := not_le.mp h
  norm_num at hlo
  have hloop : Stops layout (readSlebLoop (18 + 1) 0 0) (sleb v.toInt) (.panicked .overflow) :=
    stops_readSlebLoop rfl (by norm_num; omega) (by norm_num at hlong; omega) fun _ => hlong
  exact hloop

theorem not_roundTrips_sleb {v : I128} (h : ¬ ShortSign v) :
    ¬ RoundTrips layout (writeSleb v.toInt) readSlebI128 v := by
  rintro ⟨bytes, hwrite, hread⟩
  obtain rfl : sleb v.toInt = bytes := Outcome.ok.inj hwrite
  have hlo := BitVec.le_toInt v
  have hhi : v.toInt < 2 ^ 127 := BitVec.toInt_lt
  have hlen : (sleb v.toInt).length ≤ 18 + 1 := by
    apply length_sleb_le
    · norm_num at hlo ⊢
      omega
    · norm_num
      omega
  exact (stops_sleb h).not_reads (hlen.trans (by decide)) hread

/-- A number is read back, with every shift inside the word, exactly where it is no negative one of nineteen
groups. -/
theorem sleb_roundTrips_iff (layout : Layout) (v : I128) :
    RoundTrips layout (writeSleb v.toInt) readSlebI128 v ↔ -2 ^ 125 ≤ v.toInt :=
  ⟨fun h => not_not.mp fun hshort => not_roundTrips_sleb hshort h, roundTrips_sleb⟩

/-- The smallest `i128` takes nineteen groups. -/
theorem not_roundTrips_intMin :
    ¬ RoundTrips .words (writeSleb (BitVec.intMin 128).toInt) readSlebI128 (BitVec.intMin 128) := by
  have hmin : (BitVec.intMin 128).toInt = -2 ^ 127 := BitVec.toInt_intMin_of_pos (by decide)
  apply not_roundTrips_sleb
  rw [ShortSign, hmin]
  norm_num

/-- A two's complement or plain integer of `size` bytes. -/
inductive IntegerStorage where
  | signed (size : Nat)
  | unsigned (size : Nat)

namespace IntegerStorage

def size : IntegerStorage → Nat
  | signed size | unsigned size => size

def Representable : IntegerStorage → Int → Prop
  | signed size, x => SignedRange (8 * size) x
  | unsigned size, x => 0 ≤ x ∧ x < 2 ^ (8 * size)

end IntegerStorage

def decimalStorage (width : Nat) : Option IntegerStorage :=
  if width ≤ 4 then some (.signed 2)
  else if width ≤ 9 then some (.signed 4)
  else if width ≤ 18 then some (.signed 8)
  else if width ≤ 38 then some (.signed 16)
  else none

/-- The storage of the types that are integers on the wire. -/
def integerStorage (T : LogicalType) : Option IntegerStorage :=
  match T.id with
  | .tinyInt => some (.signed 1)
  | .smallInt => some (.signed 2)
  | .integer | .date => some (.signed 4)
  | .bigInt | .time | .timeNs | .timeTz | .timestampSec | .timestampMs | .timestamp | .timestampNs
  | .timestampTz => some (.signed 8)
  | .hugeInt => some (.signed 16)
  | .uTinyInt => some (.unsigned 1)
  | .uSmallInt => some (.unsigned 2)
  | .uInteger => some (.unsigned 4)
  | .uBigInt => some (.unsigned 8)
  | .uHugeInt => some (.unsigned 16)
  | .decimal =>
    match getDecimalWidthAndScale T with
    | .ok (width, _) => decimalStorage width.toNat
    | .error _ => none
  | _ => none

/-- The bytes of a number in `size` bytes. -/
def storageWord (size : Nat) (x : Int) : Bytes := toLe size (BitVec.ofInt (8 * size) x).toNat

/-- The types whose sequences have their flat vectors' variant. -/
def SequenceVariant : LogicalTypeId → Prop
  | .hugeInt | .uTinyInt | .uSmallInt | .uInteger | .uBigInt | .uHugeInt => False
  | _ => True

/-- The number is among those that a sequence of the type gives as a flat vector does. -/
def SequenceKeeps (T : LogicalType) (x : Int) : Prop :=
  SequenceVariant T.id ∧ (T.id = .decimal → SignedRange 64 x)

theorem setWidth_ofInt {n w : Nat} (h : w ≤ n) (x : Int) :
    (BitVec.ofInt n x).setWidth w = BitVec.ofInt w x := by
  apply BitVec.eq_of_toInt_eq
  rw [toInt_setWidth _ h, BitVec.toInt_ofInt, BitVec.toInt_ofInt,
    Int.bmod_bmod_of_dvd (pow_dvd_pow 2 h)]

theorem toInt_ofInt_eq_iff {w : Nat} (hw : 0 < w) (x : Int) :
    (BitVec.ofInt w x).toInt = x ↔ SignedRange w x := by
  rw [BitVec.toInt_ofInt, bmod_eq_self_iff hw]

/-- Widening keeps the number exactly where the narrow word holds it. -/
theorem signExtend_ofInt_eq_iff {n w : Nat} (hw : 0 < w) (h : w ≤ n) {x : Int}
    (hx : SignedRange n x) : (BitVec.ofInt w x).signExtend n = BitVec.ofInt n x ↔ SignedRange w x := by
  rw [← BitVec.toInt_inj, toInt_signExtend _ h, (toInt_ofInt_eq_iff (hw.trans_le h) x).mpr hx,
    toInt_ofInt_eq_iff hw]

theorem signExtend_ofInt {n w : Nat} (hw : 0 < w) (h : w ≤ n) {x : Int} (hx : SignedRange w x) :
    (BitVec.ofInt w x).signExtend n = BitVec.ofInt n x :=
  (signExtend_ofInt_eq_iff hw h (hx.mono h)).mpr hx

theorem toLe_add (m n v : Nat) : toLe (m + n) v = toLe m v ++ toLe n (v / 256 ^ m) := by
  induction m generalizing v with
  | zero => simp [toLe]
  | succ m ih =>
      calc toLe (m + 1 + n) v
          = UInt8.ofNat (v % 256) :: toLe (m + n) (v / 256) := by rw [Nat.succ_add, toLe]
        _ = UInt8.ofNat (v % 256) :: (toLe m (v / 256) ++ toLe n (v / 256 / 256 ^ m)) := by rw [ih]
        _ = toLe (m + 1) v ++ toLe n (v / 256 ^ (m + 1)) := by
            rw [toLe, List.cons_append, Nat.div_div_eq_div_mul, Nat.pow_succ']

theorem toLe_mod (m v : Nat) : toLe m (v % 256 ^ m) = toLe m v := by
  induction m generalizing v with
  | zero => rfl
  | succ m ih =>
      have hlow : v % 256 ^ (m + 1) % 256 = v % 256 :=
        Nat.mod_mod_of_dvd _ (dvd_pow_self 256 (Nat.succ_ne_zero m))
      have hhigh : v % 256 ^ (m + 1) / 256 = v / 256 % 256 ^ m := by
        rw [Nat.pow_succ', Nat.mod_mul_right_div_self]
      rw [toLe, toLe, hlow, hhigh, ih]

/-- A 128-bit word, from its halves. -/
theorem toLe_split (v : BitVec 128) :
    toLe 8 (v.setWidth 64).toNat ++ toLe 8 ((v >>> 64).setWidth 64).toNat = toLe 16 v.toNat := by
  have hlt := v.isLt
  have hlow : (v.setWidth 64).toNat = v.toNat % 256 ^ 8 := by
    rw [BitVec.toNat_setWidth]
    norm_num
  have hhigh : ((v >>> 64).setWidth 64).toNat = v.toNat / 256 ^ 8 := by
    rw [BitVec.toNat_setWidth, BitVec.toNat_ushiftRight, Nat.shiftRight_eq_div_pow]
    norm_num
    omega
  rw [hlow, hhigh, toLe_mod, ← toLe_add 8 8]

theorem splitSignedHugeInt_eq (v : I128) :
    splitSignedHugeInt v = ⟨(v >>> 64).setWidth 64, v.setWidth 64⟩ := by
  have hupper : (v.sshiftRight 64).setWidth 64 = (v >>> 64).setWidth 64 := by
    apply BitVec.eq_of_getLsbD_eq
    intro i hi
    simp only [BitVec.getLsbD_setWidth, BitVec.getLsbD_sshiftRight, BitVec.getLsbD_ushiftRight]
    have hlt : 64 + i < 128 := by omega
    simp [hi, hlt, show ¬ 128 ≤ i by omega]
  rw [splitSignedHugeInt, hupper]

/-! ### One number -/

/-- What a flat vector and a sequence make of a number. -/
structure Compares (T : LogicalType) (physicalType : PhysicalType) (size : Nat) (x : Int)
    (w w' : Value) : Prop where
  word : FixedWords T physicalType (storageWord size x) w
  sequence : decodeSequenceValue T (BitVec.ofInt 128 x) = .ok w'
  same : w' = w ↔ SequenceKeeps T x

variable {T : LogicalType} {x : Int}

theorem decodeSequenceValue_other (hint : T.id ≠ .integer) (hdate : T.id ≠ .date)
    (hbig : T.id ≠ .bigInt) (x : Int) :
    decodeSequenceValue T (BitVec.ofInt 128 x) = decodeInt64LogicalValue T (BitVec.ofInt 64 x) := by
  rw [decodeSequenceValue, setWidth_ofInt (by decide)]
  split <;> first | contradiction | rfl

/-- A column without a variant of its own for sequences. -/
theorem compares_plain {physicalType : PhysicalType} {size : Nat} {w : Value}
    (hword : FixedWords T physicalType (storageWord size x) w)
    (hsequence : decodeSequenceValue T (BitVec.ofInt 128 x) = .ok (.int (BitVec.ofInt 64 x)))
    (hvariant : ¬ SequenceVariant T.id) (hw : ∀ v, w ≠ .int v) :
    Compares T physicalType size x w (.int (BitVec.ofInt 64 x)) :=
  ⟨hword, hsequence, iff_of_false (fun h => hw _ h.symm) fun h => hvariant h.1⟩

theorem compares_same {physicalType : PhysicalType} {size : Nat} {w : Value}
    (hword : FixedWords T physicalType (storageWord size x) w)
    (hsequence : decodeSequenceValue T (BitVec.ofInt 128 x) = .ok w)
    (hvariant : SequenceVariant T.id) (hdecimal : T.id ≠ .decimal) :
    Compares T physicalType size x w w :=
  ⟨hword, hsequence, iff_of_true rfl ⟨hvariant, fun h => absurd h hdecimal⟩⟩

/-- The 128-bit word of a number, in its two halves. -/
theorem storageWord_halves (x : Int) :
    toLe 8 (splitSignedHugeInt (BitVec.ofInt 128 x)).lower.toNat ++
      toLe 8 (splitSignedHugeInt (BitVec.ofInt 128 x)).upper.toNat = storageWord 16 x := by
  rw [splitSignedHugeInt_eq]
  exact toLe_split (BitVec.ofInt 128 x)

theorem decodeInt64LogicalValue_decimal {typeAlias : Option String} {width scale : U64}
    (hid : T.id = .decimal) (hinfo : T.typeInfo = some (.decimal typeAlias width scale)) (v : I64) :
    decodeInt64LogicalValue T v = .ok (.decimal ⟨v.signExtend 128, width, scale⟩) := by
  unfold decodeInt64LogicalValue
  rw [hid]
  simp only [decimalFromUnscaled, hinfo]
  rfl

theorem compares_decimal {physicalType : PhysicalType} {size : Nat} {typeAlias : Option String}
    {width scale : U64} (hid : T.id = .decimal)
    (hinfo : T.typeInfo = some (.decimal typeAlias width scale)) (hx : SignedRange 128 x)
    (hword : FixedWords T physicalType (storageWord size x)
      (.decimal ⟨BitVec.ofInt 128 x, width, scale⟩)) :
    ∃ w w', Compares T physicalType size x w w' := by
  refine ⟨_, .decimal ⟨(BitVec.ofInt 64 x).signExtend 128, width, scale⟩, hword, ?_, ?_⟩
  · rw [decodeSequenceValue_other (by simp [hid]) (by simp [hid]) (by simp [hid]),
      decodeInt64LogicalValue_decimal hid hinfo]
  · have hvariant : SequenceVariant T.id := by rw [hid]; trivial
    rw [Value.decimal.injEq, DecimalValue.mk.injEq,
      and_iff_left (⟨rfl, rfl⟩ : width = width ∧ scale = scale),
      signExtend_ofInt_eq_iff (by decide) (by decide) hx]
    exact ⟨fun h => ⟨hvariant, fun _ => h⟩, fun h => h.2 hid⟩

/-- The widths of a DECIMAL, by its storage. -/
theorem compares_decimals {storage : IntegerStorage} (hid : T.id = .decimal)
    (hstorage : integerStorage T = some storage) :
    ∃ physicalType, getPhysicalType T = .ok physicalType ∧
      constantSize physicalType = some storage.size ∧
      ∀ x, storage.Representable x → ∃ w w', Compares T physicalType storage.size x w w' := by
  unfold integerStorage at hstorage
  rw [hid] at hstorage
  simp only at hstorage
  unfold getDecimalWidthAndScale at hstorage
  split at hstorage
  case h_2 => cases hstorage
  case h_1 width scale hwidth =>
  split at hwidth
  case h_2 => cases hwidth
  case h_1 typeAlias width scale hinfo =>
  cases hwidth
  have hnumber (v : I128) : decodeDecimalOrInt T v = .ok (.decimal ⟨v, width, scale⟩) := by
    rw [decodeDecimalOrInt, if_pos hid, decimalFromUnscaled, hinfo]
    rfl
  have hphysical : getPhysicalType T = (
      if width.toNat ≤ 4 then pure .int16
      else if width.toNat ≤ 9 then pure .int32
      else if width.toNat ≤ 18 then pure .int64
      else if width.toNat ≤ 38 then pure .int128
      else throw (.protocol s!"unsupported DECIMAL width {width.toNat}")) := by
    rw [getPhysicalType, hid]
    simp only [decimalPhysicalType, getDecimalWidthAndScale, hinfo]
    rfl
  unfold decimalStorage at hstorage
  rw [hphysical]
  split_ifs at hstorage ⊢ <;> cases hstorage
  · refine ⟨.int16, rfl, rfl, fun x hx => compares_decimal hid hinfo (hx.mono (by decide)) ?_⟩
    refine .int16 (BitVec.ofInt 16 x) ?_
    rw [hnumber, signExtend_ofInt (by decide) (by decide) hx]
  · refine ⟨.int32, rfl, rfl, fun x hx => compares_decimal hid hinfo (hx.mono (by decide)) ?_⟩
    refine .int32 (BitVec.ofInt 32 x) ?_
    rw [decodeDateDecimalOrInt, if_neg (by simp [hid]), hnumber,
      signExtend_ofInt (by decide) (by decide) hx]
  · refine ⟨.int64, rfl, rfl, fun x hx => compares_decimal hid hinfo (hx.mono (by decide)) ?_⟩
    refine .int64 (BitVec.ofInt 64 x) ?_
    rw [decodeInt64LogicalValue_decimal hid hinfo, signExtend_ofInt (by decide) (by decide) hx]
  · refine ⟨.int128, rfl, rfl, fun x hx => compares_decimal hid hinfo hx ?_⟩
    show FixedWords T .int128 (storageWord 16 x) _
    rw [← storageWord_halves]
    refine .int128 _ ?_
    rw [decodeInt128Parts, if_neg (by simp [hid]), if_pos hid, combineSignedHugeInt_split,
      decimalFromUnscaled, hinfo]
    rfl

/-- The other types that are integers on the wire, by their physical types. -/
theorem compares_others {storage : IntegerStorage} (hdecimal : T.id ≠ .decimal)
    (hstorage : integerStorage T = some storage) :
    ∃ physicalType, getPhysicalType T = .ok physicalType ∧
      constantSize physicalType = some storage.size ∧
      ∀ x, storage.Representable x → ∃ w w', Compares T physicalType storage.size x w w' := by
  have henum : T.id ≠ .enum := fun h => by
    rw [integerStorage, h] at hstorage
    cases hstorage
  have hnumber (v : I128) : decodeDecimalOrInt T v = .ok (.int (v.setWidth 64)) := if_neg hdecimal
  have hindex (v : U64) : decodeEnumOrNumber T v = .ok (.uint v) := if_pos henum
  -- The sequences of the types without a branch of their own.
  have hplain {x : Int} (h : ∀ v : I64, decodeInt64LogicalValue T v = .ok (.int v))
      (hdate : T.id ≠ .date) :
      decodeSequenceValue T (BitVec.ofInt 128 x) = .ok (.int (BitVec.ofInt 64 x)) := by
    unfold decodeSequenceValue
    rw [setWidth_ofInt (by decide), h]
    split <;> first | rfl | contradiction
  cases hid : T.id <;> rw [integerStorage, hid] at hstorage <;> try cases hstorage
  case decimal => exact absurd hid hdecimal
  case tinyInt =>
    refine ⟨.int8, by rw [getPhysicalType, hid], rfl, fun x hx => ⟨_, _, compares_same
      (.int8 (BitVec.ofInt 8 x)) ?_ (by rw [hid]; trivial) hdecimal⟩⟩
    rw [hplain (fun v => by rw [decodeInt64LogicalValue, hid]) (by simp [hid]),
      signExtend_ofInt (by decide) (by decide) hx]
  case smallInt =>
    refine ⟨.int16, by rw [getPhysicalType, hid], rfl, fun x hx => ⟨_, _, compares_same
      (.int16 (BitVec.ofInt 16 x) (hnumber _)) ?_ (by rw [hid]; trivial) hdecimal⟩⟩
    rw [hplain (fun v => by rw [decodeInt64LogicalValue, hid]) (by simp [hid]),
      signExtend_ofInt (by decide) (by decide) hx, setWidth_ofInt (by decide)]
  case integer =>
    refine ⟨.int32, by rw [getPhysicalType, hid], rfl, fun x hx => ⟨_, _, compares_same
      (.int32 (BitVec.ofInt 32 x) ((if_neg (by simp [hid])).trans (hnumber _))) ?_
      (by rw [hid]; trivial) hdecimal⟩⟩
    rw [hplain (fun v => by rw [decodeInt64LogicalValue, hid]) (by simp [hid]),
      signExtend_ofInt (by decide) (by decide) hx, setWidth_ofInt (by decide)]
  case bigInt =>
    have hword (v : I64) : decodeInt64LogicalValue T v = .ok (.int v) := by
      rw [decodeInt64LogicalValue, hid]
    exact ⟨.int64, by rw [getPhysicalType, hid], rfl, fun x hx => ⟨_, _, compares_same
      (.int64 (BitVec.ofInt 64 x) (hword _)) (hplain hword (by simp [hid]))
      (by rw [hid]; trivial) hdecimal⟩⟩
  case date =>
    refine ⟨.int32, by rw [getPhysicalType, hid], rfl, fun x hx => ⟨_, _, compares_same
      (.int32 (BitVec.ofInt 32 x) (if_pos hid)) ?_ (by rw [hid]; trivial) hdecimal⟩⟩
    rw [decodeSequenceValue, hid]
    simp only [setWidth_ofInt (by decide : 32 ≤ 128)]
  case hugeInt =>
    refine ⟨.int128, by rw [getPhysicalType, hid], rfl, fun x hx => ⟨.hugeInt (BitVec.ofInt 128 x), _,
      compares_plain ?_ (hplain (fun v => by rw [decodeInt64LogicalValue, hid]) (by simp [hid]))
      (by rw [hid]; exact id) fun v h => by cases h⟩⟩
    show FixedWords T .int128 (storageWord 16 x) _
    rw [← storageWord_halves]
    refine .int128 _ ?_
    rw [decodeInt128Parts, if_neg (by simp [hid]), if_neg hdecimal, combineSignedHugeInt_split]
  case uHugeInt =>
    refine ⟨.uint128, by rw [getPhysicalType, hid], rfl, fun x hx => ⟨.uhugeInt (BitVec.ofInt 128 x), _,
      compares_plain ?_ (hplain (fun v => by rw [decodeInt64LogicalValue, hid]) (by simp [hid]))
      (by rw [hid]; exact id) fun v h => by cases h⟩⟩
    have hwords := FixedWords.uint128 (T := T)
      ⟨((BitVec.ofInt 128 x) >>> 64).setWidth 64, (BitVec.ofInt 128 x).setWidth 64⟩
    rwa [combineUnsignedHugeInt_split, toLe_split] at hwords
  case uTinyInt =>
    exact ⟨.uint8, by rw [getPhysicalType, hid], rfl, fun x hx => ⟨_, _, compares_plain
      (.uint8 (BitVec.ofInt 8 x) (hindex _))
      (hplain (fun v => by rw [decodeInt64LogicalValue, hid]) (by simp [hid]))
      (by rw [hid]; exact id) fun v h => by cases h⟩⟩
  case uSmallInt =>
    exact ⟨.uint16, by rw [getPhysicalType, hid], rfl, fun x hx => ⟨_, _, compares_plain
      (.uint16 (BitVec.ofInt 16 x) (hindex _))
      (hplain (fun v => by rw [decodeInt64LogicalValue, hid]) (by simp [hid]))
      (by rw [hid]; exact id) fun v h => by cases h⟩⟩
  case uInteger =>
    exact ⟨.uint32, by rw [getPhysicalType, hid], rfl, fun x hx => ⟨_, _, compares_plain
      (.uint32 (BitVec.ofInt 32 x) (hindex _))
      (hplain (fun v => by rw [decodeInt64LogicalValue, hid]) (by simp [hid]))
      (by rw [hid]; exact id) fun v h => by cases h⟩⟩
  case uBigInt =>
    exact ⟨.uint64, by rw [getPhysicalType, hid], rfl, fun x hx => ⟨_, _, compares_plain
      (.uint64 (BitVec.ofInt 64 x))
      (hplain (fun v => by rw [decodeInt64LogicalValue, hid]) (by simp [hid]))
      (by rw [hid]; exact id) fun v h => by cases h⟩⟩
  all_goals
    refine ⟨.int64, by rw [getPhysicalType, hid], rfl, fun x hx => ?_⟩
    obtain ⟨w, hw⟩ : ∃ w, decodeInt64LogicalValue T (BitVec.ofInt 64 x) = .ok w := by
      rw [decodeInt64LogicalValue, hid]
      exact ⟨_, rfl⟩
    refine ⟨w, w, compares_same (.int64 (BitVec.ofInt 64 x) hw) ?_ (by rw [hid]; trivial) hdecimal⟩
    rw [decodeSequenceValue_other (by simp [hid]) (by simp [hid]) (by simp [hid]), hw]

/-- Each type that is an integer on the wire, by its physical type. -/
theorem compares_integers {storage : IntegerStorage} (hstorage : integerStorage T = some storage) :
    ∃ physicalType, getPhysicalType T = .ok physicalType ∧
      constantSize physicalType = some storage.size ∧
      ∀ x, storage.Representable x → ∃ w w', Compares T physicalType storage.size x w w' := by
  by_cases hdecimal : T.id = .decimal
  · exact compares_decimals hdecimal hstorage
  · exact compares_others hdecimal hstorage

def sequenceVector (start increment : I128) : Encode := writeObject (Encode.all [
  writeField 90 (writeUleb 4),
  writeField 91 (writeSleb start.toInt),
  writeField 92 (writeSleb increment.toInt)])

/-- A flat vector without a mask. -/
def flatVector (data : Bytes) : Encode := writeObject (Encode.all [
  writeField 100 (writeBool false),
  writeField 102 (writeBlob data)])

/-- The numbers of a sequence, in words of `size` bytes. -/
def storageWords (size : Nat) (start increment : I128) (count : Nat) : Bytes :=
  (List.range count).flatMap fun i : Nat => storageWord size (start.toInt + increment.toInt * i)

theorem atMost_sequenceVector (start increment : I128) : (sequenceVector start increment).AtMost 68 := by
  have hsleb (v : I128) : (writeSleb v.toInt).AtMost 20 := by
    have hlo := BitVec.le_toInt v
    have hhi := BitVec.toInt_lt (x := v)
    have hlen : (sleb v.toInt).length ≤ 18 + 1 := by
      norm_num at hlo hhi
      exact length_sleb_le (by norm_num; omega) (by norm_num; omega)
    exact .ok (hlen.trans (by decide))
  have hfields : ∀ action ∈ [writeField 90 (writeUleb 4), writeField 91 (writeSleb start.toInt),
      writeField 92 (writeSleb increment.toInt)], action.AtMost 22 := by
    intro action hmem
    simp only [List.mem_cons, List.not_mem_nil, or_false] at hmem
    rcases hmem with rfl | rfl | rfl
    · exact ((Encode.AtMost.uleb (by decide)).field 90).mono (by decide)
    · exact (hsleb start).field 91
    · exact (hsleb increment).field 92
  exact (Encode.AtMost.all hfields).object

/-- Both decode, and to the same values. -/
def SequenceAgrees (layout : Layout) (T : LogicalType) (size : Nat) (start increment : I128)
    (count : Nat) : Prop :=
  ∃ sequence flat, sequenceVector start increment = .ok sequence ∧
    flatVector (storageWords size start increment count) = .ok flat ∧
    ∃ vector vector' c c', (decodeVector T count).run layout ⟨sequence, 0⟩ = .ok (vector, c) ∧
      (decodeVector T count).run layout ⟨flat, 0⟩ = .ok (vector', c') ∧
      vector.values = vector'.values

section
variable {start increment : I128} {count : Nat}

/-- Neither the product nor the sum leaves 128 bits. -/
def SumFits (start increment : I128) (i : Nat) : Prop :=
  InI128 (increment.toInt * i) ∧ InI128 (start.toInt + increment.toInt * i)

instance (start increment : I128) (i : Nat) : Decidable (SumFits start increment i) :=
  inferInstanceAs (Decidable (_ ∧ _))

/-- A row of a sequence. -/
def decodeSequenceRow (T : LogicalType) (start increment : I128) (position : Nat) : Decoder Value := do
  let number ← sequenceNumber start increment position
  let value ← ofResult (decodeSequenceValue T number)
  withCapacity .value (position + 1)
  pure value

theorem reads_sequenceRow {i : Nat} {w : Value} (hroom : layout.Fits .value (i + 1))
    (hfits : SumFits start increment i)
    (hvalue : decodeSequenceValue T (BitVec.ofInt 128 (start.toInt + increment.toInt * i)) = .ok w) :
    Reads layout (decodeSequenceRow T start increment i) [] w := by
  have hnumber : Reads layout (sequenceNumber start increment i) []
      (BitVec.ofInt 128 (start.toInt + increment.toInt * i)) := by
    refine Reads.audit ?_ _
    exact (Reads.check hfits .overflow).bind_nil (ReadsBefore.pure _)
  refine hnumber.bind_nil ?_
  rw [hvalue]
  exact (Reads.ofResult rfl).bind_nil ((reads_withCapacity hroom).bind_nil (ReadsBefore.pure w))

theorem stops_sequenceRow {i : Nat} (hfits : ¬ SumFits start increment i) :
    Stops layout (decodeSequenceRow T start increment i) [] (.panicked .overflow) :=
  (Stops.audit (Stops.check hfits .overflow).bind _).bind

/-- A sequence vector is read back as its numbers are. -/
theorem roundTrips_sequence {vector : DecodedVector}
    (h : FieldTrip layout 91 fieldEnd (Encode.all [writeField 91 (writeSleb start.toInt),
      writeField 92 (writeSleb increment.toInt)]) (decodeSequenceVector T count) vector) :
    RoundTrips layout (sequenceVector start increment) (decodeVector T count) vector := by
  have hstep (budget : Nat) : RoundTrips layout (sequenceVector start increment)
      (decodeVectorWithin (budget + 1) T count) vector := by
    refine FieldTrip.object 90 (.recursive ?_ .vector)
    refine .cons 91 (.present (.uleb64 4) (by decide) _) (.ofResult rfl ?_)
    exact h.thenReads ((Reads.record _).bind_nil (ReadsBefore.pure _))
  exact (RoundTripsWithin.leaf (.nil_object _) hstep).withBudget

theorem stops_sequence {stop : Stop}
    (h : FieldStop layout 91 fieldEnd (Encode.all [writeField 91 (writeSleb start.toInt),
      writeField 92 (writeSleb increment.toInt)]) (decodeSequenceVector T count) stop) :
    StopsReading layout (sequenceVector start increment) (decodeVector T count) stop := by
  have hstep (budget : Nat) : StopsReading layout (sequenceVector start increment)
      (decodeVectorWithin (budget + 1) T count) stop := by
    refine FieldStop.object 90 (.recursive ?_ .vector)
    exact .later 91 (.present (.uleb64 4) (by decide) _) (.ofResult rfl h.bind)
  obtain ⟨bytes, hwrite, -⟩ := hstep 0
  refine ⟨bytes, hwrite, Stops.withBudget fun budget hlt => ?_⟩
  obtain ⟨budget, rfl⟩ : ∃ b, budget = b + 1 := ⟨budget - 1, by omega⟩
  obtain ⟨bytes', hwrite', hread⟩ := hstep budget
  cases hwrite.symm.trans hwrite'
  exact hread

/-- A sequence has a value for every number or panics. -/
theorem sequence_cases (layout : Layout) (hroom : layout.Fits .value count) (hvalue : ∀ i < count, ∃ w, decodeSequenceValue T
      (BitVec.ofInt 128 (start.toInt + increment.toInt * i)) = .ok w) :
    ((ShortSign start ∧ ShortSign increment ∧ ∀ i < count, SumFits start increment i) ∧
      ∃ value : Nat → Value, (∀ i < count, decodeSequenceValue T
        (BitVec.ofInt 128 (start.toInt + increment.toInt * i)) = .ok (value i)) ∧
      RoundTrips layout (sequenceVector start increment) (decodeVector T count)
        ⟨T, .sequence, (List.range count).map value⟩) ∨
    ¬ (ShortSign start ∧ ShortSign increment ∧ ∀ i < count, SumFits start increment i) ∧
      StopsReading layout (sequenceVector start increment) (decodeVector T count)
        (.panicked .overflow) := by
  by_cases hstart : ShortSign start
  case neg =>
    refine .inr ⟨fun h => hstart h.1, stops_sequence ?_⟩
    refine FieldStop.here 92 (.required ⟨_, rfl, stops_sleb hstart⟩ (by decide)) ?_
    exact .cons fieldEnd (.field rfl (by decide)) .nil
  by_cases hincrement : ShortSign increment
  case neg =>
    refine .inr ⟨fun h => hincrement h.2.1, stops_sequence ?_⟩
    apply FieldStop.later 92 (.required (roundTrips_sleb hstart) (by decide))
    exact .here fieldEnd (.required ⟨_, rfl, stops_sleb hincrement⟩ (by decide)) .nil
  have hnull : Nonempty Value := ⟨.null⟩
  choose! value hvalue using hvalue
  by_cases hfits : ∀ i < count, SumFits start increment i
  · refine .inl ⟨⟨hstart, hincrement, hfits⟩, value, hvalue, roundTrips_sequence ?_⟩
    have hrows : Reads layout (collect (decodeSequenceRow T start increment) 0 count) []
        ((List.range count).map value) := by
      have h : Reads layout (collect (decodeSequenceRow T start increment) 0
          ((List.range count).map value).length) [] ((List.range count).map value) := by
        apply Reads.collect_nil
        intro i hi
        rw [List.length_map, List.length_range] at hi
        rw [List.getElem_map, List.getElem_range]
        exact reads_sequenceRow (hroom.mono hi) (hfits i hi) (hvalue i hi)
      rwa [List.length_map, List.length_range] at h
    apply FieldTrip.cons 92 (.required (roundTrips_sleb hstart) (by decide))
    apply FieldTrip.cons fieldEnd (.required (roundTrips_sleb hincrement) (by decide))
    exact .ofReads (hrows.thenPure rfl)
  · refine .inr ⟨fun h => hfits h.2.2, stops_sequence ?_⟩
    have hrows : Stops layout (collect (decodeSequenceRow T start increment) 0 count) []
        (.panicked .overflow) := by
      refine Stops.collect_nil (fun i hlt => ?_) ?_
      · by_cases hi : SumFits start increment i
        · exact .inl ⟨_, reads_sequenceRow (hroom.mono hlt) hi (hvalue i hlt)⟩
        · exact .inr (stops_sequenceRow hi)
      · obtain ⟨i, hi, hi'⟩ : ∃ i < count, ¬ SumFits start increment i := by simpa using hfits
        exact ⟨i, hi, stops_sequenceRow hi'⟩
    apply FieldStop.later 92 (.required (roundTrips_sleb hstart) (by decide))
    apply FieldStop.later fieldEnd (.required (roundTrips_sleb hincrement) (by decide))
    exact .ofStops hrows.bind

/-- A flat vector without a mask is read back word by word. -/
theorem roundTrips_flatVector {physicalType : PhysicalType} {size : Nat} {word : Nat → Bytes}
    {value : Nat → Value} (physical : getPhysicalType T = .ok physicalType)
    (hsize : constantSize physicalType = some size) (hfits : layout.Fits .value count)
    (hwords : ∀ i < count, FixedWords T physicalType (word i) (value i)) :
    RoundTrips layout (flatVector ((List.range count).flatMap word)) (decodeVector T count)
      ⟨T, .flat, (List.range count).map value⟩ := by
  have hword : ∀ bytes ∈ (List.range count).map word, bytes.length = size := by
    intro bytes hmem
    obtain ⟨i, hi, rfl⟩ := List.mem_map.mp hmem
    exact Option.some.inj ((hwords i (List.mem_range.mp hi)).length.symm.trans hsize)
  have hlen : ((List.range count).flatMap word).length = size * count := by
    rw [List.flatMap_def, length_flatten_words hword, List.length_map, List.length_range]
  have hroom : size * count ≤ isizeMax :=
    (Nat.mul_le_mul_right _ (constantSize_le hsize)).trans hfits.sixteen_mul_le
  have hheld : Held ((List.range count).flatMap word) := by rwa [Held, hlen]
  have hrows : Reads layout (decodeFixedValues T physicalType ((List.range count).flatMap word) count
      none) [] ((List.range count).map value) := by
    apply reads_fixedValues hfits hheld hlen (fun mask h => by cases h)
    intro i hi
    rw [List.flatMap_def, rowWord_flatten hword (by simpa using hi), List.getElem_map,
      List.getElem_range]
    exact hwords i hi
  have hgeometry : T.id ≠ .geometry := by
    intro hid
    rw [getPhysicalType, hid] at physical
    cases physical
    cases hsize
  have hconstant : isConstantSizePhysicalType physicalType = true := by
    rw [isConstantSizePhysicalType, hsize]
    rfl
  have hsizes : physicalTypeSize physicalType = .ok size := by rw [physicalTypeSize, hsize]
  have hmask : FieldTrip layout 100 102 (writeField 100 (writeBool false)) (readMask count) none :=
    ((FieldTrip.required (.bool false) (by decide)).thenReads (ReadsBefore.pure none))
  have hblob : FieldTrip layout 102 fieldEnd
      (writeField 102 (writeBlob ((List.range count).flatMap word))) (readRequiredField 102 readBlob) _ :=
    .required (.blob hheld) (by decide)
  have hproduct : Reads layout (audit (.product size count) (usizeMul size count) : Decoder Nat) []
      (size * count) :=
    (Reads.usizeMul (hroom.trans_lt (by decide))).audit _
  refine (RoundTripsWithin.leaf (.nil_object _) fun budget => ?_).withBudget
  refine FieldTrip.object 100 (.recursive ?_ .vector)
  refine .skip (.ofResult rfl ?_) (by decide)
  have hflat : FieldTrip layout 100 fieldEnd (Encode.all [writeField 100 (writeBool false),
        writeField 102 (writeBlob ((List.range count).flatMap word))])
      (decodeFlatVectorBody (decodeVectorWithin budget) T count .flat)
      ⟨T, .flat, (List.range count).map value⟩ := by
    rw [decodeFlatVectorBody, skipGeometryField, if_neg hgeometry]
    refine .afterReads (ReadsBefore.pure ()) (.cons 102 hmask (.ofResult physical ?_))
    rw [decodeFlatData.eq_def, if_pos hconstant, decodeFixedVector]
    refine .thenReads (.ofResult hsizes (.afterReads hproduct (hblob.single.thenReads ?_))) (ReadsBefore.pure _)
    rw [if_neg (not_not.mpr hlen)]
    exact hrows
  exact hflat.thenReads ((Reads.record _).bind_nil (ReadsBefore.pure _))

/-- The numbers that are kept have 64 bits. -/
theorem SequenceKeeps.short {storage : IntegerStorage} (hstorage : integerStorage T = some storage)
    {x : Int} (hx : storage.Representable x) (h : SequenceKeeps T x) : SignedRange 64 x := by
  obtain ⟨hvariant, hshort⟩ := h
  cases hid : T.id <;> rw [integerStorage, hid] at hstorage <;> try cases hstorage
  case decimal => exact hshort hid
  case hugeInt | uTinyInt | uSmallInt | uInteger | uBigInt | uHugeInt =>
    rw [hid] at hvariant
    exact hvariant.elim
  all_goals exact hx.mono (by decide)

theorem SequenceKeeps.sumFits {storage : IntegerStorage} (hstorage : integerStorage T = some storage)
    (hrange : ∀ i < count, storage.Representable (start.toInt + increment.toInt * i))
    (hkeeps : ∀ i < count, SequenceKeeps T (start.toInt + increment.toInt * i)) {i : Nat}
    (hi : i < count) : SumFits start increment i := by
  have hfirst := SequenceKeeps.short hstorage (hrange 0 (by omega)) (hkeeps 0 (by omega))
  have hrow := SequenceKeeps.short hstorage (hrange i hi) (hkeeps i hi)
  simp only [SignedRange, Nat.cast_zero, mul_zero, add_zero] at hfirst hrow
  norm_num at hfirst hrow
  simp only [SumFits, InI128]
  constructor <;> constructor <;> omega

/-- A sequence gives the values of the flat vector exactly if its numbers are short enough for their
signs to be read, the type has one variant for both, and no DECIMAL leaves 64 bits. -/
theorem sequenceAgrees_iff {storage : IntegerStorage} (hstorage : integerStorage T = some storage)
    (hfits : layout.Fits .value count)
    (hrange : ∀ i < count, storage.Representable (start.toInt + increment.toInt * i))
    (hbytes : ∀ bytes, flatVector (storageWords storage.size start increment count) = .ok bytes →
      bytes.length ≤ isizeMax) :
    SequenceAgrees layout T storage.size start increment count ↔
      ShortSign start ∧ ShortSign increment ∧
        ∀ i < count, SequenceKeeps T (start.toInt + increment.toInt * i) := by
  obtain ⟨physicalType, physical, hsize, hcompares⟩ := compares_integers hstorage
  have hnull : Nonempty Value := ⟨.null⟩
  have hpair : ∀ i < count, ∃ w w', Compares T physicalType storage.size
      (start.toInt + increment.toInt * i) w w' := fun i hi => hcompares _ (hrange i hi)
  choose! w w' hw using hpair
  have hflat : RoundTrips layout (flatVector (storageWords storage.size start increment count))
      (decodeVector T count) ⟨T, .flat, (List.range count).map w⟩ :=
    roundTrips_flatVector physical hsize hfits fun i hi => (hw i hi).word
  obtain ⟨flat, hflatBytes, -⟩ := id hflat
  have hflatRun := hflat.run_eq hflatBytes (hbytes flat hflatBytes)
  have hkeeps_iff : (∀ i < count, w' i = w i) ↔
      ∀ i < count, SequenceKeeps T (start.toInt + increment.toInt * i) :=
    forall₂_congr fun i hi => (hw i hi).same
  have hcases := sequence_cases layout hfits fun i hi => ⟨w' i, (hw i hi).sequence⟩
  rcases hcases with
    ⟨⟨hstart, hincrement, -⟩, value, hvalue, hsequence⟩ | ⟨hfails, sequence, hsequence, hstops⟩
  · obtain ⟨sequence, hsequenceBytes, -⟩ := id hsequence
    have hsequenceRun := hsequence.run_eq hsequenceBytes
      ((atMost_sequenceVector start increment sequence hsequenceBytes).trans (by decide))
    have hvalues : (List.range count).map value = (List.range count).map w ↔
        ∀ i < count, w' i = w i := by
      have hvalue' : (List.range count).map value = (List.range count).map w' := by
        apply List.map_congr_left
        intro i hi
        have hi := List.mem_range.mp hi
        exact Except.ok.inj ((hvalue i hi).symm.trans (hw i hi).sequence)
      rw [hvalue', List.map_inj_left]
      simp only [List.mem_range]
    rw [and_iff_right hstart, and_iff_right hincrement, ← hkeeps_iff, ← hvalues]
    constructor
    · rintro ⟨sequence', flat', hok, hok', vector, vector', c, c', hrun, hrun', hsame⟩
      cases hsequenceBytes.symm.trans hok
      cases hflatBytes.symm.trans hok'
      cases hsequenceRun.symm.trans hrun
      cases hflatRun.symm.trans hrun'
      exact hsame
    · exact fun hsame => ⟨_, _, hsequenceBytes, hflatBytes, _, _, _, _, hsequenceRun, hflatRun, hsame⟩
  · have hsums : ¬ (ShortSign start ∧ ShortSign increment ∧
        ∀ i < count, SequenceKeeps T (start.toInt + increment.toInt * i)) := by
      rintro ⟨hstart, hincrement, hkeeps⟩
      exact hfails ⟨hstart, hincrement, fun i hi => SequenceKeeps.sumFits hstorage hrange hkeeps hi⟩
    refine iff_of_false ?_ hsums
    rintro ⟨sequence', flat', hok, hok', vector, vector', c, c', hrun, -⟩
    cases hsequence.symm.trans hok
    have hvalid : (⟨sequence, 0⟩ : Cursor).Valid :=
      ⟨Nat.zero_le _, (atMost_sequenceVector start increment sequence hsequence).trans (by decide)⟩
    have hend := hstops ⟨sequence, 0⟩ hvalid [] trivial (by simp [Cursor.unread])
    rw [hrun] at hend
    exact hend.not_ok

end

theorem atMost_flatVector {data : Bytes} {size : Nat} (h : data.length ≤ size)
    (hsize : size ≤ isizeMax) : (flatVector data).AtMost (2 * size + 24) := by
  have hheld : Held data := h.trans hsize
  have hfields : ∀ action ∈ [writeField 100 (writeBool false), writeField 102 (writeBlob data)],
      action.AtMost (size + 11) := by
    intro action hmem
    simp only [List.mem_cons, List.not_mem_nil, or_false] at hmem
    rcases hmem with rfl | rfl
    · exact ((Encode.AtMost.ok (le_refl 1)).field 100).mono (by omega)
    · exact ((Encode.AtMost.blob h hheld).field 102).mono (by omega)
  refine (Encode.AtMost.all hfields).object.mono ?_
  simp only [List.length_cons, List.length_nil]
  omega

/-- 3, 1, -1 as TINYINTs. -/
theorem sequenceAgrees_tinyInts : SequenceAgrees .words tinyIntType 1 3 (-2) 3 := by
  have hrange : ∀ i < 3, SignedRange 8 ((3 : I128).toInt + (-2 : I128).toInt * (i : Nat)) := by decide
  have hbytes (bytes : Bytes) (hok : flatVector (storageWords 1 3 (-2) 3) = .ok bytes) :
      bytes.length ≤ isizeMax :=
    (atMost_flatVector (le_refl 3) (by decide) bytes hok).trans (by decide)
  have hstorage : integerStorage tinyIntType = some (.signed 1) := rfl
  exact (sequenceAgrees_iff hstorage ⟨by decide, by decide⟩ hrange hbytes).mpr
    ⟨by decide, by decide, fun i _ => ⟨trivial, fun h => by cases h⟩⟩

def uTinyIntType : LogicalType := ⟨.uTinyInt, none⟩

/-- The number 1 of a UTINYINT column is signed in a sequence. -/
theorem not_sequenceAgrees_uTinyInt :
    (∀ i < 1, (IntegerStorage.unsigned 1).Representable
      ((1 : I128).toInt + (0 : I128).toInt * (i : Nat))) ∧
      ¬ SequenceAgrees .words uTinyIntType 1 1 0 1 := by
  refine ⟨fun i hi => ?_, ?_⟩
  · obtain rfl : i = 0 := by omega
    simp [IntegerStorage.Representable]
  rintro ⟨sequence, flat, hsequence, hflat, vector, vector', c, c', hrun, hrun', hsame⟩
  have hvalue : ∀ i < 1, decodeSequenceValue uTinyIntType
      (BitVec.ofInt 128 ((1 : I128).toInt + (0 : I128).toInt * (i : Nat))) = .ok (.int 1) := by
    intro i hi
    obtain rfl : i = 0 := by omega
    rfl
  have hwords : ∀ i < 1, FixedWords uTinyIntType .uint8
      (storageWord 1 ((1 : I128).toInt + (0 : I128).toInt * (i : Nat))) (.uint 1) := by
    intro i hi
    obtain rfl : i = 0 := by omega
    exact .uint8 1 rfl
  have hfits : Layout.words.Fits .value 1 := ⟨by decide, by decide⟩
  have hread := roundTrips_flatVector (T := uTinyIntType) rfl rfl hfits hwords
  cases (hread.run_eq hflat
    ((atMost_flatVector (le_refl 1) (by decide) flat hflat).trans (by decide))).symm.trans hrun'
  have hcases := sequence_cases .words hfits fun i hi => ⟨_, hvalue i hi⟩
  rcases hcases with ⟨-, value, hvalue', hread'⟩ | ⟨hfails, -⟩
  · cases (hread'.run_eq hsequence
      ((atMost_sequenceVector 1 0 sequence hsequence).trans (by decide))).symm.trans hrun
    have hone := (hvalue' 0 Nat.one_pos).symm.trans (hvalue 0 Nat.one_pos)
    simp only [List.range_one, List.map_cons, List.map_nil, Except.ok.inj hone] at hsame
    cases hsame
  · exact hfails (by decide)

end QuackProtocol
