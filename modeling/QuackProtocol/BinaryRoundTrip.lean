import QuackProtocol.Binary
import Mathlib.Tactic.NormNum
import Mathlib.Tactic.Ring

/-! What the writer writes, the reader reads back: first the scalars, then tagged objects, whose
optional fields are recognised by looking at the next field id. -/

open Decoding Decode Varint

namespace QuackProtocol

variable {layout : Layout} {α β : Type}

theorem getElem?_unread (c : Cursor) (i : Nat) : c.bytes[c.offset + i]? = c.unread[i]? := by
  rw [Cursor.unread, List.getElem?_drop]

theorem run_usizeAdd {c : Cursor} {x y : Nat} (h : x + y < usizeLimit) :
    (usizeAdd x y : Decoder Nat).run layout c = .ok (x + y, c) := by
  rw [usizeAdd, run_bind, check, if_pos h, run_pure]
  rfl

theorem run_ensure {c : Cursor} (hc : c.Valid) {length : Nat} (h : length ≤ c.remaining) :
    (ensure length).run layout c = .ok ((), c) := by
  have hroom := hc.offset_le
  have hsize := hc.length_le
  simp only [Cursor.remaining] at h
  simp only [isizeMax] at hsize
  have hstop : c.offset + length < usizeLimit := by simp only [usizeLimit]; omega
  have hfits : ¬ c.bytes.length < c.offset + length := by omega
  rw [ensure, run_bind_ok (c := c) rfl, run_bind_ok (run_usizeAdd hstop), if_neg hfits, run_pure]

theorem length_le_remaining {c : Cursor} {bytes rest : Bytes} (h : c.unread = bytes ++ rest) :
    bytes.length ≤ c.remaining := by
  rw [← c.length_unread, h, List.length_append]
  omega

theorem offset_lt {c : Cursor} (hc : c.Valid) {n : Nat} (h : n ≤ c.remaining) :
    c.offset + n < usizeLimit := by
  have hroom := hc.offset_le
  have hsize := hc.length_le
  simp only [Cursor.remaining, isizeMax, usizeLimit] at *
  omega

/-- The window at the cursor. -/
theorem window_unread {c : Cursor} {bytes rest : Bytes} (h : c.unread = bytes ++ rest) :
    (c.bytes.drop c.offset).take (c.offset + bytes.length - c.offset) = bytes := by
  rw [Nat.add_sub_cancel_left, ← Cursor.unread, h, List.take_left]

theorem run_slice_unread {c c' : Cursor} (hc : c.Valid) {bytes rest : Bytes}
    (h : c.unread = bytes ++ rest) :
    (slice c.bytes c.offset (c.offset + bytes.length) : Decoder Bytes).run layout c'
      = .ok (bytes, c') := by
  have hroom := hc.offset_le
  have hle := length_le_remaining h
  simp only [Cursor.remaining] at hle
  rw [slice, run_bind, check, if_pos (by omega), run_pure]
  simp only [run_pure, window_unread h]

theorem run_index {c : Cursor} {xs : List α} {i : Nat} {a : α} (h : xs[i]? = some a) :
    (index xs i : Decoder α).run layout c = .ok (a, c) := by
  rw [index, h]
  rfl

theorem reads_assertEof : ReadsBefore layout (fun rest => rest = []) assertEof [] () := by
  rintro c hc _ rfl hunread
  have hend : c.remaining = 0 := by
    rw [← c.length_unread, hunread]
    rfl
  rw [assertEof, run_bind_ok (c := c) rfl, if_pos hend]
  rfl

theorem reads_readByte (byte : UInt8) : Reads layout readByte [byte] byte := by
  intro c hc rest _ hunread
  have hle : 1 ≤ c.remaining := length_le_remaining hunread
  have hbyte : c.bytes[c.offset]? = some byte := by
    have := getElem?_unread c 0
    rw [hunread] at this
    exact this
  rw [readByte, run_bind_ok (run_ensure hc hle), run_bind_ok (c := c) rfl,
    run_bind_ok (run_index hbyte), run_bind_ok (run_usizeAdd (offset_lt hc hle))]
  rfl

theorem reads_readArray (bytes : Bytes) : Reads layout (readArray bytes.length) bytes bytes := by
  intro c hc rest _ hunread
  have hle := length_le_remaining hunread
  rw [readArray, run_bind_ok (run_ensure hc hle), run_bind_ok (c := c) rfl,
    run_bind_ok (run_usizeAdd (offset_lt hc hle))]
  exact run_slice_unread hc hunread

theorem reads_readBytes (bytes : Bytes) : Reads layout (readBytes bytes.length) bytes bytes := by
  intro c hc rest _ hunread
  have hle := length_le_remaining hunread
  have hensure : (audit (.bytes c.offset bytes.length) (ensure bytes.length) : Decoder Unit).run
      layout c = .ok ((), c) := run_ensure hc hle
  rw [readBytes, run_bind_ok (c := c) rfl, run_bind_ok hensure,
    run_bind_ok (run_usizeAdd (offset_lt hc hle))]
  exact run_slice_unread hc hunread

theorem reads_readFixed (size : Nat) (v : BitVec (8 * size)) :
    Reads layout (readFixed size) (toLe size v.toNat) v := by
  have hread : Reads layout (readArray (toLe size v.toNat).length) _ _ := reads_readArray _
  rw [length_toLe] at hread
  exact hread.thenPure (by rw [ofNat_ofLe_toLe])

theorem reads_readBool (value : Bool) :
    Reads layout readBool [if value then 1 else 0] value :=
  (reads_readByte _).thenPure (by cases value <;> rfl)

theorem reads_shiftLeft128 (value : BitVec 128) {shift : Nat} (h : shift < 128) :
    Reads layout (shiftLeft128 value shift) [] (value <<< shift) :=
  (Reads.check h .overflow).bind_nil (ReadsBefore.pure _)

theorem readUlebLoop_succ (passes : Nat) (result : U128) (shift : Nat) :
    readUlebLoop (passes + 1) result shift = (do
      let byte ← readByte
      let group ← shiftLeft128 (BitVec.ofNat 128 (byte &&& 0x7f).toNat) shift
      if byte &&& 0x80 = 0 then pure (result ||| group)
      else readUlebLoop passes (result ||| group) (shift + 7)) := rfl

/-- The bits already read stay below the next group, whether or not the top group was cut off. -/
theorem toNat_join_lt {low : BitVec 128} {group shift : Nat} (hlow : low.toNat < 2 ^ shift)
    (hgroup : group < 128) :
    (BitVec.ofNat 128 (low.toNat + group * 2 ^ shift)).toNat < 2 ^ (shift + 7) := by
  rw [BitVec.toNat_ofNat]
  apply Nat.lt_of_le_of_lt (Nat.mod_le _ _)
  have hle : group * 2 ^ shift ≤ 127 * 2 ^ shift := Nat.mul_le_mul_right _ (by omega)
  rw [Nat.pow_add]
  omega

/-- The accumulator is the sum of the groups read so far, cut off at the width of the word. -/
theorem reads_readUlebLoop {bytes : Bytes} (h : Groups bytes) {passes shift : Nat} {result : U128}
    (hlow : result.toNat < 2 ^ shift) (hlen : bytes.length ≤ passes) (hshift : shift + 7 * passes ≤ 133) :
    Reads layout (readUlebLoop passes result shift) bytes
      (BitVec.ofNat 128 (result.toNat + groupSum bytes * 2 ^ shift)) := by
  induction h generalizing passes shift result with
  | @last byte stops =>
      obtain ⟨passes, rfl⟩ := Nat.exists_eq_add_one.mpr hlen
      rw [readUlebLoop_succ]
      refine (reads_readByte _).bind ((reads_shiftLeft128 _ (by omega)).bind_nil ?_)
      rw [if_pos stops, toNat_group, or_shiftLeft_eq _ _ _ hlow]
      exact ReadsBefore.pure _
  | @more byte bytes continues _ ih =>
      obtain ⟨passes, rfl⟩ := Nat.exists_eq_add_one.mpr (Nat.zero_lt_of_lt hlen)
      have hgroup := Nat.mod_lt byte.toNat (show 128 > 0 by decide)
      have hnext := ih (toNat_join_lt hlow hgroup) (Nat.le_of_succ_le_succ hlen) (by omega)
      rw [readUlebLoop_succ]
      refine (reads_readByte _).bind ((reads_shiftLeft128 _ (by omega)).bind_nil ?_)
      rw [if_neg continues, toNat_group, or_shiftLeft_eq _ _ _ hlow]
      convert hnext using 1
      apply BitVec.eq_of_toNat_eq
      simp only [BitVec.toNat_ofNat, Nat.mod_add_mod]
      congr 1
      calc result.toNat + groupSum (byte :: bytes) * 2 ^ shift
          = result.toNat + (byte.toNat % 128 + 128 * groupSum bytes) * 2 ^ shift := by rw [groupSum]
        _ = _ := by rw [Nat.pow_add]; ring

/-- A number of nineteen bytes at most is read as its sum, cut off at the width of the word. -/
theorem reads_groups {bytes : Bytes} (h : Groups bytes) (hlen : bytes.length ≤ 19) :
    Reads layout readUlebU128 bytes (BitVec.ofNat 128 (groupSum bytes)) := by
  have hloop : Reads layout (readUlebLoop 19 0 0) bytes (BitVec.ofNat 128 (0 + groupSum bytes * 2 ^ 0)) :=
    reads_readUlebLoop h (by decide) hlen (by decide)
  simpa [readUlebU128] using hloop

theorem reads_readUlebU128 {v : Nat} (h : v < 2 ^ 128) :
    Reads layout readUlebU128 (uleb v) (BitVec.ofNat 128 v) := by
  have hlen : (uleb v).length ≤ 18 + 1 := length_uleb_le (h.trans (by decide))
  have hread : Reads layout readUlebU128 (uleb v) _ := reads_groups (groups_uleb v) hlen
  rwa [groupSum_uleb] at hread

theorem reads_readUlebU64 (v : U64) : Reads layout readUlebU64 (uleb v.toNat) v := by
  have hlt : v.toNat < 2 ^ 128 := v.isLt.trans (by decide)
  refine (reads_readUlebU128 hlt).thenPure ?_
  rw [BitVec.toNat_ofNat, Nat.mod_eq_of_lt hlt, if_pos v.isLt, BitVec.ofNat_toNat,
    BitVec.setWidth_eq]

theorem reads_readUlebUsize {n : Nat} (h : n < usizeLimit) :
    Reads layout readUlebUsize (uleb n) n := by
  have hlt : n < 2 ^ 128 := h.trans (by decide)
  refine (reads_readUlebU128 hlt).thenPure ?_
  rw [BitVec.toNat_ofNat, Nat.mod_eq_of_lt hlt, if_pos h]

theorem readSlebLoop_succ (passes : Nat) (result : I128) (shift : Nat) :
    readSlebLoop (passes + 1) result shift = (do
      let byte ← readByte
      let group ← shiftLeft128 (BitVec.ofNat 128 (byte &&& 0x7f).toNat) shift
      if byte &&& 0x80 = 0 then
        if byte &&& 0x40 = 0 then pure (result ||| group)
        else do
          let sign ← audit (.signExtension (shift + 7))
            (shiftLeft128 (BitVec.allOnes 128) (shift + 7))
          pure (result ||| group ||| sign)
      else readSlebLoop passes (result ||| group) (shift + 7)) := rfl

theorem ofInt_add_wrap (a b : Int) : BitVec.ofInt 128 (a + 2 ^ 128 * b) = BitVec.ofInt 128 a := by
  rw [BitVec.ofInt_add, BitVec.ofInt_mul, show BitVec.ofInt 128 (2 ^ 128) = 0 by decide]
  simp

theorem ofInt_eq_of_wrap {a b k : Int} (h : a = b + 2 ^ 128 * k) :
    BitVec.ofInt 128 a = BitVec.ofInt 128 b := by
  rw [h, ofInt_add_wrap]

theorem toNat_ofNat_wrap (n : Nat) :
    ∃ q : Int, ((BitVec.ofNat 128 n).toNat : Int) = n - 2 ^ 128 * q := by
  refine ⟨(n / 2 ^ 128 : Nat), ?_⟩
  rw [BitVec.toNat_ofNat]
  omega

/-- A signed number is read back by a loop that has passes for its groups, as long as the sign of a
negative one is extended inside the word. -/
theorem reads_readSlebLoop {v : Int} {groups passes shift : Nat} {result : I128}
    (hlow : result.toNat < 2 ^ shift) (hgroups : 0 < groups) (hpasses : groups ≤ passes)
    (hlo : -2 ^ (7 * groups - 1) ≤ v) (hhi : v < 2 ^ (7 * groups - 1))
    (hshift : shift + 7 * groups ≤ 133) (hsign : v < 0 → shift + 7 * groups < 128) :
    Reads layout (readSlebLoop passes result shift) (sleb v)
      (BitVec.ofInt 128 (result.toNat + v * 2 ^ shift)) := by
  induction groups generalizing v passes shift result with
  | zero => omega
  | succ groups ih =>
      obtain ⟨passes, rfl⟩ : ∃ p, passes = p + 1 := ⟨passes - 1, by omega⟩
      rw [readSlebLoop_succ]
      have hgroup : ∀ value, Reads layout (shiftLeft128 value shift) [] (value <<< shift) :=
        fun value => reads_shiftLeft128 value (by omega)
      have hm : (v % 0x80).toNat < 128 := by omega
      have hmod : ((v % 0x80).toNat : Int) = v % 0x80 := Int.toNat_of_nonneg (by omega)
      obtain ⟨q, hq⟩ := toNat_ofNat_wrap (result.toNat + (v % 0x80).toNat * 2 ^ shift)
      rcases sleb_cases v with ⟨hmin, hmax, hbytes⟩ | ⟨hbig, hbytes⟩
      · obtain ⟨hstop, hbits⟩ := group_last _ hm
        rw [hbytes]
        refine (reads_readByte _).bind ((hgroup _).bind_nil ?_)
        rw [if_pos hstop, hbits, or_shiftLeft_eq _ _ _ hlow]
        rcases Int.lt_or_le v 0 with hneg | hpos
        · rw [if_neg (by rw [group_sign _ hm]; omega)]
          have hin := hsign hneg
          refine ((reads_shiftLeft128 _ (by omega)).audit _).thenPure ?_
          have hones : BitVec.allOnes 128 = BitVec.ofNat 128 (2 ^ 128 - 1) := by decide
          rw [hones, or_shiftLeft_eq _ _ _ (toNat_join_lt hlow hm), ← BitVec.ofInt_natCast]
          congr 1
          -- The sign bits stand for minus the weight of the next group.
          apply ofInt_eq_of_wrap (k := 2 ^ (shift + 7) - q)
          push_cast [hq, hmod]
          rw [show v % 0x80 = v + 128 by omega, pow_add]
          ring
        · rw [if_pos (by rw [group_sign _ hm]; omega)]
          rw [show (v % 0x80).toNat = v.toNat by omega, ← BitVec.ofInt_natCast]
          push_cast [Int.toNat_of_nonneg hpos]
          exact ReadsBefore.pure _
      · obtain ⟨hstop, hbits⟩ := group_more _ hm
        have hrest : 0 < groups := by
          rcases Nat.eq_zero_or_pos groups with rfl | h
          · omega
          · exact h
        have hpow : (2 : Int) ^ (7 * (groups + 1) - 1) = 2 ^ (7 * groups - 1) * 0x80 := by
          rw [show 7 * (groups + 1) - 1 = 7 * groups - 1 + 7 by omega, pow_add]
          rfl
        rw [hpow] at hlo hhi
        have hnext := ih (v := v / 0x80) (toNat_join_lt hlow hm) hrest
          (show groups ≤ passes by omega) (by omega) (by omega) (by omega)
          (fun h => by have := hsign (by omega); omega)
        rw [hbytes]
        refine (reads_readByte _).bind ((hgroup _).bind_nil ?_)
        rw [if_neg hstop, hbits, or_shiftLeft_eq _ _ _ hlow]
        convert hnext using 1
        symm
        apply ofInt_eq_of_wrap (k := -q)
        push_cast [hq, hmod]
        calc (result.toNat : Int) + v % 0x80 * 2 ^ shift - 2 ^ 128 * q + v / 0x80 * 2 ^ (shift + 7)
            = result.toNat + (0x80 * (v / 0x80) + v % 0x80) * 2 ^ shift - 2 ^ 128 * q := by
              rw [pow_add]
              ring
          _ = result.toNat + v * 2 ^ shift + 2 ^ 128 * -q := by
              rw [Int.mul_ediv_add_emod]
              ring

theorem reads_readSlebI64 (v : I64) : Reads layout readSlebI64 (sleb v.toInt) v := by
  have hlo := BitVec.le_toInt v
  have hhi : v.toInt < 2 ^ 63 := BitVec.toInt_lt
  norm_num at hlo hhi
  have hloop : Reads layout (readSlebLoop 19 0 0) (sleb v.toInt)
      (BitVec.ofInt 128 (0 + v.toInt * 2 ^ 0)) :=
    reads_readSlebLoop (by decide) (by decide) (by decide : 10 ≤ 19) (by norm_num; omega)
      (by norm_num; omega) (by decide) (fun _ => by decide)
  rw [pow_zero, mul_one, zero_add] at hloop
  have hvalue : (BitVec.ofInt 128 v.toInt).toInt = v.toInt := by
    rw [BitVec.toInt_ofInt_eq_self (by decide)] <;> norm_num <;> omega
  apply hloop.thenPure
  rw [hvalue, if_pos (by norm_num; omega), BitVec.ofInt_toInt]

theorem reads_readHugeIntParts (parts : HugeIntParts) :
    Reads layout readHugeIntParts (sleb parts.upper.toInt ++ uleb parts.lower.toNat) parts :=
  (reads_readSlebI64 _).bind ((reads_readUlebU64 _).thenPure rfl)

/-- A byte string that exists in memory: Rust allows no larger one. -/
def Held (bytes : Bytes) : Prop := bytes.length ≤ isizeMax

def HeldText (text : String) : Prop := Held (utf8Bytes text)

theorem Held.lt {bytes : Bytes} (h : Held bytes) : bytes.length < usizeLimit := by
  simp only [Held, isizeMax, usizeLimit] at *
  omega

/-- A vector of `count` elements of a type can exist in memory. -/
structure Layout.Fits (layout : Layout) (element : Element) (count : Nat) : Prop where
  count_lt : count < usizeLimit
  size_le : count * layout.sizeOf element ≤ isizeMax

/-- A vector of `count` elements can exist in memory, whatever it is made of. -/
def Layout.Holds (layout : Layout) (count : Nat) : Prop := ∀ element, layout.Fits element count

theorem reads_readStringBytes {bytes : Bytes} (h : Held bytes) :
    Reads layout readStringBytes (uleb bytes.length ++ bytes) bytes :=
  (reads_readUlebUsize h.lt).bind (reads_readBytes bytes)

theorem reads_readBlob {bytes : Bytes} (h : Held bytes) :
    Reads layout readBlob (uleb bytes.length ++ bytes) bytes :=
  (reads_readUlebUsize h.lt).bind (reads_readBytes bytes)

theorem reads_readString {text : String} (h : HeldText text) :
    Reads layout readString (uleb (utf8Bytes text).length ++ utf8Bytes text) text :=
  (reads_readStringBytes h).thenPure (by rw [fromUtf8_utf8Bytes]; rfl)

theorem reads_withCapacity {element : Element} {count : Nat} (h : layout.Fits element count) :
    Reads layout (withCapacity element count) [] () :=
  fun c hc rest hrest hunread => (Reads.check h.size_le .capacity) c hc rest hrest hunread

/-- The action succeeds, and the reader reads the value back from what it writes. -/
def RoundTrips (layout : Layout) (write : Encode) (read : Decoder α) (a : α) : Prop :=
  ∃ bytes, write = .ok bytes ∧ Reads layout read bytes a

namespace RoundTrips

theorem of_reads {bytes : Bytes} {read : Decoder α} {a : α} (h : Reads layout read bytes a) :
    RoundTrips layout (.ok bytes) read a := ⟨bytes, rfl, h⟩

theorem recursive {write : Encode} {read : Decoder α} {a : α} (h : RoundTrips layout write read a)
    (callee : Recursive) : RoundTrips layout write (recursive callee read) a := h

theorem uleb64 (v : U64) : RoundTrips layout (writeUleb v.toNat) readUlebU64 v :=
  of_reads (reads_readUlebU64 v)

theorem uleb {n : Nat} (h : n < usizeLimit) : RoundTrips layout (writeUleb n) readUlebUsize n :=
  of_reads (reads_readUlebUsize h)

theorem bool (value : Bool) : RoundTrips layout (writeBool value) readBool value :=
  of_reads (reads_readBool value)

theorem string {text : String} (h : HeldText text) :
    RoundTrips layout (writeString text) readString text := of_reads (reads_readString h)

theorem stringBytes {bytes : Bytes} (h : Held bytes) :
    RoundTrips layout (writeStringBytes bytes) readStringBytes bytes :=
  of_reads (reads_readStringBytes h)

theorem blob {bytes : Bytes} (h : Held bytes) :
    RoundTrips layout (writeBlob bytes) readBlob bytes := of_reads (reads_readBlob h)

theorem hugeIntParts (parts : HugeIntParts) :
    RoundTrips layout (writeHugeIntParts parts) readHugeIntParts parts :=
  of_reads (reads_readHugeIntParts parts)

theorem append {write write' : Encode} {read : Decoder α} {next : α → Decoder β} {a : α} {b : β}
    (h : RoundTrips layout write read a) (h' : RoundTrips layout write' (next a) b) :
    RoundTrips layout (write ++ write') (read >>= next) b := by
  obtain ⟨bytes, rfl, hread⟩ := h
  obtain ⟨bytes', rfl, hread'⟩ := h'
  exact ⟨bytes ++ bytes', rfl, hread.bind hread'⟩

theorem thenPure {write : Encode} {read : Decoder α} {next : α → Decoder β} {a : α} {b : β}
    (h : RoundTrips layout write read a) (hnext : next a = pure b) :
    RoundTrips layout write (read >>= next) b := by
  obtain ⟨bytes, rfl, hread⟩ := h
  exact ⟨bytes, rfl, hread.thenPure hnext⟩

theorem nullable {write : Encode} {read : Decoder α} {a : α} (h : RoundTrips layout write read a) :
    RoundTrips layout (writeNullable (some write)) (readNullable read) (some a) :=
  (bool true).append (h.thenPure rfl)

theorem all {writes : List Encode} {values : List α} {read : Nat → Decoder α} (start : Nat)
    (hlen : writes.length = values.length)
    (h : ∀ i (hw : i < writes.length) (hv : i < values.length),
      RoundTrips layout writes[i] (read (start + i)) values[i]) :
    RoundTrips layout (Encode.all writes) (collect read start values.length) values := by
  induction values generalizing writes start with
  | nil =>
      rw [List.length_nil, List.length_eq_zero_iff] at hlen
      subst hlen
      exact of_reads (ReadsBefore.pure [])
  | cons value values ih =>
      cases writes with
      | nil => simp at hlen
      | cons write writes =>
          have hhead : RoundTrips layout write (read start) value := h 0 (by simp) (by simp)
          have htail : RoundTrips layout (Encode.all writes)
              (collect read (start + 1) values.length) values :=
            ih (start + 1) (by simpa using hlen) fun i hw hv => by
              have := h (i + 1) (by simpa using hw) (by simpa using hv)
              simpa [Nat.add_assoc, Nat.add_comm 1 i] using this
          exact hhead.append (htail.thenPure rfl)

theorem list {writes : List Encode} {values : List α} {read : Nat → Decoder α} {element : Element}
    (hlen : writes.length = values.length) (hfits : layout.Fits element values.length)
    (h : ∀ i (hw : i < writes.length) (hv : i < values.length),
      RoundTrips layout writes[i] (read i) values[i]) :
    RoundTrips layout (writeList writes) (readList element read) values := by
  rw [writeList, hlen]
  refine (uleb hfits.count_lt).append ?_
  obtain ⟨bytes, hwrite, hread⟩ := all 0 hlen fun i hw hv => by
    rw [Nat.zero_add]
    exact h i hw hv
  exact ⟨bytes, hwrite, (reads_withCapacity hfits).bind_nil hread⟩

/-- A list whose elements are written and read by one pair of actions. -/
theorem listMap {γ : Type} {items : List γ} {write : γ → Encode} {read : Decoder α} {value : γ → α}
    {element : Element} (hfits : layout.Fits element items.length)
    (h : ∀ item ∈ items, RoundTrips layout (write item) read (value item)) :
    RoundTrips layout (writeList (items.map write)) (readList element fun _ => read)
      (items.map value) := by
  apply list (by simp) (by simpa using hfits)
  intro i hw hv
  rw [List.getElem_map, List.getElem_map]
  exact h _ (List.getElem_mem _)

end RoundTrips

/-! ### Tagged objects -/

theorem ofLe_fieldId {fieldId : Nat} (h : fieldId < 2 ^ 16) : ofLe (toLe 2 fieldId) = fieldId := by
  rw [ofLe_toLe]
  exact Nat.mod_eq_of_lt h

theorem peeks_fieldId {fieldId : Nat} (h : fieldId < 2 ^ 16) {c : Cursor} (hc : c.Valid)
    {rest : Bytes} (hunread : c.unread = toLe 2 fieldId ++ rest) :
    peekFieldId.run layout c = .ok (fieldId, c) := by
  have hle : 2 ≤ c.remaining := length_le_remaining hunread
  have hlow : c.bytes[c.offset]? = some (UInt8.ofNat (fieldId % 256)) := by
    have := getElem?_unread c 0
    rw [hunread] at this
    exact this
  have hhigh : c.bytes[c.offset + 1]? = some (UInt8.ofNat (fieldId / 256 % 256)) := by
    rw [getElem?_unread, hunread]
    rfl
  have hadd : c.offset + 1 < usizeLimit := offset_lt hc (by omega)
  rw [peekFieldId, run_bind_ok (run_ensure hc hle), run_bind_ok (c := c) rfl,
    run_bind_ok (run_index hlow), run_bind_ok (run_usizeAdd hadd), run_bind_ok (run_index hhigh)]
  exact congrArg (fun n => Outcome.ok (n, c)) (ofLe_fieldId h)

theorem reads_readFieldId {fieldId : Nat} (h : fieldId < 2 ^ 16) :
    Reads layout readFieldId (toLe 2 fieldId) fieldId := by
  intro c hc rest _ hunread
  have hle : 2 ≤ c.remaining := length_le_remaining hunread
  rw [readFieldId, run_bind_ok (peeks_fieldId h hc hunread), run_bind_ok (c := c) rfl,
    run_bind_ok (run_usizeAdd (offset_lt hc hle)), length_toLe]
  rfl

/-- The bytes begin with a field id that is at least `lo`. -/
def FieldsFrom (lo : Nat) (bytes : Bytes) : Prop :=
  ∃ fieldId rest, lo ≤ fieldId ∧ fieldId < 2 ^ 16 ∧ bytes = toLe 2 fieldId ++ rest

theorem FieldsFrom.mono {lo lo' : Nat} {bytes : Bytes} (h : FieldsFrom lo bytes) (hle : lo' ≤ lo) :
    FieldsFrom lo' bytes := by
  obtain ⟨fieldId, rest, hlo, hfield⟩ := h
  exact ⟨fieldId, rest, hle.trans hlo, hfield⟩

/-- Part of an object: the action writes fields with ids from `lo` on, and its reader reads the
value back in front of fields with ids from `hi` on. -/
def FieldTrip (layout : Layout) (lo hi : Nat) (write : Encode) (read : Decoder α) (a : α) : Prop :=
  ∃ bytes, write = .ok bytes ∧ (∀ rest, FieldsFrom hi rest → FieldsFrom lo (bytes ++ rest)) ∧
    ReadsBefore layout (FieldsFrom hi) read bytes a

namespace FieldTrip

variable {lo hi fieldId : Nat} {write : Encode} {read : Decoder α} {a : α}

theorem nil (b : β) : FieldTrip layout hi hi (Encode.all []) (pure b) b :=
  ⟨[], rfl, fun _ h => h, ReadsBefore.pure b⟩

/-- A step after the last field, which reads no byte. -/
theorem ofReads (h : Reads layout read [] a) : FieldTrip layout hi hi (Encode.all []) read a :=
  ⟨[], rfl, fun _ h => h, ReadsBefore.anywhere h⟩

/-- A step before the first field, which reads no byte. -/
theorem afterReads {read : Decoder β} {next : β → Decoder α} {b : β} (hread : Reads layout read [] b)
    (h : FieldTrip layout lo hi write (next b) a) :
    FieldTrip layout lo hi write (read >>= next) a := by
  obtain ⟨bytes, hwrite, hhead, hnext⟩ := h
  exact ⟨bytes, hwrite, hhead, ReadsBefore.bind hread hnext fun _ _ => trivial⟩

theorem thenReads {next : α → Decoder β} {b : β} (h : FieldTrip layout lo hi write read a)
    (hnext : Reads layout (next a) [] b) : FieldTrip layout lo hi write (read >>= next) b := by
  obtain ⟨bytes, hwrite, hhead, hread⟩ := h
  have hread' := hread.bind (ReadsBefore.anywhere hnext) fun rest h => h
  rw [List.append_nil] at hread'
  exact ⟨bytes, hwrite, hhead, hread'⟩

theorem cons (mid : Nat) {writes : List Encode} {next : α → Decoder β} {b : β}
    (h : FieldTrip layout lo mid write read a)
    (h' : FieldTrip layout mid hi (Encode.all writes) (next a) b) :
    FieldTrip layout lo hi (Encode.all (write :: writes)) (read >>= next) b := by
  obtain ⟨bytes, rfl, hhead, hread⟩ := h
  obtain ⟨bytes', hwrite, hhead', hread'⟩ := h'
  refine ⟨bytes ++ bytes', ?_, ?_, hread.bind hread' hhead'⟩
  · rw [Encode.all, hwrite]
    rfl
  · intro rest hrest
    rw [List.append_assoc]
    exact hhead _ (hhead' rest hrest)

theorem recursive (h : FieldTrip layout lo hi write read a) (callee : Recursive) :
    FieldTrip layout lo hi write (recursive callee read) a := h

theorem single (h : FieldTrip layout lo hi write read a) :
    FieldTrip layout lo hi (Encode.all [write]) read a := by
  obtain ⟨bytes, rfl, hhead, hread⟩ := h
  rw [← List.append_nil bytes] at hhead hread
  exact ⟨bytes ++ [], rfl, hhead, hread⟩

/-- A step that only computes. -/
theorem ofResult {x : Result α} {next : α → Decoder β} {b : β} (hx : x = .ok a)
    (h : FieldTrip layout lo hi write (next a) b) :
    FieldTrip layout lo hi write (Decode.ofResult x >>= next) b := by
  subst hx
  exact h

theorem weaken {mid : Nat} (h : FieldTrip layout mid hi write read a) (hle : lo ≤ mid) :
    FieldTrip layout lo hi write read a := by
  obtain ⟨bytes, hwrite, hhead, hread⟩ := h
  exact ⟨bytes, hwrite, fun rest hrest => (hhead rest hrest).mono hle, hread⟩

theorem required (h : RoundTrips layout write read a) (hid : fieldId < 2 ^ 16) :
    FieldTrip layout fieldId hi (writeField fieldId write) (readRequiredField fieldId read) a := by
  obtain ⟨bytes, rfl, hread⟩ := h
  refine ⟨toLe 2 fieldId ++ bytes, rfl, fun rest _ => ?_, ?_⟩
  · exact ⟨fieldId, bytes ++ rest, le_rfl, hid, by rw [List.append_assoc]⟩
  · refine ReadsBefore.anywhere ((reads_readFieldId hid).bind ?_)
    rw [if_pos rfl]
    exact hread

theorem present (h : RoundTrips layout write read a) (hid : fieldId < 2 ^ 16) (defaultValue : α) :
    FieldTrip layout fieldId hi (writeField fieldId write)
      (readOptionalField fieldId read defaultValue) a := by
  obtain ⟨bytes, rfl, hread⟩ := h
  refine ⟨toLe 2 fieldId ++ bytes, rfl, fun rest _ => ?_, ?_⟩
  · exact ⟨fieldId, bytes ++ rest, le_rfl, hid, by rw [List.append_assoc]⟩
  · intro c hc rest _ hunread
    have hpeek : peekFieldId.run layout c = .ok (fieldId, c) :=
      peeks_fieldId hid hc (by rw [hunread, List.append_assoc])
    rw [readOptionalField, run_bind_ok hpeek, if_pos rfl]
    exact (reads_readFieldId hid).bind hread c hc rest trivial hunread

theorem absent {defaultValue : α} (hid : fieldId < hi) :
    FieldTrip layout hi hi (.ok []) (readOptionalField fieldId read defaultValue) defaultValue := by
  refine ⟨[], rfl, fun _ h => h, ?_⟩
  rintro c hc _ ⟨next, rest, hnext, hlt, rfl⟩ hunread
  rw [readOptionalField, run_bind_ok (peeks_fieldId hlt hc hunread), if_neg (by omega)]
  rfl

/-- An optional field that is not among the fields written. -/
theorem skip {next : β → Decoder α} {readField : Decoder β} {defaultValue : β}
    (h : FieldTrip layout lo hi write (next defaultValue) a) (hid : fieldId < lo) :
    FieldTrip layout lo hi write (readOptionalField fieldId readField defaultValue >>= next) a := by
  obtain ⟨bytes, hwrite, hhead, hread⟩ := h
  have habsent : FieldTrip layout lo lo (.ok []) (readOptionalField fieldId readField defaultValue)
      defaultValue := absent hid
  obtain ⟨_, hnil, -, hskip⟩ := habsent
  cases hnil
  exact ⟨bytes, hwrite, hhead, hskip.bind hread hhead⟩

/-- An optional field, written or not. -/
theorem optional {present : Prop} [Decidable present] {defaultValue : α}
    (h : present → RoundTrips layout write read a) (hdefault : ¬ present → a = defaultValue)
    (hid : fieldId < hi) (hhi : hi ≤ 2 ^ 16) :
    FieldTrip layout fieldId hi (if present then writeField fieldId write else .ok [])
      (readOptionalField fieldId read defaultValue) a := by
  by_cases hp : present
  · rw [if_pos hp]
    exact FieldTrip.present (h hp) (by omega) defaultValue
  · rw [if_neg hp, hdefault hp]
    exact (absent hid).weaken (by omega)

theorem object (lo : Nat) (h : FieldTrip layout lo fieldEnd write read a) :
    RoundTrips layout (writeObject write) (readObject read) a := by
  obtain ⟨bytes, rfl, -, hread⟩ := h
  refine ⟨bytes ++ toLe 2 fieldEnd, rfl, ?_⟩
  have hend : Reads layout (readEndObject >>= fun _ => pure a) (toLe 2 fieldEnd) a :=
    ((reads_readFieldId (by decide)).thenPure (if_pos rfl)).thenPure rfl
  apply ReadsBefore.bind hread hend
  intro rest _
  exact ⟨fieldEnd, rest, le_rfl, by decide, rfl⟩

end FieldTrip

theorem Encode.append_eq_ok {first second : Encode} {bytes : Bytes} (h : first ++ second = .ok bytes) :
    ∃ front back, first = .ok front ∧ second = .ok back ∧ bytes = front ++ back := by
  obtain ⟨front, hfirst, h⟩ := Outcome.bind_eq_ok h
  obtain ⟨back, hsecond, h⟩ := Outcome.bind_eq_ok h
  cases h
  exact ⟨front, back, hfirst, hsecond, rfl⟩

/-- Elements of one size. -/
theorem Encode.length_all {actions : List Encode} {size : Nat} {bytes : Bytes}
    (h : ∀ action ∈ actions, ∃ part, action = .ok part ∧ part.length = size)
    (hall : Encode.all actions = .ok bytes) : bytes.length = size * actions.length := by
  induction actions generalizing bytes with
  | nil =>
      cases hall
      rfl
  | cons action actions ih =>
      obtain ⟨hhead, htail⟩ := List.forall_mem_cons.mp h
      obtain ⟨front, back, hfront, hback, rfl⟩ := Encode.append_eq_ok hall
      obtain ⟨part, hpart, hlen⟩ := hhead
      cases hpart.symm.trans hfront
      rw [List.length_append, hlen, ih htail hback, List.length_cons, Nat.mul_succ, Nat.add_comm]

/-- The action writes at most `size` bytes. -/
def Encode.AtMost (write : Encode) (size : Nat) : Prop :=
  ∀ bytes, write = .ok bytes → bytes.length ≤ size

namespace Encode.AtMost

variable {first second write : Encode} {size size' : Nat}

theorem ok {bytes : Bytes} (h : bytes.length ≤ size) : AtMost (.ok bytes) size := by
  intro bytes' hok
  cases hok
  exact h

theorem mono (h : AtMost write size) (hle : size ≤ size') : AtMost write size' :=
  fun bytes hok => (h bytes hok).trans hle

theorem append (h : AtMost first size) (h' : AtMost second size') :
    AtMost (first ++ second) (size + size') := by
  intro bytes hok
  obtain ⟨front, back, hfirst, hsecond, rfl⟩ := append_eq_ok hok
  rw [List.length_append]
  exact Nat.add_le_add (h front hfirst) (h' back hsecond)

theorem err (e : QuackError) : AtMost (.err e) size := fun _ hok => by cases hok

theorem bind {x : Outcome QuackError α} {next : α → Encode}
    (h : ∀ a, x = .ok a → AtMost (next a) size) : AtMost (x >>= next) size := by
  intro bytes hok
  obtain ⟨a, hx, hnext⟩ := Outcome.bind_eq_ok hok
  exact h a hx bytes hnext

theorem uleb {n : Nat} (h : n < 2 ^ 63) : AtMost (writeUleb n) 9 := ok (length_uleb_le h)

theorem stringBytes {value : Bytes} (h : value.length ≤ size) (hheld : Held value) :
    AtMost (writeStringBytes value) (9 + size) :=
  (uleb (Nat.lt_of_le_of_lt hheld (by decide))).append (ok h)

theorem blob {value : Bytes} (h : value.length ≤ size) (hheld : Held value) :
    AtMost (writeBlob value) (9 + size) := stringBytes h hheld

theorem nothing : AtMost (Encode.all []) 0 := ok le_rfl

theorem field (h : AtMost write size) (fieldId : Nat) : AtMost (writeField fieldId write) (2 + size) :=
  (ok (by rw [length_toLe])).append h

theorem all {actions : List Encode} (h : ∀ action ∈ actions, AtMost action size) :
    AtMost (Encode.all actions) (size * actions.length) := by
  induction actions with
  | nil => exact ok (Nat.zero_le _)
  | cons action actions ih =>
      obtain ⟨hhead, htail⟩ := List.forall_mem_cons.mp h
      rw [List.length_cons, Nat.mul_succ, Nat.add_comm]
      exact hhead.append (ih htail)

theorem list {elements : List Encode} (h : ∀ element ∈ elements, AtMost element size)
    (hlen : elements.length < 2 ^ 63) : AtMost (writeList elements) (9 + size * elements.length) :=
  (uleb hlen).append (all h)

theorem object (h : AtMost write size) : AtMost (writeObject write) (size + 2) :=
  h.append (ok (by rw [length_toLe]))

end Encode.AtMost

/-- Whenever the whole action succeeds so does the part, and it writes `extra` bytes less. -/
def Encode.Within (part whole : Encode) (extra : Nat) : Prop :=
  ∀ bytes, whole = .ok bytes → ∃ inner, part = .ok inner ∧ inner.length + extra ≤ bytes.length

namespace Encode.Within

variable {part mid whole : Encode} {extra extra' : Nat}

theorem refl (write : Encode) : Within write write 0 := fun bytes h => ⟨bytes, h, le_rfl⟩

theorem fewer (h : Within part whole extra) (hle : extra' ≤ extra) : Within part whole extra' := by
  intro bytes hwhole
  obtain ⟨inner, hpart, hlen⟩ := h bytes hwhole
  exact ⟨inner, hpart, by omega⟩

theorem left (h : Within part mid extra) (second : Encode) :
    Within part (mid ++ second) extra := by
  intro bytes hwhole
  obtain ⟨front, back, hfirst, -, rfl⟩ := append_eq_ok hwhole
  obtain ⟨inner, hpart, hle⟩ := h front hfirst
  exact ⟨inner, hpart, by rw [List.length_append]; omega⟩

theorem right (h : Within part mid extra) (first : Encode) :
    Within part (first ++ mid) extra := by
  intro bytes hwhole
  obtain ⟨front, back, -, hsecond, rfl⟩ := append_eq_ok hwhole
  obtain ⟨inner, hpart, hle⟩ := h back hsecond
  exact ⟨inner, hpart, by rw [List.length_append]; omega⟩

theorem all {actions : List Encode} (h : Within part mid extra) (hmem : mid ∈ actions) :
    Within part (Encode.all actions) extra := by
  induction actions with
  | nil => cases hmem
  | cons action actions ih =>
      rcases List.mem_cons.mp hmem with rfl | hmem
      · exact h.left _
      · exact (ih hmem).right _

theorem after {x : Outcome QuackError α} {next : α → Encode}
    (h : ∀ a, Within part (next a) extra) : Within part (x >>= next) extra := by
  intro bytes hwhole
  obtain ⟨a, -, hnext⟩ := Outcome.bind_eq_ok hwhole
  exact h a bytes hnext

theorem field (h : Within part mid extra) (fieldId : Nat) :
    Within part (writeField fieldId mid) extra := h.right _

theorem list {elements : List Encode} (h : Within part mid extra) (hmem : mid ∈ elements) :
    Within part (writeList elements) extra := (h.all hmem).right _

/-- The end of the object is longer than nothing. -/
theorem object {actions : List Encode} (h : Within part mid extra) (hmem : mid ∈ actions) :
    Within part (writeObject (Encode.all actions)) (extra + 1) := by
  intro bytes hwhole
  obtain ⟨front, back, hfront, hback, rfl⟩ := append_eq_ok hwhole
  cases hback
  obtain ⟨inner, hpart, hle⟩ := (h.all hmem) front hfront
  exact ⟨inner, hpart, by simp only [List.length_append, length_toLe]; omega⟩

theorem nil_object (actions : List Encode) :
    Within (.ok []) (writeObject (Encode.all actions)) 1 := by
  intro bytes hwhole
  obtain ⟨front, back, hfront, hback, rfl⟩ := append_eq_ok hwhole
  cases hback
  exact ⟨[], rfl, by simp only [List.length_append, length_toLe, List.length_nil]; omega⟩

end Encode.Within

theorem Encode.exists_bound (write : α → Encode) (parts : List α) :
    ∃ enough, ∀ part ∈ parts, ∀ bytes, write part = .ok bytes → bytes.length ≤ enough := by
  induction parts with
  | nil => exact ⟨0, fun part hpart => by cases hpart⟩
  | cons part rest ih =>
      obtain ⟨enough, henough⟩ := ih
      obtain ⟨here, hhere⟩ : ∃ here, ∀ bytes, write part = .ok bytes → bytes.length ≤ here := by
        cases write part with
        | ok bytes => exact ⟨bytes.length, fun _ h => by cases h; exact le_rfl⟩
        | err e => exact ⟨0, fun _ h => by cases h⟩
        | panic cause => exact ⟨0, fun _ h => by cases h⟩
      refine ⟨max here enough, List.forall_mem_cons.mpr ⟨?_, ?_⟩⟩
      · exact fun bytes hwrite => (hhere bytes hwrite).trans (le_max_left _ _)
      · exact fun other hmem bytes hwrite => (henough other hmem bytes hwrite).trans (le_max_right _ _)

/-- Reading back under any budget of nested calls that the bytes pay for. -/
def RoundTripsWithin (layout : Layout) (write : Encode) (read : Nat → Decoder α) (a : α) : Prop :=
  ∃ bytes, write = .ok bytes ∧ ∀ budget, bytes.length ≤ budget → Reads layout (read budget) bytes a

namespace RoundTripsWithin

variable {γ : Type} {write : Encode} {read : Nat → Decoder α} {a : α}

theorem withBudget (h : RoundTripsWithin layout write read a) :
    RoundTrips layout write (withBudget read) a := by
  obtain ⟨bytes, hwrite, hread⟩ := h
  exact ⟨bytes, hwrite, Reads.withBudget fun budget hlt => hread budget hlt.le⟩

/-- One level of nesting: the parts are read with one call less. -/
theorem step {parts : List γ} {writePart : γ → Encode} {readPart : γ → Nat → Decoder β}
    {value : γ → β}
    (hparts : ∀ part ∈ parts,
      RoundTripsWithin layout (writePart part) (readPart part) (value part))
    (hwithin : ∀ part ∈ parts, Encode.Within (writePart part) write 1)
    (hpos : Encode.Within (.ok []) write 1)
    (hstep : ∀ budget,
      (∀ part ∈ parts, RoundTrips layout (writePart part) (readPart part budget) (value part)) →
      RoundTrips layout write (read (budget + 1)) a) :
    RoundTripsWithin layout write read a := by
  obtain ⟨enough, henough⟩ := Encode.exists_bound writePart parts
  obtain ⟨bytes, hwrite, -⟩ := hstep enough fun part hpart => by
    obtain ⟨inner, hinner, hread⟩ := hparts part hpart
    exact ⟨inner, hinner, hread enough (henough part hpart inner hinner)⟩
  refine ⟨bytes, hwrite, fun budget hbudget => ?_⟩
  obtain ⟨_, -, hlen⟩ := hpos bytes hwrite
  obtain ⟨budget, rfl⟩ : ∃ b, budget = b + 1 := ⟨budget - 1, by omega⟩
  obtain ⟨bytes', hwrite', hread⟩ := hstep budget fun part hpart => by
    obtain ⟨inner, hinner, hread⟩ := hparts part hpart
    obtain ⟨inner', hinner', hle⟩ := hwithin part hpart bytes hwrite
    cases hinner.symm.trans hinner'
    exact ⟨inner, hinner, hread budget (by omega)⟩
  cases hwrite.symm.trans hwrite'
  exact hread

/-- No nesting. -/
theorem leaf (hpos : Encode.Within (.ok []) write 1)
    (hstep : ∀ budget, RoundTrips layout write (read (budget + 1)) a) :
    RoundTripsWithin layout write read a := by
  obtain ⟨bytes, hwrite, -⟩ := hstep 0
  refine ⟨bytes, hwrite, fun budget hbudget => ?_⟩
  obtain ⟨_, -, hlen⟩ := hpos bytes hwrite
  obtain ⟨budget, rfl⟩ : ∃ b, budget = b + 1 := ⟨budget - 1, by omega⟩
  obtain ⟨bytes', hwrite', hread⟩ := hstep budget
  cases hwrite.symm.trans hwrite'
  exact hread

end RoundTripsWithin

end QuackProtocol
