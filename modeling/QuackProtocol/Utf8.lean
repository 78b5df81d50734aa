import Mathlib.Data.List.Basic
import Mathlib.Data.List.TakeWhile
import Mathlib.Tactic.Common

/-! Texts and their UTF-8 bytes. A text is a list of characters; a position in it counts bytes, and a slice is
taken between two positions that lie between characters. The byte of an ASCII character is the
character itself, and no byte of another character is an ASCII character. -/

namespace Utf8

def encode (text : List Char) : List UInt8 := text.flatMap String.utf8EncodeChar

/-- The byte taken for a character. -/
def charOfByte (byte : UInt8) : Char := Char.ofNat byte.toNat

/-- The text in front of a position and the text behind it, if the position lies between two characters. -/
def splitAt : List Char → Nat → Option (List Char × List Char)
  | text, 0 => some ([], text)
  | [], _ + 1 => none
  | c :: text, index + 1 =>
    if c.utf8Size ≤ index + 1 then
      (splitAt text (index + 1 - c.utf8Size)).map fun (front, back) => (c :: front, back)
    else none

def IsBoundary (text : List Char) (index : Nat) : Prop := (splitAt text index).isSome = true

instance (text : List Char) (index : Nat) : Decidable (IsBoundary text index) :=
  inferInstanceAs (Decidable (_ = true))

/-- The text between two positions. -/
def between (text : List Char) (start stop : Nat) : Option (List Char) := do
  let (front, _) ← splitAt text stop
  let (_, middle) ← splitAt front start
  pure middle

/-- The position of the first place where the pattern occurs. -/
def find (pattern : List Char) : List Char → Option Nat
  | [] => if pattern.isEmpty then some 0 else none
  | c :: text =>
    if pattern.isPrefixOf (c :: text) then some 0 else (find pattern text).map (· + c.utf8Size)

section
variable {c d : Char} {text front middle back : List Char} {byte : UInt8} {index : Nat}

@[simp] theorem encode_nil : encode [] = [] := rfl

@[simp] theorem encode_cons (c : Char) (text : List Char) :
    encode (c :: text) = String.utf8EncodeChar c ++ encode text := rfl

@[simp] theorem encode_append (front back : List Char) : encode (front ++ back) = encode front ++ encode back :=
  List.flatMap_append

theorem length_encode_cons (c : Char) (text : List Char) :
    (encode (c :: text)).length = (encode text).length + c.utf8Size := by
  rw [encode_cons, List.length_append, String.length_utf8EncodeChar, Nat.add_comm]

theorem length_encode_pos (h : text ≠ []) : 0 < (encode text).length := by
  obtain ⟨c, text, rfl⟩ := List.exists_cons_of_ne_nil h
  have hpos := c.utf8Size_pos
  rw [length_encode_cons]
  omega

theorem encodeChar_ascii (h : c.toNat < 128) : String.utf8EncodeChar c = [c.toUInt8] := by
  have hval : c.val ≤ 127 := UInt32.le_iff_toNat_le.mpr (Nat.le_of_lt_succ h)
  exact String.utf8EncodeChar_eq_singleton (Char.utf8Size_eq_one_iff.mpr hval)

theorem toNat_toUInt8 (h : c.toNat < 128) : c.toUInt8.toNat = c.toNat := by
  have hval : c.toUInt8.toNat = c.toNat % 256 := UInt32.toNat_toUInt8 c.val
  rw [hval, Nat.mod_eq_of_lt (by omega)]

theorem charOfByte_ascii (h : c.toNat < 128) : charOfByte c.toUInt8 = c := by
  rw [charOfByte, toNat_toUInt8 h, Char.ofNat_toNat]

theorem toNat_charOfByte (byte : UInt8) : (charOfByte byte).toNat = byte.toNat := by
  have hvalid : byte.toNat.isValidChar := .inl (byte.toNat_lt.trans (by decide))
  rw [charOfByte, Char.ofNat, dif_pos hvalid]
  rfl

theorem encodeChar_high (h : ¬ c.toNat < 128) : ∀ byte ∈ String.utf8EncodeChar c, 128 ≤ byte.toNat := by
  have hval : ¬ c.val.toNat ≤ 0x7f := fun hle => h (Nat.lt_succ_of_le hle)
  have hcons {n : Nat} {bytes : List UInt8} (hn : 128 ≤ n ∧ n < 256)
      (hbytes : ∀ byte ∈ bytes, 128 ≤ byte.toNat) : ∀ byte ∈ UInt8.ofNat n :: bytes, 128 ≤ byte.toNat := by
    refine List.forall_mem_cons.mpr ⟨?_, hbytes⟩
    rw [UInt8.toNat_ofNat', Nat.mod_eq_of_lt hn.2]
    exact hn.1
  simp only [String.utf8EncodeChar, hval, if_false]
  split
  · exact hcons (by omega) (hcons (by omega) nofun)
  · split
    · exact hcons (by omega) (hcons (by omega) (hcons (by omega) nofun))
    · exact hcons (by omega) (hcons (by omega) (hcons (by omega) (hcons (by omega) nofun)))

/-- The byte of an ASCII character is in no other one. -/
theorem encodeChar_ne (hd : d.toNat < 128) (hne : c ≠ d) :
    ∀ byte ∈ String.utf8EncodeChar c, byte ≠ d.toUInt8 := by
  intro byte hbyte
  by_cases hc : c.toNat < 128
  · rw [encodeChar_ascii hc] at hbyte
    obtain rfl := List.mem_singleton.mp hbyte
    intro heq
    apply hne
    rw [← charOfByte_ascii hc, heq, charOfByte_ascii hd]
  · intro heq
    have hhigh := encodeChar_high hc byte hbyte
    rw [heq, toNat_toUInt8 hd] at hhigh
    omega

theorem encode_ascii_cons (h : c.toNat < 128) (text : List Char) :
    encode (c :: text) = c.toUInt8 :: encode text := by
  rw [encode_cons, encodeChar_ascii h]
  rfl

/-- Where the byte is an ASCII character, the character is. -/
theorem exists_of_ascii (h : (encode text)[index]? = some byte) (hbyte : byte.toNat < 128) :
    ∃ front c back, text = front ++ c :: back ∧ (encode front).length = index ∧ c.toNat < 128 ∧
      c.toUInt8 = byte := by
  induction text generalizing index with
  | nil => cases h
  | cons c text ih =>
      rw [encode_cons] at h
      rcases Nat.lt_or_ge index (String.utf8EncodeChar c).length with hlt | hge
      · rw [List.getElem?_append_left hlt] at h
        have hmem := List.mem_of_getElem? h
        have hc : c.toNat < 128 := by
          by_contra hc
          have hhigh := encodeChar_high hc byte hmem
          omega
        rw [encodeChar_ascii hc] at hlt hmem
        have hindex : index = 0 := Nat.lt_one_iff.mp hlt
        exact ⟨[], c, text, rfl, hindex.symm, hc, (List.mem_singleton.mp hmem).symm⟩
      · rw [List.getElem?_append_right hge] at h
        obtain ⟨front, d, back, rfl, hindex, hd, heq⟩ := ih h
        exact ⟨c :: front, d, back, rfl, by rw [encode_cons, List.length_append, hindex]; omega, hd, heq⟩

/-- A property of ASCII characters can be asked of the first byte. -/
theorem any_head_encode {p : Char → Bool} (hp : ∀ c, p c = true → c.toNat < 128) (text : List Char) :
    ((encode text).head?.map charOfByte).any p = text.head?.any p := by
  cases text with
  | nil => rfl
  | cons c text =>
      by_cases hc : c.toNat < 128
      · rw [encode_ascii_cons hc, List.head?_cons, Option.map_some, charOfByte_ascii hc]
        rfl
      · obtain ⟨byte, bytes, hbytes⟩ := List.exists_cons_of_ne_nil (String.utf8EncodeChar_ne_nil (c := c))
        have hhigh : 128 ≤ byte.toNat := encodeChar_high hc byte (by simp [hbytes])
        rw [encode_cons, hbytes, List.cons_append, List.head?_cons, List.head?_cons, Option.map_some,
          Option.any_some, Option.any_some]
        have hbyte : p (charOfByte byte) = false := by
          refine Bool.eq_false_iff.mpr fun h => ?_
          have hlt := hp _ h
          rw [toNat_charOfByte] at hlt
          omega
        rw [hbyte, Bool.eq_false_iff.mpr fun h => hc (hp c h)]

theorem head_encode_iff (hd : d.toNat < 128) (text : List Char) :
    (encode text).head?.map charOfByte = some d ↔ text.head? = some d := by
  have hany := any_head_encode (p := fun c => c == d) (fun c hc => by rw [beq_iff_eq.mp hc]; exact hd) text
  have hsome (o : Option Char) : o.any (fun c => c == d) = true ↔ o = some d := by
    cases o <;> simp
  rw [← hsome, ← hsome, hany]

theorem getLast_encode_iff (hd : d.toNat < 128) (text : List Char) :
    (encode text).getLast? = some d.toUInt8 ↔ text.getLast? = some d := by
  rcases List.eq_nil_or_concat text with rfl | ⟨front, c, rfl⟩
  · rw [encode_nil, List.getLast?_nil, List.getLast?_nil]
    exact iff_of_false nofun nofun
  · rw [List.concat_eq_append, encode_append, encode_cons, encode_nil, List.append_nil, List.getLast?_concat,
      List.getLast?_append_of_ne_nil _ String.utf8EncodeChar_ne_nil]
    constructor
    · intro h
      by_contra hne
      exact encodeChar_ne hd (fun heq => hne (congrArg some heq)) _ (List.mem_of_getLast? h) rfl
    · intro h
      rw [Option.some.inj h, encodeChar_ascii hd]
      rfl

/-! ### Positions -/

theorem splitAt_eq_some_iff : splitAt text index = some (front, back) ↔
    text = front ++ back ∧ (encode front).length = index := by
  induction text generalizing index front with
  | nil =>
      cases index with
      | zero =>
          rw [splitAt, Option.some.injEq, Prod.mk.injEq]
          constructor
          · rintro ⟨rfl, rfl⟩
            exact ⟨rfl, rfl⟩
          · rintro ⟨h, -⟩
            obtain ⟨rfl, rfl⟩ := List.append_eq_nil_iff.mp h.symm
            exact ⟨rfl, rfl⟩
      | succ index =>
          rw [splitAt]
          refine iff_of_false nofun ?_
          rintro ⟨h, hlen⟩
          rw [(List.append_eq_nil_iff.mp h.symm).1] at hlen
          cases hlen
  | cons c text ih =>
      have hpos := c.utf8Size_pos
      cases index with
      | zero =>
          rw [splitAt, Option.some.injEq, Prod.mk.injEq]
          cases front with
          | nil => simp
          | cons d front =>
              refine iff_of_false (fun h => by cases h.1) ?_
              rintro ⟨h, hlen⟩
              rw [← (List.cons.inj h).1, length_encode_cons] at hlen
              omega
      | succ index =>
          rw [splitAt]
          split
          · rw [Option.map_eq_some_iff]
            constructor
            · rintro ⟨⟨front, back⟩, h, heq⟩
              cases heq
              obtain ⟨rfl, hlen⟩ := ih.mp h
              exact ⟨rfl, by rw [length_encode_cons]; omega⟩
            · rintro ⟨h, hlen⟩
              cases front with
              | nil => cases hlen
              | cons d front =>
                  obtain ⟨rfl, htext⟩ := List.cons.inj h
                  rw [length_encode_cons] at hlen
                  exact ⟨(front, back), ih.mpr ⟨htext, by omega⟩, rfl⟩
          · refine iff_of_false nofun ?_
            rintro ⟨h, hlen⟩
            cases front with
            | nil => cases hlen
            | cons d front =>
                rw [← (List.cons.inj h).1, length_encode_cons] at hlen
                omega

theorem splitAt_length (front back : List Char) :
    splitAt (front ++ back) (encode front).length = some (front, back) :=
  splitAt_eq_some_iff.mpr ⟨rfl, rfl⟩

theorem isBoundary_iff : IsBoundary text index ↔
    ∃ front back, text = front ++ back ∧ (encode front).length = index := by
  rw [IsBoundary, Option.isSome_iff_exists]
  constructor
  · rintro ⟨⟨front, back⟩, h⟩
    exact ⟨front, back, splitAt_eq_some_iff.mp h⟩
  · rintro ⟨front, back, h⟩
    exact ⟨(front, back), splitAt_eq_some_iff.mpr h⟩

theorem between_append (front middle back : List Char) :
    between (front ++ (middle ++ back)) (encode front).length (encode (front ++ middle)).length = some middle := by
  rw [between, ← List.append_assoc, splitAt_length]
  show (splitAt (front ++ middle) (encode front).length).bind _ = _
  rw [splitAt_length]
  rfl

/-- A single character is found behind the characters before it. -/
theorem find_char (d : Char) (text : List Char) :
    (find [d] text).getD (encode text).length = (encode (text.takeWhile fun c => c ≠ d)).length := by
  induction text with
  | nil => rfl
  | cons c text ih =>
      by_cases hc : c = d
      · simp [find, hc, List.isPrefixOf]
      · have hprefix : [d].isPrefixOf (c :: text) = false := by simp [List.isPrefixOf, Ne.symm hc]
        rw [find, hprefix, if_neg Bool.false_ne_true, length_encode_cons, Option.getD_map, ih,
          List.takeWhile_cons_of_pos (by simpa using hc), length_encode_cons]

end

end Utf8
