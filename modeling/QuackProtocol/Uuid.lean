import QuackProtocol.Values
import Mathlib.Data.List.Induction
import Mathlib.Tactic.Ring
import Mathlib.Tactic.NormNum

/-! The text of a UUID and its two stored halves. The halves are displayed as thirty-two digits with hyphens
between their fields; the parser takes the digits of a text in either case, wherever its hyphens are. -/

namespace QuackProtocol

theorem hexDigit_hexValue {c : Char} {n : Nat} (h : hexValue c = some n) :
    n < 16 ∧ hexDigit n = c := by
  unfold hexValue at h
  have hofNat : Char.ofNat c.toNat = c := Char.ofNat_toNat c
  split at h
  · rename_i hdigit
    cases h
    have hrange : 48 ≤ c.toNat ∧ c.toNat ≤ 57 := by
      simpa [Char.isDigit, UInt32.le_iff_toNat_le] using hdigit
    refine ⟨by omega, ?_⟩
    rw [hexDigit, if_pos (by omega), show 48 + (c.toNat - 48) = c.toNat by omega, hofNat]
  · split at h
    · rename_i hletter
      cases h
      have hrange : 97 ≤ c.toNat ∧ c.toNat ≤ 102 := by
        simpa [Char.le_def, UInt32.le_iff_toNat_le] using hletter
      refine ⟨by omega, ?_⟩
      rw [hexDigit, if_neg (by omega), show 87 + (c.toNat - 87) = c.toNat by omega, hofNat]
    · cases h

theorem hexValue_ne_hyphen {c : Char} (h : (hexValue c).isSome) : c ≠ '-' := by
  rintro rfl
  exact absurd h (by decide)

theorem toLower_hex {c : Char} (h : (hexValue c).isSome) : c.toLower = c := by
  unfold hexValue at h
  have hnot : ¬ (c.toNat ≥ 65 ∧ c.toNat ≤ 90) := by
    split at h
    · rename_i hdigit
      have hrange : 48 ≤ c.toNat ∧ c.toNat ≤ 57 := by
        simpa [Char.isDigit, UInt32.le_iff_toNat_le] using hdigit
      omega
    · split at h
      · rename_i hletter
        have hrange : 97 ≤ c.toNat ∧ c.toNat ≤ 102 := by
          simpa [Char.le_def, UInt32.le_iff_toNat_le] using hletter
        omega
      · cases h
  have hcode : ¬ (c.val ≥ 'A'.val ∧ c.val ≤ 'Z'.val) := by
    simpa [UInt32.le_iff_toNat_le] using hnot
  exact dif_neg hcode

theorem ofHex_concat (digits : List Char) (c : Char) :
    ofHex (digits ++ [c]) = 16 * ofHex digits + (hexValue c).getD 0 := by
  simp [ofHex]

/-- A lower-case hexadecimal text. -/
def IsHex (digits : List Char) : Prop := ∀ c ∈ digits, (hexValue c).isSome

theorem IsHex.append {front back : List Char} (h : IsHex front) (h' : IsHex back) :
    IsHex (front ++ back) := List.forall_mem_append.mpr ⟨h, h'⟩

theorem ofHex_lt {digits : List Char} (h : IsHex digits) : ofHex digits < 16 ^ digits.length := by
  induction digits using List.reverseRecOn with
  | nil => decide
  | append_singleton digits c ih =>
      obtain ⟨n, hn⟩ := Option.isSome_iff_exists.mp (h c (by simp))
      have hlt := (hexDigit_hexValue hn).1
      have hrest := ih fun c hc => h c (by simp [hc])
      calc ofHex (digits ++ [c]) = 16 * ofHex digits + n := by rw [ofHex_concat, hn, Option.getD_some]
        _ < 16 ^ digits.length * 16 := by omega
        _ = 16 ^ (digits ++ [c]).length := by rw [List.length_append, List.length_singleton, pow_succ]

/-- Printing a number that was read from as many digits. -/
theorem paddedHex_ofHex {digits : List Char} (h : IsHex digits) :
    paddedHex digits.length (ofHex digits) = digits := by
  induction digits using List.reverseRecOn with
  | nil => rfl
  | append_singleton digits c ih =>
      obtain ⟨n, hn⟩ := Option.isSome_iff_exists.mp (h c (by simp))
      obtain ⟨hlt, hdigit⟩ := hexDigit_hexValue hn
      have hrest := ih fun c hc => h c (by simp [hc])
      rw [ofHex_concat, hn, List.length_append, List.length_singleton, paddedHex]
      simp only [Option.getD_some]
      rw [show (16 * ofHex digits + n) / 16 = ofHex digits by omega,
        show (16 * ofHex digits + n) % 16 = n by omega, hrest, hdigit]

theorem hexValue_hexDigit {digit : Nat} (h : digit < 16) : hexValue (hexDigit digit) = some digit := by
  decide +revert

/-- Reading back the digits that were printed. -/
theorem ofHex_paddedHex (width n : Nat) : ofHex (paddedHex width n) = n % 16 ^ width := by
  induction width generalizing n with
  | zero => rw [pow_zero, Nat.mod_one]; rfl
  | succ width ih =>
      calc ofHex (paddedHex (width + 1) n)
          = 16 * ofHex (paddedHex width (n / 16)) + n % 16 := by
            rw [paddedHex, ofHex_concat, hexValue_hexDigit (Nat.mod_lt _ (by decide)), Option.getD_some]
        _ = n % 16 + 16 * (n / 16 % 16 ^ width) := by rw [ih, Nat.add_comm]
        _ = n % 16 ^ (width + 1) := by rw [pow_succ', Nat.mod_mul]

theorem length_paddedHex (width n : Nat) : (paddedHex width n).length = width := by
  induction width generalizing n with
  | zero => rfl
  | succ width ih => rw [paddedHex, List.length_append, ih]; rfl

theorem isHex_paddedHex (width n : Nat) : IsHex (paddedHex width n) := by
  induction width generalizing n with
  | zero => exact nofun
  | succ width ih =>
      refine (ih _).append fun c hc => ?_
      rw [List.mem_singleton.mp hc, hexValue_hexDigit (Nat.mod_lt _ (by decide))]
      rfl

theorem paddedHex_append (front back n : Nat) :
    paddedHex (front + back) n = paddedHex front (n / 16 ^ back) ++ paddedHex back n := by
  induction back generalizing n with
  | zero => simp [paddedHex]
  | succ back ih =>
      calc paddedHex (front + back + 1) n
          = paddedHex front (n / 16 / 16 ^ back) ++ paddedHex back (n / 16) ++ [hexDigit (n % 16)] := by
            rw [paddedHex, ih]
        _ = paddedHex front (n / 16 ^ (back + 1)) ++ paddedHex (back + 1) n := by
            rw [Nat.div_div_eq_div_mul, ← pow_succ', paddedHex, List.append_assoc]

theorem paddedHex_mod (width n : Nat) : paddedHex width (n % 16 ^ width) = paddedHex width n := by
  induction width generalizing n with
  | zero => rfl
  | succ width ih =>
      have hdigit : n % 16 ^ (width + 1) % 16 = n % 16 := Nat.mod_mod_of_dvd _ (dvd_pow_self 16 (by omega))
      rw [paddedHex, paddedHex, pow_succ', Nat.mod_mul_right_div_self, ih, ← pow_succ', hdigit]

/-! ### UUIDs -/

/-- The digits of a text, in lower case. -/
def uuidDigits (text : String) : List Char := (text.toList.filter fun c => c ≠ '-').map Char.toLower

/-- Digits in fields of 8, 4, 4, 4 and 12. -/
def hyphenated (digits : List Char) : List Char :=
  digits.take 8 ++ '-' :: (digits.drop 8).take 4 ++ '-' :: (digits.drop 12).take 4 ++
    '-' :: (digits.drop 16).take 4 ++ '-' :: digits.drop 20

theorem filter_hyphen {digits : List Char} (h : IsHex digits) :
    (digits.filter fun c => c ≠ '-') = digits := by
  rw [List.filter_eq_self]
  intro c hc
  exact decide_eq_true (hexValue_ne_hyphen (h c hc))

theorem map_toLower {digits : List Char} (h : IsHex digits) : digits.map Char.toLower = digits := by
  rw [List.map_congr_left fun c hc => toLower_hex (h c hc), List.map_id']

theorem hyphenated_fields {a b c d e : List Char} (ha : a.length = 8) (hb : b.length = 4)
    (hc : c.length = 4) (hd : d.length = 4) :
    hyphenated (a ++ (b ++ (c ++ (d ++ e)))) = a ++ '-' :: b ++ '-' :: c ++ '-' :: d ++ '-' :: e := by
  have hdrop12 : (a ++ (b ++ (c ++ (d ++ e)))).drop 12 = c ++ (d ++ e) := by
    rw [← List.append_assoc, List.drop_left' (by simp [ha, hb])]
  have hdrop16 : (a ++ (b ++ (c ++ (d ++ e)))).drop 16 = d ++ e := by
    rw [← List.append_assoc, ← List.append_assoc, List.drop_left' (by simp [ha, hb, hc])]
  have hdrop20 : (a ++ (b ++ (c ++ (d ++ e)))).drop 20 = e := by
    rw [← List.append_assoc, ← List.append_assoc, ← List.append_assoc,
      List.drop_left' (by simp [ha, hb, hc, hd])]
  rw [hyphenated, hdrop12, hdrop16, hdrop20, List.take_left' ha, List.drop_left' ha, List.take_left' hb,
    List.take_left' hc, List.take_left' hd]

/-- The fields of thirty-two digits. -/
theorem exists_fields {digits : List Char} (h : digits.length = 32) : ∃ a b c d e : List Char,
    digits = a ++ (b ++ (c ++ (d ++ e))) ∧ a.length = 8 ∧ b.length = 4 ∧ c.length = 4 ∧ d.length = 4 ∧
      e.length = 12 := by
  refine ⟨digits.take 8, (digits.drop 8).take 4, (digits.drop 12).take 4, (digits.drop 16).take 4,
    digits.drop 20, ?_, by simp [h], by simp [h], by simp [h], by simp [h], by simp [h]⟩
  have hsplit (n : Nat) : digits.drop n = (digits.drop n).take 4 ++ digits.drop (n + 4) := by
    rw [← List.drop_drop, List.take_append_drop]
  rw [← hsplit 16, ← hsplit 12, ← hsplit 8, List.take_append_drop]

/-- The hyphens are taken out again. -/
theorem uuidDigits_hyphenated {digits : List Char} (hlen : digits.length = 32) (h : IsHex digits) :
    uuidDigits (String.ofList (hyphenated digits)) = digits := by
  obtain ⟨a, b, c, d, e, rfl, ha, hb, hc, hd, -⟩ := exists_fields hlen
  have ⟨hexa, hexb, hexc, hexd, hexe⟩ : IsHex a ∧ IsHex b ∧ IsHex c ∧ IsHex d ∧ IsHex e := by
    simpa only [IsHex, List.forall_mem_append] using h
  have hhyphen : ∀ rest : List Char, (('-' :: rest).filter fun c => c ≠ '-') =
      rest.filter fun c => c ≠ '-' := fun rest => rfl
  rw [uuidDigits, String.toList_ofList, hyphenated_fields ha hb hc hd]
  simp only [List.filter_append, hhyphen, filter_hyphen hexa, filter_hyphen hexb, filter_hyphen hexc,
    filter_hyphen hexd, filter_hyphen hexe, List.append_assoc]
  exact map_toLower h

/-- The digits of a half, the sign bit of the upper one flipped. -/
def HugeIntParts.digits (parts : HugeIntParts) : List Char :=
  paddedHex 16 (parts.upper ^^^ ((1 : I64) <<< 63)).toNat ++ paddedHex 16 parts.lower.toNat

theorem length_digits (parts : HugeIntParts) : parts.digits.length = 32 := by
  rw [HugeIntParts.digits, List.length_append, length_paddedHex, length_paddedHex]

theorem isHex_digits (parts : HugeIntParts) : IsHex parts.digits :=
  (isHex_paddedHex _ _).append (isHex_paddedHex _ _)

theorem toList_display (parts : HugeIntParts) : parts.display.toList = hyphenated parts.digits := by
  have hupper (n : Nat) : paddedHex 16 n =
      paddedHex 8 (n >>> 32) ++ (paddedHex 4 ((n >>> 16) % 2 ^ 16) ++ paddedHex 4 (n % 2 ^ 16)) := by
    rw [show 16 = 8 + (4 + 4) from rfl, paddedHex_append, paddedHex_append, Nat.shiftRight_eq_div_pow,
      Nat.shiftRight_eq_div_pow, ← paddedHex_mod 4 n, ← paddedHex_mod 4 (n / 16 ^ 4)]
    rfl
  have hlower (n : Nat) : paddedHex 16 n = paddedHex 4 (n >>> 48) ++ paddedHex 12 (n % 2 ^ 48) := by
    rw [show 16 = 4 + 12 from rfl, paddedHex_append, Nat.shiftRight_eq_div_pow, ← paddedHex_mod 12 n]
    rfl
  rw [HugeIntParts.digits, hupper, hlower, List.append_assoc, List.append_assoc,
    hyphenated_fields (length_paddedHex _ _) (length_paddedHex _ _) (length_paddedHex _ _)
      (length_paddedHex _ _), HugeIntParts.display, String.toList_ofList]
  simp

theorem uuidDigits_display (parts : HugeIntParts) : uuidDigits parts.display = parts.digits := by
  have htext : parts.display = String.ofList (hyphenated parts.digits) := by
    rw [← toList_display, String.ofList_toList]
  rw [htext, uuidDigits_hyphenated (length_digits parts) (isHex_digits parts)]

theorem digits_injective {parts parts' : HugeIntParts} (h : parts.digits = parts'.digits) :
    parts = parts' := by
  have hhalf {n m : U64} (hnm : paddedHex 16 n.toNat = paddedHex 16 m.toNat) : n = m := by
    have hvalue := congrArg ofHex hnm
    rw [ofHex_paddedHex, ofHex_paddedHex] at hvalue
    have hn : n.toNat < 16 ^ 16 := n.isLt
    have hm : m.toNat < 16 ^ 16 := m.isLt
    rw [Nat.mod_eq_of_lt hn, Nat.mod_eq_of_lt hm] at hvalue
    exact BitVec.eq_of_toNat_eq hvalue
  obtain ⟨upper, lower⟩ := parts
  obtain ⟨upper', lower'⟩ := parts'
  obtain ⟨hupper, hlower⟩ := List.append_inj h (by rw [length_paddedHex, length_paddedHex])
  exact congrArg₂ HugeIntParts.mk ((BitVec.xor_left_inj _).mp (hhalf hupper)) (hhalf hlower)

/-- The digits from which two halves were read. -/
theorem digits_ofHex {front back : List Char} (hfront : front.length = 16) (hback : back.length = 16)
    (hexFront : IsHex front) (hexBack : IsHex back) :
    (HugeIntParts.mk (BitVec.ofNat 64 (ofHex front) ^^^ ((1 : I64) <<< 63))
      (BitVec.ofNat 64 (ofHex back))).digits = front ++ back := by
  have hhalf {half : List Char} (hlen : half.length = 16) (h : IsHex half) :
      paddedHex 16 (BitVec.ofNat 64 (ofHex half)).toNat = half := by
    have hlt : ofHex half < 2 ^ 64 := (ofHex_lt h).trans_eq (by rw [hlen]; norm_num)
    rw [BitVec.toNat_ofNat, Nat.mod_eq_of_lt hlt, ← hlen, paddedHex_ofHex h]
  rw [HugeIntParts.digits, BitVec.xor_assoc, BitVec.xor_self, BitVec.xor_zero, hhalf hfront hexFront,
    hhalf hback hexBack]

/-- What the parser accepts, and the halves it stores. -/
theorem uuidToHugeIntParts_ok_iff {text : String} {parts : HugeIntParts} :
    uuidToHugeIntParts text = .ok parts ↔
      (uuidDigits text).length = 32 ∧ IsHex (uuidDigits text) ∧ parts.digits = uuidDigits text := by
  rw [uuidToHugeIntParts, ← uuidDigits]
  by_cases hdigits : (uuidDigits text).length = 32 ∧
      (uuidDigits text).all (fun c => (hexValue c).isSome) = true
  · obtain ⟨hlen, hall⟩ := hdigits
    have hhex : IsHex (uuidDigits text) := List.all_eq_true.mp hall
    have hstored := @digits_ofHex ((uuidDigits text).take 16) ((uuidDigits text).drop 16)
      (by simp [hlen]) (by simp [hlen]) (fun c hc => hhex c (List.mem_of_mem_take hc))
      (fun c hc => hhex c (List.mem_of_mem_drop hc))
    rw [List.take_append_drop] at hstored
    rw [if_pos ⟨hlen, hall⟩]
    constructor
    · intro h
      cases h
      exact ⟨hlen, hhex, hstored⟩
    · rintro ⟨-, -, h⟩
      rw [digits_injective (hstored.trans h.symm)]
  · rw [if_neg hdigits]
    exact iff_of_false nofun fun h => hdigits ⟨h.1, List.all_eq_true.mpr h.2.1⟩

/-- The halves are read back from their text; a text that is accepted is displayed with its digits in lower case
and in fields, and two of them are stored alike if their digits are the same. -/
structure UuidsInverse : Prop where
  stored : ∀ parts : HugeIntParts, uuidToHugeIntParts parts.display = .ok parts
  displayed : ∀ text parts, uuidToHugeIntParts text = .ok parts →
    parts.display.toList = hyphenated (uuidDigits text)
  normal : ∀ text parts, uuidToHugeIntParts text = .ok parts →
    uuidToHugeIntParts parts.display = .ok parts
  told : ∀ text text' parts parts', uuidToHugeIntParts text = .ok parts →
    uuidToHugeIntParts text' = .ok parts' → (parts = parts' ↔ uuidDigits text = uuidDigits text')

theorem uuids_inverse : UuidsInverse := by
  have hstored (parts : HugeIntParts) : uuidToHugeIntParts parts.display = .ok parts := by
    rw [uuidToHugeIntParts_ok_iff, uuidDigits_display]
    exact ⟨length_digits parts, isHex_digits parts, rfl⟩
  refine ⟨hstored, fun text parts h => ?_, fun _ parts _ => hstored parts,
    fun text text' parts parts' h h' => ?_⟩
  · rw [toList_display, (uuidToHugeIntParts_ok_iff.mp h).2.2]
  · rw [← (uuidToHugeIntParts_ok_iff.mp h).2.2, ← (uuidToHugeIntParts_ok_iff.mp h').2.2]
    exact ⟨congrArg HugeIntParts.digits, digits_injective⟩

/-- A UUID in lower case, with its hyphens. -/
def UuidText (text : String) : Prop :=
  ∃ a b c d e : List Char,
    text.toList = a ++ '-' :: b ++ '-' :: c ++ '-' :: d ++ '-' :: e ∧
    a.length = 8 ∧ b.length = 4 ∧ c.length = 4 ∧ d.length = 4 ∧ e.length = 12 ∧
    IsHex a ∧ IsHex b ∧ IsHex c ∧ IsHex d ∧ IsHex e

/-- The halves of a UUID are displayed as its text. -/
theorem display_uuidToHugeIntParts {text : String} (h : UuidText text) :
    ∃ parts, uuidToHugeIntParts text = .ok parts ∧ parts.display = text := by
  obtain ⟨a, b, c, d, e, htext, ha, hb, hc, hd, he, hexa, hexb, hexc, hexd, hexe⟩ := h
  have hlen : (a ++ (b ++ (c ++ (d ++ e)))).length = 32 := by simp [ha, hb, hc, hd, he]
  have hhex : IsHex (a ++ (b ++ (c ++ (d ++ e)))) :=
    hexa.append (hexb.append (hexc.append (hexd.append hexe)))
  rw [← hyphenated_fields ha hb hc hd] at htext
  have hdigits : uuidDigits text = a ++ (b ++ (c ++ (d ++ e))) := by
    rw [← String.ofList_toList (s := text), htext, uuidDigits_hyphenated hlen hhex]
  obtain ⟨parts, hparts⟩ : ∃ parts, uuidToHugeIntParts text = .ok parts := by
    rw [uuidToHugeIntParts, ← uuidDigits, hdigits]
    exact ⟨_, if_pos ⟨hlen, List.all_eq_true.mpr hhex⟩⟩
  refine ⟨parts, hparts, String.toList_injective ?_⟩
  rw [toList_display, (uuidToHugeIntParts_ok_iff.mp hparts).2.2, hdigits, htext]

end QuackProtocol
