import Mathlib.Data.List.Basic
import Mathlib.Tactic.Common
import Mathlib.Tactic.Ring

/-! Numbers as bytes: fixed-width little-endian words and LEB128 groups of seven bits. -/

namespace Varint

/-- The low `width` bytes of a number, lowest first. -/
def toLe : Nat → Nat → List UInt8
  | 0, _ => []
  | width + 1, v => UInt8.ofNat (v % 256) :: toLe width (v / 256)

def ofLe : List UInt8 → Nat
  | [] => 0
  | byte :: bytes => byte.toNat + 256 * ofLe bytes

@[simp] theorem length_toLe (width v : Nat) : (toLe width v).length = width := by
  induction width generalizing v with
  | zero => rfl
  | succ width ih => simp [toLe, ih]

theorem ofLe_toLe (width v : Nat) : ofLe (toLe width v) = v % 256 ^ width := by
  induction width generalizing v with
  | zero => simp [toLe, ofLe, Nat.mod_one]
  | succ width ih =>
      have hbyte : (UInt8.ofNat (v % 256)).toNat = v % 256 := by simp
      calc ofLe (toLe (width + 1) v)
          = v % 256 + 256 * ofLe (toLe width (v / 256)) := by rw [toLe, ofLe, hbyte]
        _ = v % 256 + 256 * (v / 256 % 256 ^ width) := by rw [ih]
        _ = v % 256 ^ (width + 1) := by rw [Nat.pow_succ', Nat.mod_mul]

theorem ofLe_lt (bytes : List UInt8) : ofLe bytes < 256 ^ bytes.length := by
  induction bytes with
  | nil => simp [ofLe]
  | cons byte bytes ih =>
      have hbyte := byte.toNat_lt
      calc ofLe (byte :: bytes)
          = byte.toNat + 256 * ofLe bytes := rfl
        _ < 256 * 256 ^ bytes.length := by omega
        _ = 256 ^ (byte :: bytes).length := by rw [List.length_cons, Nat.pow_succ']

/-- A word of whole bytes is read back from its bytes. -/
theorem ofNat_ofLe_toLe (width : Nat) (v : BitVec (8 * width)) :
    BitVec.ofNat (8 * width) (ofLe (toLe width v.toNat)) = v := by
  have hpow : 256 ^ width = 2 ^ (8 * width) := by rw [Nat.pow_mul]
  apply BitVec.eq_of_toNat_eq
  rw [BitVec.toNat_ofNat, ofLe_toLe, hpow, Nat.mod_mod, Nat.mod_eq_of_lt v.isLt]

/-! ### LEB128 -/

/-- Seven bits a byte, lowest first, the high bit set on every byte but the last. -/
def uleb (n : Nat) : List UInt8 :=
  if 0x80 ≤ n then (UInt8.ofNat (n % 0x80) ||| 0x80) :: uleb (n / 0x80) else [UInt8.ofNat n]
termination_by n

/-- The signed form: the last byte's bit `0x40` is the sign. -/
def sleb (v : Int) : List UInt8 :=
  let byte := UInt8.ofNat (v % 0x80).toNat
  let rest := v / 0x80
  if (rest = 0 ∧ byte &&& 0x40 = 0) ∨ (rest = -1 ∧ byte &&& 0x40 ≠ 0) then
    [byte]
  else
    (byte ||| 0x80) :: sleb rest
termination_by v.natAbs
decreasing_by
  rename_i hnot
  have hzero : v ≠ 0 := fun h => hnot (by subst h; decide)
  have hone : v ≠ -1 := fun h => hnot (by subst h; decide)
  omega

theorem group_last (m : Nat) (h : m < 128) :
    UInt8.ofNat m &&& 0x80 = 0 ∧ (UInt8.ofNat m &&& 0x7f).toNat = m := by
  have hall : ∀ i : Fin 128, UInt8.ofNat i &&& 0x80 = 0 ∧ (UInt8.ofNat i &&& 0x7f).toNat = i := by
    decide
  exact hall ⟨m, h⟩

theorem group_more (m : Nat) (h : m < 128) :
    (UInt8.ofNat m ||| 0x80) &&& 0x80 ≠ 0 ∧ ((UInt8.ofNat m ||| 0x80) &&& 0x7f).toNat = m := by
  have hall : ∀ i : Fin 128, (UInt8.ofNat i ||| 0x80) &&& 0x80 ≠ 0 ∧
      ((UInt8.ofNat i ||| 0x80) &&& 0x7f).toNat = i := by
    decide
  exact hall ⟨m, h⟩

theorem group_sign (m : Nat) (h : m < 128) : UInt8.ofNat m &&& 0x40 = 0 ↔ m < 64 := by
  have hall : ∀ i : Fin 128, UInt8.ofNat i &&& 0x40 = 0 ↔ i.val < 64 := by decide
  exact hall ⟨m, h⟩

theorem uleb_of_lt {n : Nat} (h : n < 0x80) : uleb n = [UInt8.ofNat n] := by
  rw [uleb, if_neg (by omega)]

theorem uleb_of_le {n : Nat} (h : 0x80 ≤ n) :
    uleb n = (UInt8.ofNat (n % 0x80) ||| 0x80) :: uleb (n / 0x80) := by
  rw [uleb, if_pos h]

theorem length_uleb_le {n groups : Nat} (h : n < 2 ^ (7 * (groups + 1))) :
    (uleb n).length ≤ groups + 1 := by
  induction groups generalizing n with
  | zero =>
      rw [uleb_of_lt (by omega)]
      exact le_rfl
  | succ groups ih =>
      by_cases hlt : n < 0x80
      · rw [uleb_of_lt hlt]
        exact Nat.le_add_left _ _
      · have hrest : n / 0x80 < 2 ^ (7 * (groups + 1)) := by
          rw [Nat.div_lt_iff_lt_mul (by decide), show 0x80 = 2 ^ 7 by decide, ← pow_add]
          exact h
        rw [uleb_of_le (by omega), List.length_cons]
        exact Nat.succ_le_succ (ih hrest)

/-- The two shapes of a signed number's bytes, with the sign read off the arithmetic. -/
theorem sleb_cases (v : Int) :
    (-64 ≤ v ∧ v < 64 ∧ sleb v = [UInt8.ofNat (v % 0x80).toNat]) ∨
    ((v < -64 ∨ 64 ≤ v) ∧ sleb v = (UInt8.ofNat (v % 0x80).toNat ||| 0x80) :: sleb (v / 0x80)) := by
  have hsign := group_sign (v % 0x80).toNat (by omega)
  rw [sleb]
  split
  · rename_i hdone
    refine .inl ⟨?_, ?_, rfl⟩ <;> rcases hdone with ⟨hrest, hbit⟩ | ⟨hrest, hbit⟩
    · rw [hsign] at hbit; omega
    · rw [ne_eq, hsign] at hbit; omega
    · rw [hsign] at hbit; omega
    · rw [ne_eq, hsign] at hbit; omega
  · rename_i hmore
    refine .inr ⟨?_, rfl⟩
    by_contra hsmall
    apply hmore
    simp only [ne_eq, hsign]
    omega

/-- The bytes of one unsigned number: the continuation bit is set on all but the last. -/
inductive Groups : List UInt8 → Prop where
  | last {byte : UInt8} (stops : byte &&& 0x80 = 0) : Groups [byte]
  | more {byte : UInt8} {bytes : List UInt8} (continues : byte &&& 0x80 ≠ 0) (rest : Groups bytes) :
      Groups (byte :: bytes)

/-- The groups summed up, the one at place `i` with the weight `128 ^ i`. -/
def groupSum : List UInt8 → Nat
  | [] => 0
  | byte :: bytes => byte.toNat % 128 + 128 * groupSum bytes

theorem toNat_group (byte : UInt8) : (byte &&& 0x7f).toNat = byte.toNat % 128 := by
  rw [UInt8.toNat_and]
  exact Nat.and_two_pow_sub_one_eq_mod byte.toNat 7

theorem groupSum_append (front back : List UInt8) :
    groupSum (front ++ back) = groupSum front + 128 ^ front.length * groupSum back := by
  induction front with
  | nil => simp [groupSum]
  | cons byte front ih =>
      calc groupSum (byte :: (front ++ back))
          = byte.toNat % 128 + 128 * (groupSum front + 128 ^ front.length * groupSum back) := by
            rw [groupSum, ih]
        _ = groupSum (byte :: front) + 128 ^ (byte :: front).length * groupSum back := by
            rw [groupSum, List.length_cons, Nat.pow_succ']
            ring

theorem groupSum_lt (bytes : List UInt8) : groupSum bytes < 128 ^ bytes.length := by
  induction bytes with
  | nil => simp [groupSum]
  | cons byte bytes ih =>
      have hgroup := Nat.mod_lt byte.toNat (show 128 > 0 by decide)
      calc groupSum (byte :: bytes)
          = byte.toNat % 128 + 128 * groupSum bytes := rfl
        _ < 128 * 128 ^ bytes.length := by omega
        _ = 128 ^ (byte :: bytes).length := by rw [List.length_cons, Nat.pow_succ']

theorem groups_uleb (n : Nat) : Groups (uleb n) := by
  induction n using Nat.strongRecOn with
  | ind n ih =>
      rcases Nat.lt_or_ge n 0x80 with hlast | hmore
      · rw [uleb_of_lt hlast]
        exact .last (group_last n hlast).1
      · rw [uleb_of_le hmore]
        exact .more (group_more _ (Nat.mod_lt n (by decide))).1 (ih _ (by omega))

theorem groupSum_uleb (n : Nat) : groupSum (uleb n) = n := by
  induction n using Nat.strongRecOn with
  | ind n ih =>
      rcases Nat.lt_or_ge n 0x80 with hlast | hmore
      · rw [uleb_of_lt hlast, groupSum, groupSum, ← toNat_group, (group_last n hlast).2]
        rfl
      · rw [uleb_of_le hmore, groupSum, ih _ (by omega), ← toNat_group,
          (group_more _ (Nat.mod_lt n (by decide))).2]
        omega

/-- A number ends at one place. -/
theorem Groups.unique {groups groups' rest rest' : List UInt8} (h : Groups groups) (h' : Groups groups')
    (heq : groups ++ rest = groups' ++ rest') : groups = groups' := by
  induction h generalizing groups' with
  | last stops =>
      cases h' with
      | last => exact congrArg (fun byte => [byte]) (List.cons.inj heq).1
      | more continues =>
          rw [(List.cons.inj heq).1] at stops
          exact absurd stops continues
  | more continues _ ih =>
      cases h' with
      | last stops =>
          rw [(List.cons.inj heq).1] at continues
          exact absurd stops continues
      | more _ rest =>
          obtain ⟨rfl, htail⟩ := List.cons.inj heq
          rw [ih rest htail]

theorem groups_iff {bytes : List UInt8} : Groups bytes ↔
    ∃ front last, bytes = front ++ [last] ∧ (∀ byte ∈ front, byte &&& 0x80 ≠ 0) ∧ last &&& 0x80 = 0 := by
  constructor
  · intro h
    induction h with
    | @last byte stops => exact ⟨[], byte, rfl, nofun, stops⟩
    | @more byte bytes continues _ ih =>
        obtain ⟨front, last, rfl, hfront, hlast⟩ := ih
        exact ⟨byte :: front, last, rfl, List.forall_mem_cons.mpr ⟨continues, hfront⟩, hlast⟩
  · rintro ⟨front, last, rfl, hfront, hlast⟩
    induction front with
    | nil => exact .last hlast
    | cons byte front ih =>
        obtain ⟨hbyte, hfront⟩ := List.forall_mem_cons.mp hfront
        exact .more hbyte (ih hfront)

theorem group_stops_iff (byte : UInt8) : byte &&& 0x80 = 0 ↔ byte.toNat < 0x80 := by
  have hall : ∀ i : Fin 256, UInt8.ofNat i &&& 0x80 = 0 ↔ i.val < 0x80 := by decide +kernel
  have hbyte := hall ⟨byte.toNat, byte.toNat_lt⟩
  rwa [UInt8.ofNat_toNat] at hbyte

/-- A byte string begins with a number of `n` bytes at most, or it goes on for `n` bytes, or it ends before. -/
theorem groups_cases (bytes : List UInt8) (n : Nat) :
    (∃ groups rest, bytes = groups ++ rest ∧ Groups groups ∧ groups.length ≤ n) ∨
    (∃ front rest, bytes = front ++ rest ∧ (∀ byte ∈ front, byte &&& 0x80 ≠ 0) ∧
      front.length ≤ n ∧ (front.length = n ∨ rest = [])) := by
  induction n generalizing bytes with
  | zero => exact .inr ⟨[], bytes, rfl, nofun, Nat.le_refl _, .inl rfl⟩
  | succ n ih =>
      cases bytes with
      | nil => exact .inr ⟨[], [], rfl, nofun, Nat.zero_le _, .inr rfl⟩
      | cons byte bytes =>
          by_cases hstop : byte &&& 0x80 = 0
          · exact .inl ⟨[byte], bytes, rfl, .last hstop, Nat.le_add_left _ _⟩
          · rcases ih bytes with ⟨groups, rest, rfl, hgroups, hlen⟩ | ⟨front, rest, rfl, hfront, hlen, hend⟩
            · exact .inl ⟨byte :: groups, rest, rfl, .more hstop hgroups, Nat.succ_le_succ hlen⟩
            · refine .inr ⟨byte :: front, rest, rfl, List.forall_mem_cons.mpr ⟨hstop, hfront⟩,
                Nat.succ_le_succ hlen, hend.imp_left (congrArg (· + 1))⟩

/-- Joining a group above the bits already read adds it at its weight. -/
theorem or_shiftLeft_eq {w : Nat} (low : BitVec w) (group shift : Nat)
    (h : low.toNat < 2 ^ shift) :
    low ||| (BitVec.ofNat w group <<< shift) = BitVec.ofNat w (low.toNat + group * 2 ^ shift) := by
  apply BitVec.eq_of_toNat_eq
  calc (low ||| (BitVec.ofNat w group <<< shift)).toNat
      = low.toNat ||| group % 2 ^ w * 2 ^ shift % 2 ^ w := by
        rw [BitVec.toNat_or, BitVec.toNat_shiftLeft, BitVec.toNat_ofNat, Nat.shiftLeft_eq]
    _ = low.toNat ||| group * 2 ^ shift % 2 ^ w := by rw [Nat.mod_mul_mod]
    _ = (low.toNat ||| group * 2 ^ shift) % 2 ^ w := by
        rw [Nat.or_mod_two_pow, Nat.mod_eq_of_lt low.isLt]
    _ = (low.toNat + group * 2 ^ shift) % 2 ^ w := by
        rw [Nat.or_comm, Nat.mul_comm group, ← Nat.two_pow_add_eq_or_of_lt h, Nat.add_comm]
    _ = (BitVec.ofNat w (low.toNat + group * 2 ^ shift)).toNat := (BitVec.toNat_ofNat _ _).symm

end Varint
