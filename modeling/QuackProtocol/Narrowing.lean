import Mathlib.RingTheory.Int.Basic
import Mathlib.Tactic.Common
import Mathlib.Tactic.NormNum
import Mathlib.Tactic.Ring

/-! Fixed-width integers read as numbers: what truncation and extension do to the number, and when
they leave it alone. -/

namespace Narrowing

/-- The numbers of a signed integer of `w` bits. -/
def SignedRange (w : Nat) (a : Int) : Prop := -2 ^ (w - 1) ≤ a ∧ a < 2 ^ (w - 1)

instance (w : Nat) (a : Int) : Decidable (SignedRange w a) := inferInstanceAs (Decidable (_ ∧ _))

theorem bmod_eq_self_iff {w : Nat} (hw : 0 < w) (a : Int) :
    a.bmod (2 ^ w) = a ↔ SignedRange w a := by
  obtain ⟨n, rfl⟩ : ∃ n, w = n + 1 := ⟨w - 1, by omega⟩
  have hpow : (2 ^ (n + 1) : Nat) = 2 * 2 ^ n := by rw [pow_succ, Nat.mul_comm]
  have hcast : ((2 ^ n : Nat) : Int) = 2 ^ n := by push_cast; rfl
  rw [SignedRange, Nat.add_sub_cancel, ← hcast, hpow]
  constructor
  · intro h
    have hlo := Int.le_bmod (x := a) (m := 2 * 2 ^ n) (by positivity)
    have hhi := Int.bmod_lt (x := a) (m := 2 * 2 ^ n) (by positivity)
    rw [h] at hlo hhi
    omega
  · rintro ⟨hlo, hhi⟩
    exact Int.bmod_eq_of_le (by omega) (by omega)

variable {n w : Nat}

theorem toInt_setWidth (x : BitVec n) (h : w ≤ n) :
    (x.setWidth w).toInt = x.toInt.bmod (2 ^ w) := by
  rw [BitVec.toInt_setWidth, BitVec.toInt_eq_toNat_bmod, Int.bmod_bmod_of_dvd (pow_dvd_pow 2 h)]

theorem toInt_signExtend (x : BitVec n) (h : n ≤ w) : (x.signExtend w).toInt = x.toInt :=
  BitVec.toInt_signExtend_of_le h

theorem signedRange_toInt (x : BitVec n) (h : 0 < n) : SignedRange n x.toInt := by
  rw [← bmod_eq_self_iff h, ← toInt_setWidth x le_rfl, BitVec.setWidth_eq]

theorem SignedRange.mono {a : Int} (h : SignedRange n a) (hle : n ≤ w) : SignedRange w a := by
  have hpow : (2 : Int) ^ (n - 1) ≤ 2 ^ (w - 1) := pow_le_pow_right₀ (by decide) (by omega)
  exact ⟨(neg_le_neg hpow).trans h.1, h.2.trans_le hpow⟩

/-- A signed number survives truncation exactly when it is in the narrow range. -/
theorem toInt_setWidth_eq_iff (x : BitVec n) (hw : 0 < w) (h : w ≤ n) :
    (x.setWidth w).toInt = x.toInt ↔ SignedRange w x.toInt := by
  rw [toInt_setWidth x h, bmod_eq_self_iff hw]

theorem toNat_setWidth_eq_iff (x : BitVec n) : (x.setWidth w).toNat = x.toNat ↔ x.toNat < 2 ^ w := by
  rw [BitVec.toNat_setWidth]
  constructor
  · intro h
    rw [← h]
    exact Nat.mod_lt _ (by positivity)
  · exact Nat.mod_eq_of_lt

/-- Widening and truncating back to a width that still holds the number. -/
theorem signExtend_setWidth {m : Nat} (x : BitVec m) (hw : 0 < w) (hm : m ≤ n) (hn : w ≤ n)
    (hx : SignedRange w x.toInt) : ((x.signExtend n).setWidth w).toInt = x.toInt := by
  rw [toInt_setWidth _ hn, toInt_signExtend x hm]
  exact (bmod_eq_self_iff hw _).mpr hx

/-! ### Scales -/

section
variable {base x : Int}

/-- A power of an even base moves a number by a multiple of `2 ^ w` only if the number is one. -/
theorem dvd_of_dvd_mul_pow_sub (hbase : Even base) {k : Nat} (hk : k ≠ 0)
    (h : (2 : Int) ^ w ∣ x * base ^ k - x) : (2 : Int) ^ w ∣ x := by
  have hodd : Odd (base ^ k - 1) := (hbase.pow_of_ne_zero hk).sub_odd odd_one
  have hcoprime : IsCoprime ((2 : Int) ^ w) (base ^ k - 1) := (Int.isCoprime_two_left.mpr hodd).pow_left
  have hproduct : x * base ^ k - x = x * (base ^ k - 1) := by ring
  rw [hproduct] at h
  exact hcoprime.dvd_of_dvd_mul_right h

/-- A number that is narrowed and read at another scale of an even base is the same number only if it is
zero. -/
theorem bmod_mul_pow_eq_iff (hbase : Even base) (hne : base ≠ 0) (hw : 0 < w) (s t : Nat) :
    x.bmod (2 ^ w) * base ^ t = x * base ^ s ↔ x = 0 ∨ (t = s ∧ SignedRange w x) := by
  have hdvd : (2 : Int) ^ w ∣ x - x.bmod (2 ^ w) := by
    have h := @Int.dvd_self_sub_bmod x (2 ^ w)
    push_cast at h
    exact h
  have hzero (h : (2 : Int) ^ w ∣ x) : x.bmod (2 ^ w) = 0 := by
    apply Int.bmod_eq_zero_of_dvd
    push_cast
    exact h
  constructor
  · intro h
    rcases Nat.lt_trichotomy t s with hlt | rfl | hlt
    · -- The narrowed number is a multiple of the number itself.
      obtain ⟨k, rfl⟩ : ∃ k, s = t + (k + 1) := ⟨s - t - 1, by omega⟩
      have hmultiple : x.bmod (2 ^ w) = x * base ^ (k + 1) := by
        apply mul_right_cancel₀ (pow_ne_zero t hne)
        calc x.bmod (2 ^ w) * base ^ t = x * base ^ (t + (k + 1)) := h
          _ = x * base ^ (k + 1) * base ^ t := by ring
      rw [hmultiple, ← dvd_neg, neg_sub] at hdvd
      have hnarrow := hzero (dvd_of_dvd_mul_pow_sub hbase (Nat.succ_ne_zero k) hdvd)
      rw [hnarrow] at hmultiple
      exact .inl ((mul_eq_zero.mp hmultiple.symm).resolve_right (pow_ne_zero _ hne))
    · have hsame := mul_right_cancel₀ (pow_ne_zero t hne) h
      exact .inr ⟨rfl, (bmod_eq_self_iff hw x).mp hsame⟩
    · obtain ⟨k, rfl⟩ : ∃ k, t = s + (k + 1) := ⟨t - s - 1, by omega⟩
      have hmultiple : x = x.bmod (2 ^ w) * base ^ (k + 1) := by
        apply mul_right_cancel₀ (pow_ne_zero s hne)
        calc x * base ^ s = x.bmod (2 ^ w) * base ^ (s + (k + 1)) := h.symm
          _ = x.bmod (2 ^ w) * base ^ (k + 1) * base ^ s := by ring
      have hnarrow : x.bmod (2 ^ w) = 0 := by
        rw [← Int.bmod_bmod]
        apply Int.bmod_eq_zero_of_dvd
        push_cast
        apply dvd_of_dvd_mul_pow_sub hbase (Nat.succ_ne_zero k)
        rwa [← hmultiple]
      rw [hnarrow, zero_mul] at hmultiple
      exact .inl hmultiple
  · rintro (rfl | ⟨rfl, hrange⟩)
    · rw [Int.zero_bmod, zero_mul, zero_mul]
    · rw [(bmod_eq_self_iff hw x).mpr hrange]

end
end Narrowing
