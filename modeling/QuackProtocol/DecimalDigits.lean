import Mathlib.Algebra.Order.Group.Nat
import Mathlib.Data.List.Induction
import Mathlib.Tactic.Ring

/-! Strings of decimal digits and the numbers they stand for. -/

namespace DecimalDigits

/-- The number that a string of digits stands for. -/
def value (digits : List Char) : Nat :=
  digits.foldl (fun n digit => 10 * n + (digit.toNat - 48)) 0

def IsDigits (text : List Char) : Prop := ∀ c ∈ text, c.isDigit = true

@[simp] theorem value_nil : value [] = 0 := rfl

theorem value_concat (digits : List Char) (digit : Char) :
    value (digits ++ [digit]) = 10 * value digits + (digit.toNat - 48) := by
  rw [value, List.foldl_append]
  rfl

/-- What stands before other digits counts for a power of ten each. -/
theorem value_append (front back : List Char) :
    value (front ++ back) = value front * 10 ^ back.length + value back := by
  induction back using List.reverseRecOn with
  | nil => simp
  | append_singleton back digit ih =>
      calc value (front ++ (back ++ [digit]))
          = 10 * value (front ++ back) + (digit.toNat - 48) := by
            rw [← List.append_assoc, value_concat]
        _ = value front * 10 ^ (back.length + 1) + (10 * value back + (digit.toNat - 48)) := by
            rw [ih, pow_succ]
            ring
        _ = value front * 10 ^ (back ++ [digit]).length + value (back ++ [digit]) := by
            rw [value_concat, List.length_append, List.length_singleton]

theorem value_replicate_zero (n : Nat) : value (List.replicate n '0') = 0 := by
  induction n with
  | zero => rfl
  | succ n ih =>
      rw [List.replicate_succ', value_concat, ih]
      rfl

theorem value_pad (digits : List Char) (n : Nat) :
    value (digits ++ List.replicate n '0') = value digits * 10 ^ n := by
  rw [value_append, value_replicate_zero, List.length_replicate, Nat.add_zero]

theorem value_zero_cons (digits : List Char) : value ('0' :: digits) = value digits := by
  have hzero : value ['0'] = 0 := rfl
  rw [← List.singleton_append, value_append, hzero, Nat.zero_mul, Nat.zero_add]

theorem digit_lt {c : Char} (h : c.isDigit = true) : c.toNat - 48 < 10 := by
  simp only [Char.isDigit, Bool.and_eq_true, decide_eq_true_eq] at h
  have hle : c.toNat ≤ 57 := h.2
  omega

theorem value_lt {digits : List Char} (h : IsDigits digits) : value digits < 10 ^ digits.length := by
  induction digits using List.reverseRecOn with
  | nil => simp
  | append_singleton digits digit ih =>
      have hfront := ih fun c hc => h c (List.mem_append_left _ hc)
      have hlast := digit_lt (h digit (by simp))
      calc value (digits ++ [digit])
          = 10 * value digits + (digit.toNat - 48) := value_concat digits digit
        _ < 10 ^ digits.length * 10 := by omega
        _ = 10 ^ (digits ++ [digit]).length := by
            rw [List.length_append, List.length_singleton, pow_succ]

/-- Digits that are cut off at the end. -/
theorem value_take {digits : List Char} (h : IsDigits digits) (k : Nat) :
    value (digits.take k) = value digits / 10 ^ (digits.length - k) := by
  have hdrop : IsDigits (digits.drop k) := fun c hc => h c (List.mem_of_mem_drop hc)
  have hlt := value_lt hdrop
  rw [List.length_drop] at hlt
  have hsplit := value_append (digits.take k) (digits.drop k)
  rw [List.take_append_drop, List.length_drop] at hsplit
  symm
  calc value digits / 10 ^ (digits.length - k)
      = value (digits.take k) + value (digits.drop k) / 10 ^ (digits.length - k) := by
        rw [hsplit, Nat.mul_comm, Nat.mul_add_div (Nat.pow_pos (by decide))]
    _ = value (digits.take k) := by rw [Nat.div_eq_of_lt hlt, Nat.add_zero]

/-! ### Fractions -/

/-- The digits of a fraction at a scale: padded with zeros, or cut. -/
def atScale (fraction : List Char) (scale : Nat) : List Char :=
  (fraction ++ List.replicate (scale - fraction.length) '0').take scale

theorem length_atScale (fraction : List Char) (scale : Nat) : (atScale fraction scale).length = scale := by
  rw [atScale, List.length_take, List.length_append, List.length_replicate]
  omega

theorem isDigits_append {front back : List Char} :
    IsDigits (front ++ back) ↔ IsDigits front ∧ IsDigits back := by
  simp only [IsDigits, List.forall_mem_append]

theorem isDigits_zeros (n : Nat) : IsDigits (List.replicate n '0') := by
  intro c hc
  rw [List.eq_of_mem_replicate hc]
  rfl

theorem isDigits_atScale {fraction : List Char} (h : IsDigits fraction) (scale : Nat) :
    IsDigits (atScale fraction scale) := fun c hc =>
  isDigits_append.mpr ⟨h, isDigits_zeros _⟩ c (List.mem_of_mem_take hc)

theorem value_atScale {fraction : List Char} (h : IsDigits fraction) (scale : Nat) :
    value (atScale fraction scale) = value fraction * 10 ^ scale / 10 ^ fraction.length := by
  have hdigits : IsDigits (fraction ++ List.replicate (scale - fraction.length) '0') :=
    isDigits_append.mpr ⟨h, isDigits_zeros _⟩
  have hlen : (fraction ++ List.replicate (scale - fraction.length) '0').length =
      fraction.length + (scale - fraction.length) := by simp
  rw [atScale, value_take hdigits, hlen, value_pad]
  rcases Nat.le_total scale fraction.length with hle | hle
  · have hpow : (10 : Nat) ^ fraction.length = 10 ^ (fraction.length - scale) * 10 ^ scale := by
      rw [← pow_add, Nat.sub_add_cancel hle]
    rw [Nat.sub_eq_zero_of_le hle, Nat.add_zero, pow_zero, Nat.mul_one, hpow,
      Nat.mul_div_mul_right _ _ (Nat.pow_pos (by decide))]
  · have hpow : (10 : Nat) ^ scale = 10 ^ (scale - fraction.length) * 10 ^ fraction.length := by
      rw [← pow_add, Nat.sub_add_cancel hle]
    rw [Nat.add_sub_cancel' hle, Nat.sub_self, pow_zero, Nat.div_one, hpow, ← Nat.mul_assoc,
      Nat.mul_div_cancel _ (Nat.pow_pos (by decide))]

/-- The magnitude of a numeral at a scale: the digits beyond the scale are cut off. -/
theorem value_integer_atScale {fraction : List Char} (integer : List Char) (h : IsDigits fraction)
    (scale : Nat) : value (integer ++ atScale fraction scale) =
      value (integer ++ fraction) * 10 ^ scale / 10 ^ fraction.length := by
  calc value (integer ++ atScale fraction scale)
      = value integer * 10 ^ scale + value fraction * 10 ^ scale / 10 ^ fraction.length := by
        rw [value_append, length_atScale, value_atScale h]
    _ = (10 ^ fraction.length * (value integer * 10 ^ scale) + value fraction * 10 ^ scale) /
          10 ^ fraction.length := (Nat.mul_add_div (Nat.pow_pos (by decide)) _ _).symm
    _ = value (integer ++ fraction) * 10 ^ scale / 10 ^ fraction.length := by
        rw [value_append, Nat.add_mul, Nat.mul_right_comm, Nat.mul_comm (10 ^ fraction.length)]

theorem value_toDigits (n : Nat) : value (Nat.toDigits 10 n) = n := by
  induction n using Nat.strongRecOn with
  | ind n ih =>
      rw [Nat.toDigits_eq_if (by decide)]
      split
      · rename_i hlt
        rw [← List.nil_append [n.digitChar], value_concat, value_nil, Nat.toNat_digitChar_sub_48_of_lt_ten hlt]
        omega
      · rename_i hlt
        rw [value_concat, ih (n / 10) (by omega), Nat.toNat_digitChar_sub_48_of_lt_ten (Nat.mod_lt _ (by decide))]
        omega

theorem isDigits_toDigits (n : Nat) : IsDigits (Nat.toDigits 10 n) := fun _ hc =>
  Nat.isDigit_of_mem_toDigits (by decide) (by decide) hc

theorem length_toDigits_le {n k : Nat} (hk : 0 < k) (h : n < 10 ^ k) : (Nat.toDigits 10 n).length ≤ k :=
  (Nat.length_toDigits_le_iff (by decide) hk).mpr h

end DecimalDigits
