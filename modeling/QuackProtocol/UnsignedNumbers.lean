import QuackProtocol.BinaryRoundTrip
import QuackProtocol.DecodingStops

/-! Unsigned LEB128 numbers. The reader takes up to nineteen groups of seven bits, which are 133, and the
shift of the last one drops what lies above the word; but for that a number is its groups summed up. -/

open Decoding Decode Varint

namespace QuackProtocol

variable {layout : Layout} {c : Cursor}

/-- From the first cursor to the second there are the groups of one number, with the given sum. -/
def SpellsTo (c c' : Cursor) (n : Nat) : Prop :=
  ∃ groups, Groups groups ∧ c.unread = groups ++ c'.unread ∧ c' = c.advance groups.length ∧
    groupSum groups = n

/-- What the reader does at the cursor is exact: a number it returns is the sum of the groups it has taken, and
one that does not fit is refused. What is written is read back. -/
structure UlebExact (layout : Layout) (c : Cursor) : Prop where
  u128 : ∀ v c', readUlebU128.run layout c = .ok (v, c') → SpellsTo c c' v.toNat
  refuses : ∀ groups rest, Groups groups → c.unread = groups ++ rest → 2 ^ 128 ≤ groupSum groups →
    ∃ e, readUlebU128.run layout c = .err e
  u64 : ∀ v c', readUlebU64.run layout c = .ok (v, c') → SpellsTo c c' v.toNat
  usize : ∀ n c', readUlebUsize.run layout c = .ok (n, c') → SpellsTo c c' n ∧ n < usizeLimit
  readsBack : ∀ v : U128, RoundTrips layout (writeUleb v.toNat) readUlebU128 v

/-- The bytes begin with a number of nineteen groups, the last of which has a bit above the word. -/
def CutOff (bytes : Bytes) : Prop :=
  ∃ front last rest, bytes = front ++ last :: rest ∧ front.length = 18 ∧
    (∀ byte ∈ front, byte &&& 0x80 ≠ 0) ∧ 4 ≤ last.toNat ∧ last.toNat < 0x80

theorem stops_readByte_end : StopsBefore layout (fun rest => rest = []) readByte [] .refused := by
  rintro c hc _ rfl hunread
  have hempty : c.remaining = 0 := by rw [← c.length_unread, hunread]; rfl
  have hroom := hc.offset_le
  have hsize := hc.length_le
  simp only [Cursor.remaining] at hempty
  simp only [isizeMax] at hsize
  have hstop : c.offset + 1 < usizeLimit := by simp only [usizeLimit]; omega
  rw [readByte, ensure, bind_assoc, run_bind_ok (c := c) rfl, bind_assoc,
    run_bind_ok (run_usizeAdd hstop), if_pos (by omega)]
  trivial

/-- A number without an end is refused, by the end of the bytes or by the end of the loop. -/
theorem stops_readUlebLoop {front : Bytes} (h : ∀ byte ∈ front, byte &&& 0x80 ≠ 0) {passes shift : Nat}
    {result : U128} (hlen : front.length ≤ passes) (hshift : shift + 7 * passes ≤ 133) :
    StopsBefore layout (fun rest => front.length = passes ∨ rest = [])
      (readUlebLoop passes result shift) front .refused := by
  induction front generalizing passes shift result with
  | nil =>
      cases passes with
      | zero => exact StopsBefore.throw _
      | succ passes =>
          rw [readUlebLoop_succ]
          refine StopsBefore.bind fun c hc rest hrest hunread => ?_
          exact stops_readByte_end c hc rest (hrest.resolve_left (Nat.succ_ne_zero _).symm) hunread
  | cons byte front ih =>
      obtain ⟨hcontinues, hfront⟩ := List.forall_mem_cons.mp h
      obtain ⟨passes, rfl⟩ := Nat.exists_eq_add_one.mpr (Nat.zero_lt_of_lt hlen)
      rw [readUlebLoop_succ]
      refine StopsBefore.after (reads_readByte byte) ?_ fun _ _ => trivial
      refine StopsBefore.after_nil (reads_shiftLeft128 _ (by omega)) ?_ fun _ _ => trivial
      rw [if_neg hcontinues]
      intro c hc rest hrest hunread
      exact ih hfront (Nat.le_of_succ_le_succ hlen) (by omega) c hc rest
        (hrest.imp_left fun h => Nat.succ_inj.mp h) hunread

/-! ### What the reader does -/

/-- The reader takes a number of nineteen bytes at most, or it refuses. -/
theorem readUlebU128_cases (hc : c.Valid) :
    (∃ groups rest, c.unread = groups ++ rest ∧ Groups groups ∧ groups.length ≤ 19 ∧
      readUlebU128.run layout c = .ok (BitVec.ofNat 128 (groupSum groups), c.advance groups.length)) ∨
    ∃ e, readUlebU128.run layout c = .err e := by
  rcases groups_cases c.unread 19 with
    ⟨groups, rest, hunread, hgroups, hlen⟩ | ⟨front, rest, hunread, hfront, hlen, hend⟩
  · exact .inl ⟨groups, rest, hunread, hgroups, hlen, reads_groups hgroups hlen c hc rest trivial hunread⟩
  · exact .inr (stops_readUlebLoop hfront hlen (by decide) c hc rest hend hunread).refused

/-- Of a number that the reader takes, the condition on its bytes. -/
theorem cutOff_iff {groups rest : Bytes} (h : Groups groups) (hlen : groups.length ≤ 19) :
    CutOff (groups ++ rest) ↔ 2 ^ 128 ≤ groupSum groups := by
  constructor
  · rintro ⟨front, last, rest', heq, hfront, hcontinues, hbits, hlast⟩
    have hcut : Groups (front ++ [last]) :=
      groups_iff.mpr ⟨front, last, rfl, hcontinues, (group_stops_iff last).mpr hlast⟩
    have hsame : groups ++ rest = (front ++ [last]) ++ rest' := by rw [heq, List.append_assoc]; rfl
    obtain rfl := h.unique hcut hsame
    rw [groupSum_append, hfront, groupSum, groupSum, Nat.mod_eq_of_lt hlast]
    omega
  · intro hsum
    obtain ⟨front, last, rfl, hcontinues, hstops⟩ := groups_iff.mp h
    have hlast := (group_stops_iff last).mp hstops
    have hfront := groupSum_lt front
    rw [List.length_append, List.length_singleton] at hlen
    rw [groupSum_append, groupSum, groupSum, Nat.mod_eq_of_lt hlast, Nat.mul_zero, Nat.add_zero] at hsum
    have hlength : front.length = 18 := by
      by_contra hshort
      have hfewer : front.length + 1 ≤ 18 := by omega
      have hterm : 128 ^ front.length * last.toNat ≤ 128 ^ front.length * 127 :=
        Nat.mul_le_mul_left _ (by omega)
      have hsmall : 2 ^ 128 < 2 ^ 126 := by
        calc 2 ^ 128 ≤ groupSum front + 128 ^ front.length * last.toNat := hsum
          _ < 128 ^ front.length + 128 ^ front.length * 127 := by omega
          _ = 128 ^ (front.length + 1) := by ring
          _ ≤ 128 ^ 18 := Nat.pow_le_pow_right (by decide) hfewer
          _ = 2 ^ 126 := by norm_num
      exact absurd hsmall (by norm_num)
    rw [hlength] at hfront hsum
    exact ⟨front, last, rest, by simp, hlength, hcontinues, by omega, hlast⟩

theorem spellsTo_advance {groups rest : Bytes} (h : Groups groups) (hunread : c.unread = groups ++ rest) :
    SpellsTo c (c.advance groups.length) (groupSum groups) :=
  ⟨groups, h, by rw [Cursor.unread_advance_of_eq hunread, hunread], rfl, rfl⟩

/-- A number that is cut off is another one than its sum. -/
theorem not_exact_of_cutOff (hc : c.Valid) (h : CutOff c.unread) : ¬ UlebExact layout c := by
  intro hexact
  have ⟨front, last, rest, hunread, hfront, hcontinues, _, hlast⟩ := h
  have hgroups : Groups (front ++ [last]) :=
    groups_iff.mpr ⟨front, last, rfl, hcontinues, (group_stops_iff last).mpr hlast⟩
  have hlen : (front ++ [last]).length ≤ 19 := by simp [hfront]
  have htext : c.unread = (front ++ [last]) ++ rest := by simp [hunread]
  rw [htext, cutOff_iff hgroups hlen] at h
  obtain ⟨e, herr⟩ := hexact.refuses _ rest hgroups htext h
  rw [reads_groups hgroups hlen c hc rest trivial htext] at herr
  cases herr

/-- The reader is exact but where it cuts a number off. -/
theorem uleb_exact_iff (hc : c.Valid) : UlebExact layout c ↔ ¬ CutOff c.unread := by
  constructor
  · exact fun hexact hcut => not_exact_of_cutOff hc hcut hexact
  intro hcut
  have hu128 : ∀ v c', readUlebU128.run layout c = .ok (v, c') → SpellsTo c c' v.toNat := by
    intro v c' hrun
    rcases @readUlebU128_cases layout _ hc with ⟨groups, rest, hunread, hgroups, hlen, hread⟩ | ⟨e, herr⟩
    · rw [hread] at hrun
      cases hrun
      rw [hunread, cutOff_iff hgroups hlen, Nat.not_le] at hcut
      rw [BitVec.toNat_ofNat, Nat.mod_eq_of_lt hcut]
      exact spellsTo_advance hgroups hunread
    · rw [herr] at hrun
      cases hrun
  refine ⟨hu128, ?_, ?_, ?_, fun v => ⟨_, rfl, ?_⟩⟩
  · intro groups rest hgroups hunread hsum
    rcases @readUlebU128_cases layout _ hc with ⟨found, rest', hunread', hfound, hlen, -⟩ | herr
    · obtain rfl := hgroups.unique hfound (hunread.symm.trans hunread')
      rw [hunread, cutOff_iff hgroups hlen] at hcut
      exact absurd hsum hcut
    · exact herr
  · intro v c' hrun
    obtain ⟨value, c₁, hvalue, hrun⟩ := run_bind_eq_ok hrun
    by_cases hfits : value.toNat < 2 ^ 64
    · rw [if_pos hfits] at hrun
      cases hrun
      rw [BitVec.toNat_ofNat, Nat.mod_eq_of_lt hfits]
      exact hu128 value _ hvalue
    · rw [if_neg hfits] at hrun
      cases hrun
  · intro n c' hrun
    obtain ⟨value, c₁, hvalue, hrun⟩ := run_bind_eq_ok hrun
    by_cases hfits : value.toNat < usizeLimit
    · rw [if_pos hfits] at hrun
      cases hrun
      exact ⟨hu128 value _ hvalue, hfits⟩
    · rw [if_neg hfits] at hrun
      cases hrun
  · have hread : Reads layout readUlebU128 (uleb v.toNat) _ := reads_readUlebU128 v.isLt
    rwa [BitVec.ofNat_toNat, BitVec.setWidth_eq] at hread

theorem uleb_exact_twoGroups : UlebExact .words ⟨[0x80, 0x01], 0⟩ := by
  refine (uleb_exact_iff ⟨Nat.zero_le _, by decide⟩).mpr ?_
  rintro ⟨front, last, rest, heq, hfront, -⟩
  have hlength : 2 = (front ++ last :: rest).length := congrArg List.length heq
  rw [List.length_append, hfront] at hlength
  omega

/-- The nineteenth group is the bit above the word, and the number is read as zero. -/
theorem not_uleb_exact : ¬ UlebExact .words ⟨List.replicate 18 0x80 ++ [0x04], 0⟩ := by
  refine not_exact_of_cutOff ⟨Nat.zero_le _, by simp [isizeMax]⟩ ?_
  refine ⟨List.replicate 18 0x80, 0x04, [], rfl, rfl, ?_, by decide, by decide⟩
  intro byte hbyte
  rw [List.eq_of_mem_replicate hbyte]
  decide

end QuackProtocol
