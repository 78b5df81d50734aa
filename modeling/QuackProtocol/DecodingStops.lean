import QuackProtocol.DecodingRules

/-! The other half of reading back: from the given bytes, whatever follows them, a decoder ends without
a value, by an error or by a panic. A sequence of steps ends so if one of them does and those before
it read their bytes. -/

namespace Decoding

variable {ρ δ ε α β : Type}

/-- How a run ends that has no value. -/
inductive Stop where
  | refused
  | panicked (cause : Panic)

def Outcome.StopsAs : Stop → Outcome ε α → Prop
  | .refused, .err _ => True
  | .panicked p, .panic q => p = q
  | _, _ => False

theorem Outcome.StopsAs.not_ok {stop : Stop} {a : α} : ¬ (Outcome.ok a : Outcome ε α).StopsAs stop := by
  cases stop <;> exact id

theorem Outcome.StopsAs.refused {out : Outcome ε α} (h : out.StopsAs .refused) :
    ∃ e, out = .err e := by
  cases out with
  | ok a => cases h
  | err e => exact ⟨e, rfl⟩
  | panic p => cases h

theorem Outcome.StopsAs.panicked {out : Outcome ε α} {cause : Panic}
    (h : out.StopsAs (.panicked cause)) : out = .panic cause := by
  cases out with
  | ok a | err e => cases h
  | panic p =>
      obtain rfl : cause = p := h
      rfl

def StopsBefore (env : ρ) (ahead : List UInt8 → Prop) (m : Decode ρ δ ε α) (bytes : List UInt8)
    (stop : Stop) : Prop :=
  ∀ c : Cursor, c.Valid → ∀ rest, ahead rest → c.unread = bytes ++ rest →
    (m.run env c).StopsAs stop

/-- Stopping before any tail. -/
abbrev Stops (env : ρ) (m : Decode ρ δ ε α) (bytes : List UInt8) (stop : Stop) : Prop :=
  StopsBefore env (fun _ => True) m bytes stop

namespace StopsBefore

variable {env : ρ} {ahead ahead' : List UInt8 → Prop} {m : Decode ρ δ ε α}
  {f : α → Decode ρ δ ε β} {bytes bytes' : List UInt8} {a : α} {stop : Stop}

theorem throw (e : ε) : StopsBefore env ahead (throw e : Decode ρ δ ε α) bytes .refused :=
  fun _ _ _ _ _ => trivial

theorem panic (cause : Panic) :
    StopsBefore env ahead (Decode.panic cause : Decode ρ δ ε α) bytes (.panicked cause) :=
  fun _ _ _ _ _ => rfl

theorem anywhere (h : Stops env m bytes stop) : StopsBefore env ahead m bytes stop :=
  fun c hc rest _ hunread => h c hc rest trivial hunread

/-- Nothing after the step matters. -/
theorem bind (hm : StopsBefore env ahead m bytes stop) :
    StopsBefore env ahead (m >>= f) bytes stop := by
  intro c hc rest hrest hunread
  have h := hm c hc rest hrest hunread
  rw [Decode.run_bind]
  cases hrun : m.run env c with
  | ok out =>
      rw [hrun] at h
      exact absurd h Outcome.StopsAs.not_ok
  | err e =>
      rw [hrun] at h
      cases stop with
      | refused => trivial
      | panicked p => cases h
  | panic q =>
      rw [hrun] at h
      cases stop with
      | refused => cases h
      | panicked p => exact h

/-- The step is reached. -/
theorem after (hm : ReadsBefore env ahead m bytes a)
    (hf : StopsBefore env ahead' (f a) bytes' stop)
    (hahead : ∀ rest, ahead' rest → ahead (bytes' ++ rest)) :
    StopsBefore env ahead' (m >>= f) (bytes ++ bytes') stop := by
  intro c hc rest hrest hunread
  rw [List.append_assoc] at hunread
  rw [Decode.run_bind_ok (hm c hc _ (hahead rest hrest) hunread)]
  exact hf _ (hc.advance hunread) rest hrest (Cursor.unread_advance_of_eq hunread)

/-- After a step that reads no byte. -/
theorem after_nil (hm : ReadsBefore env ahead m [] a) (hf : StopsBefore env ahead' (f a) bytes stop)
    (hahead : ∀ rest, ahead' rest → ahead (bytes ++ rest)) : StopsBefore env ahead' (m >>= f) bytes stop :=
  after hm hf hahead

/-- The bytes behind belong to the tail. -/
theorem more (h : StopsBefore env ahead m bytes stop)
    (hahead : ∀ rest, ahead' rest → ahead (bytes' ++ rest)) :
    StopsBefore env ahead' m (bytes ++ bytes') stop := by
  intro c hc rest hrest hunread
  rw [List.append_assoc] at hunread
  exact h c hc _ (hahead rest hrest) hunread

end StopsBefore

namespace Stops

variable {env : ρ} {m : Decode ρ δ ε α} {f : α → Decode ρ δ ε β} {bytes bytes' : List UInt8} {a : α}
  {stop : Stop}

theorem after (hm : Reads env m bytes a) (hf : Stops env (f a) bytes' stop) :
    Stops env (m >>= f) (bytes ++ bytes') stop :=
  StopsBefore.after hm hf fun _ _ => trivial

/-- After a step that reads no byte. -/
theorem after_nil (hm : Reads env m [] a) (hf : Stops env (f a) bytes stop) :
    Stops env (m >>= f) bytes stop := after hm hf

/-- Before a step that reads no byte. -/
theorem then_nil (hm : Reads env m bytes a) (hf : Stops env (f a) [] stop) :
    Stops env (m >>= f) bytes stop := by
  have h := after hm hf
  rwa [List.append_nil] at h

theorem more (h : Stops env m bytes stop) (bytes' : List UInt8) : Stops env m (bytes ++ bytes') stop :=
  StopsBefore.more h fun _ _ => trivial

/-- A decoder that stops reads nothing back. -/
theorem not_reads (h : Stops env m bytes stop) (hlen : bytes.length ≤ isizeMax) : ¬ Reads env m bytes a := by
  intro hread
  have hvalid : Cursor.Valid ⟨bytes, 0⟩ := ⟨Nat.zero_le _, hlen⟩
  have hunread : Cursor.unread ⟨bytes, 0⟩ = bytes ++ [] := (List.append_nil bytes).symm
  have hstop := h _ hvalid [] trivial hunread
  rw [hread _ hvalid [] trivial hunread] at hstop
  exact Outcome.StopsAs.not_ok hstop

theorem ofResult {x : Except ε α} {e : ε} (h : x = .error e) :
    Stops env (Decode.ofResult x : Decode ρ δ ε α) bytes .refused := by
  subst h
  exact StopsBefore.throw e

theorem check {holds : Prop} [Decidable holds] (h : ¬ holds) (cause : Panic) :
    Stops env (Decode.check holds cause : Decode ρ δ ε Unit) bytes (.panicked cause) := by
  rw [Decode.check_of_not h]
  exact StopsBefore.panic cause

theorem audit (h : Stops env m bytes stop) (entry : δ) : Stops env (Decode.audit entry m) bytes stop :=
  fun c hc rest hrest hunread => h c hc rest hrest hunread

theorem onBytes {other : List UInt8} (h : StopsBefore env (fun rest => rest = []) m other stop)
    (hlen : other.length ≤ isizeMax) : Stops env (Decode.onBytes other m) bytes stop := by
  intro c _ rest _ _
  have hrun := h ⟨other, 0⟩ ⟨Nat.zero_le _, hlen⟩ [] rfl (by simp [Cursor.unread])
  simp only [Decode.onBytes]
  cases hm : m.run env ⟨other, 0⟩ with
  | ok out =>
      rw [hm] at hrun
      exact absurd hrun Outcome.StopsAs.not_ok
  | err e =>
      rw [hm] at hrun
      cases stop with
      | refused => trivial
      | panicked p => cases hrun
  | panic q =>
      rw [hm] at hrun
      cases stop with
      | refused => cases hrun
      | panicked p => exact hrun

theorem withBudget {f : Nat → Decode ρ δ ε α} (hf : ∀ n, bytes.length < n → Stops env (f n) bytes stop) :
    Stops env (Decode.withBudget f) bytes stop := by
  intro c hc rest _ hunread
  refine hf (c.remaining + 1) ?_ c hc rest trivial hunread
  rw [← c.length_unread, hunread, List.length_append]
  omega

/-- A list whose elements are read back or refused, one of them refused. -/
theorem collect {f : Nat → Decode ρ δ ε α} {start : Nat} {parts : List (List UInt8)}
    (hf : ∀ i (h : i < parts.length),
      (∃ a, Reads env (f (start + i)) parts[i] a) ∨ Stops env (f (start + i)) parts[i] stop)
    (hstop : ∃ i, ∃ h : i < parts.length, Stops env (f (start + i)) parts[i] stop) :
    Stops env (Decode.collect f start parts.length) parts.flatten stop := by
  induction parts generalizing start with
  | nil => obtain ⟨i, hi, -⟩ := hstop; cases hi
  | cons part parts ih =>
      rcases hf 0 (Nat.succ_pos _) with ⟨a, ha⟩ | hhead
      · by_cases hhead : Stops env (f start) part stop
        · exact StopsBefore.bind (hhead.more _)
        · obtain ⟨i, hi, hi'⟩ := hstop
          cases i with
          | zero => exact absurd hi' hhead
          | succ i =>
              have hrest : Stops env (Decode.collect f (start + 1) parts.length) parts.flatten stop := by
                refine ih (fun j hj => ?_) ⟨i, ?_, ?_⟩
                · have h := hf (j + 1) (Nat.succ_lt_succ hj)
                  rwa [← Nat.add_assoc, Nat.add_right_comm] at h
                · exact Nat.lt_of_succ_lt_succ hi
                · rwa [← Nat.add_assoc, Nat.add_right_comm] at hi'
              exact after ha (StopsBefore.bind hrest)
      · exact StopsBefore.bind (Stops.more hhead _)

/-- A list of values that are computed and not read, one of which is refused. -/
theorem collect_nil {f : Nat → Decode ρ δ ε α} {count : Nat}
    (hf : ∀ i < count, (∃ a, Reads env (f i) [] a) ∨ Stops env (f i) [] stop)
    (hstop : ∃ i < count, Stops env (f i) [] stop) :
    Stops env (Decode.collect f 0 count) [] stop := by
  have h : Stops env (Decode.collect f 0 (List.replicate count ([] : List UInt8)).length)
      (List.replicate count ([] : List UInt8)).flatten stop := by
    refine collect (fun i hi => ?_) ?_
    · rw [List.length_replicate] at hi
      rw [List.getElem_replicate, Nat.zero_add]
      exact hf i hi
    · obtain ⟨i, hi, hi'⟩ := hstop
      refine ⟨i, by rwa [List.length_replicate], ?_⟩
      rwa [List.getElem_replicate, Nat.zero_add]
  rwa [List.length_replicate, List.flatten_replicate_nil] at h

end Stops

end Decoding
