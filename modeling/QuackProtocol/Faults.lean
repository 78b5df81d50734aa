import QuackProtocol.Decoding

/-! First faults. A computation made of steps ends in the first fault of its steps, an error or a panic, and a
list of faults in the order of the steps says which of the two it is. -/

namespace Decoding

/-- How a step goes wrong. -/
inductive Fault where
  | refused
  | panics
  deriving DecidableEq

namespace Outcome

variable {ε α β : Type} {x : Outcome ε α} {f : α → Outcome ε β} {faults more : List Fault}

/-- The fault that the computation ends in, if there is one. -/
def fault : Outcome ε α → Option Fault
  | .ok _ => none
  | .err _ => some .refused
  | .panic _ => some .panics

/-- The computation ends in the first of these faults. -/
def Meets (x : Outcome ε α) (faults : List Fault) : Prop := x.fault = faults.head?

theorem fault_eq_none_iff : x.fault = none ↔ ∃ a, x = .ok a := by
  cases x with
  | ok a => exact iff_of_true rfl ⟨a, rfl⟩
  | err | panic => exact iff_of_false (fun h => by cases h) fun ⟨_, h⟩ => by cases h

theorem fault_eq_refused_iff : x.fault = some .refused ↔ ∃ e, x = .err e := by
  cases x with
  | err e => exact iff_of_true rfl ⟨e, rfl⟩
  | ok | panic => exact iff_of_false (fun h => by cases h) fun ⟨_, h⟩ => by cases h

theorem Meets.ok_iff (h : x.Meets faults) : (∃ a, x = .ok a) ↔ faults = [] := by
  rw [← fault_eq_none_iff, h, List.head?_eq_none_iff]

theorem Meets.err_iff (h : x.Meets faults) : (∃ e, x = .err e) ↔ faults.head? = some .refused := by
  rw [← fault_eq_refused_iff, h]

theorem meets_ok (a : α) : (.ok a : Outcome ε α).Meets [] := rfl

theorem meets_fault (x : Outcome ε α) : x.Meets x.fault.toList := by
  cases x <;> rfl

theorem Meets.bind (h : x.Meets faults) (next : ∀ a, x = .ok a → (f a).Meets more) :
    (x >>= f).Meets (faults ++ more) := by
  rw [Meets, List.head?_append, ← h]
  cases x with
  | ok a => exact next a rfl
  | err | panic => rfl

/-- What comes after a step that goes wrong does not matter. -/
theorem Meets.stops {fault : Fault} (h : x.Meets (fault :: more)) : (x >>= f).Meets (fault :: more) := by
  cases x with
  | ok a => cases h
  | err | panic => exact h

/-- A step after which nothing goes wrong. -/
theorem Meets.map (h : x.Meets faults) (next : ∀ a, ∃ b, f a = .ok b) : (x >>= f).Meets faults := by
  rw [← List.append_nil faults]
  refine h.bind fun a _ => ?_
  obtain ⟨b, hb⟩ := next a
  exact hb ▸ meets_ok b

theorem meets_check (holds : Prop) [Decidable holds] (cause : Panic) :
    (check holds cause : Outcome ε Unit).Meets (if holds then [] else [.panics]) := by
  rw [check]
  split
  · exact rfl
  · exact rfl

/-- A check that only fails where the next one does. -/
theorem Meets.check_before {holds later : Prop} [Decidable holds] [Decidable later] {cause cause' : Panic}
    {next : Unit → Outcome ε β} (himplies : later → holds)
    (h : (check later cause' >>= next).Meets ((if later then [] else [.panics]) ++ more)) :
    (check holds cause >>= fun _ => check later cause' >>= next).Meets
      ((if later then [] else [.panics]) ++ more) := by
  by_cases hlater : later
  · rw [check, if_pos (himplies hlater)]
    exact h
  · rw [if_neg hlater] at h ⊢
    rw [check]
    split
    · exact h
    · exact rfl

end Outcome

end Decoding
