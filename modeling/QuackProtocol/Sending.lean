import Mathlib.Data.List.Basic
import Mathlib.Tactic.Common

/-! Calls that send messages: a call leaves the messages it sent, in order, and ends with a value or with
a failure. A call made once for each item of a list stops at the first failure, so that the items before
it decide what was sent. -/

namespace Sending

/-- The messages `μ` that a call sent and how it ended. -/
@[ext]
structure Call (μ ε α : Type) where
  sent : List μ
  result : Except ε α

namespace Call

variable {μ ε α β : Type}

/-- What is sent before a failure stays sent. -/
def bind (call : Call μ ε α) (f : α → Call μ ε β) : Call μ ε β :=
  match call.result with
  | .ok a => ⟨call.sent ++ (f a).sent, (f a).result⟩
  | .error e => ⟨call.sent, .error e⟩

instance : Monad (Call μ ε) where
  pure a := ⟨[], .ok a⟩
  bind := bind

/-- A step that sends nothing. -/
def step (result : Except ε α) : Call μ ε α := ⟨[], result⟩

@[simp] theorem sent_step (result : Except ε α) : (step result : Call μ ε α).sent = [] := rfl

@[simp] theorem result_step (result : Except ε α) : (step result : Call μ ε α).result = result := rfl

theorem bind_ok {call : Call μ ε α} {a : α} (f : α → Call μ ε β) (h : call.result = .ok a) :
    call >>= f = ⟨call.sent ++ (f a).sent, (f a).result⟩ := by
  show bind call f = _
  rw [bind, h]

theorem bind_error {call : Call μ ε α} {e : ε} (f : α → Call μ ε β) (h : call.result = .error e) :
    call >>= f = ⟨call.sent, .error e⟩ := by
  show bind call f = _
  rw [bind, h]

theorem step_ok_bind (a : α) (f : α → Call μ ε β) : step (.ok a) >>= f = f a := by
  rw [bind_ok f rfl]
  rfl

theorem bind_pure (call : Call μ ε α) : (call >>= fun a => pure a) = call := by
  cases h : call.result with
  | ok a =>
      rw [bind_ok _ h]
      exact Call.ext (List.append_nil _) h.symm
  | error e =>
      rw [bind_error _ h]
      exact Call.ext rfl h.symm

theorem result_bind_ok {call : Call μ ε α} {f : α → Call μ ε β} {b : β} :
    (call >>= f).result = .ok b ↔ ∃ a, call.result = .ok a ∧ (f a).result = .ok b := by
  cases h : call.result with
  | ok a =>
      rw [bind_ok f h]
      simp
  | error e =>
      rw [bind_error f h]
      simp

/-- Only the first part of such a call sends. -/
theorem sent_bind_of_silent {call : Call μ ε α} {f : α → Call μ ε β} (h : ∀ a, (f a).sent = []) :
    (call >>= f).sent = call.sent := by
  cases hresult : call.result with
  | ok a =>
      rw [bind_ok f hresult]
      show call.sent ++ (f a).sent = call.sent
      rw [h, List.append_nil]
  | error e => rw [bind_error f hresult]

/-! ### One call for each item -/

/-- The call for each item, given the number of the item. -/
def each (f : Nat → α → Call μ ε Unit) : Nat → List α → Call μ ε Unit
  | _, [] => pure ()
  | index, item :: items => do
    f index item
    each f (index + 1) items

variable {f : Nat → α → Call μ ε Unit}

/-- The call succeeds for the items before `k`. -/
def SucceedsBefore (f : Nat → α → Call μ ε Unit) (start : Nat) (items : List α) (k : Nat) : Prop :=
  ∀ j (_ : j < k) (hj : j < items.length), (f (start + j) items[j]).result = .ok ()

theorem succeedsBefore_zero (start : Nat) (items : List α) : SucceedsBefore f start items 0 :=
  fun _ hlt => absurd hlt (Nat.not_lt_zero _)

theorem succeedsBefore_succ {start k : Nat} {item : α} {items : List α} :
    SucceedsBefore f start (item :: items) (k + 1) ↔
      (f start item).result = .ok () ∧ SucceedsBefore f (start + 1) items k := by
  constructor
  · intro h
    refine ⟨h 0 (Nat.succ_pos k) (by simp), fun j hlt hj => ?_⟩
    have hnext := h (j + 1) (by omega) (by simpa using hj)
    rwa [List.getElem_cons_succ, ← Nat.add_assoc, Nat.add_right_comm] at hnext
  · rintro ⟨hfirst, hrest⟩ j hlt hj
    cases j with
    | zero => exact hfirst
    | succ j =>
        have hnext := hrest j (by omega) (by simpa using hj)
        rwa [List.getElem_cons_succ, ← Nat.add_assoc, Nat.add_right_comm]

/-- The messages of the calls for the first `k` items. -/
def sentBefore (f : Nat → α → Call μ ε Unit) (start : Nat) (items : List α) (k : Nat) : List μ :=
  ((items.take k).zipIdx start).flatMap fun (item, index) => (f index item).sent

/-- A run over the items ends well where the call for each of them does. -/
theorem each_ok_iff {start : Nat} {items : List α} :
    (each f start items).result = .ok () ↔ SucceedsBefore f start items items.length := by
  induction items generalizing start with
  | nil => exact ⟨fun _ _ _ hj => absurd hj (Nat.not_lt_zero _), fun _ => rfl⟩
  | cons item items ih =>
      rw [each, result_bind_ok, List.length_cons, succeedsBefore_succ]
      constructor
      · rintro ⟨⟨⟩, hfirst, hrest⟩
        exact ⟨hfirst, ih.mp hrest⟩
      · rintro ⟨hfirst, hrest⟩
        exact ⟨(), hfirst, ih.mpr hrest⟩

/-- A run over the items fails at the first item whose call does. -/
theorem each_error_iff {start : Nat} {items : List α} {e : ε} {sent : List μ} :
    each f start items = ⟨sent, .error e⟩ ↔ ∃ k, ∃ hk : k < items.length,
      SucceedsBefore f start items k ∧ (f (start + k) items[k]).result = .error e ∧
      sent = sentBefore f start items k ++ (f (start + k) items[k]).sent := by
  induction items generalizing start sent with
  | nil =>
      constructor
      · intro h
        cases congrArg Call.result h
      · rintro ⟨_, hk, _⟩
        cases hk
  | cons item items ih =>
      cases hfirst : (f start item).result with
      | error e' =>
          rw [each, bind_error _ hfirst]
          constructor
          · intro h
            cases h
            exact ⟨0, by simp, succeedsBefore_zero _ _, hfirst, rfl⟩
          · rintro ⟨k, hk, hbefore, herror, hsent⟩
            cases k with
            | zero =>
                cases hfirst.symm.trans herror
                rw [hsent]
                rfl
            | succ k => cases hfirst.symm.trans (succeedsBefore_succ.mp hbefore).1
      | ok a =>
          cases a
          rw [each, bind_ok _ hfirst]
          constructor
          · intro h
            obtain ⟨hsent, hresult⟩ := Call.mk.inj h
            have hrun : each f (start + 1) items = ⟨(each f (start + 1) items).sent, .error e⟩ :=
              Call.ext rfl hresult
            obtain ⟨k, hk, hbefore, herror, hrest⟩ := ih.mp hrun
            refine ⟨k + 1, by simpa using hk, succeedsBefore_succ.mpr ⟨hfirst, hbefore⟩, ?_, ?_⟩
            · rwa [List.getElem_cons_succ, ← Nat.add_assoc, Nat.add_right_comm]
            · rw [← hsent, hrest, List.getElem_cons_succ, ← Nat.add_assoc, Nat.add_right_comm start,
                sentBefore, sentBefore, List.take_succ_cons, List.zipIdx_cons, List.flatMap_cons,
                List.append_assoc]
          · rintro ⟨k, hk, hbefore, herror, hsent⟩
            cases k with
            | zero => cases hfirst.symm.trans herror
            | succ k =>
                rw [List.getElem_cons_succ, ← Nat.add_assoc, Nat.add_right_comm] at herror hsent
                have hrest := ih.mpr ⟨k, by simpa using hk, (succeedsBefore_succ.mp hbefore).2,
                  herror, rfl⟩
                rw [hrest, hsent, sentBefore, sentBefore, List.take_succ_cons, List.zipIdx_cons,
                  List.flatMap_cons, List.append_assoc]

/-- A run over the items fails with nothing sent, for the failures in `raised`, exactly when no item but
the first can be reached that fails so. The calls send before they succeed and not before they fail. -/
theorem each_silent_iff {raised : ε → Prop} {start : Nat} {items : List α}
    (hsends : ∀ index item, (f index item).result = .ok () → (f index item).sent ≠ [])
    (hsilent : ∀ index item e, raised e → (f index item).result = .error e → (f index item).sent = []) :
    (∀ e, raised e → (each f start items).result = .error e → (each f start items).sent = []) ↔
      ∀ k (hk : k < items.length), 0 < k →
        (∃ e, raised e ∧ (f (start + k) items[k]).result = .error e) →
        ∃ j, ∃ hj : j < items.length, j < k ∧ (f (start + j) items[j]).result ≠ .ok () := by
  constructor
  · intro h k hk hpos
    rintro ⟨e, he, hresult⟩
    by_contra hnone
    have hbefore : SucceedsBefore f start items k := fun j hlt hj => by
      by_contra hnot
      exact hnone ⟨j, hj, hlt, hnot⟩
    have hrun := each_error_iff.mpr ⟨k, hk, hbefore, hresult, rfl⟩
    have hsent := h e he (by rw [hrun])
    rw [hrun] at hsent
    have hfirst := hsends start items[0] (hbefore 0 hpos (by omega))
    obtain ⟨item, rest, rfl⟩ := List.exists_cons_of_length_pos (Nat.zero_lt_of_lt hk)
    obtain ⟨k, rfl⟩ : ∃ i, k = i + 1 := ⟨k - 1, by omega⟩
    rw [sentBefore, List.take_succ_cons, List.zipIdx_cons, List.flatMap_cons, List.append_assoc,
      List.append_eq_nil_iff] at hsent
    exact hfirst hsent.1
  · intro h e he hresult
    have hrun : each f start items = ⟨(each f start items).sent, .error e⟩ := Call.ext rfl hresult
    obtain ⟨k, hk, hbefore, herror, hsent⟩ := each_error_iff.mp hrun
    rw [hsent, hsilent _ _ e he herror, List.append_nil]
    cases k with
    | zero => rfl
    | succ k =>
        obtain ⟨j, hj, hlt, hnot⟩ := h (k + 1) hk (Nat.succ_pos k) ⟨e, he, herror⟩
        exact absurd (hbefore j hlt hj) hnot

end Call

end Sending
