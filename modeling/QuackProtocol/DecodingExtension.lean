import QuackProtocol.DecodingRules

/-! Two runs of a decoder, on a byte string and on the same with more bytes behind it. `Follows` says
that the longer run does whatever the shorter one did, unless that failed: it reads the same value
and stops at the same place. The bytes a decoder accepts then have no other accepted bytes in front
of them. -/

namespace Decoding

variable {ρ δ ε α β : Type}

namespace Cursor

def extend (c : Cursor) (more : List UInt8) : Cursor := { c with bytes := c.bytes ++ more }

def Inside (c : Cursor) : Prop := c.offset ≤ c.bytes.length

@[simp] theorem extend_offset (c : Cursor) (more : List UInt8) : (c.extend more).offset = c.offset :=
  rfl

theorem remaining_extend {c : Cursor} (h : c.Inside) (more : List UInt8) :
    (c.extend more).remaining = c.remaining + more.length := by
  simp only [Inside, remaining, extend, List.length_append] at *
  omega

end Cursor

/-- What `m` does from a cursor, `m'` does with more bytes behind. Where `m` runs out of its budget of
nested calls, `m'` need not. -/
def FollowsAt (env : ρ) (more : List UInt8) (c : Cursor) (m m' : Decode ρ δ ε α)
    (post : α → α → Cursor → Prop) : Prop :=
  match m.run env c with
  | .ok (a, c') => ∃ a', m'.run env (c.extend more) = .ok (a', c'.extend more) ∧ post a a' c'
  | .err _ => True
  | .panic p => p = .recursion ∨ m'.run env (c.extend more) = .panic p

namespace FollowsAt

variable {env : ρ} {more : List UInt8} {c : Cursor} {m m' : Decode ρ δ ε α}
  {f f' : α → Decode ρ δ ε β} {post : α → α → Cursor → Prop} {post' : β → β → Cursor → Prop}

theorem pure {a a' : α} (h : post a a' c) :
    FollowsAt env more c (pure a : Decode ρ δ ε α) (pure a') post := ⟨a', rfl, h⟩

theorem throw (e : ε) : FollowsAt env more c (throw e : Decode ρ δ ε α) m' post := trivial

theorem weaken {post₂ : α → α → Cursor → Prop} (hm : FollowsAt env more c m m' post)
    (h : ∀ a a' c', post a a' c' → post₂ a a' c') : FollowsAt env more c m m' post₂ := by
  unfold FollowsAt at hm ⊢
  split at hm
  · obtain ⟨a', hrun, hpost⟩ := hm
    exact ⟨a', hrun, h _ _ _ hpost⟩
  · trivial
  · exact hm

theorem bind (hm : FollowsAt env more c m m' post)
    (hf : ∀ a a' c', post a a' c' → FollowsAt env more c' (f a) (f' a') post') :
    FollowsAt env more c (m >>= f) (m' >>= f') post' := by
  unfold FollowsAt at hm ⊢
  rw [Decode.run_bind, Decode.run_bind]
  cases hrun : m.run env c with
  | ok out =>
      obtain ⟨a, c'⟩ := out
      rw [hrun] at hm
      obtain ⟨a', hlonger, hpost⟩ := hm
      rw [hlonger]
      exact hf a a' c' hpost
  | err e => trivial
  | panic p =>
      rw [hrun] at hm
      rcases hm with hp | hlonger
      · exact .inl hp
      · exact .inr (by rw [hlonger])

theorem cursor : FollowsAt env more c (Decode.cursor : Decode ρ δ ε Cursor) Decode.cursor
    (fun reader reader' c' => c = reader ∧ c.extend more = reader' ∧ c = c') :=
  ⟨_, rfl, rfl, rfl, rfl⟩

theorem setOffset (offset : Nat) :
    FollowsAt env more c (Decode.setOffset offset : Decode ρ δ ε Unit) (Decode.setOffset offset)
      (fun _ _ c' => c' = { c with offset }) := ⟨(), rfl, rfl⟩

theorem record (entry entry' : δ) :
    FollowsAt env more c (Decode.record entry : Decode ρ δ ε Unit) (Decode.record entry')
      (fun _ _ c' => c = c') := ⟨(), rfl, rfl⟩

theorem panic (cause : Panic) :
    FollowsAt env more c (Decode.panic cause : Decode ρ δ ε α) (Decode.panic cause) post := .inr rfl

theorem check (holds : Prop) [Decidable holds] (cause : Panic) :
    FollowsAt env more c (Decode.check holds cause : Decode ρ δ ε Unit) (Decode.check holds cause)
      (fun _ _ c' => holds ∧ c = c') := by
  unfold Decode.check
  split
  · exact pure ⟨‹_›, rfl⟩
  · exact panic cause

theorem usizeAdd (x y : Nat) :
    FollowsAt env more c (Decode.usizeAdd x y : Decode ρ δ ε Nat) (Decode.usizeAdd x y)
      (fun z z' c' => z = x + y ∧ z' = x + y ∧ c = c') :=
  (check _ .overflow).bind fun _ _ _ h => pure ⟨rfl, rfl, h.2⟩

/-- A place that is known to be there. -/
theorem index {xs ys : List α} {i : Nat} (h : i < xs.length) :
    FollowsAt env more c (Decode.index xs i : Decode ρ δ ε α) (Decode.index (xs ++ ys) i)
      (fun a a' c' => a = a' ∧ c = c') := by
  unfold Decode.index
  rw [List.getElem?_append_left h, List.getElem?_eq_getElem h]
  exact pure ⟨rfl, rfl⟩

theorem slice {xs ys : List α} {start stop : Nat} (h : start ≤ stop) (hstop : stop ≤ xs.length) :
    FollowsAt env more c (Decode.slice xs start stop : Decode ρ δ ε (List α))
      (Decode.slice (xs ++ ys) start stop) (fun bytes bytes' c' => bytes = bytes' ∧ c = c') := by
  have hlonger : stop ≤ (xs ++ ys).length := by
    rw [List.length_append]
    omega
  unfold Decode.slice Decode.check
  rw [if_pos ⟨h, hstop⟩, if_pos ⟨h, hlonger⟩]
  refine pure ⟨?_, rfl⟩
  rw [List.drop_append_of_le_length (Nat.le_trans h hstop), List.take_append_of_le_length]
  rw [List.length_drop]
  omega

theorem audit {entry entry' : δ} (h : FollowsAt env more c m m' post) :
    FollowsAt env more c (Decode.audit entry m) (Decode.audit entry' m') post :=
  (record entry entry').bind fun _ _ _ hc => hc ▸ h

end FollowsAt

/-- From every place inside the shorter byte string, with the same value and a place inside again. -/
def Follows (env : ρ) (more : List UInt8) (m m' : Decode ρ δ ε α) : Prop :=
  ∀ c : Cursor, c.Inside → FollowsAt env more c m m' fun a a' c' => a = a' ∧ c'.Inside

namespace Follows

variable {env : ρ} {more : List UInt8} {m m' n n' : Decode ρ δ ε α} {f f' : α → Decode ρ δ ε β}

theorem pure (a : α) : Follows env more (pure a : Decode ρ δ ε α) (pure a) :=
  fun _ hc => .pure ⟨rfl, hc⟩

theorem throw (e : ε) : Follows env more (throw e : Decode ρ δ ε α) m' := fun _ _ => .throw e

theorem bind (hm : Follows env more m m') (hf : ∀ a, Follows env more (f a) (f' a)) :
    Follows env more (m >>= f) (m' >>= f') := by
  intro c hc
  refine (hm c hc).bind ?_
  rintro a _ c' ⟨rfl, hc'⟩
  exact hf a c' hc'

theorem ite {holds : Prop} [Decidable holds] (hm : Follows env more m m')
    (hn : Follows env more n n') :
    Follows env more (if holds then m else n) (if holds then m' else n') := by
  split
  · exact hm
  · exact hn

theorem panic (cause : Panic) :
    Follows env more (Decode.panic cause : Decode ρ δ ε α) (Decode.panic cause) :=
  fun _ _ => .panic cause

/-- The budget of the longer run may be larger. -/
theorem outOfBudget : Follows env more (Decode.panic .recursion : Decode ρ δ ε α) m' :=
  fun _ _ => .inl rfl

theorem ask : Follows env more (Decode.ask : Decode ρ δ ε ρ) Decode.ask :=
  fun _ hc => ⟨env, rfl, rfl, hc⟩

theorem record (entry : δ) :
    Follows env more (Decode.record entry : Decode ρ δ ε Unit) (Decode.record entry) :=
  fun _ hc => ⟨(), rfl, rfl, hc⟩

theorem nested (h : Follows env more m m') (enter leave enter' leave' : δ) :
    Follows env more (Decode.nested enter leave m) (Decode.nested enter' leave' m') := h

theorem check (holds : Prop) [Decidable holds] (cause : Panic) :
    Follows env more (Decode.check holds cause : Decode ρ δ ε Unit) (Decode.check holds cause) :=
  .ite (.pure ()) (.panic cause)

theorem usizeAdd (x y : Nat) :
    Follows env more (Decode.usizeAdd x y : Decode ρ δ ε Nat) (Decode.usizeAdd x y) :=
  (check _ .overflow).bind fun _ => .pure _

theorem usizeMul (x y : Nat) :
    Follows env more (Decode.usizeMul x y : Decode ρ δ ε Nat) (Decode.usizeMul x y) :=
  (check _ .overflow).bind fun _ => .pure _

theorem slice (xs : List α) (start stop : Nat) :
    Follows env more (Decode.slice xs start stop : Decode ρ δ ε (List α))
      (Decode.slice xs start stop) :=
  (check _ .bounds).bind fun _ => .pure _

theorem index (xs : List α) (i : Nat) :
    Follows env more (Decode.index xs i : Decode ρ δ ε α) (Decode.index xs i) := by
  unfold Decode.index
  split
  · exact .pure _
  · exact .panic .bounds

theorem ofResult (x : Except ε α) :
    Follows env more (Decode.ofResult x : Decode ρ δ ε α) (Decode.ofResult x) := by
  cases x with
  | ok a => exact .pure a
  | error e => exact .throw e

theorem audit {entry entry' : δ} (h : Follows env more m m') :
    Follows env more (Decode.audit entry m) (Decode.audit entry' m') := fun c hc => (h c hc).audit

/-- A byte string of its own does not grow. -/
theorem onBytes (bytes : List UInt8) (m : Decode ρ δ ε α) :
    Follows env more (Decode.onBytes bytes m) (Decode.onBytes bytes m) := by
  intro c hc
  unfold FollowsAt
  simp only [Decode.onBytes]
  cases m.run env ⟨bytes, 0⟩ with
  | ok out => exact ⟨out.1, rfl, rfl, hc⟩
  | err e => trivial
  | panic p => exact .inr rfl

theorem withBudget {f : Nat → Decode ρ δ ε α}
    (hf : ∀ budget budget', budget ≤ budget' → Follows env more (f budget) (f budget')) :
    Follows env more (Decode.withBudget f) (Decode.withBudget f) := by
  intro c hc
  have hle : c.remaining + 1 ≤ (c.extend more).remaining + 1 := by
    rw [Cursor.remaining_extend hc]
    omega
  exact hf _ _ hle c hc

theorem collect {f f' : Nat → Decode ρ δ ε α} (hf : ∀ i, Follows env more (f i) (f' i))
    (start count : Nat) :
    Follows env more (Decode.collect f start count) (Decode.collect f' start count) := by
  induction count generalizing start with
  | zero => exact .pure []
  | succ count ih => exact (hf start).bind fun _ => (ih (start + 1)).bind fun _ => .pure _

end Follows

end Decoding
