import Mathlib.Algebra.Group.Nat.Defs
import Mathlib.Data.List.Basic
import Mathlib.Tactic.Common

/-! Decoders over a byte string, as a monad: a run returns a value, an error or a panic, and leaves
a trace of the checks it passed through. The rules below derive a property of a composed decoder
from the same property of its parts: `Reads` (the decoder reads a value back from given bytes) and
`Guarded` (the decoder panics exactly where its trace says a check fails, and moves forward only).
Sizes are those of a 64-bit target. -/

namespace Decoding

/-- The largest size in bytes of one object. -/
def isizeMax : Nat := 2 ^ 63 - 1

/-- One past the largest index. -/
def usizeLimit : Nat := 2 ^ 64

/-- Why a run stops without a value and without an error. `recursion` is the model's own: the
budget of nested calls ran out. -/
inductive Panic where
  | overflow
  | capacity
  | bounds
  | recursion
  deriving DecidableEq

inductive Outcome (ε α : Type) where
  | ok (value : α)
  | err (error : ε)
  | panic (cause : Panic)

namespace Outcome

variable {ε α β : Type}

/-- The run ends with a value or an error. -/
def Returns : Outcome ε α → Prop
  | .panic _ => False
  | _ => True

instance : Monad (Outcome ε) where
  pure := .ok
  bind
    | .ok a, f => f a
    | .err e, _ => .err e
    | .panic p, _ => .panic p

instance : MonadLift (Except ε) (Outcome ε) where
  monadLift
    | .ok a => .ok a
    | .error e => .err e

def check (holds : Prop) [Decidable holds] (cause : Panic) : Outcome ε Unit :=
  if holds then .ok () else .panic cause

theorem check_eq_ok {holds : Prop} [Decidable holds] {cause : Panic}
    (h : (check holds cause : Outcome ε Unit) = .ok ()) : holds := by
  by_contra hnot
  rw [check, if_neg hnot] at h
  cases h

@[simp] theorem ok_bind (a : α) (f : α → Outcome ε β) : (.ok a : Outcome ε α) >>= f = f a := rfl

theorem bind_eq_ok {x : Outcome ε α} {f : α → Outcome ε β} {b : β} (h : x >>= f = .ok b) :
    ∃ a, x = .ok a ∧ f a = .ok b := by
  cases x with
  | ok a => exact ⟨a, rfl, h⟩
  | err e => cases h
  | panic p => cases h

theorem returns_bind_iff {x : Outcome ε α} {f : α → Outcome ε β} :
    (x >>= f).Returns ↔ x.Returns ∧ ∀ a, x = .ok a → (f a).Returns := by
  cases x with
  | ok a =>
      constructor
      · intro h
        refine ⟨trivial, fun b hb => ?_⟩
        cases hb
        exact h
      · exact fun h => h.2 a rfl
  | err e => exact ⟨fun _ => ⟨trivial, nofun⟩, fun _ => trivial⟩
  | panic p => exact ⟨False.elim, fun h => h.1⟩

theorem returns_check_iff {holds : Prop} [Decidable holds] {cause : Panic} :
    (check holds cause : Outcome ε Unit).Returns ↔ holds := by
  by_cases h : holds
  · rw [check, if_pos h]
    exact iff_of_true trivial h
  · rw [check, if_neg h]
    exact iff_of_false id h

theorem returns_lift (x : Except ε α) : (liftM x : Outcome ε α).Returns := by
  cases x <;> exact trivial

theorem lift_eq_ok {x : Except ε α} {a : α} (h : (liftM x : Outcome ε α) = .ok a) :
    x = .ok a := by
  cases x with
  | ok b =>
      cases h
      rfl
  | error e => cases h

end Outcome

theorem Except.map_eq_ok {ε α β : Type} {f : α → β} {x : Except ε α} {b : β} (h : f <$> x = .ok b) :
    ∃ a, x = .ok a ∧ b = f a := by
  cases x with
  | error e => cases h
  | ok a =>
      cases h
      exact ⟨a, rfl, rfl⟩

theorem Except.ok_bind {ε α β : Type} (a : α) (f : α → Except ε β) :
    (.ok a : Except ε α) >>= f = f a := rfl

theorem Except.bind_eq_ok {ε α β : Type} {f : α → Except ε β} {x : Except ε α} {b : β}
    (h : x >>= f = .ok b) : ∃ a, x = .ok a ∧ f a = .ok b := by
  cases x with
  | error e => cases h
  | ok a => exact ⟨a, rfl, h⟩

theorem Except.mapM_eq_ok_iff {ε α β : Type} {f : α → Except ε β} {g : α → β} {items : List α}
    {results : List β} (h : ∀ item result, f item = .ok result → result = g item) :
    items.mapM f = .ok results ↔ (∀ item ∈ items, ∃ result, f item = .ok result) ∧
      results = items.map g := by
  induction items generalizing results with
  | nil =>
      rw [List.mapM_nil]
      show Except.ok [] = Except.ok results ↔ _
      simp [eq_comm]
  | cons item items ih =>
      rw [List.mapM_cons, List.forall_mem_cons, List.map_cons]
      constructor
      · intro hrun
        obtain ⟨result, hresult, hrun⟩ := Except.bind_eq_ok hrun
        obtain ⟨rest, hrest, hrun⟩ := Except.bind_eq_ok hrun
        cases hrun
        obtain ⟨hitems, rfl⟩ := ih.mp hrest
        exact ⟨⟨⟨result, hresult⟩, hitems⟩, by rw [h item result hresult]⟩
      · rintro ⟨⟨⟨result, hresult⟩, hitems⟩, rfl⟩
        rw [hresult, ih.mpr ⟨hitems, rfl⟩, ← h item result hresult]
        rfl

theorem Except.mapM_ok_iff {ε α β : Type} {f : α → Except ε β} {items : List α} {results : List β} :
    items.mapM f = .ok results ↔ List.Forall₂ (fun item result => f item = .ok result) items results := by
  induction items generalizing results with
  | nil =>
      rw [List.mapM_nil]
      constructor
      · intro h
        cases h
        exact .nil
      · intro h
        cases h
        rfl
  | cons item items ih =>
      rw [List.mapM_cons]
      constructor
      · intro h
        obtain ⟨result, hresult, h⟩ := Except.bind_eq_ok h
        obtain ⟨rest, hrest, h⟩ := Except.bind_eq_ok h
        cases h
        exact .cons hresult (ih.mp hrest)
      · intro h
        cases h with
        | cons hresult hrest =>
            rw [hresult, ih.mpr hrest]
            rfl

/-- Of what is made for each of some keys, the keys and the parts can be read off. -/
theorem Except.mapM_keyed_iff {ε κ α β : Type} {f : κ → Except ε α} {make : κ → α → β} {key : β → κ}
    {part : β → α} {keys : List κ} {results : List β} (hkey : ∀ k a, key (make k a) = k)
    (hpart : ∀ k a, part (make k a) = a) (hmake : ∀ b, make (key b) (part b) = b) :
    (keys.mapM fun k => do
      let a ← f k
      pure (make k a)) = .ok results ↔
    results.map key = keys ∧ ∀ result ∈ results, f (key result) = .ok (part result) := by
  have hone : ∀ k result, (f k >>= fun a => pure (make k a)) = .ok result ↔
      key result = k ∧ f (key result) = .ok (part result) := by
    intro k result
    constructor
    · intro h
      obtain ⟨a, ha, h⟩ := Except.bind_eq_ok h
      cases h
      rw [hkey, hpart]
      exact ⟨rfl, ha⟩
    · rintro ⟨rfl, h⟩
      rw [h]
      exact congrArg Except.ok (hmake result)
  rw [Except.mapM_ok_iff]
  constructor
  · intro h
    induction h with
    | nil => exact ⟨rfl, fun _ hmem => absurd hmem List.not_mem_nil⟩
    | cons hresult _ ih =>
        obtain ⟨rfl, hpart⟩ := (hone _ _).mp hresult
        exact ⟨congrArg _ ih.1, List.forall_mem_cons.mpr ⟨hpart, ih.2⟩⟩
  · rintro ⟨rfl, hresults⟩
    induction results with
    | nil => exact .nil
    | cons result results ih =>
        obtain ⟨hresult, hrest⟩ := List.forall_mem_cons.mp hresults
        exact .cons ((hone _ _).mpr ⟨rfl, hresult⟩) (ih hrest)

/-! ### Cursors -/

/-- A byte string and the position of the next byte to read. -/
structure Cursor where
  bytes : List UInt8
  offset : Nat
  deriving DecidableEq

namespace Cursor

def remaining (c : Cursor) : Nat := c.bytes.length - c.offset

def unread (c : Cursor) : List UInt8 := c.bytes.drop c.offset

def advance (c : Cursor) (n : Nat) : Cursor := { c with offset := c.offset + n }

/-- The position lies in the byte string, and the byte string in memory. -/
structure Valid (c : Cursor) : Prop where
  offset_le : c.offset ≤ c.bytes.length
  length_le : c.bytes.length ≤ isizeMax

@[simp] theorem advance_bytes (c : Cursor) (n : Nat) : (c.advance n).bytes = c.bytes := rfl

@[simp] theorem advance_offset (c : Cursor) (n : Nat) : (c.advance n).offset = c.offset + n := rfl

@[simp] theorem advance_zero (c : Cursor) : c.advance 0 = c := rfl

@[simp] theorem advance_advance (c : Cursor) (m n : Nat) :
    (c.advance m).advance n = c.advance (m + n) := by
  simp [advance, Nat.add_assoc]

theorem length_unread (c : Cursor) : c.unread.length = c.remaining := by
  simp [unread, remaining]

theorem unread_advance (c : Cursor) (n : Nat) : (c.advance n).unread = c.unread.drop n := by
  simp [unread]

theorem unread_advance_of_eq {c : Cursor} {front back : List UInt8}
    (h : c.unread = front ++ back) : (c.advance front.length).unread = back := by
  rw [unread_advance, h, List.drop_left]

theorem Valid.advance {c : Cursor} (hc : c.Valid) {front back : List UInt8}
    (h : c.unread = front ++ back) : (c.advance front.length).Valid := by
  have hlen := c.length_unread
  rw [h, List.length_append, remaining] at hlen
  have := hc.offset_le
  exact ⟨by simp only [advance_offset, advance_bytes]; omega, hc.length_le⟩

end Cursor

/-- A decoder in an environment `ρ`, with trace entries `δ` and errors `ε`. -/
@[ext]
structure Decode (ρ δ ε α : Type) where
  run : ρ → Cursor → Outcome ε (α × Cursor)
  trace : ρ → Cursor → List δ

namespace Decode

variable {ρ δ ε α β γ : Type}

def bind (m : Decode ρ δ ε α) (f : α → Decode ρ δ ε β) : Decode ρ δ ε β where
  run env c :=
    match m.run env c with
    | .ok (a, c') => (f a).run env c'
    | .err e => .err e
    | .panic p => .panic p
  trace env c :=
    m.trace env c ++
      match m.run env c with
      | .ok (a, c') => (f a).trace env c'
      | _ => []

instance : Monad (Decode ρ δ ε) where
  pure a := ⟨fun _ c => .ok (a, c), fun _ _ => []⟩
  bind := bind

instance : MonadExceptOf ε (Decode ρ δ ε) where
  throw e := ⟨fun _ _ => .err e, fun _ _ => []⟩
  tryCatch m handler :=
    { run := fun env c => match m.run env c with | .err e => (handler e).run env c | out => out
      trace := fun env c => m.trace env c ++
        match m.run env c with | .err e => (handler e).trace env c | _ => [] }

@[simp] theorem run_pure (a : α) (env : ρ) (c : Cursor) :
    (pure a : Decode ρ δ ε α).run env c = .ok (a, c) := rfl

@[simp] theorem trace_pure (a : α) (env : ρ) (c : Cursor) :
    (pure a : Decode ρ δ ε α).trace env c = [] := rfl

theorem run_bind (m : Decode ρ δ ε α) (f : α → Decode ρ δ ε β) (env : ρ) (c : Cursor) :
    (m >>= f).run env c = match m.run env c with
      | .ok (a, c') => (f a).run env c'
      | .err e => .err e
      | .panic p => .panic p := rfl

theorem trace_bind (m : Decode ρ δ ε α) (f : α → Decode ρ δ ε β) (env : ρ) (c : Cursor) :
    (m >>= f).trace env c = m.trace env c ++ match m.run env c with
      | .ok (a, c') => (f a).trace env c'
      | _ => [] := rfl

@[simp] theorem run_throw (e : ε) (env : ρ) (c : Cursor) :
    (throw e : Decode ρ δ ε α).run env c = .err e := rfl

@[simp] theorem trace_throw (e : ε) (env : ρ) (c : Cursor) :
    (throw e : Decode ρ δ ε α).trace env c = [] := rfl

theorem run_bind_ok {m : Decode ρ δ ε α} {f : α → Decode ρ δ ε β} {env : ρ} {c c' : Cursor}
    {a : α} (h : m.run env c = .ok (a, c')) : (m >>= f).run env c = (f a).run env c' := by
  rw [run_bind, h]

theorem run_bind_eq_ok {m : Decode ρ δ ε α} {f : α → Decode ρ δ ε β} {env : ρ} {c c'' : Cursor}
    {b : β} (h : (m >>= f).run env c = .ok (b, c'')) :
    ∃ a c', m.run env c = .ok (a, c') ∧ (f a).run env c' = .ok (b, c'') := by
  rw [run_bind] at h
  split at h
  · rename_i a c' hm
    exact ⟨a, c', hm, h⟩
  · cases h
  · cases h

theorem ext_run {m n : Decode ρ δ ε α} (hrun : ∀ env c, m.run env c = n.run env c)
    (htrace : ∀ env c, m.trace env c = n.trace env c) : m = n :=
  Decode.ext (funext₂ hrun) (funext₂ htrace)

instance : LawfulMonad (Decode ρ δ ε) := LawfulMonad.mk' _
  (fun m => ext_run
    (fun env c => by
      show (match m.run env c with | .ok (a, c') => _ | .err e => _ | .panic p => _) = _
      cases m.run env c <;> rfl)
    (fun env c => by
      show m.trace env c ++ (match m.run env c with | .ok (a, c') => [] | _ => []) = _
      cases m.run env c <;> exact List.append_nil _))
  (fun _ _ => rfl)
  (fun m f g => ext_run
    (fun env c => by
      simp only [run_bind]
      cases m.run env c <;> rfl)
    (fun env c => by
      simp only [trace_bind, run_bind]
      cases m.run env c <;> simp))

/-- The environment the run takes place in. -/
def ask : Decode ρ δ ε ρ := ⟨fun env c => .ok (env, c), fun _ _ => []⟩

def cursor : Decode ρ δ ε Cursor := ⟨fun _ c => .ok (c, c), fun _ _ => []⟩

def setOffset (offset : Nat) : Decode ρ δ ε Unit :=
  ⟨fun _ c => .ok ((), { c with offset }), fun _ _ => []⟩

def panic (cause : Panic) : Decode ρ δ ε α := ⟨fun _ _ => .panic cause, fun _ _ => []⟩

/-- Writes an entry to the trace; the run itself does not see it. -/
def record (entry : δ) : Decode ρ δ ε Unit := ⟨fun _ c => .ok ((), c), fun _ _ => [entry]⟩

/-- A step that panics unless `holds`. -/
def check (holds : Prop) [Decidable holds] (cause : Panic) : Decode ρ δ ε Unit :=
  if holds then pure () else panic cause

/-- A step entered in the trace before it is taken. -/
def audit (entry : δ) (step : Decode ρ δ ε α) : Decode ρ δ ε α := do
  record entry
  step

/-- Enters in the trace where a call begins and, if it returns a value, where it ends. -/
def nested (enter leave : δ) (body : Decode ρ δ ε α) : Decode ρ δ ε α where
  run := body.run
  trace env c := enter :: body.trace env c ++ match body.run env c with
    | .ok _ => [leave]
    | _ => []

theorem nested_eq (enter leave : δ) (body : Decode ρ δ ε α) : nested enter leave body = (do
    record enter
    let result ← body
    record leave
    pure result) := by
  refine ext_run (fun env c => ?_) fun env c => ?_
  · rw [nested, run_bind_ok rfl, run_bind]
    cases body.run env c <;> rfl
  · simp only [nested, trace_bind]
    cases hrun : body.run env c <;> simp [record, hrun]

theorem check_of_not {holds : Prop} [Decidable holds] (h : ¬ holds) (cause : Panic) :
    (check holds cause : Decode ρ δ ε Unit) = panic cause := if_neg h

theorem panic_bind (cause : Panic) (f : α → Decode ρ δ ε β) : panic cause >>= f = panic cause := rfl

def usizeAdd (a b : Nat) : Decode ρ δ ε Nat := do
  check (a + b < usizeLimit) .overflow
  pure (a + b)

def usizeMul (a b : Nat) : Decode ρ δ ε Nat := do
  check (a * b < usizeLimit) .overflow
  pure (a * b)

/-- Asks the allocator for an object of `size` bytes. -/
def reserve (size : Nat) : Decode ρ δ ε Unit := check (size ≤ isizeMax) .capacity

def index (xs : List α) (i : Nat) : Decode ρ δ ε α :=
  match xs[i]? with
  | some a => pure a
  | none => panic .bounds

def slice (xs : List α) (start stop : Nat) : Decode ρ δ ε (List α) := do
  check (start ≤ stop ∧ stop ≤ xs.length) .bounds
  pure ((xs.drop start).take (stop - start))

/-- A computation on values already read, which fails without moving the cursor. -/
def ofResult : Except ε α → Decode ρ δ ε α
  | .ok a => pure a
  | .error e => throw e

/-- A computation that leaves the cursor alone and can panic. -/
def ofOutcome (x : Outcome ε α) : Decode ρ δ ε α where
  run _ c := do
    let a ← x
    pure (a, c)
  trace _ _ := []

/-- Runs a decoder on a byte string of its own. -/
def onBytes (bytes : List UInt8) (m : Decode ρ δ ε α) : Decode ρ δ ε α where
  run env c :=
    match m.run env ⟨bytes, 0⟩ with
    | .ok (a, _) => .ok (a, c)
    | .err e => .err e
    | .panic p => .panic p
  trace env _ := m.trace env ⟨bytes, 0⟩

/-- Gives a recursive decoder a budget of nested calls: one more than there are bytes to read. -/
def withBudget (f : Nat → Decode ρ δ ε α) : Decode ρ δ ε α where
  run env c := (f (c.remaining + 1)).run env c
  trace env c := (f (c.remaining + 1)).trace env c

/-- `count` values, the decoder of each given its index; `start` is the index of the first. -/
def collect (f : Nat → Decode ρ δ ε α) : Nat → Nat → Decode ρ δ ε (List α)
  | _, 0 => pure []
  | start, count + 1 => do
    let value ← f start
    let values ← collect f (start + 1) count
    pure (value :: values)

end Decode

end Decoding
