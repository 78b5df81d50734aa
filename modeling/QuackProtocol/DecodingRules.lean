import QuackProtocol.Decoding

/-! The properties of a decoder that compose. `ReadsBefore` is the decoder's half of a round
trip: from the given bytes, with a tail it may look ahead into, it reads the given value and stops
at the tail. `Guarded` ties panics to the trace: a run that panics does so at its last trace entry,
which is the only unsound one, and a run that does not panic has a sound trace. `Emits` and `Yields`
say which entries a run makes, however it ends, and what those of a successful run have to do with
its value. -/

namespace Decoding

variable {ρ δ ε α β : Type}

/-- Each value of a list comes from a run of its own. -/
theorem Decode.collect_eq_ok {f : Nat → Decode ρ δ ε α} {env : ρ} {start count : Nat}
    {c c' : Cursor} {values : List α}
    (h : (Decode.collect f start count).run env c = .ok (values, c')) :
    values.length = count ∧ ∀ i (hi : i < values.length),
      ∃ c₁ c₂, (f (start + i)).run env c₁ = .ok (values[i], c₂) := by
  induction count generalizing start c values with
  | zero =>
      cases h
      exact ⟨rfl, fun i hi => absurd hi (Nat.not_lt_zero i)⟩
  | succ count ih =>
      obtain ⟨value, c₁, hvalue, h⟩ := Decode.run_bind_eq_ok h
      obtain ⟨rest, c₂, hrest, h⟩ := Decode.run_bind_eq_ok h
      cases h
      obtain ⟨hlen, hrows⟩ := ih hrest
      refine ⟨congrArg (· + 1) hlen, fun i hi => ?_⟩
      cases i with
      | zero => exact ⟨c, c₁, hvalue⟩
      | succ i =>
          obtain ⟨c₃, c₄, hrun⟩ := hrows i (Nat.lt_of_succ_lt_succ hi)
          rw [Nat.add_right_comm] at hrun
          exact ⟨c₃, c₄, hrun⟩

def ReadsBefore (env : ρ) (ahead : List UInt8 → Prop) (m : Decode ρ δ ε α) (bytes : List UInt8)
    (a : α) : Prop :=
  ∀ c : Cursor, c.Valid → ∀ rest, ahead rest → c.unread = bytes ++ rest →
    m.run env c = .ok (a, c.advance bytes.length)

/-- Reading back before any tail. -/
abbrev Reads (env : ρ) (m : Decode ρ δ ε α) (bytes : List UInt8) (a : α) : Prop :=
  ReadsBefore env (fun _ => True) m bytes a

namespace ReadsBefore

variable {env : ρ} {ahead ahead' : List UInt8 → Prop} {m : Decode ρ δ ε α}
  {f : α → Decode ρ δ ε β} {bytes bytes' : List UInt8} {a : α} {b : β}

theorem pure (a : α) : ReadsBefore env ahead (pure a : Decode ρ δ ε α) [] a :=
  fun _ _ _ _ _ => rfl

theorem bind (hm : ReadsBefore env ahead m bytes a) (hf : ReadsBefore env ahead' (f a) bytes' b)
    (hahead : ∀ rest, ahead' rest → ahead (bytes' ++ rest)) :
    ReadsBefore env ahead' (m >>= f) (bytes ++ bytes') b := by
  intro c hc rest hrest hunread
  rw [List.append_assoc] at hunread
  rw [Decode.run_bind_ok (hm c hc _ (hahead rest hrest) hunread),
    hf _ (hc.advance hunread) rest hrest (Cursor.unread_advance_of_eq hunread),
    Cursor.advance_advance, List.length_append]

theorem anywhere (hm : Reads env m bytes a) : ReadsBefore env ahead m bytes a :=
  fun c hc rest _ hunread => hm c hc rest trivial hunread

theorem nested (hm : ReadsBefore env ahead m bytes a) (enter leave : δ) :
    ReadsBefore env ahead (Decode.nested enter leave m) bytes a := hm

theorem of_nil {f : Decode ρ δ ε α} (hm : ReadsBefore env ahead m [] a) (h : m = f) :
    ReadsBefore env ahead f [] a := h ▸ hm

end ReadsBefore

namespace Reads

variable {env : ρ} {m : Decode ρ δ ε α} {f : α → Decode ρ δ ε β} {bytes bytes' : List UInt8}
  {a : α} {b : β}

theorem bind (hm : Reads env m bytes a) (hf : Reads env (f a) bytes' b) :
    Reads env (m >>= f) (bytes ++ bytes') b :=
  ReadsBefore.bind hm hf fun _ _ => trivial

/-- A step that reads no more bytes. -/
theorem thenReads (hm : Reads env m bytes a) (hf : Reads env (f a) [] b) :
    Reads env (m >>= f) bytes b := by
  have hread := hm.bind hf
  rwa [List.append_nil] at hread

/-- A step that only computes. -/
theorem thenPure (hm : Reads env m bytes a) (hf : f a = Pure.pure b) :
    Reads env (m >>= f) bytes b :=
  hm.thenReads (hf ▸ ReadsBefore.pure b : Reads env (f a) [] b)

/-- A step that reads no byte. -/
theorem bind_nil (hm : Reads env m [] a) (hf : Reads env (f a) bytes b) :
    Reads env (m >>= f) bytes b := hm.bind hf

theorem withBudget {f : Nat → Decode ρ δ ε α}
    (hf : ∀ n, bytes.length < n → Reads env (f n) bytes a) :
    Reads env (Decode.withBudget f) bytes a := by
  intro c hc rest _ hunread
  refine hf (c.remaining + 1) ?_ c hc rest trivial hunread
  rw [← c.length_unread, hunread, List.length_append]
  omega

theorem onBytes (hm : ReadsBefore env (fun rest => rest = []) m bytes a)
    (hlen : bytes.length ≤ isizeMax) : Reads env (Decode.onBytes bytes m) [] a := by
  intro c _ rest _ _
  have hrun := hm ⟨bytes, 0⟩ ⟨Nat.zero_le _, hlen⟩ [] rfl (by simp [Cursor.unread])
  simp only [Decode.onBytes, hrun, List.length_nil, Cursor.advance_zero]

theorem check {holds : Prop} [Decidable holds] (h : holds) (cause : Panic) :
    Reads env (Decode.check holds cause : Decode ρ δ ε Unit) [] () := by
  rw [Decode.check, if_pos h]
  exact ReadsBefore.pure ()

theorem record (entry : δ) : Reads env (Decode.record entry : Decode ρ δ ε Unit) [] () :=
  fun _ _ _ _ _ => rfl

theorem audit (hm : Reads env m bytes a) (entry : δ) : Reads env (Decode.audit entry m) bytes a :=
  fun c hc rest h hunread => hm c hc rest h hunread

theorem usizeAdd {x y : Nat} (h : x + y < usizeLimit) :
    Reads env (Decode.usizeAdd x y : Decode ρ δ ε Nat) [] (x + y) :=
  (check h .overflow).bind_nil (ReadsBefore.pure _)

theorem usizeMul {x y : Nat} (h : x * y < usizeLimit) :
    Reads env (Decode.usizeMul x y : Decode ρ δ ε Nat) [] (x * y) :=
  (check h .overflow).bind_nil (ReadsBefore.pure _)

theorem slice {xs : List α} {start stop : Nat} (h : start ≤ stop) (hstop : stop ≤ xs.length) :
    Reads env (Decode.slice xs start stop : Decode ρ δ ε (List α)) []
      ((xs.drop start).take (stop - start)) :=
  (check ⟨h, hstop⟩ .bounds).bind_nil (ReadsBefore.pure _)

theorem index {xs : List α} {i : Nat} {a : α} (h : xs[i]? = some a) :
    Reads env (Decode.index xs i : Decode ρ δ ε α) [] a := by
  rw [Decode.index, h]
  exact ReadsBefore.pure a

theorem ofResult {x : Except ε α} (h : x = .ok a) :
    Reads env (Decode.ofResult x : Decode ρ δ ε α) [] a := by
  subst h
  exact ReadsBefore.pure a

/-- A list is read back element by element. -/
theorem collect {f : Nat → Decode ρ δ ε α} {start : Nat} {parts : List (List UInt8)}
    {values : List α}
    (hf : ∀ i (h : i < parts.length) (h' : i < values.length),
      Reads env (f (start + i)) parts[i] values[i])
    (hlen : parts.length = values.length) :
    Reads env (Decode.collect f start values.length) parts.flatten values := by
  induction values generalizing start parts with
  | nil =>
      rw [List.length_nil, List.length_eq_zero_iff] at hlen
      subst hlen
      exact ReadsBefore.pure []
  | cons value values ih =>
      cases parts with
      | nil => simp at hlen
      | cons part parts =>
          have hhead : Reads env (f start) part value := hf 0 (by simp) (by simp)
          have htail : Reads env (Decode.collect f (start + 1) values.length) parts.flatten values :=
            ih (fun i h h' => by
              have := hf (i + 1) (by simpa using h) (by simpa using h')
              simpa [Nat.add_assoc, Nat.add_comm 1 i] using this)
              (by simpa using hlen)
          exact hhead.bind (htail.thenPure rfl)

/-- A list of values that are computed and not read. -/
theorem collect_nil {f : Nat → Decode ρ δ ε α} {values : List α}
    (hf : ∀ i (h : i < values.length), Reads env (f i) [] values[i]) :
    Reads env (Decode.collect f 0 values.length) [] values := by
  have hread : Reads env (Decode.collect f 0 values.length) (values.map fun _ => []).flatten values :=
    collect (fun i h h' => by simpa using hf i h') (by simp)
  rwa [List.map_const', List.flatten_replicate_nil] at hread

end Reads

/-! ### Panics and the trace -/

section

/-- Trace entries as checks: whether an entry's check passes, and the panic when it does not. -/
class Audit (ρ δ : Type) where
  Sound : ρ → δ → Prop
  cause : δ → Panic

variable [Audit ρ δ]

/-- The run from one cursor: without panic it has a sound trace, and if it returns a value then
`post` holds of it and of the cursor left; a panic comes at an entry that is unsound, the last one
and the only one. -/
def GuardedAt (env : ρ) (c : Cursor) (m : Decode ρ δ ε α) (post : α → Cursor → Prop) : Prop :=
  match m.run env c with
  | .ok (a, c') => (∀ e ∈ m.trace env c, Audit.Sound env e) ∧ post a c'
  | .err _ => ∀ e ∈ m.trace env c, Audit.Sound env e
  | .panic p => ∃ sound last, m.trace env c = sound ++ [last] ∧
      (∀ e ∈ sound, Audit.Sound env e) ∧ ¬ Audit.Sound env last ∧ Audit.cause ρ last = p

namespace GuardedAt

variable {env : ρ} {c : Cursor} {m : Decode ρ δ ε α} {f : α → Decode ρ δ ε β}
  {post post₂ : α → Cursor → Prop} {post' : β → Cursor → Prop}

theorem pure {a : α} (h : post a c) : GuardedAt env c (pure a : Decode ρ δ ε α) post :=
  ⟨by simp, h⟩

theorem throw (e : ε) : GuardedAt env c (throw e : Decode ρ δ ε α) post := by
  simp [GuardedAt]

theorem weaken (hm : GuardedAt env c m post) (h : ∀ a c', post a c' → post₂ a c') :
    GuardedAt env c m post₂ := by
  unfold GuardedAt at hm ⊢
  split at hm
  · exact ⟨hm.1, h _ _ hm.2⟩
  · exact hm
  · exact hm

theorem bind (hm : GuardedAt env c m post)
    (hf : ∀ a c', post a c' → GuardedAt env c' (f a) post') : GuardedAt env c (m >>= f) post' := by
  unfold GuardedAt at hm ⊢
  rw [Decode.run_bind, Decode.trace_bind]
  cases hrun : m.run env c with
  | ok out =>
      obtain ⟨a, c'⟩ := out
      rw [hrun] at hm
      obtain ⟨hsound, hpost⟩ := hm
      have hnext := hf a c' hpost
      unfold GuardedAt at hnext
      simp only
      cases hrun' : (f a).run env c' with
      | ok out' =>
          rw [hrun'] at hnext
          exact ⟨List.forall_mem_append.mpr ⟨hsound, hnext.1⟩, hnext.2⟩
      | err e =>
          rw [hrun'] at hnext
          exact List.forall_mem_append.mpr ⟨hsound, hnext⟩
      | panic p =>
          rw [hrun'] at hnext
          obtain ⟨sound, last, htrace, hall, hlast, hcause⟩ := hnext
          refine ⟨m.trace env c ++ sound, last, by rw [htrace, List.append_assoc], ?_, hlast, hcause⟩
          exact List.forall_mem_append.mpr ⟨hsound, hall⟩
  | err e =>
      rw [hrun] at hm
      simpa using hm
  | panic p =>
      rw [hrun] at hm
      simpa using hm

theorem cursor : GuardedAt env c (Decode.cursor : Decode ρ δ ε Cursor)
    (fun reader c' => c = reader ∧ c = c') :=
  ⟨by simp [Decode.cursor], rfl, rfl⟩

theorem setOffset (offset : Nat) : GuardedAt env c (Decode.setOffset offset : Decode ρ δ ε Unit)
    (fun _ c' => c' = { c with offset }) :=
  ⟨by simp [Decode.setOffset], rfl⟩

theorem ask : GuardedAt env c (Decode.ask : Decode ρ δ ε ρ) (fun env' c' => env = env' ∧ c = c') :=
  ⟨by simp [Decode.ask], rfl, rfl⟩

theorem check {holds : Prop} [Decidable holds] (h : holds) (cause : Panic) :
    GuardedAt env c (Decode.check holds cause : Decode ρ δ ε Unit) (fun _ c' => c = c') := by
  rw [Decode.check, if_pos h]
  exact pure rfl

theorem usizeAdd {x y : Nat} (h : x + y < usizeLimit) :
    GuardedAt env c (Decode.usizeAdd x y : Decode ρ δ ε Nat) (fun z c' => z = x + y ∧ c = c') :=
  (check h .overflow).bind fun _ _ hc => pure ⟨rfl, hc⟩

theorem usizeMul {x y : Nat} (h : x * y < usizeLimit) :
    GuardedAt env c (Decode.usizeMul x y : Decode ρ δ ε Nat) (fun z c' => z = x * y ∧ c = c') :=
  (check h .overflow).bind fun _ _ hc => pure ⟨rfl, hc⟩

theorem slice {xs : List α} {start stop : Nat} (h : start ≤ stop ∧ stop ≤ xs.length) :
    GuardedAt env c (Decode.slice xs start stop : Decode ρ δ ε (List α))
      (fun ys c' => ys = (xs.drop start).take (stop - start) ∧ c = c') :=
  (check h .bounds).bind fun _ _ hc => pure ⟨rfl, hc⟩

theorem index {xs : List α} {i : Nat} (h : i < xs.length) :
    GuardedAt env c (Decode.index xs i : Decode ρ δ ε α) (fun a c' => xs[i]? = some a ∧ c = c') := by
  rw [Decode.index, List.getElem?_eq_getElem h]
  exact pure ⟨rfl, rfl⟩

/-- A step that panics exactly when its trace entry is unsound. -/
theorem audit {entry : δ} {step : Decode ρ δ ε α}
    (hsound : Audit.Sound env entry → GuardedAt env c step post)
    (hpanic : ¬ Audit.Sound env entry →
      step.run env c = .panic (Audit.cause ρ entry) ∧ step.trace env c = []) :
    GuardedAt env c (Decode.audit entry step) post := by
  have hrun : (Decode.audit entry step).run env c = step.run env c := rfl
  have htrace : (Decode.audit entry step).trace env c = entry :: step.trace env c := rfl
  unfold GuardedAt
  rw [hrun, htrace]
  by_cases hentry : Audit.Sound env entry
  · have h := hsound hentry
    unfold GuardedAt at h
    split at h
    · exact ⟨List.forall_mem_cons.mpr ⟨hentry, h.1⟩, h.2⟩
    · exact List.forall_mem_cons.mpr ⟨hentry, h⟩
    · obtain ⟨sound, last, hlong, hall, hlast, hcause⟩ := h
      refine ⟨entry :: sound, last, by rw [hlong]; rfl, ?_, hlast, hcause⟩
      exact List.forall_mem_cons.mpr ⟨hentry, hall⟩
  · obtain ⟨hpanics, hnil⟩ := hpanic hentry
    rw [hpanics, hnil]
    exact ⟨[], entry, rfl, by simp, hentry, rfl⟩

/-- An entry that does not guard a step. -/
theorem record {entry : δ} (h : Audit.Sound env entry) :
    GuardedAt env c (Decode.record entry : Decode ρ δ ε Unit) (fun _ c' => c = c') :=
  ⟨by simpa [Decode.record] using h, rfl⟩

theorem nested {enter leave : δ} (henter : Audit.Sound env enter) (hleave : Audit.Sound env leave)
    (h : GuardedAt env c m post) : GuardedAt env c (Decode.nested enter leave m) post := by
  unfold GuardedAt at h ⊢
  simp only [Decode.nested]
  cases hrun : m.run env c with
  | ok out =>
      rw [hrun] at h
      refine ⟨List.forall_mem_append.mpr ⟨List.forall_mem_cons.mpr ⟨henter, h.1⟩, ?_⟩, h.2⟩
      exact List.forall_mem_singleton.mpr hleave
  | err e =>
      rw [hrun] at h
      rw [List.append_nil]
      exact List.forall_mem_cons.mpr ⟨henter, h⟩
  | panic p =>
      rw [hrun] at h
      obtain ⟨sound, last, htrace, hall, hlast, hcause⟩ := h
      refine ⟨enter :: sound, last, by rw [htrace, List.append_nil]; rfl, ?_, hlast, hcause⟩
      exact List.forall_mem_cons.mpr ⟨henter, hall⟩

end GuardedAt

/-- The cursor moved forward by `k` bytes at least. -/
structure Cursor.Moves (c : Cursor) (k : Nat) (c' : Cursor) : Prop where
  bytes_eq : c'.bytes = c.bytes
  valid : c'.Valid
  forward : c.offset + k ≤ c'.offset

namespace Cursor

theorem Valid.moves {c : Cursor} (hc : c.Valid) : c.Moves 0 c := ⟨rfl, hc, Nat.le_refl _⟩

theorem Valid.moves_advance {c : Cursor} (hc : c.Valid) {k : Nat} (h : k ≤ c.remaining) :
    c.Moves k (c.advance k) := by
  have hroom := hc.offset_le
  simp only [Cursor.remaining] at h
  exact ⟨rfl, ⟨by simp only [advance_offset, advance_bytes]; omega, hc.length_le⟩, Nat.le_refl _⟩

theorem Moves.trans {c c' c'' : Cursor} {k k' : Nat} (h : c.Moves k c') (h' : c'.Moves k' c'') :
    c.Moves (k + k') c'' :=
  ⟨h'.bytes_eq.trans h.bytes_eq, h'.valid, by have := h.forward; have := h'.forward; omega⟩

theorem Moves.weaken {c c' : Cursor} {k k' : Nat} (h : c.Moves k c') (hk : k' ≤ k) :
    c.Moves k' c' :=
  ⟨h.bytes_eq, h.valid, by have := h.forward; omega⟩

theorem Moves.le_remaining {c c' : Cursor} {k : Nat} (h : c.Moves k c') : k ≤ c.remaining := by
  have hroom := h.valid.offset_le
  have hforward := h.forward
  rw [h.bytes_eq] at hroom
  simp only [Cursor.remaining]
  omega

theorem Moves.remaining_le {c c' : Cursor} {k n : Nat} (h : c.Moves k c') (hn : c.remaining ≤ n) :
    c'.remaining ≤ n - k := by
  have hforward := h.forward
  simp only [Cursor.remaining, h.bytes_eq] at hn ⊢
  omega

end Cursor

/-- From every cursor with at most `n` bytes left: the run is guarded, and if it returns a value it
has read at least `k` bytes and the value satisfies `post`. -/
def Guarded (env : ρ) (n k : Nat) (m : Decode ρ δ ε α) (post : α → Prop) : Prop :=
  ∀ c : Cursor, c.Valid → c.remaining ≤ n →
    GuardedAt env c m fun a c' => c.Moves k c' ∧ post a

namespace Guarded

variable {env : ρ} {n k k' : Nat} {m : Decode ρ δ ε α} {f : α → Decode ρ δ ε β}
  {post : α → Prop} {post' : β → Prop}

theorem pure {a : α} (h : post a) : Guarded env n 0 (pure a : Decode ρ δ ε α) post :=
  fun _ hc _ => GuardedAt.pure ⟨hc.moves, h⟩

theorem throw (e : ε) : Guarded env n k (throw e : Decode ρ δ ε α) post :=
  fun _ _ _ => GuardedAt.throw e

theorem weaken {post₂ : α → Prop} (hm : Guarded env n k m post) (hk : k' ≤ k)
    (hpost : ∀ a, post a → post₂ a) : Guarded env n k' m post₂ :=
  fun c hc hn => (hm c hc hn).weaken fun a _ h => ⟨h.1.weaken hk, hpost a h.2⟩

theorem fewer {n' : Nat} (hm : Guarded env n k m post) (hn : n' ≤ n) :
    Guarded env n' k m post :=
  fun c hc h => hm c hc (Nat.le_trans h hn)

theorem bind (hm : Guarded env n k m post)
    (hf : k ≤ n → ∀ a, post a → Guarded env (n - k) k' (f a) post') :
    Guarded env n (k + k') (m >>= f) post' := by
  intro c hc hn
  refine (hm c hc hn).bind fun a c' ⟨hmoves, ha⟩ => ?_
  have hkn : k ≤ n := Nat.le_trans hmoves.le_remaining hn
  have hnext := hf hkn a ha c' hmoves.valid (hmoves.remaining_le hn)
  exact hnext.weaken fun b c'' h => ⟨hmoves.trans h.1, h.2⟩

/-- The bytes read first count for the whole. -/
theorem first (hm : Guarded env n k m post)
    (hf : k ≤ n → ∀ a, post a → Guarded env (n - k) 0 (f a) post') :
    Guarded env n k (m >>= f) post' := hm.bind hf

/-- Sequencing when only what is left to read matters. -/
theorem after (hm : Guarded env n k m post)
    (hf : k ≤ n → ∀ a, post a → Guarded env (n - k) 0 (f a) post') :
    Guarded env n 0 (m >>= f) post' :=
  (hm.first hf).weaken (Nat.zero_le _) fun _ h => h

/-- Sequencing when the number of bytes read does not matter. -/
theorem seq (hm : Guarded env n k m post) (hf : ∀ a, post a → Guarded env n 0 (f a) post') :
    Guarded env n 0 (m >>= f) post' :=
  hm.after fun _ a ha => (hf a ha).fewer (Nat.sub_le _ _)

theorem ite {holds : Prop} [Decidable holds] {m' : Decode ρ δ ε α}
    (hm : holds → Guarded env n k m post) (hm' : ¬ holds → Guarded env n k m' post) :
    Guarded env n k (if holds then m else m') post := by
  split
  · exact hm ‹_›
  · exact hm' ‹_›

theorem withBudget {f : Nat → Decode ρ δ ε α} (hf : ∀ n, Guarded env n k (f (n + 1)) post) :
    Guarded env n k (Decode.withBudget f) post :=
  fun c hc _ => hf c.remaining c hc (Nat.le_refl _)

theorem onBytes {bytes : List UInt8} (hm : Guarded env bytes.length k m post)
    (hlen : bytes.length ≤ isizeMax) : Guarded env n 0 (Decode.onBytes bytes m) post := by
  intro c hc _
  have h := hm ⟨bytes, 0⟩ ⟨Nat.zero_le _, hlen⟩ (by simp [Cursor.remaining])
  unfold GuardedAt at h ⊢
  simp only [Decode.onBytes]
  cases hrun : m.run env ⟨bytes, 0⟩ with
  | ok out =>
      rw [hrun] at h
      exact ⟨h.1, hc.moves, h.2.2⟩
  | err e =>
      rw [hrun] at h
      exact h
  | panic p =>
      rw [hrun] at h
      exact h

theorem ofResult {x : Except ε α} (h : ∀ a, x = .ok a → post a) :
    Guarded env n 0 (Decode.ofResult x : Decode ρ δ ε α) post := by
  cases x with
  | ok a => exact pure (h a rfl)
  | error e => exact throw e

theorem usizeAdd {x y : Nat} (h : x + y < usizeLimit) :
    Guarded env n 0 (Decode.usizeAdd x y : Decode ρ δ ε Nat) (fun z => z = x + y) :=
  fun _ hc _ => (GuardedAt.usizeAdd h).weaken fun _ _ h => ⟨h.2 ▸ hc.moves, h.1⟩

theorem usizeMul {x y : Nat} (h : x * y < usizeLimit) :
    Guarded env n 0 (Decode.usizeMul x y : Decode ρ δ ε Nat) (fun z => z = x * y) :=
  fun _ hc _ => (GuardedAt.usizeMul h).weaken fun _ _ h => ⟨h.2 ▸ hc.moves, h.1⟩

theorem slice {xs : List α} {start stop : Nat} (h : start ≤ stop ∧ stop ≤ xs.length) :
    Guarded env n 0 (Decode.slice xs start stop : Decode ρ δ ε (List α)) (fun _ => True) :=
  fun _ hc _ => (GuardedAt.slice h).weaken fun _ _ h => ⟨h.2 ▸ hc.moves, trivial⟩

theorem index {xs : List α} {i : Nat} (h : i < xs.length) :
    Guarded env n 0 (Decode.index xs i : Decode ρ δ ε α) (fun a => xs[i]? = some a) :=
  fun _ hc _ => (GuardedAt.index h).weaken fun _ _ h => ⟨h.2 ▸ hc.moves, h.1⟩

theorem record {entry : δ} (h : Audit.Sound env entry) :
    Guarded env n 0 (Decode.record entry : Decode ρ δ ε Unit) (fun _ => True) :=
  fun _ hc _ => (GuardedAt.record h).weaken fun _ _ h => ⟨h ▸ hc.moves, trivial⟩

theorem nested {enter leave : δ} (henter : Audit.Sound env enter) (hleave : Audit.Sound env leave)
    (hm : Guarded env n k m post) : Guarded env n k (Decode.nested enter leave m) post :=
  fun c hc hn => .nested henter hleave (hm c hc hn)

/-- A step that panics exactly when its trace entry is unsound. -/
theorem audit {entry : δ} {step : Decode ρ δ ε α}
    (hsound : Audit.Sound env entry → Guarded env n k step post)
    (hpanic : ¬ Audit.Sound env entry →
      ∀ c, step.run env c = .panic (Audit.cause ρ entry) ∧ step.trace env c = []) :
    Guarded env n k (Decode.audit entry step) post :=
  fun c hc hn => GuardedAt.audit (fun h => hsound h c hc hn) fun h => hpanic h c

theorem collect {f : Nat → Decode ρ δ ε α} {start count : Nat}
    (hf : ∀ i, start ≤ i → i < start + count → Guarded env n 0 (f i) post) :
    Guarded env n 0 (Decode.collect f start count)
      (fun values => values.length = count ∧ ∀ value ∈ values, post value) := by
  induction count generalizing start with
  | zero => exact pure ⟨rfl, by simp⟩
  | succ count ih =>
      refine (hf start (Nat.le_refl _) (by omega)).seq fun value hvalue => ?_
      refine (ih fun i hi hlt => hf i (by omega) (by omega)).seq fun values hvalues => ?_
      refine pure ⟨by simp [hvalues.1], ?_⟩
      exact List.forall_mem_cons.mpr ⟨hvalue, hvalues.2⟩

theorem of_run (hm : Guarded env n k m post) {c c' : Cursor} {a : α} (hc : c.Valid)
    (hn : c.remaining ≤ n) (hrun : m.run env c = .ok (a, c')) : c.Moves k c' ∧ post a := by
  have h := hm c hc hn
  unfold GuardedAt at h
  rw [hrun] at h
  exact h.2

/-- The exact statement: the run panics if and only if its trace has an unsound entry. -/
theorem panics_iff (hm : Guarded env n k m post) {c : Cursor} (hc : c.Valid)
    (hn : c.remaining ≤ n) (p : Panic) :
    m.run env c = .panic p ↔
      ∃ e ∈ m.trace env c, ¬ Audit.Sound env e ∧ Audit.cause ρ e = p := by
  have h := hm c hc hn
  unfold GuardedAt at h
  cases hrun : m.run env c with
  | ok out =>
      rw [hrun] at h
      simp only [reduceCtorEq, false_iff]
      rintro ⟨e, he, hnot, -⟩
      exact hnot (h.1 e he)
  | err e =>
      rw [hrun] at h
      simp only [reduceCtorEq, false_iff]
      rintro ⟨e, he, hnot, -⟩
      exact hnot (h e he)
  | panic q =>
      rw [hrun] at h
      obtain ⟨sound, last, htrace, hall, hlast, hcause⟩ := h
      constructor
      · intro hp
        cases hp
        exact ⟨last, by simp [htrace], hlast, hcause⟩
      · rintro ⟨e, he, hnot, hp⟩
        rw [htrace, List.mem_append, List.mem_singleton] at he
        rcases he with he | rfl
        · exact absurd (hall e he) hnot
        · rw [← hp, hcause]

end Guarded

end

/-- Every entry of a run, however it ends, satisfies `P`. -/
def Emits (P : δ → Prop) (m : Decode ρ δ ε α) : Prop := ∀ env c, ∀ e ∈ m.trace env c, P e

namespace Emits

variable {P : δ → Prop} {m m' : Decode ρ δ ε α} {f : α → Decode ρ δ ε β}

theorem pure (a : α) : Emits P (pure a : Decode ρ δ ε α) := fun _ _ _ h => by cases h

theorem throw (e : ε) : Emits P (throw e : Decode ρ δ ε α) := fun _ _ _ h => by cases h

theorem bind (hm : Emits P m) (hf : ∀ a, Emits P (f a)) : Emits P (m >>= f) := by
  intro env c
  rw [Decode.trace_bind]
  refine List.forall_mem_append.mpr ⟨hm env c, ?_⟩
  cases m.run env c with
  | ok out => exact hf out.1 env out.2
  | err e => simp
  | panic p => simp

theorem ite {holds : Prop} [Decidable holds] (hm : Emits P m) (hm' : Emits P m') :
    Emits P (if holds then m else m') := by
  split
  · exact hm
  · exact hm'

theorem ofResult (x : Except ε α) : Emits P (Decode.ofResult x : Decode ρ δ ε α) := by
  cases x with
  | ok a => exact pure a
  | error e => exact throw e

theorem cursor : Emits P (Decode.cursor : Decode ρ δ ε Cursor) := fun _ _ _ h => by cases h

theorem ask : Emits P (Decode.ask : Decode ρ δ ε ρ) := fun _ _ _ h => by cases h

theorem setOffset (offset : Nat) : Emits P (Decode.setOffset offset : Decode ρ δ ε Unit) :=
  fun _ _ _ h => by cases h

theorem panic (cause : Panic) : Emits P (Decode.panic cause : Decode ρ δ ε α) :=
  fun _ _ _ h => by cases h

theorem check {holds : Prop} [Decidable holds] (cause : Panic) :
    Emits P (Decode.check holds cause : Decode ρ δ ε Unit) :=
  ite (pure ()) (panic cause)

theorem usizeAdd (x y : Nat) : Emits P (Decode.usizeAdd x y : Decode ρ δ ε Nat) :=
  (check .overflow).bind fun _ => pure _

theorem usizeMul (x y : Nat) : Emits P (Decode.usizeMul x y : Decode ρ δ ε Nat) :=
  (check .overflow).bind fun _ => pure _

theorem slice (xs : List α) (start stop : Nat) :
    Emits P (Decode.slice xs start stop : Decode ρ δ ε (List α)) :=
  (check .bounds).bind fun _ => pure _

theorem index (xs : List α) (i : Nat) : Emits P (Decode.index xs i : Decode ρ δ ε α) := by
  unfold Decode.index
  split
  · exact pure _
  · exact panic .bounds

theorem record {entry : δ} (h : P entry) : Emits P (Decode.record entry : Decode ρ δ ε Unit) :=
  fun _ _ _ he => List.mem_singleton.mp he ▸ h

theorem audit {entry : δ} {step : Decode ρ δ ε α} (h : P entry) (hstep : Emits P step) :
    Emits P (Decode.audit entry step) := (record h).bind fun _ => hstep

theorem nested {enter leave : δ} (henter : P enter) (hleave : P leave) (hm : Emits P m) :
    Emits P (Decode.nested enter leave m) := by
  intro env c
  refine List.forall_mem_append.mpr ⟨List.forall_mem_cons.mpr ⟨henter, hm env c⟩, ?_⟩
  cases m.run env c with
  | ok out => exact List.forall_mem_singleton.mpr hleave
  | err e => exact List.forall_mem_nil _
  | panic p => exact List.forall_mem_nil _

theorem onBytes {bytes : List UInt8} (hm : Emits P m) : Emits P (Decode.onBytes bytes m) :=
  fun env _ => hm env ⟨bytes, 0⟩

theorem withBudget {f : Nat → Decode ρ δ ε α} (hf : ∀ n, Emits P (f n)) :
    Emits P (Decode.withBudget f) := fun env c => hf (c.remaining + 1) env c

theorem collect {f : Nat → Decode ρ δ ε α} (hf : ∀ i, Emits P (f i)) (start count : Nat) :
    Emits P (Decode.collect f start count) := by
  induction count generalizing start with
  | zero => exact pure []
  | succ count ih => exact (hf start).bind fun _ => (ih (start + 1)).bind fun _ => pure _

end Emits

/-- Every entry of the run from one cursor satisfies `P`. -/
def EmitsAt (P : δ → Prop) (env : ρ) (c : Cursor) (m : Decode ρ δ ε α) : Prop := ∀ e ∈ m.trace env c, P e

theorem EmitsAt.bind {P : δ → Prop} {env : ρ} {c : Cursor} {m : Decode ρ δ ε α} {f : α → Decode ρ δ ε β}
    (hm : EmitsAt P env c m) (hf : ∀ a c', m.run env c = .ok (a, c') → EmitsAt P env c' (f a)) :
    EmitsAt P env c (m >>= f) := by
  rw [EmitsAt, Decode.trace_bind]
  refine List.forall_mem_append.mpr ⟨hm, ?_⟩
  cases hrun : m.run env c with
  | ok out => exact hf out.1 out.2 hrun
  | err e | panic p => exact nofun

theorem EmitsAt.withBudget {P : δ → Prop} {env : ρ} {c : Cursor} {f : Nat → Decode ρ δ ε α}
    (h : EmitsAt P env c (f (c.remaining + 1))) : EmitsAt P env c (Decode.withBudget f) := h

/-- The value of a successful run and the entries it made on the way satisfy `post`. -/
def Yields (env : ρ) (m : Decode ρ δ ε α) (post : α → List δ → Prop) : Prop :=
  ∀ c a c', m.run env c = .ok (a, c') → post a (m.trace env c)

namespace Yields

variable {env : ρ} {m m' : Decode ρ δ ε α} {f : α → Decode ρ δ ε β} {post post₂ : α → List δ → Prop}
  {post' : β → List δ → Prop}

theorem pure {a : α} (h : post a []) : Yields env (pure a : Decode ρ δ ε α) post := by
  intro c b c' hrun
  cases hrun
  exact h

theorem throw (e : ε) : Yields env (throw e : Decode ρ δ ε α) post :=
  fun _ _ _ hrun => by cases hrun

theorem panic (cause : Panic) : Yields env (Decode.panic cause : Decode ρ δ ε α) post :=
  fun _ _ _ hrun => by cases hrun

theorem weaken (hm : Yields env m post) (h : ∀ a t, post a t → post₂ a t) : Yields env m post₂ :=
  fun c a c' hrun => h a _ (hm c a c' hrun)

theorem bind (hm : Yields env m post)
    (hf : ∀ a t, post a t → Yields env (f a) fun b t' => post' b (t ++ t')) :
    Yields env (m >>= f) post' := by
  intro c b c'' hrun
  obtain ⟨a, c', hfirst, hrest⟩ := Decode.run_bind_eq_ok hrun
  rw [Decode.trace_bind, hfirst]
  exact hf a _ (hm c a c' hfirst) c' b c'' hrest

/-- After a step whose entries do not matter. -/
theorem after (hf : ∀ a, Yields env (f a) post') (hmono : ∀ b s t, post' b t → post' b (s ++ t)) :
    Yields env (m >>= f) post' := by
  have hm : Yields env m fun _ _ => True := fun _ _ _ _ => trivial
  exact hm.bind fun a s _ => (hf a).weaken fun b t hb => hmono b s t hb

theorem ite {holds : Prop} [Decidable holds] (hm : holds → Yields env m post)
    (hm' : ¬ holds → Yields env m' post) : Yields env (if holds then m else m') post := by
  split
  · exact hm ‹_›
  · exact hm' ‹_›

theorem record (entry : δ) :
    Yields env (Decode.record entry : Decode ρ δ ε Unit) (fun _ t => t = [entry]) :=
  fun _ _ _ _ => rfl

theorem usizeMul (x y : Nat) :
    Yields env (Decode.usizeMul x y : Decode ρ δ ε Nat) (fun z t => z = x * y ∧ t = []) := by
  unfold Decode.usizeMul Decode.check
  by_cases h : x * y < usizeLimit
  · rw [if_pos h]
    exact pure ⟨rfl, rfl⟩
  · rw [if_neg h]
    exact panic .overflow

theorem of_emits {P : δ → Prop} (hm : Emits P m) : Yields env m fun _ t => ∀ e ∈ t, P e :=
  fun c _ _ _ => hm env c

theorem ofResult {x : Except ε α} (h : ∀ a, x = .ok a → post a []) :
    Yields env (Decode.ofResult x : Decode ρ δ ε α) post := by
  cases x with
  | ok a => exact pure (h a rfl)
  | error e => exact throw e

theorem withBudget {f : Nat → Decode ρ δ ε α} (hf : ∀ n, Yields env (f n) post) :
    Yields env (Decode.withBudget f) post := fun c => hf (c.remaining + 1) c

theorem nested {enter leave : δ} (hm : Yields env m fun a t => post a (enter :: t ++ [leave])) :
    Yields env (Decode.nested enter leave m) post := by
  intro c a c' hrun
  have hinner : m.run env c = .ok (a, c') := hrun
  have htrace : (Decode.nested enter leave m).trace env c = enter :: m.trace env c ++ [leave] := by
    simp only [Decode.nested, hinner]
  rw [htrace]
  exact hm c a c' hinner

/-- A list of values, where `post` survives further entries. -/
theorem collect {f : Nat → Decode ρ δ ε α}
    (hf : ∀ i, Yields env (f i) post) (hmono : ∀ a s t u, post a t → post a (s ++ t ++ u))
    (start count : Nat) :
    Yields env (Decode.collect f start count)
      (fun values t => values.length = count ∧ ∀ a ∈ values, post a t) := by
  induction count generalizing start with
  | zero => exact pure ⟨rfl, by simp⟩
  | succ count ih =>
      refine (hf start).bind fun a t ha => (ih (start + 1)).bind fun values t' hvalues => ?_
      refine pure ⟨by simp [hvalues.1], List.forall_mem_cons.mpr ⟨?_, fun b hb => ?_⟩⟩
      · simpa using hmono a [] t t' ha
      · simpa using hmono b t t' [] (hvalues.2 b hb)

end Yields

end Decoding
