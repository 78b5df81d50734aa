import QuackProtocol.DecodingRules

/-! Two decoders over the same bytes. A reader mirrors a decoder if it returns wherever the decoder does, at
the same place, with a result that corresponds to the decoder's. -/

namespace Decoding

variable {ρ δ ε α β γ κ : Type}

def Mirrors (env : ρ) (m : Decode ρ δ ε α) (s : Decode ρ δ ε β) (rel : α → β → Prop) : Prop :=
  ∀ c a c', m.run env c = .ok (a, c') → ∃ b, s.run env c = .ok (b, c') ∧ rel a b

/-- A run that returns leaves the cursor where it was. -/
def Still (env : ρ) (m : Decode ρ δ ε α) (post : α → Prop) : Prop :=
  ∀ c a c', m.run env c = .ok (a, c') → c' = c ∧ post a

namespace Still

variable {env : ρ} {m m' : Decode ρ δ ε α} {f : α → Decode ρ δ ε β} {post : α → Prop} {post' : β → Prop}

theorem pure {a : α} (h : post a) : Still env (pure a : Decode ρ δ ε α) post := by
  intro c b c' hrun
  cases hrun
  exact ⟨rfl, h⟩

theorem throw (e : ε) : Still env (throw e : Decode ρ δ ε α) post := fun _ _ _ hrun => by cases hrun

theorem panic (cause : Panic) : Still env (Decode.panic cause : Decode ρ δ ε α) post :=
  fun _ _ _ hrun => by cases hrun

theorem record (entry : δ) : Still env (Decode.record entry : Decode ρ δ ε Unit) fun _ => True := by
  intro c a c' hrun
  cases hrun
  exact ⟨rfl, trivial⟩

theorem ask : Still env (Decode.ask : Decode ρ δ ε ρ) fun _ => True := by
  intro c a c' hrun
  cases hrun
  exact ⟨rfl, trivial⟩

theorem bind (hm : Still env m post) (hf : ∀ a, post a → Still env (f a) post') :
    Still env (m >>= f) post' := by
  intro c b c'' hrun
  obtain ⟨a, c', hfirst, hrest⟩ := Decode.run_bind_eq_ok hrun
  obtain ⟨rfl, ha⟩ := hm c a c' hfirst
  exact hf a ha _ b c'' hrest

theorem ite {holds : Prop} [Decidable holds] (hm : holds → Still env m post)
    (hm' : ¬ holds → Still env m' post) : Still env (if holds then m else m') post := by
  split
  · exact hm ‹_›
  · exact hm' ‹_›

theorem check (holds : Prop) [Decidable holds] (cause : Panic) :
    Still env (Decode.check holds cause : Decode ρ δ ε Unit) fun _ => holds :=
  ite (fun h => pure h) fun _ => panic cause

theorem audit {entry : δ} (hm : Still env m post) : Still env (Decode.audit entry m) post :=
  (record entry).bind fun _ _ => hm

theorem usizeAdd (x y : Nat) : Still env (Decode.usizeAdd x y : Decode ρ δ ε Nat) (fun z => z = x + y) :=
  (check _ _).bind fun _ _ => pure rfl

theorem usizeMul (x y : Nat) : Still env (Decode.usizeMul x y : Decode ρ δ ε Nat) (fun z => z = x * y) :=
  (check _ _).bind fun _ _ => pure rfl

theorem slice (xs : List α) (start stop : Nat) : Still env (Decode.slice xs start stop : Decode ρ δ ε (List α))
    fun ys => ys = (xs.drop start).take (stop - start) :=
  (check _ _).bind fun _ _ => pure rfl

theorem index (xs : List α) (i : Nat) : Still env (Decode.index xs i : Decode ρ δ ε α) fun a => xs[i]? = some a := by
  unfold Decode.index
  cases h : xs[i]? with
  | none => exact panic .bounds
  | some a => exact pure rfl

theorem ofResult {x : Except ε α} (h : ∀ a, x = .ok a → post a) :
    Still env (Decode.ofResult x : Decode ρ δ ε α) post := by
  cases x with
  | ok a => exact pure (h a rfl)
  | error e => exact throw e

/-- The values, each at its index. -/
theorem collect {f : Nat → Decode ρ δ ε α} {post : Nat → α → Prop} (hf : ∀ i, Still env (f i) (post i))
    (start count : Nat) : Still env (Decode.collect f start count)
      (List.Forall₂ post (List.range' start count)) := by
  induction count generalizing start with
  | zero => exact pure .nil
  | succ count ih =>
      refine (hf start).bind fun a ha => (ih (start + 1)).bind fun values hvalues => pure ?_
      rw [List.range'_succ]
      exact .cons ha hvalues

end Still

namespace Mirrors

variable {env : ρ} {m m' : Decode ρ δ ε α} {s s' : Decode ρ δ ε β} {rel rel₂ : α → β → Prop}
  {α' β' : Type} {rel' : α' → β' → Prop}

theorem pure {a : α} {b : β} (h : rel a b) : Mirrors env (pure a : Decode ρ δ ε α) (pure b) rel := by
  intro c a' c' hrun
  cases hrun
  exact ⟨b, rfl, h⟩

theorem throw (e : ε) : Mirrors env (throw e : Decode ρ δ ε α) s rel := fun _ _ _ hrun => by cases hrun

theorem panic (cause : Panic) : Mirrors env (Decode.panic cause : Decode ρ δ ε α) s rel :=
  fun _ _ _ hrun => by cases hrun

theorem weaken (h : Mirrors env m s rel) (hrel : ∀ a b, rel a b → rel₂ a b) : Mirrors env m s rel₂ := by
  intro c a c' hrun
  obtain ⟨b, hs, hab⟩ := h c a c' hrun
  exact ⟨b, hs, hrel a b hab⟩

/-- With what is known of the decoder's own results. -/
theorem gives {post : α → Prop} (h : Mirrors env m s rel) (hm : Yields env m fun a _ => post a) :
    Mirrors env m s fun a b => rel a b ∧ post a := by
  intro c a c' hrun
  obtain ⟨b, hs, hab⟩ := h c a c' hrun
  exact ⟨b, hs, hab, hm c a c' hrun⟩

theorem bind {f : α → Decode ρ δ ε α'} {g : β → Decode ρ δ ε β'} (h : Mirrors env m s rel)
    (hf : ∀ a b, rel a b → Mirrors env (f a) (g b) rel') : Mirrors env (m >>= f) (s >>= g) rel' := by
  intro c a' c'' hrun
  obtain ⟨a, c', hfirst, hrest⟩ := Decode.run_bind_eq_ok hrun
  obtain ⟨b, hs, hab⟩ := h c a c' hfirst
  obtain ⟨b', hg, hab'⟩ := hf a b hab c' a' c'' hrest
  exact ⟨b', (Decode.run_bind_ok hs).trans hg, hab'⟩

/-- The decoder takes further steps, but reads no further. -/
theorem finish {f : α → Decode ρ δ ε α'} {rel' : α' → β → Prop} (h : Mirrors env m s rel)
    (hf : ∀ a b, rel a b → Still env (f a) fun a' => rel' a' b) : Mirrors env (m >>= f) s rel' := by
  intro c a' c'' hrun
  obtain ⟨a, c', hfirst, hrest⟩ := Decode.run_bind_eq_ok hrun
  obtain ⟨b, hs, hab⟩ := h c a c' hfirst
  obtain ⟨rfl, hab'⟩ := hf a b hab c' a' c'' hrest
  exact ⟨b, hs, hab'⟩

/-- The reader computes its result. -/
theorem mapped {g : β → β'} {rel' : α → β' → Prop} (h : Mirrors env m s rel)
    (hg : ∀ a b, rel a b → rel' a (g b)) : Mirrors env m (s >>= fun b => Pure.pure (g b)) rel' := by
  intro c a c' hrun
  obtain ⟨b, hs, hab⟩ := h c a c' hrun
  exact ⟨g b, Decode.run_bind_ok hs, hg a b hab⟩

/-- After a step that both take. -/
theorem same {f : α → Decode ρ δ ε α'} {g : α → Decode ρ δ ε β'}
    (hf : ∀ a, Mirrors env (f a) (g a) rel') : Mirrors env (m >>= f) (m >>= g) rel' := by
  have hm : Mirrors env m m fun a b => b = a := fun c a c' hrun => ⟨a, hrun, rfl⟩
  refine hm.bind fun a b hab => ?_
  rw [hab]
  exact hf a

/-- After a computation that both make. -/
theorem result {x : Except ε α} {f : α → Decode ρ δ ε α'} {g : α → Decode ρ δ ε β'}
    (hf : ∀ a, x = .ok a → Mirrors env (f a) (g a) rel') :
    Mirrors env (Decode.ofResult x >>= f) (Decode.ofResult x >>= g) rel' := by
  cases x with
  | ok a => exact hf a rfl
  | error e => exact throw e

/-- After a step of the decoder alone. -/
theorem skip {post : α → Prop} {f : α → Decode ρ δ ε α'} {s : Decode ρ δ ε β'} (hm : Still env m post)
    (hf : ∀ a, post a → Mirrors env (f a) s rel') : Mirrors env (m >>= f) s rel' := by
  intro c a' c'' hrun
  obtain ⟨a, c', hfirst, hrest⟩ := Decode.run_bind_eq_ok hrun
  obtain ⟨rfl, ha⟩ := hm c a c' hfirst
  exact hf a ha _ a' c'' hrest

/-- Nothing is left to read. -/
theorem still {b : β} (hm : Still env m fun a => rel a b) : Mirrors env m (Pure.pure b) rel := by
  intro c a c' hrun
  obtain ⟨rfl, hab⟩ := hm c a c' hrun
  exact ⟨b, rfl, hab⟩

theorem ite {holds : Prop} [Decidable holds] (hm : holds → Mirrors env m s rel)
    (hm' : ¬ holds → Mirrors env m' s' rel) :
    Mirrors env (if holds then m else m') (if holds then s else s') rel := by
  split
  · exact hm ‹_›
  · exact hm' ‹_›

/-- A test of the decoder alone, which ends in an error. -/
theorem guarded {holds : Prop} [Decidable holds] {e : ε} (hm : ¬ holds → Mirrors env m s rel) :
    Mirrors env (if holds then MonadExceptOf.throw e else m) s rel := by
  split
  · exact throw e
  · exact hm ‹_›

theorem onBytes {bytes : List UInt8} (h : Mirrors env m s rel) :
    Mirrors env (Decode.onBytes bytes m) (Decode.onBytes bytes s) rel := by
  intro c a c' hrun
  simp only [Decode.onBytes] at hrun ⊢
  split at hrun
  · rename_i a' c'' hinner
    cases hrun
    obtain ⟨b, hs, hab⟩ := h _ _ _ hinner
    exact ⟨b, by rw [hs], hab⟩
  · cases hrun
  · cases hrun

theorem nested (h : Mirrors env m s rel) (enter leave : δ) :
    Mirrors env (Decode.nested enter leave m) s rel := h

theorem withBudget {f : Nat → Decode ρ δ ε α} {g : Nat → Decode ρ δ ε β}
    (h : ∀ n, Mirrors env (f n) (g n) rel) : Mirrors env (Decode.withBudget f) (Decode.withBudget g) rel :=
  fun c => h (c.remaining + 1) c

/-- Value by value, each pair at its index. -/
theorem collect {f : Nat → Decode ρ δ ε α} {g : Nat → Decode ρ δ ε β} {rel : Nat → α → β → Prop}
    (h : ∀ i, Mirrors env (f i) (g i) (rel i)) (start count : Nat) :
    Mirrors env (Decode.collect f start count) (Decode.collect g start count) fun values results =>
      values.length = count ∧ results.length = count ∧
        ∀ i (hi : i < values.length) (hi' : i < results.length), rel (start + i) values[i] results[i] := by
  induction count generalizing start with
  | zero => exact pure ⟨rfl, rfl, fun i hi => absurd hi (Nat.not_lt_zero i)⟩
  | succ count ih =>
      refine (h start).bind fun a b hab => (ih (start + 1)).bind fun values results hrest => pure ?_
      obtain ⟨hvalues, hresults, hpairs⟩ := hrest
      refine ⟨by rw [List.length_cons, hvalues], by rw [List.length_cons, hresults], fun i hi hi' => ?_⟩
      cases i with
      | zero => exact hab
      | succ i =>
          have hpair := hpairs i (Nat.lt_of_succ_lt_succ hi) (Nat.lt_of_succ_lt_succ hi')
          rw [Nat.add_assoc, Nat.add_comm 1] at hpair
          exact hpair

end Mirrors

end Decoding
