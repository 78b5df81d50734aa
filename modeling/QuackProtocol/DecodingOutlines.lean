import Mathlib.Data.List.Forall2
import QuackProtocol.DecodingRules

/-! Readers without limits. An outline reads a byte string with numbers of any size and never panics; it lists
what the bytes declare, in the order in which they declare it. A decoder whose trace guards its panics can be
compared with such a reader: its trace is what is declared, up to the first quantity that is out of range, and
that is the one it panics at. -/

namespace Decoding

variable {ρ δ ε α β γ σ : Type}

@[ext]
structure Outline (δ α : Type) where
  result : Cursor → Option (α × Cursor)
  declared : Cursor → List δ

namespace Outline

def bind (s : Outline δ α) (f : α → Outline δ β) : Outline δ β where
  result c := (s.result c).bind fun out => (f out.1).result out.2
  declared c := s.declared c ++ ((s.result c).map fun out => (f out.1).declared out.2).getD []

instance : Monad (Outline δ) where
  pure a := ⟨fun c => some (a, c), fun _ => []⟩
  bind := bind

def fail : Outline δ α := ⟨fun _ => none, fun _ => []⟩

def declare (entry : δ) : Outline δ Unit := ⟨fun c => some ((), c), fun _ => [entry]⟩

def cursor : Outline δ Cursor := ⟨fun c => some (c, c), fun _ => []⟩

def setOffset (offset : Nat) : Outline δ Unit := ⟨fun c => some ((), { c with offset }), fun _ => []⟩

def nested (enter leave : δ) (s : Outline δ α) : Outline δ α := do
  declare enter
  let result ← s
  declare leave
  Pure.pure result

def ofOption : Option α → Outline δ α
  | some a => pure a
  | none => fail

def ofResult : Except ε α → Outline δ α
  | .ok a => pure a
  | .error _ => fail

def onBytes (bytes : List UInt8) (s : Outline δ α) : Outline δ α where
  result c := (s.result ⟨bytes, 0⟩).map fun out => (out.1, c)
  declared _ := s.declared ⟨bytes, 0⟩

def withBudget (f : Nat → Outline δ α) : Outline δ α where
  result c := (f (c.remaining + 1)).result c
  declared c := (f (c.remaining + 1)).declared c

def collect (f : Nat → Outline δ α) : Nat → Nat → Outline δ (List α)
  | _, 0 => pure []
  | start, count + 1 => do
    let value ← f start
    let values ← collect f (start + 1) count
    pure (value :: values)

theorem result_bind (s : Outline δ α) (f : α → Outline δ β) (c : Cursor) :
    (s >>= f).result c = (s.result c).bind fun out => (f out.1).result out.2 := rfl

theorem declared_bind (s : Outline δ α) (f : α → Outline δ β) (c : Cursor) :
    (s >>= f).declared c =
      s.declared c ++ ((s.result c).map fun out => (f out.1).declared out.2).getD [] := rfl

theorem bind_pure (s : Outline δ α) : s >>= pure = s := by
  have hresult (c : Cursor) : (s >>= pure).result c = s.result c := by
    rw [result_bind]
    cases s.result c <;> rfl
  have hdeclared (c : Cursor) : (s >>= pure).declared c = s.declared c := by
    rw [declared_bind]
    cases s.result c <;> exact List.append_nil _
  exact Outline.ext (funext hresult) (funext hdeclared)

end Outline

variable [Audit ρ δ]

/-- The first entry whose check fails. -/
def FirstUnsound (env : ρ) : List δ → δ → Prop
  | [], _ => False
  | entry :: entries, e =>
    (¬ Audit.Sound env entry ∧ e = entry) ∨ (Audit.Sound env entry ∧ FirstUnsound env entries e)

section
variable {env : ρ} {entries entries' : List δ} {e : δ}

theorem firstUnsound_append : FirstUnsound env (entries ++ entries') e ↔
    FirstUnsound env entries e ∨ (∀ entry ∈ entries, Audit.Sound env entry) ∧ FirstUnsound env entries' e := by
  induction entries with
  | nil => simp [FirstUnsound]
  | cons entry entries ih =>
      rw [List.cons_append, FirstUnsound, FirstUnsound, ih, List.forall_mem_cons]
      tauto

theorem firstUnsound_of_front {front : List δ} (hpre : front ++ [e] <+: entries)
    (hall : ∀ entry ∈ front, Audit.Sound env entry) (hnot : ¬ Audit.Sound env e) : FirstUnsound env entries e := by
  obtain ⟨rest, rfl⟩ := hpre
  rw [List.append_assoc, firstUnsound_append]
  exact .inr ⟨hall, .inl ⟨hnot, rfl⟩⟩

theorem FirstUnsound.mem (h : FirstUnsound env entries e) : e ∈ entries ∧ ¬ Audit.Sound env e := by
  induction entries with
  | nil => exact h.elim
  | cons entry entries ih =>
      rcases h with ⟨hnot, rfl⟩ | ⟨-, h⟩
      · exact ⟨List.mem_cons_self, hnot⟩
      · exact ⟨List.mem_cons_of_mem _ (ih h).1, (ih h).2⟩

theorem FirstUnsound.unique {e' : δ} (h : FirstUnsound env entries e) (h' : FirstUnsound env entries e') :
    e = e' := by
  induction entries with
  | nil => exact h.elim
  | cons entry entries ih =>
      rcases h with ⟨hnot, rfl⟩ | ⟨hsound, h⟩
      · rcases h' with ⟨-, rfl⟩ | ⟨hsound, -⟩
        · rfl
        · exact absurd hsound hnot
      · rcases h' with ⟨hnot, -⟩ | ⟨-, h'⟩
        · exact absurd hsound hnot
        · exact ih h h'

theorem FirstUnsound.longer (h : FirstUnsound env entries e) (hpre : entries <+: entries') :
    FirstUnsound env entries' e := by
  obtain ⟨rest, rfl⟩ := hpre
  exact firstUnsound_append.mpr (.inl h)

theorem exists_firstUnsound (h : ∃ e ∈ entries, ¬ Audit.Sound env e) : ∃ e, FirstUnsound env entries e := by
  induction entries with
  | nil =>
      obtain ⟨e, hmem, -⟩ := h
      cases hmem
  | cons entry entries ih =>
      by_cases hsound : Audit.Sound env entry
      · obtain ⟨e, hmem, hnot⟩ := h
        rcases List.mem_cons.mp hmem with rfl | hmem
        · exact absurd hsound hnot
        · obtain ⟨first, hfirst⟩ := ih ⟨e, hmem, hnot⟩
          exact ⟨first, .inr ⟨hsound, hfirst⟩⟩
      · exact ⟨entry, .inl ⟨hsound, rfl⟩⟩

end

/-- Each entry with the state that it finds. -/
def withStates (next : σ → δ → σ) : σ → List δ → List (σ × δ)
  | _, [] => []
  | s, entry :: entries => (s, entry) :: withStates next (next s entry) entries

section
variable {next : σ → δ → σ} {s : σ} {entries entries' : List δ}

theorem withStates_append : withStates next s (entries ++ entries') =
    withStates next s entries ++ withStates next (entries.foldl next s) entries' := by
  induction entries generalizing s with
  | nil => rfl
  | cons entry entries ih => exact congrArg _ ih

theorem withStates_mono (h : entries <+: entries') : withStates next s entries <+: withStates next s entries' := by
  obtain ⟨rest, rfl⟩ := h
  exact ⟨_, withStates_append.symm⟩

theorem mem_of_withStates {load : σ × δ} (h : load ∈ withStates next s entries) : load.2 ∈ entries := by
  induction entries generalizing s with
  | nil => cases h
  | cons entry entries ih =>
      rcases List.mem_cons.mp h with rfl | h
      · exact List.mem_cons_self
      · exact List.mem_cons_of_mem _ (ih h)

end

/-- A list that begins as two others do ends in the first of them or goes through it. -/
theorem prefix_append_cases {front xs ys : List δ} {e : δ} (h : front ++ [e] <+: xs ++ ys) :
    front ++ [e] <+: xs ∨ ∃ rest, front = xs ++ rest ∧ rest ++ [e] <+: ys := by
  rcases List.prefix_or_prefix_of_prefix h (List.prefix_append xs ys) with hpre | hpre
  · exact .inl hpre
  · rcases List.prefix_concat_iff.mp hpre with heq | ⟨rest, rfl⟩
    · exact .inl (heq ▸ List.prefix_refl _)
    · rw [List.append_assoc] at h
      exact .inr ⟨rest, rfl, (List.prefix_append_right_inj xs).mp h⟩

/-- A decoder and its outline: what the decoder enters is what the outline declares, up to the first entry that
is unsound, and where none is and the decoder does not panic, both have the same entries and read on to the same
place with results that correspond, or neither does. -/
structure OutlinedAt (env : ρ) (c : Cursor) (m : Decode ρ δ ε α) (s : Outline δ β) (rel : α → β → Prop) :
    Prop where
  told : ∀ front e, (∀ entry ∈ front, Audit.Sound env entry) → front ++ [e] <+: m.trace env c →
    front ++ [e] <+: s.declared c
  complete : (∀ e ∈ m.trace env c, Audit.Sound env e) → (∀ p, m.run env c ≠ .panic p) →
    s.declared c = m.trace env c
  returned : (∀ e ∈ m.trace env c, Audit.Sound env e) → ∀ a c', m.run env c = .ok (a, c') →
    ∃ b, s.result c = some (b, c') ∧ rel a b
  stopped : (∀ e ∈ m.trace env c, Audit.Sound env e) → ∀ error, m.run env c = .err error → s.result c = none

def Outlined (env : ρ) (m : Decode ρ δ ε α) (s : Outline δ β) (rel : α → β → Prop) : Prop :=
  ∀ c, OutlinedAt env c m s rel

namespace OutlinedAt

variable {env : ρ} {c : Cursor} {m : Decode ρ δ ε α} {s : Outline δ β} {rel : α → β → Prop}
  {α' β' : Type} {f : α → Decode ρ δ ε α'} {g : β → Outline δ β'} {rel' : α' → β' → Prop}

theorem pure {a : α} {b : β} (h : rel a b) : OutlinedAt env c (pure a : Decode ρ δ ε α) (pure b) rel where
  told _ _ _ h := h
  complete _ _ := rfl
  returned _ a' c' hrun := by
    cases hrun
    exact ⟨b, rfl, h⟩
  stopped _ _ hrun := by cases hrun

theorem fail (e : ε) : OutlinedAt env c (throw e : Decode ρ δ ε α) Outline.fail rel where
  told _ _ _ h := h
  complete _ _ := rfl
  returned _ _ _ hrun := by cases hrun
  stopped _ _ _ := rfl

/-- Where no entry tells of a panic, there is nothing to compare. -/
theorem panic (cause : Panic) : OutlinedAt env c (Decode.panic cause : Decode ρ δ ε α) s rel where
  told _ _ _ h := absurd (List.prefix_nil.mp h) (by simp)
  complete _ hreturns := absurd rfl (hreturns cause)
  returned _ _ _ hrun := by cases hrun
  stopped _ _ hrun := by cases hrun

theorem weaken {rel₂ : α → β → Prop} (h : OutlinedAt env c m s rel) (hrel : ∀ a b, rel a b → rel₂ a b) :
    OutlinedAt env c m s rel₂ where
  told := h.told
  complete := h.complete
  returned hsound a c' hrun := by
    obtain ⟨b, hb, hab⟩ := h.returned hsound a c' hrun
    exact ⟨b, hb, hrel a b hab⟩
  stopped := h.stopped

theorem bind (h : OutlinedAt env c m s rel)
    (hf : ∀ a b c', m.run env c = .ok (a, c') → rel a b → OutlinedAt env c' (f a) (g b) rel') :
    OutlinedAt env c (m >>= f) (s >>= g) rel' := by
  have hsplit (hall : ∀ e ∈ (m >>= f).trace env c, Audit.Sound env e) :
      ∀ e ∈ m.trace env c, Audit.Sound env e := by
    rw [Decode.trace_bind] at hall
    exact (List.forall_mem_append.mp hall).1
  have hnext {a : α} {c' : Cursor} (hrun : m.run env c = .ok (a, c'))
      (hall : ∀ e ∈ m.trace env c, Audit.Sound env e) : ∃ b, s.result c = some (b, c') ∧
        OutlinedAt env c' (f a) (g b) rel' := by
    obtain ⟨b, hb, hab⟩ := h.returned hall a c' hrun
    exact ⟨b, hb, hf a b c' hrun hab⟩
  constructor
  case told =>
    intro front e hall hpre
    rw [Decode.trace_bind] at hpre
    rw [Outline.declared_bind]
    rcases prefix_append_cases hpre with hin | ⟨rest, rfl, hafter⟩
    · exact (h.told front e hall hin).trans (List.prefix_append _ _)
    · obtain ⟨hm, hrest⟩ := List.forall_mem_append.mp hall
      cases hrun : m.run env c with
      | ok out =>
          obtain ⟨a, c'⟩ := out
          obtain ⟨b, hb, hg⟩ := hnext hrun hm
          rw [hrun] at hafter
          rw [h.complete hm (by simp [hrun]), hb, List.append_assoc]
          exact (List.prefix_append_right_inj _).mpr (hg.told rest e hrest hafter)
      | err error =>
          rw [hrun] at hafter
          exact absurd (List.prefix_nil.mp hafter) (by simp)
      | panic p =>
          rw [hrun] at hafter
          exact absurd (List.prefix_nil.mp hafter) (by simp)
  case complete =>
    intro hall hreturns
    have hm := hsplit hall
    rw [Decode.trace_bind] at hall ⊢
    rw [Outline.declared_bind]
    cases hrun : m.run env c with
    | ok out =>
        obtain ⟨a, c'⟩ := out
        obtain ⟨b, hb, hg⟩ := hnext hrun hm
        rw [hrun] at hall
        have hrest : (g b).declared c' = (f a).trace env c' := by
          refine hg.complete (List.forall_mem_append.mp hall).2 fun p hp => hreturns p ?_
          rw [Decode.run_bind_ok hrun, hp]
        rw [h.complete hm (by simp [hrun]), hb, Option.map_some, Option.getD_some, hrest]
    | err error => rw [h.complete hm (by simp [hrun]), h.stopped hm error hrun, Option.map_none, Option.getD_none]
    | panic p => exact absurd (by rw [Decode.run_bind, hrun]) (hreturns p)
  case returned =>
    intro hall a' c'' hrun
    obtain ⟨a, c', hfirst, hrest⟩ := Decode.run_bind_eq_ok hrun
    obtain ⟨b, hb, hg⟩ := hnext hfirst (hsplit hall)
    rw [Decode.trace_bind, hfirst] at hall
    obtain ⟨b', hb', hab'⟩ := hg.returned (List.forall_mem_append.mp hall).2 a' c'' hrest
    exact ⟨b', by rw [Outline.result_bind, hb, Option.bind_some, hb'], hab'⟩
  case stopped =>
    intro hall error hrun
    have hm := hsplit hall
    rw [Outline.result_bind]
    cases hfirst : m.run env c with
    | ok out =>
        obtain ⟨a, c'⟩ := out
        obtain ⟨b, hb, hg⟩ := hnext hfirst hm
        rw [Decode.trace_bind, hfirst] at hall
        rw [Decode.run_bind_ok hfirst] at hrun
        rw [hb, Option.bind_some]
        exact hg.stopped (List.forall_mem_append.mp hall).2 error hrun
    | err e => rw [h.stopped hm e hfirst, Option.bind_none]
    | panic p =>
        rw [Decode.run_bind, hfirst] at hrun
        cases hrun

/-- A check of the decoder alone. -/
theorem check {holds : Prop} [Decidable holds] {cause : Panic} {f : Unit → Decode ρ δ ε α}
    (h : holds → OutlinedAt env c (f ()) s rel) :
    OutlinedAt env c (Decode.check holds cause >>= f) s rel := by
  by_cases hholds : holds
  · rw [Decode.check, if_pos hholds, pure_bind]
    exact h hholds
  · rw [Decode.check_of_not hholds, Decode.panic_bind]
    exact panic cause

end OutlinedAt

namespace Outlined

variable {env : ρ} {m m' : Decode ρ δ ε α} {s s' : Outline δ β} {rel rel₂ : α → β → Prop}
  {α' β' : Type} {rel' : α' → β' → Prop}

theorem pure {a : α} {b : β} (h : rel a b) : Outlined env (pure a : Decode ρ δ ε α) (pure b) rel :=
  fun _ => .pure h

theorem fail (e : ε) : Outlined env (throw e : Decode ρ δ ε α) (Outline.fail : Outline δ β) rel :=
  fun _ => .fail e

theorem panic (cause : Panic) : Outlined env (Decode.panic cause : Decode ρ δ ε α) s rel :=
  fun _ => .panic cause

theorem weaken (h : Outlined env m s rel) (hrel : ∀ a b, rel a b → rel₂ a b) : Outlined env m s rel₂ :=
  fun c => (h c).weaken hrel

theorem bind {f : α → Decode ρ δ ε α'} {g : β → Outline δ β'} (h : Outlined env m s rel)
    (hf : ∀ a b, rel a b → Outlined env (f a) (g b) rel') : Outlined env (m >>= f) (s >>= g) rel' :=
  fun c => (h c).bind fun a b c' _ hab => hf a b hab c'

/-- Whatever the results of the step before. -/
theorem after {f : α → Decode ρ δ ε α'} {g : β → Outline δ β'} (h : Outlined env m s rel)
    (hf : ∀ a b, Outlined env (f a) (g b) rel') : Outlined env (m >>= f) (s >>= g) rel' :=
  h.bind fun a b _ => hf a b

/-- The decoder takes further steps. -/
theorem finish {f : α → Decode ρ δ ε α'} {rel' : α' → β → Prop} (h : Outlined env m s rel)
    (hf : ∀ a b, rel a b → Outlined env (f a) (Pure.pure b) rel') : Outlined env (m >>= f) s rel' := by
  rw [← Outline.bind_pure s]
  exact h.bind hf

/-- The outline computes its result. -/
theorem mapped {g : β → β'} {rel' : α → β' → Prop} (h : Outlined env m s rel)
    (hg : ∀ a b, rel a b → rel' a (g b)) : Outlined env m (s >>= fun b => Pure.pure (g b)) rel' := by
  rw [← bind_pure m]
  exact h.bind fun a b hab => pure (hg a b hab)

/-- After a step with the same result in both. -/
theorem same {s : Outline δ α} {f : α → Decode ρ δ ε α'} {g : α → Outline δ β'}
    (h : Outlined env m s fun a b => b = a) (hf : ∀ a, Outlined env (f a) (g a) rel') :
    Outlined env (m >>= f) (s >>= g) rel' := by
  refine h.bind fun a b hab => ?_
  rw [hab]
  exact hf a

theorem cursor : Outlined env (Decode.cursor : Decode ρ δ ε Cursor) Outline.cursor fun a b => b = a := by
  intro c
  constructor
  case told => exact fun _ _ _ h => h
  case complete => exact fun _ _ => rfl
  case returned =>
    intro _ a c' hrun
    cases hrun
    exact ⟨c, rfl, rfl⟩
  case stopped =>
    intro _ _ hrun
    cases hrun

theorem setOffset {offset : Nat} {f : Unit → Decode ρ δ ε α} {g : Unit → Outline δ β}
    (h : Outlined env (f ()) (g ()) rel) :
    Outlined env (Decode.setOffset offset >>= f) (Outline.setOffset offset >>= g) rel := by
  intro c
  obtain ⟨told, complete, returned, stopped⟩ := h { c with offset }
  exact ⟨told, complete, returned, stopped⟩

/-- An error that tells where it arose. -/
theorem failAt (e : Cursor → ε) : Outlined env (Decode.cursor >>= fun reader => (throw (e reader) : Decode ρ δ ε α))
    (Outline.fail : Outline δ β) rel := by
  intro c
  constructor
  case told => exact fun _ _ _ h => h
  case complete => exact fun _ _ => rfl
  case returned =>
    intro _ a c' hrun
    cases hrun
  case stopped => exact fun _ _ _ => rfl

theorem check {holds : Prop} [Decidable holds] {cause : Panic} {f : Unit → Decode ρ δ ε α}
    (h : holds → Outlined env (f ()) s rel) : Outlined env (Decode.check holds cause >>= f) s rel :=
  fun c => .check fun hholds => h hholds c

theorem usizeAdd {x y : Nat} {f : Nat → Decode ρ δ ε α} (h : Outlined env (f (x + y)) s rel) :
    Outlined env (Decode.usizeAdd x y >>= f) s rel := by
  rw [Decode.usizeAdd, bind_assoc]
  exact check fun _ => by rwa [pure_bind]

theorem usizeMul {x y : Nat} {f : Nat → Decode ρ δ ε α} (h : Outlined env (f (x * y)) s rel) :
    Outlined env (Decode.usizeMul x y >>= f) s rel := by
  rw [Decode.usizeMul, bind_assoc]
  exact check fun _ => by rwa [pure_bind]

theorem slice {xs : List β'} {start stop : Nat} {f : List β' → Decode ρ δ ε α}
    (h : Outlined env (f ((xs.drop start).take (stop - start))) s rel) :
    Outlined env (Decode.slice xs start stop >>= f) s rel := by
  rw [Decode.slice, bind_assoc]
  exact check fun _ => by rwa [pure_bind]

theorem index {xs : List β'} {i : Nat} {f : β' → Decode ρ δ ε α}
    (h : ∀ x, xs[i]? = some x → Outlined env (f x) s rel) : Outlined env (Decode.index xs i >>= f) s rel := by
  rw [Decode.index]
  cases hx : xs[i]? with
  | none => exact panic .bounds
  | some x =>
      rw [pure_bind]
      exact h x hx

theorem ask {f : ρ → Decode ρ δ ε α} (h : Outlined env (f env) s rel) :
    Outlined env (Decode.ask >>= f) s rel := by
  intro c
  obtain ⟨told, complete, returned, stopped⟩ := h c
  exact ⟨told, complete, returned, stopped⟩

/-- An element that both look up. -/
theorem lookup {xs : List γ} {i : Nat} {f : γ → Decode ρ δ ε α} {g : γ → Outline δ β}
    (h : ∀ x, xs[i]? = some x → Outlined env (f x) (g x) rel) :
    Outlined env (Decode.index xs i >>= f) (Outline.ofOption xs[i]? >>= g) rel := by
  refine index fun x hx => ?_
  rw [hx]
  exact h x hx

/-- What the decoder enters, the outline declares. -/
theorem record {entry : δ} {f : Unit → Decode ρ δ ε α} {g : Unit → Outline δ β}
    (h : Audit.Sound env entry → Outlined env (f ()) (g ()) rel) :
    Outlined env (Decode.record entry >>= f) (Outline.declare entry >>= g) rel := by
  intro c
  have hrun : (Decode.record entry >>= f).run env c = (f ()).run env c := rfl
  have htrace : (Decode.record entry >>= f).trace env c = entry :: (f ()).trace env c := rfl
  have hresult : (Outline.declare entry >>= g).result c = (g ()).result c := rfl
  have hdeclared : (Outline.declare entry >>= g).declared c = entry :: (g ()).declared c := rfl
  constructor
  case told =>
    intro front e hall hpre
    rw [htrace] at hpre
    rw [hdeclared]
    cases front with
    | nil =>
        obtain ⟨rfl, -⟩ := List.cons_prefix_cons.mp hpre
        exact List.cons_prefix_cons.mpr ⟨rfl, List.nil_prefix⟩
    | cons x front =>
        obtain ⟨rfl, hrest⟩ := List.cons_prefix_cons.mp hpre
        obtain ⟨hsound, hall⟩ := List.forall_mem_cons.mp hall
        exact List.cons_prefix_cons.mpr ⟨rfl, (h hsound c).told front e hall hrest⟩
  case complete =>
    rw [htrace, hdeclared, List.forall_mem_cons, hrun]
    exact fun hall hreturns => congrArg _ ((h hall.1 c).complete hall.2 hreturns)
  case returned =>
    rw [htrace, List.forall_mem_cons, hrun, hresult]
    exact fun hall => (h hall.1 c).returned hall.2
  case stopped =>
    rw [htrace, List.forall_mem_cons, hrun, hresult]
    exact fun hall => (h hall.1 c).stopped hall.2

theorem audit {entry : δ} {step : Decode ρ δ ε β'} {f : β' → Decode ρ δ ε α} {g : Unit → Outline δ β}
    (h : Audit.Sound env entry → Outlined env (step >>= f) (g ()) rel) :
    Outlined env (Decode.audit entry step >>= f) (Outline.declare entry >>= g) rel := by
  rw [Decode.audit, bind_assoc]
  exact record h

theorem nested {enter leave : δ} (h : Outlined env m s rel) :
    Outlined env (Decode.nested enter leave m) (Outline.nested enter leave s) rel := by
  rw [Decode.nested_eq]
  exact record fun _ => h.bind fun a b hab => record fun _ => pure hab

theorem ofResult {x : Except ε β'} {f : β' → Decode ρ δ ε α} {g : β' → Outline δ β}
    (h : ∀ a, x = .ok a → Outlined env (f a) (g a) rel) :
    Outlined env (Decode.ofResult x >>= f) (Outline.ofResult x >>= g) rel := by
  cases x with
  | ok a => exact h a rfl
  | error e =>
      intro c
      constructor
      case told => exact fun _ _ _ h => h
      case complete => exact fun _ _ => rfl
      case returned =>
        intro _ a c' hrun
        cases hrun
      case stopped => exact fun _ _ _ => rfl

theorem ite {holds : Prop} [Decidable holds] (hm : holds → Outlined env m s rel)
    (hm' : ¬ holds → Outlined env m' s' rel) :
    Outlined env (if holds then m else m') (if holds then s else s') rel := by
  split
  · exact hm ‹_›
  · exact hm' ‹_›

theorem onBytes {bytes : List UInt8} (h : Outlined env m s rel) :
    Outlined env (Decode.onBytes bytes m) (Outline.onBytes bytes s) rel := by
  intro c
  obtain ⟨told, complete, returned, stopped⟩ := h ⟨bytes, 0⟩
  constructor
  case told => exact told
  case complete =>
    refine fun hall hreturns => complete hall fun p hp => hreturns p ?_
    simp only [Decode.onBytes, hp]
  case returned =>
    intro hall a c' hrun
    simp only [Decode.onBytes] at hrun
    split at hrun
    · rename_i a' c'' hinner
      cases hrun
      obtain ⟨b, hb, hab⟩ := returned hall _ _ hinner
      exact ⟨b, by simp only [Outline.onBytes, hb, Option.map_some], hab⟩
    · cases hrun
    · cases hrun
  case stopped =>
    intro hall error hrun
    simp only [Decode.onBytes] at hrun
    split at hrun
    · cases hrun
    · rename_i e hinner
      simp only [Outline.onBytes, stopped hall _ hinner, Option.map_none]
    · cases hrun

theorem withBudget {f : Nat → Decode ρ δ ε α} {g : Nat → Outline δ β} (h : ∀ n, Outlined env (f n) (g n) rel) :
    Outlined env (Decode.withBudget f) (Outline.withBudget g) rel := by
  intro c
  obtain ⟨told, complete, returned, stopped⟩ := h (c.remaining + 1) c
  exact ⟨told, complete, returned, stopped⟩

theorem collect {f : Nat → Decode ρ δ ε α} {g : Nat → Outline δ β} (h : ∀ i, Outlined env (f i) (g i) rel)
    (start count : Nat) : Outlined env (Decode.collect f start count) (Outline.collect g start count)
      fun values results => values.length = count ∧ List.Forall₂ rel values results := by
  induction count generalizing start with
  | zero => exact pure ⟨rfl, .nil⟩
  | succ count ih =>
      refine (h start).bind fun a b hab => (ih (start + 1)).bind ?_
      rintro values results ⟨hlen, hrest⟩
      exact pure ⟨by rw [List.length_cons, hlen], .cons hab hrest⟩

section
variable {n k : Nat} {post : α → Prop} {c : Cursor} (h : Outlined env m s rel) (hm : Guarded env n k m post)
  (hc : c.Valid) (hn : c.remaining ≤ n)
include h hm hc hn

/-- A guarded decoder enters what its outline declares, up to the entry it panics at or, where it does not panic,
to the end. -/
theorem trace_cases : (∃ front e, m.trace env c = front ++ [e] ∧ (∀ entry ∈ front, Audit.Sound env entry) ∧
      ¬ Audit.Sound env e ∧ front ++ [e] <+: s.declared c ∧ m.run env c = .panic (Audit.cause ρ e)) ∨
    (m.run env c).Returns ∧ m.trace env c = s.declared c ∧ ∀ entry ∈ s.declared c, Audit.Sound env entry := by
  have hguard := hm c hc hn
  unfold GuardedAt at hguard
  cases hrun : m.run env c with
  | panic p =>
      rw [hrun] at hguard
      obtain ⟨front, e, htrace, hall, hnot, rfl⟩ := hguard
      exact .inl ⟨front, e, htrace, hall, hnot, (h c).told front e hall (htrace ▸ List.prefix_refl _), rfl⟩
  | ok out =>
      rw [hrun] at hguard
      have hcomplete := (h c).complete hguard.1 (by simp [hrun])
      exact .inr ⟨trivial, hcomplete.symm, hcomplete ▸ hguard.1⟩
  | err error =>
      rw [hrun] at hguard
      have hcomplete := (h c).complete hguard (by simp [hrun])
      exact .inr ⟨trivial, hcomplete.symm, hcomplete ▸ hguard⟩

/-- It panics exactly at the first declared quantity that is out of range. -/
theorem panics_iff (p : Panic) :
    m.run env c = .panic p ↔ ∃ e, FirstUnsound env (s.declared c) e ∧ Audit.cause ρ e = p := by
  rcases h.trace_cases hm hc hn with ⟨front, e, -, hall, hnot, hpre, hrun⟩ | ⟨hreturns, -, hall⟩
  · have hfirst := firstUnsound_of_front hpre hall hnot
    rw [hrun]
    constructor
    · intro hcause
      cases hcause
      exact ⟨e, hfirst, rfl⟩
    · rintro ⟨e', he', rfl⟩
      rw [hfirst.unique he']
  · constructor
    · intro hrun
      rw [hrun] at hreturns
      exact hreturns.elim
    · rintro ⟨e, he, -⟩
      exact absurd (hall e he.mem.1) he.mem.2

end

end Outlined

end Decoding
