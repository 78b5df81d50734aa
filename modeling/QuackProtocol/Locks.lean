import Mathlib.Logic.Function.Basic
import Mathlib.Logic.Relation

/-! Tasks that share a value behind a lock. A task waits for the lock, takes turns with the value while it
holds the lock, and gives it back with its last turn; other steps touch the value without the lock. What
the value satisfies whenever the lock is free, and in the hands of each holder, it satisfies in every run. -/

namespace Locks

/-- Where a task stands, for the work that it does under the lock. -/
inductive Standing (α : Type) where
  | away
  | waiting (work : α)
  | holding (work : α)

structure State (Task σ α : Type) where
  value : σ
  holder : Option Task
  standing : Task → Standing α

/-- What is done to the value: with which work a task takes the lock, what one turn of the holder does,
with the work left after it, and what happens without the lock. -/
structure Protocol (σ α : Type) where
  begins : α → Prop
  turn : σ → α → σ → Option α → Prop
  outside : σ → σ → Prop

variable {Task σ α : Type}

section
variable [DecidableEq Task]

def State.stand (state : State Task σ α) (task : Task) (standing : Standing α) : Task → Standing α :=
  Function.update state.standing task standing

/-- One step of one task, or of none. -/
inductive Step (protocol : Protocol σ α) : State Task σ α → State Task σ α → Prop where
  | ask {state : State Task σ α} {work : α} (task : Task) (away : state.standing task = .away)
      (begins : protocol.begins work) :
      Step protocol state { state with standing := state.stand task (.waiting work) }
  | cancel {state : State Task σ α} {work : α} (task : Task)
      (waiting : state.standing task = .waiting work) :
      Step protocol state { state with standing := state.stand task .away }
  | take {state : State Task σ α} {work : α} (task : Task) (free : state.holder = none)
      (waiting : state.standing task = .waiting work) :
      Step protocol state { state with
        holder := some task, standing := state.stand task (.holding work) }
  | turn {state : State Task σ α} {work next : α} {value : σ} (task : Task)
      (holding : state.standing task = .holding work)
      (turn : protocol.turn state.value work value (some next)) :
      Step protocol state { state with value, standing := state.stand task (.holding next) }
  | release {state : State Task σ α} {work : α} {value : σ} (task : Task)
      (holding : state.standing task = .holding work)
      (turn : protocol.turn state.value work value none) :
      Step protocol state ⟨value, none, state.stand task .away⟩
  | outside {state : State Task σ α} {value : σ} (outside : protocol.outside state.value value) :
      Step protocol state { state with value }

/-- The same tasks, seen with less of the value. -/
def State.project {σ' : Type} (project : σ → σ') (state : State Task σ α) : State Task σ' α :=
  ⟨project state.value, state.holder, state.standing⟩

/-- Nobody asks for the lock yet. -/
def State.initial (value : σ) : State Task σ α := ⟨value, none, fun _ => .away⟩

/-- The states that the tasks can come to, in any order of their steps. -/
def Reachable (protocol : Protocol σ α) (value : σ) (state : State Task σ α) : Prop :=
  Relation.ReflTransGen (Step protocol) (State.initial value) state

end

/-- What every turn keeps, with the lock free and with the lock held. -/
structure Keeps (protocol : Protocol σ α) (free : σ → Prop) (held : σ → α → Prop) : Prop where
  take : ∀ {value work}, free value → protocol.begins work → held value work
  turn : ∀ {value work value' next}, held value work → protocol.turn value work value' (some next) →
    held value' next
  release : ∀ {value work value'}, held value work → protocol.turn value work value' none → free value'
  outsideFree : ∀ {value value'}, free value → protocol.outside value value' → free value'
  outsideHeld : ∀ {value value' work}, held value work → protocol.outside value value' →
    held value' work

/-- Only the holder does work under the lock, and the value is as it should be. -/
structure Sound (protocol : Protocol σ α) (free : σ → Prop) (held : σ → α → Prop)
    (state : State Task σ α) : Prop where
  owner : ∀ task work, state.standing task = .holding work → state.holder = some task
  begins : ∀ task work, state.standing task = .waiting work → protocol.begins work
  unlocked : state.holder = none → free state.value
  locked : ∀ task, state.holder = some task →
    ∃ work, state.standing task = .holding work ∧ held state.value work

section
variable {protocol : Protocol σ α} {free : σ → Prop} {held : σ → α → Prop} {state next : State Task σ α}
  {task : Task} {work : α} {standing : Standing α}

theorem Sound.held_of_holding (h : Sound protocol free held state)
    (holding : state.standing task = .holding work) : held state.value work := by
  obtain ⟨work', hwork, hheld⟩ := h.locked task (h.owner task work holding)
  cases holding.symm.trans hwork
  exact hheld

variable [DecidableEq Task]

@[simp] theorem State.stand_self : state.stand task standing task = standing := Function.update_self ..

theorem State.stand_of_ne {other : Task} (h : other ≠ task) :
    state.stand task standing other = state.standing other := Function.update_of_ne h ..

theorem State.stand_cases {other : Task} {standing' : Standing α}
    (h : state.stand task standing other = standing') :
    (other = task ∧ standing = standing') ∨ (other ≠ task ∧ state.standing other = standing') := by
  by_cases heq : other = task
  · subst heq
    exact .inl ⟨rfl, State.stand_self.symm.trans h⟩
  · exact .inr ⟨heq, (State.stand_of_ne heq).symm.trans h⟩

/-- A task that does not hold the lock may ask for it or cease to wait. -/
theorem Sound.restand (h : Sound protocol free held state)
    (hbefore : ∀ work, state.standing task ≠ .holding work) (hafter : ∀ work, standing ≠ .holding work)
    (hbegins : ∀ work, standing = .waiting work → protocol.begins work) :
    Sound protocol free held { state with standing := state.stand task standing } where
  owner other work hother := by
    obtain ⟨rfl, hstanding⟩ | ⟨_, hstanding⟩ := State.stand_cases hother
    · exact absurd hstanding (hafter work)
    · exact h.owner other work hstanding
  begins other work hother := by
    obtain ⟨rfl, hstanding⟩ | ⟨_, hstanding⟩ := State.stand_cases hother
    · exact hbegins work hstanding
    · exact h.begins other work hstanding
  unlocked := h.unlocked
  locked other hother := by
    obtain ⟨work, hwork, hheld⟩ := h.locked other hother
    have hne : other ≠ task := fun heq => hbefore work (heq ▸ hwork)
    exact ⟨work, (State.stand_of_ne hne).trans hwork, hheld⟩

/-- A task comes to hold the lock, or holds it on, when no other task does. -/
theorem Sound.hold {value : σ} (hothers : ∀ other work, other ≠ task → state.standing other ≠ .holding work)
    (hbegins : ∀ other work, state.standing other = .waiting work → protocol.begins work)
    (hheld : held value work) :
    Sound protocol free held ⟨value, some task, state.stand task (.holding work)⟩ where
  owner other work' hother := by
    obtain ⟨rfl, _⟩ | ⟨hne, hstanding⟩ := State.stand_cases hother
    · rfl
    · exact absurd hstanding (hothers other work' hne)
  begins other work' hother := by
    obtain ⟨rfl, hstanding⟩ | ⟨_, hstanding⟩ := State.stand_cases hother
    · cases hstanding
    · exact hbegins other work' hstanding
  unlocked h := by cases h
  locked other hother := by
    cases hother
    exact ⟨work, State.stand_self, hheld⟩

/-- The holder gives the lock back. -/
theorem Sound.leave {value : σ} (hothers : ∀ other work, other ≠ task → state.standing other ≠ .holding work)
    (hbegins : ∀ other work, state.standing other = .waiting work → protocol.begins work)
    (hfree : free value) : Sound protocol free held ⟨value, none, state.stand task .away⟩ where
  owner other work hother := by
    obtain ⟨_, hstanding⟩ | ⟨hne, hstanding⟩ := State.stand_cases hother
    · cases hstanding
    · exact absurd hstanding (hothers other work hne)
  begins other work hother := by
    obtain ⟨_, hstanding⟩ | ⟨_, hstanding⟩ := State.stand_cases hother
    · cases hstanding
    · exact hbegins other work hstanding
  unlocked _ := hfree
  locked _ h := by cases h

/-- The invariants hold after one step if the turns keep them. -/
theorem Sound.step (hkeeps : Keeps protocol free held) (h : Sound protocol free held state)
    (hstep : Step protocol state next) : Sound protocol free held next := by
  have hothers {task : Task} {work : α} (holding : state.standing task = .holding work) (other : Task)
      (work' : α) (hne : other ≠ task) : state.standing other ≠ .holding work' := fun hother =>
    hne (Option.some.inj ((h.owner other work' hother).symm.trans (h.owner task work holding)))
  cases hstep with
  | ask task away begins =>
      apply h.restand
      · intro _ hholding
        cases away.symm.trans hholding
      · intro _ hholding
        cases hholding
      · intro _ hwaiting
        cases hwaiting
        exact begins
  | cancel task waiting =>
      apply h.restand
      · intro _ hholding
        cases waiting.symm.trans hholding
      · intro _ hholding
        cases hholding
      · intro _ hwaiting
        cases hwaiting
  | take task free waiting =>
      apply Sound.hold _ h.begins (hkeeps.take (h.unlocked free) (h.begins task _ waiting))
      intro other work _ hother
      cases free.symm.trans (h.owner other work hother)
  | turn task holding turn =>
      rw [h.owner task _ holding]
      exact Sound.hold (hothers holding) h.begins (hkeeps.turn (h.held_of_holding holding) turn)
  | release task holding turn =>
      exact Sound.leave (hothers holding) h.begins (hkeeps.release (h.held_of_holding holding) turn)
  | outside outside =>
      refine ⟨h.owner, h.begins, fun hfree => hkeeps.outsideFree (h.unlocked hfree) outside, ?_⟩
      intro other hother
      obtain ⟨work, hwork, hheld⟩ := h.locked other hother
      exact ⟨work, hwork, hkeeps.outsideHeld hheld outside⟩

theorem Sound.reachable (hkeeps : Keeps protocol free held) {value : σ} (hvalue : free value)
    (h : Reachable protocol value state) : Sound protocol free held state := by
  induction h with
  | refl =>
      refine ⟨fun _ _ h => ?_, fun _ _ h => ?_, fun _ => hvalue, fun _ h => ?_⟩
      all_goals cases h
  | tail _ hstep ih => exact ih.step hkeeps hstep

/-- A run of one protocol is a run of another one that sees less of the value and allows as much. -/
theorem Reachable.project {σ' : Type} {protocol' : Protocol σ' α} {project : σ → σ'} {value : σ}
    (hbegins : ∀ work, protocol.begins work → protocol'.begins work)
    (hturn : ∀ value work value' next, protocol.turn value work value' next →
      protocol'.turn (project value) work (project value') next)
    (houtside : ∀ value value', protocol.outside value value' →
      protocol'.outside (project value) (project value'))
    (h : Reachable protocol value state) : Reachable protocol' (project value) (state.project project) := by
  induction h with
  | refl => exact .refl
  | tail _ hstep ih =>
      refine .tail ih ?_
      cases hstep with
      | ask task away begins => exact .ask task away (hbegins _ begins)
      | cancel task waiting => exact .cancel task waiting
      | take task free waiting => exact .take task free waiting
      | turn task holding turn => exact .turn task holding (hturn _ _ _ _ turn)
      | release task holding turn => exact .release task holding (hturn _ _ _ _ turn)
      | outside outside => exact .outside (houtside _ _ outside)

end

end Locks
