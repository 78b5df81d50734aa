import Mathlib.Algebra.BigOperators.Group.List.Basic
import Mathlib.Algebra.GroupWithZero.Nat
import Mathlib.Data.List.Induction
import Mathlib.Data.List.Infix
import QuackProtocol.Sessions

/-! The heartbeat of a connection (`client.rs`): a task that sleeps for a third of the heartbeat timeout, looks
whether the connection is closed, sends a request and takes note of the reply. Meanwhile other requests renew
the lease, a DISCONNECT closes it, and the task is aborted when the last client is dropped. -/

namespace Histories

variable {σ ε : Type} {step : σ → ε → Option σ} {first last : σ} {events : List ε} {event : ε}

/-- A history of a machine whose steps may be refused: the events lead from one state to the other, and none
of them is refused. -/
def Runs (step : σ → ε → Option σ) (first : σ) (events : List ε) (last : σ) : Prop :=
  events.foldlM step first = some last

@[simp] theorem runs_nil : Runs step first [] last ↔ first = last := by
  rw [Runs, List.foldlM_nil, Option.pure_def, Option.some.injEq]

theorem runs_snoc : Runs step first (events ++ [event]) last ↔
    ∃ middle, Runs step first events middle ∧ step middle event = some last := by
  rw [Runs, List.foldlM_append, Option.bind_eq_bind, Option.bind_eq_some_iff]
  simp only [List.foldlM_cons, List.foldlM_nil, Option.bind_eq_bind, Option.pure_def, Option.bind_fun_some]
  rfl

/-- What holds at first and is kept by every step, whatever came before it, holds of every history. -/
theorem Runs.keeps (h : Runs step first events last) (Inv : List ε → σ → Prop) (hfirst : Inv [] first)
    (hstep : ∀ before middle event next, Runs step first before middle → Inv before middle →
      step middle event = some next → Inv (before ++ [event]) next) : Inv events last := by
  induction events using List.reverseRecOn generalizing last with
  | nil =>
      obtain rfl := runs_nil.mp h
      exact hfirst
  | append_singleton before event ih =>
      obtain ⟨middle, hbefore, hnext⟩ := runs_snoc.mp h
      exact hstep before middle event last hbefore (ih hbefore) hnext

/-- Where each step costs no more than what it takes from a potential, so does a history. -/
theorem Runs.spends (h : Runs step first events last) (Inv : σ → Prop) (cost : ε → Nat) (potential : σ → Nat)
    (hfirst : Inv first) (hstep : ∀ state event next, Inv state → step state event = some next →
      Inv next ∧ cost event + potential next ≤ potential state) :
    Inv last ∧ (events.map cost).sum + potential last ≤ potential first := by
  refine h.keeps (fun events state => Inv state ∧ (events.map cost).sum + potential state ≤ potential first)
    ⟨hfirst, Nat.le_of_eq (Nat.zero_add _)⟩ ?_
  intro before middle event next _ ih hnext
  obtain ⟨hkept, hcost⟩ := hstep middle event next ih.1 hnext
  refine ⟨hkept, ?_⟩
  have hspent := ih.2
  rw [List.map_append, List.sum_append, List.map_singleton, List.sum_singleton]
  omega

end Histories

open Histories

namespace QuackProtocol

/-- `(heartbeat_timeout / 3).max(Duration::from_millis(100))`, in nanoseconds. -/
def heartbeatInterval (timeout : Duration) : Nat := max (timeout.asNanos / 3) 100000000

/-- Where the task stands: asleep until an instant, woken then and past the check of the lease, waiting for the
reply to a request that it has sent at an instant, or at its end. -/
inductive HeartbeatTask where
  | asleep (wake : Instant)
  | woken (wake : Instant)
  | waiting (sent : Instant)
  | ended

/-- The clock, the lease of the connection and the task. -/
structure HeartbeatGuard where
  now : Instant
  lease : ConnectionLease
  task : HeartbeatTask

/-- An instant that is recorded or compared has been read from the clock earlier. -/
inductive HeartbeatEvent where
  | pass (nanos : Nat)
  | wake
  | send
  | reply (reply : Reply) (read : Instant)
  | success (read : Instant)
  | close
  | abort

namespace HeartbeatGuard

/-- `HeartbeatGuard::start`, for a connection that was opened before. -/
def start (timeout : Duration) (opened started : Instant) : HeartbeatGuard :=
  ⟨started, .newAt opened, .asleep (started + heartbeatInterval timeout)⟩

/-- What the task does with the reply: it sleeps again, or ends with the connection closed. -/
def replied (guard : HeartbeatGuard) (timeout : Duration) (reply : Reply) (read : Instant) : HeartbeatGuard :=
  let asleep := .asleep (guard.now + heartbeatInterval timeout)
  match answered reply with
  | .ok (.successResponse _) => { guard with lease := guard.lease.recordSuccessAt read, task := asleep }
  | .ok _ => { guard with lease := guard.lease.close, task := .ended }
  | .error _ =>
    let checked := guard.lease.closeIfExpiredAt read timeout
    { guard with lease := checked.1, task := if checked.2 then .ended else asleep }

def step (timeout : Duration) (guard : HeartbeatGuard) : HeartbeatEvent → Option HeartbeatGuard
  | .pass nanos => some { guard with now := guard.now + nanos }
  | .wake =>
    match guard.task with
    | .asleep wake =>
      if wake ≤ guard.now then some { guard with task := if guard.lease.closed then .ended else .woken wake }
      else none
    | _ => none
  | .send =>
    match guard.task with
    | .woken _ => some { guard with task := .waiting guard.now }
    | _ => none
  | .reply reply read =>
    match guard.task with
    | .waiting sent =>
      if sent ≤ read ∧ read ≤ guard.now then some (guard.replied timeout reply read) else none
    | _ => none
  | .success read =>
    if read ≤ guard.now then some { guard with lease := guard.lease.recordSuccessAt read } else none
  | .close => some { guard with lease := guard.lease.close }
  | .abort => some { guard with task := .ended }

end HeartbeatGuard

section
variable {timeout : Duration} {guard next first last : HeartbeatGuard} {event : HeartbeatEvent}
  {events : List HeartbeatEvent} {reply : Reply} {read : Instant}

/-- The lease is left as by a heartbeat of a session. -/
theorem replied_lease : (guard.replied timeout reply read).lease =
    Session.leaseHeartbeat guard.lease reply read timeout := by
  unfold HeartbeatGuard.replied Session.leaseHeartbeat
  cases answered reply with
  | error failure => rfl
  | ok response => cases response <;> rfl

/-! ### Steps -/

/-- What an event does, where it is possible. -/
inductive Happens (timeout : Duration) (guard : HeartbeatGuard) : HeartbeatEvent → HeartbeatGuard → Prop where
  | pass (nanos : Nat) : Happens timeout guard (.pass nanos) { guard with now := guard.now + nanos }
  | wakeClosed {wake : Instant} (asleep : guard.task = .asleep wake) (due : wake ≤ guard.now)
      (closed : guard.lease.closed = true) : Happens timeout guard .wake { guard with task := .ended }
  | wakeOpen {wake : Instant} (asleep : guard.task = .asleep wake) (due : wake ≤ guard.now)
      (isOpen : guard.lease.closed = false) : Happens timeout guard .wake { guard with task := .woken wake }
  | send {wake : Instant} (woken : guard.task = .woken wake) :
      Happens timeout guard .send { guard with task := .waiting guard.now }
  | reply {sent read : Instant} {reply : Reply} (waiting : guard.task = .waiting sent) (after : sent ≤ read)
      (before : read ≤ guard.now) : Happens timeout guard (.reply reply read) (guard.replied timeout reply read)
  | success {read : Instant} (before : read ≤ guard.now) :
      Happens timeout guard (.success read) { guard with lease := guard.lease.recordSuccessAt read }
  | close : Happens timeout guard .close { guard with lease := guard.lease.close }
  | abort : Happens timeout guard .abort { guard with task := .ended }

theorem happens_of_step (h : guard.step timeout event = some next) : Happens timeout guard event next := by
  unfold HeartbeatGuard.step at h
  split at h
  · cases h
    exact .pass _
  · split at h
    · rename_i hasleep
      split at h
      · rename_i hdue
        cases hclosed : guard.lease.closed with
        | true =>
            rw [hclosed] at h
            cases h
            exact .wakeClosed hasleep hdue hclosed
        | false =>
            rw [hclosed] at h
            cases h
            exact .wakeOpen hasleep hdue hclosed
      · cases h
    · cases h
  · split at h
    · rename_i hwoken
      cases h
      exact .send hwoken
    · cases h
  · split at h
    · rename_i hwaiting
      split at h
      · rename_i hread
        cases h
        exact .reply hwaiting hread.1 hread.2
      · cases h
    · cases h
  · split at h
    · rename_i hread
      cases h
      exact .success hread
    · cases h
  · cases h
    exact .close
  · cases h
    exact .abort

/-- The server answers that the session is alive. -/
def Renews (reply : Reply) : Prop := ∃ header, answered reply = .ok (.successResponse header)

/-- The request fails, or the server answers that it cannot be served. -/
def Fails (reply : Reply) : Prop := ∃ failure, answered reply = .error failure

theorem replied_renews (h : Renews reply) : guard.replied timeout reply read =
    ⟨guard.now, guard.lease.recordSuccessAt read, .asleep (guard.now + heartbeatInterval timeout)⟩ := by
  obtain ⟨header, hanswered⟩ := h
  rw [HeartbeatGuard.replied, hanswered]

/-- A reply that fails ends the task where the lease is closed or has expired, and else changes nothing but
the time of the next request. -/
theorem replied_fails (h : Fails reply) :
    (guard.replied timeout reply read =
        ⟨guard.now, guard.lease.close, .ended⟩ ∧
      (guard.lease.closed = true ∨
        timeout.asNanos ≤ saturatingDurationSince read guard.lease.lastSuccessfulActivity)) ∨
    guard.replied timeout reply read =
        ⟨guard.now, guard.lease, .asleep (guard.now + heartbeatInterval timeout)⟩ ∧
      guard.lease.closed = false ∧
      saturatingDurationSince read guard.lease.lastSuccessfulActivity < timeout.asNanos := by
  obtain ⟨failure, hanswered⟩ := h
  rw [HeartbeatGuard.replied, hanswered]
  simp only [ConnectionLease.closeIfExpiredAt]
  split
  · rename_i hclosed
    exact .inl ⟨rfl, hclosed⟩
  · rename_i hopen
    obtain ⟨hlease, hage⟩ := not_or.mp hopen
    have hfalse := Bool.eq_false_iff.mpr hlease
    refine .inr ⟨?_, hfalse, not_le.mp hage⟩
    rw [hfalse]
    rfl

/-- Any other reply closes the connection. -/
theorem replied_other (hrenews : ¬ Renews reply) (hfails : ¬ Fails reply) :
    guard.replied timeout reply read = ⟨guard.now, guard.lease.close, .ended⟩ := by
  unfold HeartbeatGuard.replied
  cases hanswered : answered reply with
  | error failure => exact absurd ⟨failure, hanswered⟩ hfails
  | ok response =>
      cases response with
      | successResponse header => exact absurd ⟨header, hanswered⟩ hrenews
      | _ => rfl

/-- A closed connection stays closed. -/
theorem happens_closed (h : Happens timeout guard event next) (hclosed : guard.lease.closed = true) :
    next.lease.closed = true := by
  cases h with
  | pass | wakeClosed | wakeOpen | send | abort => exact hclosed
  | reply => exact (congrArg ConnectionLease.closed replied_lease).trans (leaseHeartbeat_closed _ _ _ hclosed)
  | success => exact recordSuccessAt_closed.trans hclosed
  | close => rfl

/-- The heartbeats that an event sends. -/
def HeartbeatEvent.heartbeats : HeartbeatEvent → Nat
  | .send => 1
  | _ => 0

/-- The heartbeats that the task still sends once the connection is closed. -/
def HeartbeatTask.unsent : HeartbeatTask → Nat
  | .woken _ => 1
  | _ => 0

theorem unsent_replied : (guard.replied timeout reply read).task.unsent = 0 := by
  by_cases hrenews : Renews reply
  · rw [replied_renews hrenews]
    rfl
  · by_cases hfails : Fails reply
    · rcases @replied_fails timeout guard reply read hfails with ⟨heq, -⟩ | ⟨heq, -⟩ <;> rw [heq] <;> rfl
    · rw [replied_other hrenews hfails]
      rfl

theorem happens_unsent (h : Happens timeout guard event next) (hclosed : guard.lease.closed = true) :
    event.heartbeats + next.task.unsent ≤ guard.task.unsent := by
  cases h with
  | wakeOpen _ _ hopen =>
      rw [hclosed] at hopen
      cases hopen
  | send hwoken =>
      rw [hwoken]
      exact le_rfl
  | reply =>
      rw [unsent_replied]
      exact Nat.zero_le _
  | pass | success | close => exact le_of_eq (Nat.zero_add _)
  | wakeClosed | abort => exact Nat.zero_le _

/-- Once the connection is closed it stays closed, and no heartbeat is sent any more, but for one where the
task has looked at the connection before. -/
theorem heartbeats_closed (hclosed : first.lease.closed = true)
    (h : Runs (HeartbeatGuard.step timeout) first events last) :
    last.lease.closed = true ∧ (events.map HeartbeatEvent.heartbeats).sum ≤ first.task.unsent := by
  obtain ⟨hlast, hspent⟩ := h.spends (fun guard => guard.lease.closed = true) HeartbeatEvent.heartbeats
    (fun guard => guard.task.unsent) hclosed fun guard event next hguard hstep =>
      ⟨happens_closed (happens_of_step hstep) hguard, happens_unsent (happens_of_step hstep) hguard⟩
  exact ⟨hlast, le_trans (Nat.le_add_right _ _) hspent⟩

/-- The connection is closed after the task has looked at it, and before it sends. -/
def closedLate : HeartbeatGuard := ⟨seconds 1, ⟨0, true⟩, .woken (seconds 1)⟩

theorem heartbeats_closed_late :
    (⟨seconds 1, ⟨0, true⟩, .waiting (seconds 1)⟩ : HeartbeatGuard).lease.closed = true ∧
    (([.send] : List HeartbeatEvent).map HeartbeatEvent.heartbeats).sum ≤ closedLate.task.unsent :=
  heartbeats_closed rfl (rfl : Runs (HeartbeatGuard.step (.fromSecs 3)) closedLate [.send] _)

/-- Nothing has been recorded that lies ahead of the clock. -/
theorem happens_recorded (h : Happens timeout guard event next)
    (hlast : guard.lease.lastSuccessfulActivity ≤ guard.now) :
    next.lease.lastSuccessfulActivity ≤ next.now := by
  have hrecord {read : Instant} (hread : read ≤ guard.now) :
      (guard.lease.recordSuccessAt read).lastSuccessfulActivity ≤ guard.now := by
    unfold ConnectionLease.recordSuccessAt
    split
    · exact hlast
    · exact hread
  cases h with
  | pass nanos => exact hlast.trans (Int.le_add_of_nonneg_right (Int.natCast_nonneg nanos))
  | wakeClosed | wakeOpen | send | close | abort => exact hlast
  | success hread => exact hrecord hread
  | @reply sent read reply hwaiting hsent hread =>
      by_cases hrenews : Renews reply
      · rw [replied_renews hrenews]
        exact hrecord hread
      · by_cases hfails : Fails reply
        · rcases @replied_fails timeout guard reply read hfails with ⟨heq, -⟩ | ⟨heq, -⟩ <;> rw [heq] <;>
            exact hlast
        · rw [replied_other hrenews hfails]
          exact hlast

/-- Requests fail, and nothing else ends the task or renews the lease. -/
def HeartbeatEvent.Failing : HeartbeatEvent → Prop
  | .pass _ | .wake | .send => True
  | .reply outcome _ => Fails outcome
  | .success _ | .close | .abort => False

/-- The replies that an event brings. -/
def HeartbeatEvent.replies : HeartbeatEvent → Nat
  | .reply .. => 1
  | _ => 0

/-- The instant before which no further reply is read. -/
def HeartbeatGuard.readable (guard : HeartbeatGuard) : Instant :=
  match guard.task with
  | .asleep wake => wake
  | .waiting sent => sent
  | .woken _ | .ended => guard.now

/-- Where a run of failing replies has come to, the lease renewed last at an instant. -/
structure Silent (timeout : Duration) (base : Instant) (replies : Nat) (guard : HeartbeatGuard) : Prop where
  base_le : base ≤ guard.now
  kept : guard.lease.lastSuccessfulActivity = base
  spaced : guard.task ≠ .ended → 1 ≤ replies →
    base + (replies * heartbeatInterval timeout : Nat) ≤ guard.readable
  young : guard.lease.closed = false → 2 ≤ replies →
    (replies - 1) * heartbeatInterval timeout < timeout.asNanos

theorem silent_reply {base sent : Instant} {replies : Nat} (hwaiting : guard.task = .waiting sent)
    (hsent : sent ≤ read) (hread : read ≤ guard.now) (hfails : Fails reply)
    (h : Silent timeout base replies guard) :
    Silent timeout base (replies + 1) (guard.replied timeout reply read) := by
  have hspaced (hreplies : 1 ≤ replies) : base + (replies * heartbeatInterval timeout : Nat) ≤ sent := by
    have hreadable := h.spaced (by rw [hwaiting]; exact HeartbeatTask.noConfusion) hreplies
    rwa [HeartbeatGuard.readable, hwaiting] at hreadable
  rcases @replied_fails timeout guard reply read hfails with ⟨heq, -⟩ | ⟨heq, hopen, hage⟩
  · rw [heq]
    exact ⟨h.base_le, h.kept, fun htask => absurd rfl htask, fun hopen => by cases hopen⟩
  · rw [heq]
    refine ⟨h.base_le, h.kept, fun _ _ => ?_, fun _ hreplies => ?_⟩
    · show base + ((replies + 1) * heartbeatInterval timeout : Nat) ≤ guard.now + heartbeatInterval timeout
      rw [Nat.succ_mul, Int.natCast_add, ← Int.add_assoc]
      refine Int.add_le_add_right ?_ _
      rcases Nat.eq_zero_or_pos replies with rfl | hpos
      · simpa using h.base_le
      · exact (hspaced hpos).trans (hsent.trans hread)
    · have hlate := (hspaced (Nat.le_of_lt_succ hreplies)).trans hsent
      rw [h.kept, saturatingDurationSince] at hage
      rw [Nat.add_sub_cancel]
      exact lt_of_le_of_lt (Int.ofNat_le.mp ((Int.le_sub_left_of_add_le hlate).trans (Int.self_le_toNat _))) hage

theorem silent_step {base : Instant} {replies : Nat} (h : Happens timeout guard event next)
    (hfailing : event.Failing) (hsilent : Silent timeout base replies guard) :
    Silent timeout base (replies + event.replies) next := by
  have hmove {next : HeartbeatGuard} (hnow : guard.now ≤ next.now) (hlease : next.lease = guard.lease)
      (htask : next.task ≠ .ended → guard.task ≠ .ended ∧ guard.readable ≤ next.readable) :
      Silent timeout base replies next := by
    refine ⟨hsilent.base_le.trans hnow, hlease.symm ▸ hsilent.kept, fun hended hreplies => ?_,
      hlease.symm ▸ hsilent.young⟩
    obtain ⟨hended, hreadable⟩ := htask hended
    exact (hsilent.spaced hended hreplies).trans hreadable
  cases h with
  | pass nanos =>
      have hnow : guard.now ≤ guard.now + nanos := Int.le_add_of_nonneg_right (Int.natCast_nonneg nanos)
      refine hmove hnow rfl fun hended => ⟨hended, ?_⟩
      unfold HeartbeatGuard.readable
      cases guard.task with
      | asleep wake => exact le_rfl
      | waiting sent => exact le_rfl
      | woken wake => exact hnow
      | ended => exact hnow
  | wakeClosed => exact hmove le_rfl rfl fun hended => absurd rfl hended
  | wakeOpen hasleep hdue hopen =>
      refine hmove le_rfl rfl fun _ => ?_
      rw [HeartbeatGuard.readable, hasleep]
      exact ⟨HeartbeatTask.noConfusion, hdue⟩
  | send hwoken =>
      refine hmove le_rfl rfl fun _ => ?_
      rw [HeartbeatGuard.readable, hwoken]
      exact ⟨HeartbeatTask.noConfusion, le_rfl⟩
  | @reply sent read reply hwaiting hsent hread => exact silent_reply hwaiting hsent hread hfailing hsilent
  | success | close | abort => cases hfailing

/-- Heartbeats that fail in a row, after any history of the guard: from the second one on they are an interval
apart from each other and from the last success, so that only as many are survived as intervals fit into the
timeout, which is four for a timeout of a second or longer. -/
theorem failing_heartbeats {opened started : Instant} {history : List HeartbeatEvent}
    (hopened : opened ≤ started)
    (hhistory : Runs (HeartbeatGuard.step timeout) (.start timeout opened started) history first)
    (h : Runs (HeartbeatGuard.step timeout) first events last) (hfailing : ∀ event ∈ events, event.Failing)
    (hopen : last.lease.closed = false) (hreplies : 2 ≤ (events.map HeartbeatEvent.replies).sum) :
    ((events.map HeartbeatEvent.replies).sum - 1) * heartbeatInterval timeout < timeout.asNanos ∧
      (1000000000 ≤ timeout.asNanos → (events.map HeartbeatEvent.replies).sum ≤ 4) := by
  have hrecorded : first.lease.lastSuccessfulActivity ≤ first.now :=
    hhistory.keeps (fun _ guard => guard.lease.lastSuccessfulActivity ≤ guard.now) hopened
      fun _ _ _ _ _ hlast hstep => happens_recorded (happens_of_step hstep) hlast
  have hsilent := h.keeps (fun before guard => (∀ event ∈ before, event.Failing) →
      Silent timeout first.lease.lastSuccessfulActivity (before.map HeartbeatEvent.replies).sum guard)
    (fun _ => ⟨hrecorded, rfl, fun _ hnone => (by cases hnone), fun _ hnone => (by cases hnone)⟩)
    fun before middle event next _ ih hstep hall => by
      obtain ⟨hbefore, hevent⟩ := List.forall_mem_append.mp hall
      have hnext := silent_step (happens_of_step hstep) (hevent _ (List.mem_singleton_self _)) (ih hbefore)
      rwa [List.map_append, List.sum_append, List.map_singleton, List.sum_singleton]
  have hyoung := (hsilent hfailing).young hopen hreplies
  refine ⟨hyoung, fun hsecond => ?_⟩
  by_contra hmany
  have hthird : timeout.asNanos / 3 ≤ heartbeatInterval timeout := le_max_left _ _
  have hfour := Nat.mul_le_mul (Nat.le_sub_one_of_lt (not_le.mp hmany)) hthird
  omega

end

/-! A server that does not answer for two seconds. -/

def lostReply : Reply := .error (.protocol "Quack HTTP request failed with 503 Service Unavailable")

def missedTwice : List HeartbeatEvent :=
  [.pass 1000000000, .wake, .send, .reply lostReply (seconds 1),
    .pass 1000000000, .wake, .send, .reply lostReply (seconds 2)]

theorem missedTwice_failing : ∀ event ∈ missedTwice, event.Failing := by
  intro event hmem
  simp only [missedTwice, List.mem_cons, List.not_mem_nil, or_false] at hmem
  rcases hmem with rfl | rfl | rfl | rfl | rfl | rfl | rfl | rfl
  · trivial
  · trivial
  · trivial
  · exact ⟨_, rfl⟩
  · trivial
  · trivial
  · trivial
  · exact ⟨_, rfl⟩

theorem failing_heartbeats_twice :
    ((missedTwice.map HeartbeatEvent.replies).sum - 1) * heartbeatInterval (.fromSecs 3) <
      (Duration.fromSecs 3).asNanos ∧
    (1000000000 ≤ (Duration.fromSecs 3).asNanos → (missedTwice.map HeartbeatEvent.replies).sum ≤ 4) :=
  failing_heartbeats (le_refl 0) (runs_nil.mpr rfl)
    (rfl : Runs (HeartbeatGuard.step (.fromSecs 3)) (.start (.fromSecs 3) 0 0) missedTwice
      ⟨seconds 2, .newAt 0, .asleep (seconds 3)⟩) missedTwice_failing rfl (by decide)

/-- How late the task may be woken, and how long it may take until what a request comes to has been noted. -/
structure Pace where
  late : Nat
  limit : Nat

/-- The longest time from one reply to the next. -/
def Pace.period (pace : Pace) (timeout : Duration) : Nat := heartbeatInterval timeout + pace.late + pace.limit

namespace HeartbeatGuard

/-- The instant by which the task should have moved on. -/
def latest (pace : Pace) (guard : HeartbeatGuard) : Instant :=
  match guard.task with
  | .asleep wake | .woken wake => wake + pace.late
  | .waiting sent => sent + pace.limit
  | .ended => guard.now

/-- The instant by which the next reply should have been noted. -/
def due (pace : Pace) (guard : HeartbeatGuard) : Instant :=
  match guard.task with
  | .asleep wake | .woken wake => wake + pace.late + pace.limit
  | .waiting sent => sent + pace.limit
  | .ended => guard.now

end HeartbeatGuard

/-- The instant at which the clock has been read for the event. -/
def HeartbeatEvent.readAt (guard : HeartbeatGuard) : HeartbeatEvent → Instant
  | .success read => read
  | _ => guard.now

/-- A step that leaves nothing overdue, neither of the task nor of the other requests. -/
def HeartbeatGuard.promptStep (pace : Pace) (timeout : Duration) (guard : HeartbeatGuard)
    (event : HeartbeatEvent) : Option HeartbeatGuard :=
  (guard.step timeout event).filter fun next =>
    decide (guard.now ≤ event.readAt guard + pace.limit ∧ next.now ≤ next.latest pace)

/-- The instant that an event records in an open lease. -/
def HeartbeatEvent.recorded : HeartbeatEvent → Option Instant
  | .reply outcome read =>
    match answered outcome with
    | .ok (.successResponse _) => some read
    | _ => none
  | .success read => some read
  | _ => none

/-- The opening of the connection, and the successes after it. -/
def successes (opened : Instant) (events : List HeartbeatEvent) : List Instant :=
  opened :: events.filterMap HeartbeatEvent.recorded

section
variable {pace : Pace} {timeout : Duration} {guard next last : HeartbeatGuard} {event : HeartbeatEvent}
  {before events : List HeartbeatEvent} {opened started sent read : Instant} {reply : Reply}

theorem prompt_of_step (h : guard.promptStep pace timeout event = some next) :
    guard.step timeout event = some next ∧ guard.now ≤ event.readAt guard + pace.limit ∧
      next.now ≤ next.latest pace := by
  obtain ⟨hstep, hprompt⟩ := Option.filter_eq_some_iff.mp h
  exact ⟨hstep, of_decide_eq_true hprompt⟩

/-- An event that brings no reply does not put off what is due. -/
theorem due_step (h : Happens timeout guard event next) (hprompt : guard.now ≤ guard.latest pace)
    (hnone : event.replies = 0) (hended : next.task ≠ .ended) :
    guard.task ≠ .ended ∧ next.due pace ≤ guard.due pace := by
  cases h with
  | pass nanos =>
      refine ⟨hended, ?_⟩
      unfold HeartbeatGuard.due
      cases htask : guard.task with
      | ended => exact absurd htask hended
      | _ => exact le_rfl
  | wakeClosed => exact absurd rfl hended
  | wakeOpen hasleep hdue hopen =>
      rw [HeartbeatGuard.due, HeartbeatGuard.due, hasleep]
      exact ⟨HeartbeatTask.noConfusion, le_rfl⟩
  | send hwoken =>
      rw [HeartbeatGuard.latest, hwoken] at hprompt
      rw [HeartbeatGuard.due, HeartbeatGuard.due, hwoken]
      exact ⟨HeartbeatTask.noConfusion, Int.add_le_add_right hprompt _⟩
  | reply => cases hnone
  | success hread => exact ⟨hended, le_rfl⟩
  | close => exact ⟨hended, le_rfl⟩
  | abort => exact absurd rfl hended

/-- The state of a guard whose connection is open: the last success is one of those recorded, and the reply that
is due comes soon after one of them. -/
structure Watched (pace : Pace) (timeout : Duration) (successes : List Instant) (guard : HeartbeatGuard) :
    Prop where
  prompt : guard.now ≤ guard.latest pace
  last : guard.lease.closed = false → guard.lease.lastSuccessfulActivity ∈ successes
  ended : guard.task = .ended → guard.lease.closed = true
  recent : guard.lease.closed = false → guard.task ≠ .ended → ∃ success ∈ successes,
    guard.due pace ≤ success + timeout.asNanos + pace.limit + pace.period timeout

theorem recordSuccessAt_last {lease : ConnectionLease} (hopen : lease.closed = false) :
    (lease.recordSuccessAt read).lastSuccessfulActivity = read := by
  rw [ConnectionLease.recordSuccessAt, hopen]
  rfl

theorem add_period (now : Int) (pace : Pace) (timeout : Duration) :
    now + heartbeatInterval timeout + pace.late + pace.limit = now + pace.period timeout := by
  rw [Pace.period]
  omega

/-- What is noted in time after it has been read is noted soon after what has been read. -/
theorem add_period_le {now sent read : Int} (hnoted : now ≤ sent + pace.limit) (hsent : sent ≤ read)
    (period : Nat) : now + period ≤ read + pace.limit + period := by omega

theorem Watched.mono {instants more : List Instant} (h : Watched pace timeout instants guard) :
    Watched pace timeout (instants ++ more) guard :=
  ⟨h.prompt, fun hopen => List.mem_append_left _ (h.last hopen), h.ended, fun hopen hended => by
    obtain ⟨success, hmem, hdue⟩ := h.recent hopen hended
    exact ⟨success, List.mem_append_left _ hmem, hdue⟩⟩

theorem start_prompt : (HeartbeatGuard.start timeout opened started).now ≤
    (HeartbeatGuard.start timeout opened started).latest pace :=
  (Int.le_add_of_nonneg_right (Int.natCast_nonneg _)).trans (Int.le_add_of_nonneg_right (Int.natCast_nonneg _))

/-- Nobody disconnects, and the server answers heartbeats with success or not at all. -/
def HeartbeatEvent.Harmless : HeartbeatEvent → Prop
  | .reply outcome _ => Renews outcome ∨ Fails outcome
  | .close => False
  | _ => True

/-- The heartbeats that have failed since the last success. -/
def failuresAfter (failures : Nat) : HeartbeatEvent → Nat
  | .reply outcome _ =>
    match answered outcome with
    | .ok _ => 0
    | .error _ => failures + 1
  | .success _ => 0
  | _ => failures

def failuresInARow (events : List HeartbeatEvent) : Nat := events.foldl failuresAfter 0

theorem failuresInARow_snoc :
    failuresInARow (before ++ [event]) = failuresAfter (failuresInARow before) event := by
  rw [failuresInARow, List.foldl_append]
  rfl

/-- The state of a guard whose connection survives: the reply that is due comes within a period, and within as
many periods of the last success as heartbeats have failed since then, and one more. -/
structure Surviving (pace : Pace) (timeout : Duration) (failures : Nat) (guard : HeartbeatGuard) : Prop where
  prompt : guard.now ≤ guard.latest pace
  isOpen : guard.lease.closed = false
  near : guard.task ≠ .ended → guard.due pace ≤ guard.now + pace.period timeout
  recent : guard.task ≠ .ended → guard.due pace ≤
    guard.lease.lastSuccessfulActivity + pace.limit + ((failures + 1) * pace.period timeout : Nat)

theorem age_le {now read last : Int} {bound : Nat} (hread : read ≤ now) (hnow : now ≤ last + bound) :
    saturatingDurationSince read last ≤ bound := by
  rw [saturatingDurationSince]
  omega

theorem surviving_reply {failures : Nat} (hwaiting : guard.task = .waiting sent) (hsent : sent ≤ read)
    (hread : read ≤ guard.now)
    (hprompt : (guard.replied timeout reply read).now ≤ (guard.replied timeout reply read).latest pace)
    (hharmless : Renews reply ∨ Fails reply) (h : Surviving pace timeout failures guard)
    (henough : pace.limit + failuresAfter failures (.reply reply read) * pace.period timeout < timeout.asNanos) :
    Surviving pace timeout (failuresAfter failures (.reply reply read)) (guard.replied timeout reply read) := by
  have hnoted : guard.now ≤ sent + pace.limit := by
    have hlatest := h.prompt
    rwa [HeartbeatGuard.latest, hwaiting] at hlatest
  rcases hharmless with hrenews | hfails
  · obtain ⟨header, hanswered⟩ := hrenews
    have hfailures : failuresAfter failures (.reply reply read) = 0 := by rw [failuresAfter, hanswered]
    rw [hfailures]
    rw [replied_renews ⟨header, hanswered⟩] at hprompt ⊢
    refine ⟨hprompt, recordSuccessAt_closed.trans h.isOpen, fun _ => le_of_eq (add_period _ _ _), fun _ => ?_⟩
    rw [recordSuccessAt_last h.isOpen, Nat.zero_add, Nat.one_mul]
    exact (le_of_eq (add_period _ _ _)).trans (add_period_le hnoted hsent _)
  · obtain ⟨failure, hanswered⟩ := hfails
    have hfailures : failuresAfter failures (.reply reply read) = failures + 1 := by rw [failuresAfter, hanswered]
    rw [hfailures] at henough ⊢
    have hdue := h.recent (by rw [hwaiting]; exact HeartbeatTask.noConfusion)
    rw [HeartbeatGuard.due, hwaiting] at hdue
    have hlast := hnoted.trans hdue
    rcases @replied_fails timeout guard reply read ⟨failure, hanswered⟩ with
      ⟨heq, hexpired⟩ | ⟨heq, hopen, -⟩
    · exfalso
      have hold := hexpired.resolve_left (by rw [h.isOpen]; exact Bool.false_ne_true)
      have hage : saturatingDurationSince read guard.lease.lastSuccessfulActivity ≤
          pace.limit + (failures + 1) * pace.period timeout := by
        refine age_le hread (hlast.trans (le_of_eq ?_))
        rw [Int.natCast_add, ← Int.add_assoc]
      omega
    · rw [heq] at hprompt ⊢
      refine ⟨hprompt, hopen, fun _ => le_of_eq (add_period _ _ _),
        fun _ => (le_of_eq (add_period _ _ _)).trans ?_⟩
      rw [Nat.succ_mul, Int.natCast_add, ← Int.add_assoc]
      exact Int.add_le_add_right hlast _

theorem surviving_step {failures : Nat} (hstep : guard.promptStep pace timeout event = some next)
    (hharmless : event.Harmless) (h : Surviving pace timeout failures guard)
    (henough : pace.limit + failuresAfter failures event * pace.period timeout < timeout.asNanos) :
    Surviving pace timeout (failuresAfter failures event) next := by
  obtain ⟨hnext, hnoted, hprompt⟩ := prompt_of_step hstep
  have hhappens := happens_of_step hnext
  have hnear (hnone : event.replies = 0) (hnow : guard.now ≤ next.now) (hended : next.task ≠ .ended) :
      next.due pace ≤ next.now + pace.period timeout := by
    obtain ⟨hbefore, hearlier⟩ := due_step hhappens h.prompt hnone hended
    exact hearlier.trans ((h.near hbefore).trans (Int.add_le_add_right hnow _))
  have hrecent (hnone : event.replies = 0) (hended : next.task ≠ .ended) : next.due pace ≤
      guard.lease.lastSuccessfulActivity + pace.limit + ((failures + 1) * pace.period timeout : Nat) := by
    obtain ⟨hbefore, hearlier⟩ := due_step hhappens h.prompt hnone hended
    exact hearlier.trans (h.recent hbefore)
  cases hhappens with
  | pass nanos =>
      exact ⟨hprompt, h.isOpen, hnear rfl (Int.le_add_of_nonneg_right (Int.natCast_nonneg _)), hrecent rfl⟩
  | wakeClosed | wakeOpen | send | abort => exact ⟨hprompt, h.isOpen, hnear rfl le_rfl, hrecent rfl⟩
  | reply hwaiting hsent hread => exact surviving_reply hwaiting hsent hread hprompt hharmless h henough
  | @success read hread =>
      refine ⟨hprompt, recordSuccessAt_closed.trans h.isOpen, hnear rfl le_rfl, fun hended => ?_⟩
      rw [recordSuccessAt_last h.isOpen, failuresAfter, Nat.zero_add, Nat.one_mul]
      exact (hnear rfl le_rfl hended).trans (Int.add_le_add_right hnoted _)
  | close => exact hharmless.elim

/-- A connection of which nobody disconnects stays open as long as the heartbeats that fail in a row, with
everything in time, leave the timeout enough room. -/
theorem survives_failures {tolerated : Nat} (hstarted : started ≤ opened + pace.limit)
    (h : Runs (HeartbeatGuard.promptStep pace timeout) (.start timeout opened started) events last)
    (hharmless : ∀ event ∈ events, event.Harmless)
    (htolerated : ∀ before, before <+: events → failuresInARow before ≤ tolerated)
    (henough : pace.limit + tolerated * pace.period timeout < timeout.asNanos) : last.lease.closed = false := by
  have hfirst : Surviving pace timeout (failuresInARow []) (.start timeout opened started) := by
    refine ⟨start_prompt, rfl, fun _ => le_of_eq (add_period _ _ _),
      fun _ => (le_of_eq (add_period _ _ _)).trans ?_⟩
    rw [failuresInARow, List.foldl_nil, Nat.zero_add, Nat.one_mul]
    exact Int.add_le_add_right hstarted _
  have hsurviving := h.keeps (fun history guard => history <+: events →
    Surviving pace timeout (failuresInARow history) guard) (fun _ => hfirst)
    fun history middle event next _ ih hstep hall => by
    rw [failuresInARow_snoc]
    have hhistory := ih ((List.prefix_append _ _).trans hall)
    have hfew := htolerated _ hall
    rw [failuresInARow_snoc] at hfew
    refine surviving_step hstep (hharmless event (hall.subset (by simp))) hhistory (lt_of_le_of_lt ?_ henough)
    exact Nat.add_le_add_left (Nat.mul_le_mul_right _ hfew) _
  exact (hsurviving (List.prefix_refl _)).isOpen

end

/-- A tenth of a second for each. -/
def tenths : Pace := ⟨100000000, 100000000⟩

theorem missedTwice_prompt : Runs (HeartbeatGuard.promptStep tenths (.fromSecs 3)) (.start (.fromSecs 3) 0 0)
    missedTwice ⟨seconds 2, .newAt 0, .asleep (seconds 3)⟩ := rfl

theorem survives_failures_missedTwice :
    (⟨seconds 2, .newAt 0, .asleep (seconds 3)⟩ : HeartbeatGuard).lease.closed = false := by
  have htolerated : ∀ before ∈ missedTwice.inits, failuresInARow before ≤ 2 := by decide
  refine survives_failures (by decide) missedTwice_prompt (fun event hmem => ?_)
    (fun before hprefix => htolerated before ((List.mem_inits _ _).mpr hprefix)) (by decide)
  have hfailing := missedTwice_failing event hmem
  cases event with
  | reply outcome read => exact .inr hfailing
  | close => exact hfailing
  | _ => trivial

end QuackProtocol
