import QuackProtocol.Negotiation

/-! The lease of a connection (`client.rs`): it is closed where no request has succeeded for as long as the
heartbeat timeout. A task reads the clock before it has the lock on the lease, so that instants may be
recorded in another order than that of the clock. -/

namespace QuackProtocol

/-- A reading of the clock, in nanoseconds. -/
abbrev Instant := Int

/-- `now.saturating_duration_since(earlier)`, in nanoseconds. -/
def saturatingDurationSince (now earlier : Instant) : Nat := (now - earlier).toNat

def Duration.asNanos (duration : Duration) : Nat := duration.secs.toNat * 1000000000 + duration.nanos

structure ConnectionLease where
  lastSuccessfulActivity : Instant
  closed : Bool

namespace ConnectionLease

/-- `ConnectionState::new_at`. -/
def newAt (now : Instant) : ConnectionLease := ⟨now, false⟩

def recordSuccessAt (lease : ConnectionLease) (now : Instant) : ConnectionLease :=
  if lease.closed then lease else { lease with lastSuccessfulActivity := now }

/-- The lease and whether it is closed. -/
def closeIfExpiredAt (lease : ConnectionLease) (now : Instant) (timeout : Duration) : ConnectionLease × Bool :=
  let lease :=
    if lease.closed ∨ saturatingDurationSince now lease.lastSuccessfulActivity ≥ timeout.asNanos then
      { lease with closed := true }
    else
      lease
  (lease, lease.closed)

def close (lease : ConnectionLease) : ConnectionLease := { lease with closed := true }

end ConnectionLease

/-! ### Runs -/

inductive LeaseCall where
  | recordSuccessAt (now : Instant)
  | closeIfExpiredAt (now : Instant) (timeout : Duration)

def LeaseCall.apply (lease : ConnectionLease) : LeaseCall → ConnectionLease
  | .recordSuccessAt now => lease.recordSuccessAt now
  | .closeIfExpiredAt now timeout => (lease.closeIfExpiredAt now timeout).1

/-- The lease of a connection that was opened at an instant, after some calls. -/
def leaseAfter (opened : Instant) (calls : List LeaseCall) : ConnectionLease :=
  calls.foldl LeaseCall.apply (.newAt opened)

def LeaseCall.success : LeaseCall → Option Instant
  | .recordSuccessAt now => some now
  | .closeIfExpiredAt .. => none

/-- The instants that have been recorded, the opening first. -/
def recorded (opened : Instant) (calls : List LeaseCall) : List Instant :=
  opened :: calls.filterMap LeaseCall.success

/-- A check that closes the connection after these calls comes late enough after every success. -/
def ExpiresLate (opened : Instant) (calls : List LeaseCall) : Prop :=
  ∀ now timeout, (leaseAfter opened calls).closed = false →
    ((leaseAfter opened calls).closeIfExpiredAt now timeout).2 = true →
    ∀ success ∈ recorded opened calls, saturatingDurationSince now success ≥ timeout.asNanos

/-- As long as the connection is open, no instant is recorded after a later one. -/
def InClockOrder (opened : Instant) (calls : List LeaseCall) : Prop :=
  ∀ before now, before ++ [.recordSuccessAt now] <+: calls → (leaseAfter opened before).closed = false →
    ∀ success ∈ recorded opened before, success ≤ now

section
variable {opened now : Instant} {timeout : Duration} {calls before : List LeaseCall} {call : LeaseCall}
  {lease : ConnectionLease}

theorem leaseAfter_snoc : leaseAfter opened (calls ++ [call]) = call.apply (leaseAfter opened calls) := by
  rw [leaseAfter, List.foldl_append]
  rfl

theorem recorded_snoc : recorded opened (calls ++ [call]) = recorded opened calls ++ call.success.toList := by
  rw [recorded, List.filterMap_append]
  cases call <;> rfl

theorem recordSuccessAt_closed : (lease.recordSuccessAt now).closed = lease.closed := by
  unfold ConnectionLease.recordSuccessAt
  split <;> rfl

theorem closeIfExpiredAt_closed : (lease.closeIfExpiredAt now timeout).1.closed = true ↔ lease.closed = true ∨
    saturatingDurationSince now lease.lastSuccessfulActivity ≥ timeout.asNanos := by
  unfold ConnectionLease.closeIfExpiredAt
  simp only
  split
  · rename_i h
    exact iff_of_true rfl h
  · rename_i h
    exact iff_of_false (fun hclosed => h (.inl hclosed)) h

theorem closeIfExpiredAt_open (h : (lease.closeIfExpiredAt now timeout).1.closed = false) :
    (lease.closeIfExpiredAt now timeout).1 = lease := by
  unfold ConnectionLease.closeIfExpiredAt at h ⊢
  simp only at h ⊢
  split
  · rename_i hclosed
    rw [if_pos hclosed] at h
    cases h
  · rfl

/-- A lease that is closed stays closed. -/
theorem LeaseCall.apply_closed (call : LeaseCall) (h : lease.closed = true) :
    (call.apply lease).closed = true := by
  cases call with
  | recordSuccessAt now => exact recordSuccessAt_closed.trans h
  | closeIfExpiredAt now timeout => exact closeIfExpiredAt_closed.mpr (.inl h)

theorem InClockOrder.of_prefix (h : InClockOrder opened calls) (hinitial : before <+: calls) :
    InClockOrder opened before :=
  fun first now hfirst => h first now (hfirst.trans hinitial)

/-- While the connection is open, the last success is the latest one. -/
theorem last_is_latest (h : InClockOrder opened calls) (hopen : (leaseAfter opened calls).closed = false) :
    ∀ success ∈ recorded opened calls, success ≤ (leaseAfter opened calls).lastSuccessfulActivity := by
  induction calls using List.reverseRecOn with
  | nil => exact List.forall_mem_singleton.mpr le_rfl
  | append_singleton calls call ih =>
      have hinitial := List.prefix_append calls [call]
      have hbefore : (leaseAfter opened calls).closed = false := by
        rw [leaseAfter_snoc] at hopen
        exact Bool.eq_false_iff.mpr fun hclosed => by
          rw [call.apply_closed hclosed] at hopen
          cases hopen
      cases call with
      | recordSuccessAt now =>
          have hlast : (leaseAfter opened (calls ++ [.recordSuccessAt now])).lastSuccessfulActivity = now := by
            rw [leaseAfter_snoc, LeaseCall.apply, ConnectionLease.recordSuccessAt, hbefore]
            rfl
          rw [recorded_snoc, hlast]
          intro success hmem
          cases List.mem_append.mp hmem with
          | inl hearlier => exact h calls now (List.prefix_refl _) hbefore success hearlier
          | inr hnow => exact le_of_eq (List.mem_singleton.mp hnow)
      | closeIfExpiredAt now timeout =>
          rw [leaseAfter_snoc, LeaseCall.apply] at hopen ⊢
          rw [recorded_snoc, closeIfExpiredAt_open hopen, LeaseCall.success, Option.toList_none, List.append_nil]
          exact ih (h.of_prefix hinitial) hbefore

/-- In every run, each check at each point closes the connection only where every success is as old as the
timeout, exactly if the successes are recorded in the order of the clock. -/
theorem expiresLate_iff (opened : Instant) (calls : List LeaseCall) :
    (∀ before, before <+: calls → ExpiresLate opened before) ↔ InClockOrder opened calls := by
  constructor
  · intro h before now hinitial hopen success hmem
    by_contra hlater
    -- a nanosecond is enough to tell the later success from the one that is recorded last
    have hlast : (leaseAfter opened (before ++ [.recordSuccessAt now])).lastSuccessfulActivity = now := by
      rw [leaseAfter_snoc, LeaseCall.apply, ConnectionLease.recordSuccessAt, hopen]
      rfl
    have hstill : (leaseAfter opened (before ++ [.recordSuccessAt now])).closed = false := by
      rw [leaseAfter_snoc]
      exact recordSuccessAt_closed.trans hopen
    have hage : saturatingDurationSince success now ≥ (⟨0, 1⟩ : Duration).asNanos := by
      have hpos : 0 < success - now := Int.sub_pos_of_lt (not_le.mp hlater)
      exact Int.lt_toNat.mpr hpos
    have hmember : success ∈ recorded opened (before ++ [.recordSuccessAt now]) := by
      rw [recorded_snoc]
      exact List.mem_append_left _ hmem
    have hlate := h _ hinitial success ⟨0, 1⟩ hstill
      (closeIfExpiredAt_closed.mpr (.inr (by rw [hlast]; exact hage))) success hmember
    rw [saturatingDurationSince, Int.sub_self] at hlate
    exact absurd hlate (by decide)
  · intro h before hinitial now timeout hopen hcloses success hmem
    have hexpired := (closeIfExpiredAt_closed.mp hcloses).resolve_left (by rw [hopen]; exact Bool.false_ne_true)
    have hlatest := last_is_latest (h.of_prefix hinitial) hopen success hmem
    exact hexpired.trans (Int.toNat_le_toNat (Int.sub_le_sub_left hlatest now))

end

def seconds (count : Nat) : Instant := 1000000000 * count

def crossedCalls : List LeaseCall := [.recordSuccessAt (seconds 20), .recordSuccessAt (seconds 10)]

/-- The check at 30 seconds closes the connection, ten seconds after a success. -/
theorem not_expiresLate : (leaseAfter 0 crossedCalls).closed = false ∧
    ((leaseAfter 0 crossedCalls).closeIfExpiredAt (seconds 30) (.fromSecs 20)).2 = true ∧
    seconds 20 ∈ recorded 0 crossedCalls ∧
    ¬ saturatingDurationSince (seconds 30) (seconds 20) ≥ (Duration.fromSecs 20).asNanos ∧
    ¬ ∀ before, before <+: crossedCalls → ExpiresLate 0 before := by
  have hcloses : ((leaseAfter 0 crossedCalls).closeIfExpiredAt (seconds 30) (.fromSecs 20)).2 = true := by decide
  have hearly : ¬ saturatingDurationSince (seconds 30) (seconds 20) ≥ (Duration.fromSecs 20).asNanos := by decide
  have hmember : seconds 20 ∈ recorded 0 crossedCalls := by decide
  exact ⟨rfl, hcloses, hmember, hearly, fun h => hearly (h _ (List.prefix_refl _) _ _ rfl hcloses _ hmember)⟩

end QuackProtocol
