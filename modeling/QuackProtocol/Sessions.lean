import QuackProtocol.Leases
import QuackProtocol.SharedClient

/-! A connection and what may close it (`client.rs`): a DISCONNECT that succeeds, a heartbeat that is answered
by anything but success, and a lease that expires. Calls wait for their replies while the heartbeat goes on,
and every reply to a request renews the lease. -/

open Decoding Sending

namespace QuackProtocol

/-- What is asked of a connection. -/
inductive SessionCall where
  | prepare (sql : String)
  | fetch (resultUuid : HugeIntParts) (batchIndex ackIndex : U64)
  | append (tableName : String) (schemaName : Option String) (chunk : DataChunk)
  | disconnect

namespace SessionCall

def perform (layout : Layout) (prims : Primitives) (connection : Connection) (reply : Reply) :
    SessionCall → ClientCall Unit
  | .prepare sql => do
    let _ ← connection.prepare layout prims sql reply
    pure ()
  | .fetch resultUuid batchIndex ackIndex => do
    let _ ← connection.fetch layout prims resultUuid batchIndex ackIndex reply
    pure ()
  | .append tableName schemaName chunk => connection.append layout prims tableName schemaName chunk reply
  | .disconnect => connection.disconnect layout prims reply

/-- The connection once the call has taken its numbers. -/
def numbersTaken (connection : Connection) : SessionCall → Connection
  | .prepare _ => connection.afterPrepare
  | .fetch .. => connection.afterFetch
  | .append .. => connection.afterAppend
  | .disconnect => if connection.closed then connection else connection.numbered

/-- What the reply to the request makes of the call. -/
def outcome (reply : Reply) : SessionCall → Except Failure Unit
  | .prepare _ | .fetch .. => (answered reply).map fun _ => ()
  | .append .. | .disconnect => answered reply >>= fun response => (expectSuccess response).result

end SessionCall

/-- A connection with its lease, and the calls that wait for a reply, each with the one it will have. -/
structure Session where
  connection : Connection
  lastSuccessfulActivity : Instant
  waiting : List (SessionCall × Reply)

inductive SessionEvent where
  | start (call : SessionCall) (reply : Reply)
  | finish (index : Nat) (now : Instant)
  | drop (index : Nat)
  | heartbeat (outcome : Reply) (now : Instant) (timeout : Duration)
  | leaseCheck (now : Instant) (timeout : Duration)

/-- What an event shows of the calls: the requests sent, and the result of the call that returns. -/
structure SessionEffect where
  sent : List QuackMessage
  result : Option (Except Failure Unit)

namespace Session

def lease (session : Session) : ConnectionLease := ⟨session.lastSuccessfulActivity, session.connection.closed⟩

def withLease (session : Session) (lease : ConnectionLease) : Session :=
  { session with
    connection := { session.connection with closed := lease.closed }
    lastSuccessfulActivity := lease.lastSuccessfulActivity }

/-- The lease after the reply to a call: every decoded reply is a success of the connection, and a DISCONNECT
that succeeds closes it. -/
def leaseAnswered (lease : ConnectionLease) (call : SessionCall) (reply : Reply) (now : Instant) :
    ConnectionLease :=
  match answered reply with
  | .error _ => lease
  | .ok response =>
    match call, response with
    | .disconnect, .successResponse _ => (lease.recordSuccessAt now).close
    | _, _ => lease.recordSuccessAt now

/-- The lease after a heartbeat. -/
def leaseHeartbeat (lease : ConnectionLease) (outcome : Reply) (now : Instant) (timeout : Duration) :
    ConnectionLease :=
  match answered outcome with
  | .ok (.successResponse _) => lease.recordSuccessAt now
  | .ok _ => lease.close
  | .error _ => (lease.closeIfExpiredAt now timeout).1

section
variable (layout : Layout) (prims : Primitives)

def step (session : Session) : SessionEvent → Session × SessionEffect
  | .start call reply =>
    let performed := call.perform layout prims session.connection reply
    let session := { session with connection := call.numbersTaken session.connection }
    if performed.sent.isEmpty then (session, ⟨[], some performed.result⟩)
    else ({ session with waiting := session.waiting ++ [(call, reply)] }, ⟨performed.sent, none⟩)
  | .finish index now =>
    match session.waiting[index]? with
    | some (call, reply) =>
      ({ session.withLease (leaseAnswered session.lease call reply now) with
          waiting := session.waiting.eraseIdx index }, ⟨[], some (call.outcome reply)⟩)
    | none => (session, ⟨[], none⟩)
  | .drop index => ({ session with waiting := session.waiting.eraseIdx index }, ⟨[], none⟩)
  | .heartbeat outcome now timeout =>
    (session.withLease (leaseHeartbeat session.lease outcome now timeout), ⟨[], none⟩)
  | .leaseCheck now timeout => (session.withLease (session.lease.closeIfExpiredAt now timeout).1, ⟨[], none⟩)

def run (session : Session) (events : List SessionEvent) : Session :=
  events.foldl (fun session event => (session.step layout prims event).1) session

end

end Session

section
variable {layout : Layout} {prims : Primitives} {connection : Connection} {call : SessionCall} {reply : Reply}
  {session : Session} {lease : ConnectionLease} {now : Instant} {timeout : Duration}

/-- What a call comes to on a closed connection. -/
def refused : SessionCall → Except Failure Unit
  | .disconnect => .ok ()
  | _ => .error (.error .connection (.protocol "Quack client is not connected"))

theorem ensureOpen_closed {α : Type} (f : Unit → ClientCall α) (h : connection.closed = true) :
    connection.ensureOpen >>= f =
      ⟨[], .error (.error .connection (.protocol "Quack client is not connected"))⟩ := by
  rw [Connection.ensureOpen, h]
  rfl

/-- A closed connection refuses every call but DISCONNECT, which has nothing to do. -/
theorem perform_closed (call : SessionCall) (h : connection.closed = true) :
    call.perform layout prims connection reply = ⟨[], refused call⟩ := by
  cases call with
  | prepare sql =>
      rw [SessionCall.perform, Connection.prepare, ensureOpen_closed _ h]
      rfl
  | fetch resultUuid batchIndex ackIndex =>
      rw [SessionCall.perform, Connection.fetch, ensureOpen_closed _ h]
      rfl
  | append tableName schemaName chunk =>
      rw [SessionCall.perform, Connection.append, ensureOpen_closed _ h]
      rfl
  | disconnect =>
      rw [SessionCall.perform, Connection.disconnect, if_pos h]
      rfl

theorem numbersTaken_closed (call : SessionCall) (h : connection.closed = true) :
    call.numbersTaken connection = connection := by
  cases call with
  | prepare sql => exact if_pos h
  | fetch resultUuid batchIndex ackIndex => exact if_pos h
  | append tableName schemaName chunk => exact if_pos (.inl h)
  | disconnect => exact if_pos h

theorem numbersTaken_sameClosed (call : SessionCall) (connection : Connection) :
    (call.numbersTaken connection).closed = connection.closed := by
  cases hclosed : connection.closed with
  | true => rw [numbersTaken_closed call hclosed, hclosed]
  | false =>
      have hopen : ¬ connection.closed = true := by
        rw [hclosed]
        exact Bool.false_ne_true
      cases call with
      | prepare sql => exact (congrArg Connection.closed (if_neg hopen)).trans hclosed
      | fetch resultUuid batchIndex ackIndex =>
          exact (congrArg Connection.closed (if_neg hopen)).trans hclosed
      | append tableName schemaName chunk =>
          rw [SessionCall.numbersTaken, Connection.afterAppend]
          split
          · exact hclosed
          · exact hclosed
      | disconnect => exact (congrArg Connection.closed (if_neg hopen)).trans hclosed

theorem leaseAnswered_closed (call : SessionCall) (reply : Reply) (now : Instant) (h : lease.closed = true) :
    (Session.leaseAnswered lease call reply now).closed = true := by
  unfold Session.leaseAnswered
  split
  · exact h
  · split
    · rfl
    · exact recordSuccessAt_closed.trans h

theorem leaseHeartbeat_closed (outcome : Reply) (now : Instant) (timeout : Duration) (h : lease.closed = true) :
    (Session.leaseHeartbeat lease outcome now timeout).closed = true := by
  unfold Session.leaseHeartbeat
  split
  · exact recordSuccessAt_closed.trans h
  · rfl
  · exact closeIfExpiredAt_closed.mpr (.inl h)

/-- A connection that is closed stays closed. -/
theorem step_closed (event : SessionEvent) (h : session.connection.closed = true) :
    (session.step layout prims event).1.connection.closed = true := by
  cases event with
  | start call reply =>
      rw [Session.step]
      simp only
      split
      · exact (numbersTaken_sameClosed call _).trans h
      · exact (numbersTaken_sameClosed call _).trans h
  | finish index now =>
      rw [Session.step]
      split
      · exact leaseAnswered_closed _ _ now h
      · exact h
  | drop index => exact h
  | heartbeat outcome now timeout => exact leaseHeartbeat_closed outcome now timeout h
  | leaseCheck now timeout => exact closeIfExpiredAt_closed.mpr (.inl h)

theorem run_closed (events : List SessionEvent) (h : session.connection.closed = true) :
    (session.run layout prims events).connection.closed = true := by
  induction events generalizing session with
  | nil => exact h
  | cons event events ih => exact ih (step_closed event h)

/-- Nothing is closed by starting a call. -/
theorem step_start_sameClosed (call : SessionCall) (reply : Reply) :
    (session.step layout prims (.start call reply)).1.connection.closed = session.connection.closed := by
  rw [Session.step]
  simp only
  split
  · exact numbersTaken_sameClosed call _
  · exact numbersTaken_sameClosed call _

/-- The reply to a call closes the connection only where it is a success and the call is DISCONNECT. -/
theorem leaseAnswered_sameClosed (hfails : call = .disconnect → ∀ header, reply ≠ .ok (.successResponse header)) :
    (Session.leaseAnswered lease call reply now).closed = lease.closed := by
  unfold Session.leaseAnswered
  split
  · rfl
  · rename_i response hresponse
    split
    · rename_i header
      exact absurd (answered_ok hresponse) (hfails rfl header)
    · exact recordSuccessAt_closed

theorem outcome_disconnect_fails (hfails : ∀ header, reply ≠ .ok (.successResponse header)) :
    ∃ failure, SessionCall.outcome reply .disconnect = .error failure := by
  rw [SessionCall.outcome]
  cases hreply : answered reply with
  | error failure => exact ⟨failure, rfl⟩
  | ok response =>
      cases response with
      | successResponse header => exact absurd (answered_ok hreply) (hfails header)
      | _ => exact ⟨_, rfl⟩

/-! ### Runs -/

/-- What holds of a session from some point on: closed is closed whatever follows, nothing is asked of the
server any more, and a DISCONNECT that fails may be made again. -/
structure Session.ClosedIsFinal (layout : Layout) (prims : Primitives) (session : Session) : Prop where
  absorbing : session.connection.closed = true → ∀ events,
    (session.run layout prims events).connection.closed = true
  refuses : session.connection.closed = true → ∀ events call reply,
    (session.run layout prims events).step layout prims (.start call reply) =
      (session.run layout prims events, ⟨[], some (refused call)⟩)
  unsent : ∀ call reply,
    (session.step layout prims (.start call reply)).1.connection.closed = session.connection.closed
  retries : ∀ index now reply, session.waiting[index]? = some (.disconnect, reply) →
    (∀ header, reply ≠ .ok (.successResponse header)) →
    (session.step layout prims (.finish index now)).1.connection.closed = session.connection.closed ∧
      ∃ failure, (session.step layout prims (.finish index now)).2.result = some (.error failure)

/-- At every point of every run. -/
theorem run_closedIsFinal (layout : Layout) (prims : Primitives) (session : Session)
    (events : List SessionEvent) : (session.run layout prims events).ClosedIsFinal layout prims := by
  generalize session.run layout prims events = reached
  constructor
  · exact fun h events => run_closed events h
  · intro h events call reply
    have hclosed := @run_closed layout prims _ events h
    rw [Session.step, perform_closed call hclosed, numbersTaken_closed call hclosed]
    rfl
  · exact fun call reply => step_start_sameClosed call reply
  · intro index now reply hwaiting hfails
    rw [Session.step, hwaiting]
    obtain ⟨failure, hfailure⟩ := outcome_disconnect_fails hfails
    exact ⟨leaseAnswered_sameClosed fun _ => hfails, failure, congrArg some hfailure⟩

end

end QuackProtocol
