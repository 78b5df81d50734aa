import QuackProtocol.FetchOrder
import QuackProtocol.OneQuery

/-! Connecting (`client.rs`). The versions in the requested range are attempted in order, each with a request
of its own; the next one is attempted only where the server looks like one that does not know the version. -/

open Decoding Sending

namespace QuackProtocol

def minQuackVersion : U64 := quackV1

def maxQuackVersion : U64 := quackV3

def defaultHeartbeatTimeoutSecs : U64 := 60

def maxHeartbeatTimeoutSecs : U64 := 300

/-- `std::time::Duration`. -/
structure Duration where
  secs : U64
  nanos : Fin 1000000000

namespace Duration

def fromSecs (secs : U64) : Duration := ⟨secs, 0⟩

def asSecs (duration : Duration) : U64 := duration.secs

end Duration

/-- What the handshake reads of the options. -/
structure QuackClientOptions where
  authToken : Option String
  clientDuckdbVersion : Option String
  clientPlatform : Option String
  minSupportedQuackVersion : Option U64
  maxSupportedQuackVersion : Option U64
  clientId : Option String
  heartbeatTimeout : Option Duration

structure QuackConnectionInfo where
  serverDuckdbVersion : Option String
  serverPlatform : Option String
  quackVersion : Option U64
  heartbeatTimeout : Option Duration

def validateHeartbeatTimeout (seconds : U64) : Result Unit :=
  if 1 ≤ seconds.toNat ∧ seconds.toNat ≤ maxHeartbeatTimeoutSecs.toNat then .ok ()
  else .error (.protocol s!"heartbeat timeout must be between 1 and {maxHeartbeatTimeoutSecs.toNat} seconds")

/-- `to_ascii_lowercase`. -/
def toAsciiLowercase (text : String) : String := String.ofList (text.toList.map Char.toLower)

def contains (text part : String) : Bool := decide (part.toList <:+: text.toList)

def isVersionNegotiationError : QuackError → Bool
  | .protocol message | .server message =>
    let message := toAsciiLowercase message
    contains message "quack version"
      || contains message "protocol version"
      || contains message "http request failed with 500"
      || contains message "deserialize"
      || contains message "end of object"
      || contains message "unexpected field"
  | _ => false

/-! ### The handshake -/

section
variable (layout : Layout) (prims : Primitives)

/-- `Transport::send`. -/
def transportSend (message : QuackMessage) (quackVersion : U64) (reply : Reply) : ClientCall QuackMessage :=
  match encodeMessageForVersion layout prims message quackVersion with
  | .ok _ => ⟨[message], answered reply⟩
  | .err e => ⟨[], .error (.error .encode e)⟩
  | .panic cause => ⟨[], .error (.panic cause)⟩

namespace QuackClientOptions

def minVersion (options : QuackClientOptions) : U64 := options.minSupportedQuackVersion.getD minQuackVersion

def maxVersion (options : QuackClientOptions) : U64 := options.maxSupportedQuackVersion.getD maxQuackVersion

/-- The versions that are attempted, the newer one first. -/
def versions (options : QuackClientOptions) : List U64 :=
  [quackV3, quackV1].filter fun version =>
    options.minVersion.toNat ≤ version.toNat ∧ version.toNat ≤ options.maxVersion.toNat

def heartbeatTimeoutSeconds (options : QuackClientOptions) : U64 :=
  (options.heartbeatTimeout.getD (Duration.fromSecs defaultHeartbeatTimeoutSecs)).asSecs

def connectionRequest (options : QuackClientOptions) (quackVersion : U64) : QuackMessage :=
  .connectionRequest ⟨.connectionRequest, none, none⟩ options.authToken options.clientDuckdbVersion
    (some (options.clientPlatform.getD "quack-rust")) quackVersion quackVersion options.clientId
    options.heartbeatTimeoutSeconds

end QuackClientOptions

/-- `{:?}` of an optional number. -/
def debugVersion : Option U64 → String
  | some version => s!"Some({version.toNat})"
  | none => "None"

/-- The heartbeat timeout of a connection, which only v3 has. -/
def connectionHeartbeat (quackVersion : U64) (heartbeatTimeoutSeconds : Option U64) :
    Result (Option Duration) :=
  if quackVersion = quackV3 then
    match heartbeatTimeoutSeconds with
    | none => .error (.protocol "protocol v3 CONNECTION_RESPONSE did not include a heartbeat timeout")
    | some seconds => do
      validateHeartbeatTimeout seconds
      pure (some (Duration.fromSecs seconds))
  else
    .ok none

/-- The checks of the reply to an attempt. -/
def acceptConnection (quackVersion : U64) : QuackMessage → Result (Connection × QuackConnectionInfo)
  | .connectionResponse header serverDuckdbVersion serverPlatform selectedVersion heartbeatTimeoutSeconds =>
    match header.connectionId with
    | none => .error (.protocol "CONNECTION_RESPONSE did not include a connection id")
    | some connectionId =>
      if selectedVersion ≠ some quackVersion then
        .error (.protocol
          s!"server selected Quack protocol version {debugVersion selectedVersion}, expected {quackVersion.toNat}")
      else do
        let heartbeatTimeout ← connectionHeartbeat quackVersion heartbeatTimeoutSeconds
        pure (⟨connectionId, quackVersion, 1, 1, false⟩,
          ⟨serverDuckdbVersion, serverPlatform, some quackVersion, heartbeatTimeout⟩)
  | other => .error (.protocol s!"expected CONNECTION_RESPONSE, got {other.messageType.debug}")

variable (options : QuackClientOptions) (replies : Nat → Reply)

/-- The exchange of an attempt. -/
def attemptSend (index : Nat) (quackVersion : U64) : ClientCall QuackMessage :=
  transportSend layout prims (options.connectionRequest quackVersion) quackVersion (replies index)

/-- The loop over the versions that are left, of `count` in all. -/
def negotiate (count : Nat) : Option QuackError → Nat → List U64 → ClientCall (Connection × QuackConnectionInfo)
  | previousError, _, [] => attempt .reply (.error
      (previousError.getD (.protocol "no compatible Quack protocol version was attempted")))
  | previousError, index, quackVersion :: versions =>
    let call := attemptSend layout prims options replies index quackVersion
    match call.result with
    | .ok response => do
      let _ ← call
      attempt .reply (acceptConnection quackVersion response)
    | .error (.error stage error) =>
      if index + 1 < count ∧ quackVersion = quackV3 ∧ isVersionNegotiationError error then
        let rest := negotiate count (some error) (index + 1) versions
        ⟨call.sent ++ rest.sent, rest.result⟩
      else
        match previousError with
        | some previousError =>
          if isVersionNegotiationError error then ⟨call.sent, .error (.error stage previousError)⟩
          else ⟨call.sent, .error (.error stage error)⟩
        | none => ⟨call.sent, .error (.error stage error)⟩
    | .error (.panic cause) => ⟨call.sent, .error (.panic cause)⟩

/-- `Connection::connect`; the server answers request `index` with `replies index`. -/
def connect : ClientCall (Connection × QuackConnectionInfo) :=
  if options.minVersion.toNat > options.maxVersion.toNat then
    attempt .arguments (.error (.protocol
      s!"minimum Quack protocol version {options.minVersion.toNat} exceeds maximum {options.maxVersion.toNat}"))
  else if options.versions.isEmpty then
    attempt .arguments (.error (.protocol
      s!"supported Quack protocol versions are {quackV1.toNat} and {quackV3.toNat}, requested range was {options.minVersion.toNat}..={options.maxVersion.toNat}"))
  else do
    attempt .arguments (if quackV3 ∈ options.versions then
      validateHeartbeatTimeout options.heartbeatTimeoutSeconds else .ok ())
    negotiate layout prims options replies options.versions.length none 0 options.versions

end

/-- The reply to an attempt says that the version is not known. -/
def Negotiable (reply : Reply) : Prop :=
  ∃ stage error, answered reply = .error (.error stage error) ∧ isVersionNegotiationError error = true

/-- How an attempt ends by itself. -/
def attemptOutcome (quackVersion : U64) (reply : Reply) : Except Failure (Connection × QuackConnectionInfo) :=
  answered reply >>= fun response => (acceptConnection quackVersion response).mapError (.error .reply)

section
variable {layout : Layout} {prims : Primitives} {options : QuackClientOptions} {replies : Nat → Reply}
  {quackVersion : U64} {versions : List U64} {count index : Nat} {previousError : Option QuackError}

theorem writes_connectionRequest (h : quackVersion = quackV1 ∨ quackVersion = quackV3) :
    (encodeMessageForVersion layout prims (options.connectionRequest quackVersion) quackVersion).Writes := by
  unfold encodeMessageForVersion
  cases h with
  | inl hversion =>
      rw [if_pos hversion, Encode.writes_append]
      apply And.intro (writes_header _)
      rw [QuackClientOptions.connectionRequest, encodeBodyV1, Encode.writes_object, Encode.writes_all]
      simp only [List.forall_mem_cons, writes_optionalString, writes_optionalIndexDefaultZero, true_and]
      exact writes_nil
  | inr hversion =>
      have hne : quackVersion ≠ quackV1 := by
        rw [hversion]
        decide
      rw [if_neg hne, if_pos hversion, Encode.writes_append]
      apply And.intro (writes_header _)
      rw [QuackClientOptions.connectionRequest, encodeBodyV3, Encode.writes_object, Encode.writes_all]
      simp only [List.forall_mem_cons, writes_optionalString, writes_optionalIndexDefaultZero, true_and]
      exact writes_nil

/-- Every attempt sends its request. -/
theorem attemptSend_eq (h : quackVersion = quackV1 ∨ quackVersion = quackV3) (index : Nat) :
    attemptSend layout prims options replies index quackVersion =
      ⟨[options.connectionRequest quackVersion], answered (replies index)⟩ := by
  obtain ⟨bytes, hbytes⟩ := @writes_connectionRequest layout prims options _ h
  unfold attemptSend transportSend
  rw [hbytes]

/-- How the loop ends with its last attempt. -/
inductive LastAttempt (quackVersion : U64) (reply : Reply) :
    Except Failure (Connection × QuackConnectionInfo) → Prop where
  | own : LastAttempt quackVersion reply (attemptOutcome quackVersion reply)
  | earlier {stage : Stage} {previousError : QuackError} (unknown : Negotiable reply) :
      LastAttempt quackVersion reply (.error (.error stage previousError))

/-- A run of the loop attempts some of the versions in order, each after the first because the one before it
is v3 and is not known. -/
structure Attempts (options : QuackClientOptions) (replies : Nat → Reply) (index : Nat) (versions : List U64)
    (attempted : List U64) (call : ClientCall (Connection × QuackConnectionInfo)) : Prop where
  isPrefix : attempted <+: versions
  sent : call.sent = attempted.map options.connectionRequest
  unknown : ∀ i (h : i + 1 < attempted.length),
    attempted[i] = quackV3 ∧ Negotiable (replies (index + i))
  last : ∀ i (h : i + 1 = attempted.length), LastAttempt attempted[i] (replies (index + i)) call.result
  nonempty : versions ≠ [] → attempted ≠ []

/-- A run that ends with its first attempt. -/
theorem Attempts.single {result : Except Failure (Connection × QuackConnectionInfo)}
    (hlast : LastAttempt quackVersion (replies index) result) :
    Attempts options replies index (quackVersion :: versions) [quackVersion]
      ⟨[options.connectionRequest quackVersion], result⟩ where
  isPrefix := ⟨versions, rfl⟩
  sent := rfl
  unknown i h := absurd h (by simp)
  last i h := by
    obtain rfl : i = 0 := by simpa using h
    exact hlast
  nonempty _ := List.cons_ne_nil _ _

/-- A run that goes on after its first attempt. -/
theorem Attempts.cons {attempted : List U64} {call : ClientCall (Connection × QuackConnectionInfo)}
    (hv3 : quackVersion = quackV3) (hunknown : Negotiable (replies index)) (hne : attempted ≠ [])
    (h : Attempts options replies (index + 1) versions attempted call) :
    Attempts options replies index (quackVersion :: versions) (quackVersion :: attempted)
      ⟨options.connectionRequest quackVersion :: call.sent, call.result⟩ where
  isPrefix := List.cons_prefix_cons.mpr ⟨rfl, h.isPrefix⟩
  sent := by rw [h.sent, List.map_cons]
  unknown i hi := by
    cases i with
    | zero => exact ⟨hv3, hunknown⟩
    | succ i =>
        rw [List.getElem_cons_succ, ← Nat.add_assoc, Nat.add_right_comm]
        exact h.unknown i (Nat.lt_of_succ_lt_succ hi)
  last i hi := by
    cases i with
    | zero => exact absurd (List.length_eq_zero_iff.mp (Nat.succ.inj hi).symm) hne
    | succ i =>
        simp only [List.getElem_cons_succ, ← Nat.add_assoc, Nat.add_right_comm index i 1]
        exact h.last i (Nat.succ.inj hi)
  nonempty _ := List.cons_ne_nil _ _

theorem negotiate_attempts (hversions : ∀ version ∈ versions, version = quackV1 ∨ version = quackV3)
    (hcount : count = index + versions.length) : ∃ attempted, Attempts options replies index versions attempted
      (negotiate layout prims options replies count previousError index versions) := by
  induction versions generalizing index previousError with
  | nil =>
      exact ⟨[], List.nil_prefix, rfl, fun i h => absurd h (Nat.not_lt_zero _),
        fun i h => absurd h (Nat.succ_ne_zero i), fun h => absurd rfl h⟩
  | cons quackVersion versions ih =>
      have hsend := @attemptSend_eq layout prims options replies _
        (hversions quackVersion List.mem_cons_self) index
      rw [negotiate, hsend]
      cases hreply : answered (replies index) with
      | ok response =>
          apply Exists.intro [quackVersion]
          have hlast := @LastAttempt.own quackVersion (replies index)
          rw [attemptOutcome, hreply] at hlast
          exact Attempts.single hlast
      | error failure =>
          have hown := @LastAttempt.own quackVersion (replies index)
          rw [attemptOutcome, hreply] at hown
          cases failure with
          | panic cause => exact ⟨_, Attempts.single hown⟩
          | error stage error =>
              simp only
              split
              · rename_i hagain
                obtain ⟨hmore, hv3, herror⟩ := hagain
                obtain ⟨attempted, hrest⟩ := @ih (index + 1) (some error)
                  (fun version hmem => hversions version (List.mem_cons_of_mem _ hmem))
                  (by rw [hcount, List.length_cons]; omega)
                have hne : versions ≠ [] := by
                  intro h
                  rw [hcount, h] at hmore
                  exact absurd hmore (Nat.lt_irrefl _)
                exact ⟨_, Attempts.cons hv3 ⟨stage, error, hreply, herror⟩ (hrest.nonempty hne) hrest⟩
              · cases previousError with
                | none => exact ⟨_, Attempts.single hown⟩
                | some previousError =>
                    simp only
                    split
                    · rename_i herror
                      exact ⟨_, Attempts.single (.earlier ⟨stage, error, hreply, herror⟩)⟩
                    · exact ⟨_, Attempts.single hown⟩

end

/-- What the loop must not do: attempt a version out of range, fall back from v3 where the server knows it, or
take a reply that is not one to the attempt. -/
structure NegotiatesSafely (options : QuackClientOptions) (replies : Nat → Reply)
    (call : ClientCall (Connection × QuackConnectionInfo)) : Prop where
  requests : call.sent <+: options.versions.map options.connectionRequest
  downgrade : options.connectionRequest quackV1 ∈ call.sent → quackV3 ∉ options.versions ∨
    (options.connectionRequest quackV3 ∈ call.sent ∧ Negotiable (replies 0))
  final : ∀ failure, options.connectionRequest quackV3 ∈ call.sent →
    attemptOutcome quackV3 (replies 0) = .error failure → ¬ Negotiable (replies 0) →
    call.result = .error failure ∧ options.connectionRequest quackV1 ∉ call.sent
  accepted : ∀ connection info, call.result = .ok (connection, info) →
    ∃ index header serverDuckdbVersion serverPlatform heartbeat,
      call.sent.length = index + 1 ∧
      call.sent.getLast? = some (options.connectionRequest connection.quackVersion) ∧
      replies index = .ok (.connectionResponse header serverDuckdbVersion serverPlatform
        (some connection.quackVersion) heartbeat) ∧
      header.connectionId = some connection.connectionId ∧
      (connection.quackVersion = quackV3 → ∃ seconds, heartbeat = some seconds ∧
        1 ≤ seconds.toNat ∧ seconds.toNat ≤ 300 ∧ info.heartbeatTimeout = some (Duration.fromSecs seconds))

section
variable {layout : Layout} {prims : Primitives} {options : QuackClientOptions} {replies : Nat → Reply}
  {quackVersion : U64} {attempted : List U64} {call : ClientCall (Connection × QuackConnectionInfo)}

theorem mem_versions : quackVersion ∈ options.versions ↔ (quackVersion = quackV3 ∨ quackVersion = quackV1) ∧
    options.minVersion.toNat ≤ quackVersion.toNat ∧ quackVersion.toNat ≤ options.maxVersion.toNat := by
  rw [QuackClientOptions.versions, List.mem_filter, List.mem_cons, List.mem_singleton, decide_eq_true_eq]

theorem connectionRequest_inj {other : U64}
    (h : options.connectionRequest quackVersion = options.connectionRequest other) : quackVersion = other := by
  rw [QuackClientOptions.connectionRequest, QuackClientOptions.connectionRequest] at h
  injection h

theorem mem_requests : options.connectionRequest quackVersion ∈ attempted.map options.connectionRequest ↔
    quackVersion ∈ attempted := by
  constructor
  · intro h
    obtain ⟨other, hmem, heq⟩ := List.mem_map.mp h
    exact connectionRequest_inj heq ▸ hmem
  · exact fun h => List.mem_map.mpr ⟨quackVersion, h, rfl⟩

theorem answered_ok {reply : Reply} {response : QuackMessage} (h : answered reply = .ok response) :
    reply = .ok response := by
  cases reply with
  | error e => cases h
  | ok other =>
      cases other with
      | errorResponse => cases h
      | _ =>
          cases h
          rfl

theorem validateHeartbeatTimeout_ok {seconds : U64} (h : validateHeartbeatTimeout seconds = .ok ()) :
    1 ≤ seconds.toNat ∧ seconds.toNat ≤ 300 := by
  rw [validateHeartbeatTimeout] at h
  split at h
  · assumption
  · cases h

theorem connectionHeartbeat_ok {heartbeat : Option U64} {timeout : Option Duration}
    (hv3 : quackVersion = quackV3) (h : connectionHeartbeat quackVersion heartbeat = .ok timeout) :
    ∃ seconds, heartbeat = some seconds ∧ 1 ≤ seconds.toNat ∧ seconds.toNat ≤ 300 ∧
      timeout = some (Duration.fromSecs seconds) := by
  unfold connectionHeartbeat at h
  rw [if_pos hv3] at h
  cases heartbeat with
  | none => cases h
  | some seconds =>
      obtain ⟨⟨⟩, hvalid, h⟩ := Except.bind_eq_ok h
      cases h
      obtain ⟨hlow, hhigh⟩ := validateHeartbeatTimeout_ok hvalid
      exact ⟨seconds, rfl, hlow, hhigh, rfl⟩

/-- A reply that is accepted is one to the attempt. -/
theorem acceptConnection_ok {response : QuackMessage} {connection : Connection} {info : QuackConnectionInfo}
    (h : acceptConnection quackVersion response = .ok (connection, info)) :
    connection.quackVersion = quackVersion ∧ ∃ header serverDuckdbVersion serverPlatform heartbeat,
      response = .connectionResponse header serverDuckdbVersion serverPlatform (some quackVersion) heartbeat ∧
      header.connectionId = some connection.connectionId ∧
      (quackVersion = quackV3 → ∃ seconds, heartbeat = some seconds ∧
        1 ≤ seconds.toNat ∧ seconds.toNat ≤ 300 ∧ info.heartbeatTimeout = some (Duration.fromSecs seconds)) := by
  cases response with
  | connectionResponse header serverDuckdbVersion serverPlatform selectedVersion heartbeat =>
      rw [acceptConnection] at h
      cases hid : header.connectionId with
      | none =>
          rw [hid] at h
          cases h
      | some connectionId =>
          rw [hid] at h
          simp only at h
          by_cases hselected : selectedVersion = some quackVersion
          · rw [if_neg (not_not.mpr hselected)] at h
            obtain ⟨timeout, htimeout, h⟩ := Except.bind_eq_ok h
            cases h
            subst hselected
            apply And.intro rfl
            apply Exists.intro header
            apply Exists.intro serverDuckdbVersion
            apply Exists.intro serverPlatform
            apply Exists.intro heartbeat
            apply And.intro rfl
            apply And.intro hid
            intro hv3
            exact connectionHeartbeat_ok hv3 htimeout
          · rw [if_pos hselected] at h
            cases h
  | _ => cases h

theorem versions_head (hv3 : quackV3 ∈ options.versions) : ∃ rest, options.versions = quackV3 :: rest := by
  have hrange := (mem_versions.mp hv3).2
  rw [QuackClientOptions.versions, List.filter_cons, if_pos (by simpa using hrange)]
  exact ⟨_, rfl⟩

/-- Where v3 is in range it is attempted first. -/
theorem Attempts.first (h : Attempts options replies 0 options.versions attempted call)
    (hv3 : quackV3 ∈ options.versions) : ∃ rest, attempted = quackV3 :: rest := by
  obtain ⟨versions, hversions⟩ := versions_head hv3
  have hinitial := h.isPrefix
  rw [hversions] at hinitial
  cases attempted with
  | nil => exact absurd rfl (h.nonempty (List.ne_nil_of_mem hv3))
  | cons version rest => exact ⟨rest, by rw [(List.cons_prefix_cons.mp hinitial).1]⟩

/-- A second attempt follows a v3 attempt that the server does not know. -/
theorem Attempts.second (h : Attempts options replies 0 options.versions attempted call)
    (hv3 : quackV3 ∈ options.versions) (hv1 : quackV1 ∈ attempted) : Negotiable (replies 0) := by
  obtain ⟨rest, rfl⟩ := h.first hv3
  cases List.mem_cons.mp hv1 with
  | inl heq => exact absurd heq (by decide)
  | inr hmem => exact (h.unknown 0 (by simpa using List.length_pos_of_mem hmem)).2

theorem Attempts.negotiatesSafely (h : Attempts options replies 0 options.versions attempted call)
    (hne : options.versions ≠ []) :
    NegotiatesSafely options replies call where
  requests := by
    rw [h.sent]
    exact h.isPrefix.map _
  downgrade hv1 := by
    rw [h.sent, mem_requests] at hv1
    by_cases hv3 : quackV3 ∈ options.versions
    · obtain ⟨rest, hrest⟩ := h.first hv3
      apply Or.inr
      apply And.intro _ (h.second hv3 hv1)
      rw [h.sent, mem_requests, hrest]
      exact List.mem_cons_self
    · exact .inl hv3
  final failure hsent houtcome hknown := by
    rw [h.sent, mem_requests] at hsent ⊢
    have hv3 := h.isPrefix.subset hsent
    obtain ⟨rest, rfl⟩ := h.first hv3
    have hnot : quackV1 ∉ quackV3 :: rest := fun hv1 => hknown (h.second hv3 hv1)
    apply And.intro _ hnot
    have hrest : rest = [] := by
      cases rest with
      | nil => rfl
      | cons version rest => exact absurd (h.unknown 0 (by simp)).2 hknown
    have hlast := h.last 0 (by rw [hrest]; rfl)
    generalize call.result = result at hlast
    cases hlast with
    | own => exact houtcome
    | earlier unknown => exact absurd unknown hknown
  accepted connection info hok := by
    obtain ⟨before, version, rfl⟩ := List.eq_nil_or_concat' attempted |>.resolve_left (h.nonempty hne)
    have hlast := h.last before.length (by simp)
    rw [List.getElem_concat_length rfl, Nat.zero_add, hok] at hlast
    generalize houtcome : Except.ok (connection, info) = outcome at hlast
    cases hlast with
    | earlier unknown => cases houtcome
    | own =>
        obtain ⟨response, hresponse, haccept⟩ := Except.bind_eq_ok houtcome.symm
        obtain ⟨hversion, header, serverDuckdbVersion, serverPlatform, heartbeat, rfl, hid, hheartbeat⟩ :=
          acceptConnection_ok (of_attempt_ok haccept)
        rw [hversion]
        have hsent : call.sent = (before.map options.connectionRequest) ++ [options.connectionRequest version] := by
          rw [h.sent, List.map_append, List.map_singleton]
        apply Exists.intro before.length
        apply Exists.intro header
        apply Exists.intro serverDuckdbVersion
        apply Exists.intro serverPlatform
        apply Exists.intro heartbeat
        rw [hsent, List.length_append, List.length_map, List.getLast?_append]
        exact ⟨rfl, rfl, answered_ok hresponse, hid, hheartbeat⟩

/-- A handshake that is refused before the first attempt. -/
theorem negotiatesSafely_refused {failure : Failure} : NegotiatesSafely options replies ⟨[], .error failure⟩ where
  requests := List.nil_prefix
  downgrade h := absurd h List.not_mem_nil
  final _ h := absurd h List.not_mem_nil
  accepted _ _ h := by cases h

/-- Whatever the versions are that are asked for and whatever the server answers, the handshake does not fall
back wrongly. -/
theorem connect_negotiatesSafely (layout : Layout) (prims : Primitives) (options : QuackClientOptions)
    (replies : Nat → Reply) : NegotiatesSafely options replies (connect layout prims options replies) := by
  unfold connect
  split
  · exact negotiatesSafely_refused
  · split
    · exact negotiatesSafely_refused
    · rename_i hsome
      have hne : options.versions ≠ [] := fun h => hsome (by rw [h]; rfl)
      generalize (if quackV3 ∈ options.versions then validateHeartbeatTimeout options.heartbeatTimeoutSeconds
        else .ok ()) = validated
      cases validated with
      | error e => exact negotiatesSafely_refused
      | ok =>
          rw [attempt_ok_bind]
          obtain ⟨attempted, hattempts⟩ := @negotiate_attempts layout prims options replies options.versions
            options.versions.length 0 none (fun version hmem => (mem_versions.mp hmem).1.symm)
            (Nat.zero_add _).symm
          exact hattempts.negotiatesSafely hne

end

end QuackProtocol
