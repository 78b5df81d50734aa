import QuackProtocol.Delivery
import QuackProtocol.Negotiation

/-! A session from the handshake on. A client and a server that both speak some versions come to the newest one
that they share, or to none; and the queries of the connection that comes of it are served as it is. -/

open Decoding Sending

namespace QuackProtocol

/-- What a server says when it is connected to, and the versions that it speaks. -/
structure ServedSession where
  speaks : U64 → Bool
  connectionId : String
  serverDuckdbVersion : Option String
  serverPlatform : Option String
  heartbeatTimeoutSeconds : U64

namespace ServedSession

/-- How a connection request is answered in a version that is spoken and asked for. -/
inductive Connects (session : ServedSession) (quackVersion : U64) : QuackMessage → QuackMessage → Prop where
  | intro {requestHeader header : MessageHeader} {authString clientDuckdbVersion clientPlatform : Option String}
      {clientId : Option String} {low high requested : U64} {heartbeat : Option U64}
      (inRange : low.toNat ≤ quackVersion.toNat ∧ quackVersion.toNat ≤ high.toNat)
      (connectionId : header.connectionId = some session.connectionId)
      (heartbeatTimeout : quackVersion = quackV3 → heartbeat = some session.heartbeatTimeoutSeconds) :
      Connects session quackVersion
        (.connectionRequest requestHeader authString clientDuckdbVersion clientPlatform low high clientId
          requested)
        (.connectionResponse header session.serverDuckdbVersion session.serverPlatform (some quackVersion)
          heartbeat)

/-- What the server says can be used: it names the connection and a heartbeat in range. -/
structure Usable (session : ServedSession) : Prop where
  connectionId : HeldText session.connectionId
  named : session.connectionId ≠ ""
  heartbeat : 1 ≤ session.heartbeatTimeoutSeconds.toNat ∧ session.heartbeatTimeoutSeconds.toNat ≤ 300

/-- The connection that a session begins with. -/
def connection (session : ServedSession) (quackVersion : U64) : Connection :=
  ⟨session.connectionId, quackVersion, 1, 1, false⟩

/-- What the client knows of the server, once it is connected in a version. -/
def info (session : ServedSession) (quackVersion : U64) : QuackConnectionInfo where
  serverDuckdbVersion := nonEmptyText session.serverDuckdbVersion
  serverPlatform := nonEmptyText session.serverPlatform
  quackVersion := some quackVersion
  heartbeatTimeout :=
    if quackVersion = quackV3 then some (Duration.fromSecs session.heartbeatTimeoutSeconds) else none

end ServedSession

section
variable (layout : Layout) (prims : Primitives) (canonicalReason : Nat → Option String)

/-- Each attempt of the client is answered in a version that the server speaks, and comes to an error that says
so in any other. -/
def ServesAttempts (session : ServedSession) (options : QuackClientOptions) (replies : Nat → Reply) : Prop :=
  ∀ (index : Nat) (quackVersion : U64), options.versions[index]? = some quackVersion →
    if session.speaks quackVersion then
      Served layout prims canonicalReason quackVersion (session.Connects quackVersion)
        (options.connectionRequest quackVersion) (replies index)
    else
      Negotiable (replies index)

end

section
variable {layout : Layout} {prims : Primitives} {canonicalReason : Nat → Option String} {session : ServedSession}
  {options : QuackClientOptions} {replies : Nat → Reply} {quackVersion : U64}

theorem connectionRequest_inMemory
    (htexts : ∀ text ∈ (options.connectionRequest quackVersion).texts, HeldText text) :
    (options.connectionRequest quackVersion).InMemory layout :=
  ⟨htexts, fun T hT => (by cases hT), fits_none _ _, fits_none _ _, fits_none _ _⟩

/-- An attempt in a version that the server speaks gives the connection. -/
theorem attempt_served (hversion : quackVersion = quackV1 ∨ quackVersion = quackV3)
    (htexts : ∀ text ∈ (options.connectionRequest quackVersion).texts, HeldText text) (husable : session.Usable)
    {reply : Reply} (h : Served layout prims canonicalReason quackVersion (session.Connects quackVersion)
      (options.connectionRequest quackVersion) reply) :
    attemptOutcome quackVersion reply =
      .ok (session.connection quackVersion, session.info quackVersion) := by
  obtain ⟨response, hanswer, rfl⟩ := served_reply hversion (connectionRequest_inMemory htexts) rfl trivial rfl
    (fun _ _ hconnects => by cases hconnects; exact ⟨trivial, fun chunk hmem => by cases hmem⟩) h
  generalize (options.connectionRequest quackVersion).readWith (storedChunk prims) quackVersion = request
    at hanswer
  cases hanswer with
  | @intro _ header _ _ _ _ _ _ _ heartbeat _ connectionId heartbeatTimeout =>
      have hid : header.asRead.connectionId = some session.connectionId := by
        rw [MessageHeader.asRead, connectionId, nonEmptyText, Option.filter_some,
          if_pos (decide_eq_true husable.named)]
      have htimeout : connectionHeartbeat quackVersion (if quackVersion = quackV3 then heartbeat else none) =
          .ok (session.info quackVersion).heartbeatTimeout := by
        unfold connectionHeartbeat ServedSession.info
        by_cases hthree : quackVersion = quackV3
        · have hvalid : validateHeartbeatTimeout session.heartbeatTimeoutSeconds = .ok () :=
            if_pos husable.heartbeat
          simp only [if_pos hthree, heartbeatTimeout hthree, hvalid]
          rfl
        · simp only [if_neg hthree]
      have haccept : acceptConnection quackVersion (.connectionResponse header.asRead
          (nonEmptyText session.serverDuckdbVersion) (nonEmptyText session.serverPlatform) (some quackVersion)
          (if quackVersion = quackV3 then heartbeat else none)) =
          .ok (session.connection quackVersion, session.info quackVersion) := by
        rw [acceptConnection, hid]
        simp only [ne_eq, not_true_eq_false, if_false, htimeout]
        rfl
      simp only [attemptOutcome, QuackMessage.readWith, answered, Except.ok_bind, haccept]
      rfl

/-- A status of 500 is taken for a version that is not known, whatever else is said of it. -/
theorem isVersionNegotiationError_internal (reason : String) : isVersionNegotiationError
    (.protocol s!"Quack HTTP request failed with {500} {reason}") = true := by
  have hcontains : contains (toAsciiLowercase s!"Quack HTTP request failed with {500} {reason}")
      "http request failed with 500" = true := by
    have htext : s!"Quack HTTP request failed with {500} {reason}".toList =
        "Quack ".toList ++ ("HTTP request failed with 500".toList ++ ' ' :: reason.toList) := by
      simp only [toString, String.toList_append]
      rfl
    have hlower : "HTTP request failed with 500".toList.map Char.toLower =
        "http request failed with 500".toList := by decide
    have hlowered : (toAsciiLowercase s!"Quack HTTP request failed with {500} {reason}").toList =
        "Quack ".toList.map Char.toLower ++ "http request failed with 500".toList ++
          (' ' :: reason.toList).map Char.toLower := by
      rw [toAsciiLowercase, htext, List.map_append, List.map_append, hlower, List.append_assoc]
      exact String.toList_ofList
    exact decide_eq_true ⟨_, _, hlowered.symm⟩
  simp only [isVersionNegotiationError, hcontains, Bool.or_true, Bool.true_or]

theorem negotiable_internal {body : Option Bytes} {reply : Reply}
    (h : Replied ((HttpReply.response 500 body).decode layout canonicalReason quackVersion) reply) :
    Negotiable reply := by
  cases h
  exact ⟨_, _, rfl, isVersionNegotiationError_internal _⟩

section
variable {count index : Nat} {previousError : Option QuackError} {versions : List U64}

/-- An attempt that succeeds is the last one. -/
theorem negotiate_found (hversion : quackVersion = quackV1 ∨ quackVersion = quackV3)
    {accepted : Connection × QuackConnectionInfo}
    (h : attemptOutcome quackVersion (replies index) = .ok accepted) :
    negotiate layout prims options replies count previousError index (quackVersion :: versions) =
      ⟨[options.connectionRequest quackVersion], .ok accepted⟩ := by
  obtain ⟨response, hresponse, haccept⟩ := Except.bind_eq_ok h
  rw [negotiate, attemptSend_eq hversion, hresponse]
  simp only [of_attempt_ok haccept]
  rfl

/-- An attempt at v3 that the server does not know is followed by the next one. -/
theorem negotiate_next (hmore : index + 1 < count) (h : Negotiable (replies index)) : ∃ error,
    negotiate layout prims options replies count previousError index (quackV3 :: versions) =
      ⟨options.connectionRequest quackV3 ::
          (negotiate layout prims options replies count (some error) (index + 1) versions).sent,
        (negotiate layout prims options replies count (some error) (index + 1) versions).result⟩ := by
  obtain ⟨stage, error, hreply, hknown⟩ := h
  refine ⟨error, ?_⟩
  rw [negotiate, attemptSend_eq (.inr rfl), hreply]
  simp only
  rw [if_pos ⟨hmore, trivial, hknown⟩]
  rfl

/-- The last attempt fails where the server does not know its version. -/
theorem negotiate_last (hversion : quackVersion = quackV1 ∨ quackVersion = quackV3) (hlast : index + 1 = count)
    (h : Negotiable (replies index)) : ∃ failure,
    negotiate layout prims options replies count previousError index [quackVersion] =
      ⟨[options.connectionRequest quackVersion], .error failure⟩ := by
  obtain ⟨stage, error, hreply, hknown⟩ := h
  rw [negotiate, attemptSend_eq hversion, hreply]
  simp only
  rw [if_neg fun hmore => absurd hmore.1 (by omega)]
  cases previousError with
  | none => exact ⟨_, rfl⟩
  | some previousError =>
      simp only
      rw [if_pos hknown]
      exact ⟨_, rfl⟩

end

theorem versions_cases (options : QuackClientOptions) : options.versions = [] ∨ options.versions = [quackV3] ∨
    options.versions = [quackV1] ∨ options.versions = [quackV3, quackV1] := by
  unfold QuackClientOptions.versions
  rw [List.filter_cons, List.filter_cons, List.filter_nil]
  split <;> split <;> simp

/-! ### Connecting -/

/-- Options that can be used: the range of versions has one that the client knows, and on v3 the heartbeat that is
asked for is in range. -/
structure QuackClientOptions.Usable (options : QuackClientOptions) : Prop where
  range : options.minVersion.toNat ≤ options.maxVersion.toNat
  known : options.versions ≠ []
  heartbeat : quackV3 ∈ options.versions →
    1 ≤ options.heartbeatTimeoutSeconds.toNat ∧ options.heartbeatTimeoutSeconds.toNat ≤ 300
  texts : ∀ quackVersion, ∀ text ∈ (options.connectionRequest quackVersion).texts, HeldText text

theorem connect_usable (h : options.Usable) : connect layout prims options replies =
    negotiate layout prims options replies options.versions.length none 0 options.versions := by
  have hempty : ¬ options.versions.isEmpty = true := by
    rw [List.isEmpty_iff]
    exact h.known
  have hvalid : (if quackV3 ∈ options.versions then validateHeartbeatTimeout options.heartbeatTimeoutSeconds
      else .ok ()) = .ok () := by
    split
    · rename_i hthree
      exact if_pos (h.heartbeat hthree)
    · rfl
  rw [connect, if_neg (Nat.not_lt.mpr h.range), if_neg hempty, hvalid, attempt_ok_bind]

/-- The newest version that both sides speak is the one that they come to. -/
theorem connect_agrees (hoptions : options.Usable) (husable : session.Usable)
    (hserved : ServesAttempts layout prims canonicalReason session options replies)
    (hmem : quackVersion ∈ options.versions) (hspeaks : session.speaks quackVersion = true)
    (hnewest : ∀ other ∈ options.versions, session.speaks other = true → other.toNat ≤ quackVersion.toNat) :
    (connect layout prims options replies).result =
      .ok (session.connection quackVersion, session.info quackVersion) := by
  have hattempt : ∀ {index : Nat} {version : U64}, options.versions[index]? = some version →
      session.speaks version = true → attemptOutcome version (replies index) =
        .ok (session.connection version, session.info version) := by
    intro index version hversion hspeaks
    have hreply := hserved index version hversion
    rw [if_pos hspeaks] at hreply
    have hknown := (mem_versions.mp (List.mem_of_getElem? hversion)).1.symm
    exact attempt_served hknown (hoptions.texts version) husable hreply
  rw [connect_usable hoptions]
  rcases versions_cases options with hversions | hversions | hversions | hversions
  · exact absurd hversions hoptions.known
  · rw [hversions] at hmem
    obtain rfl := List.mem_singleton.mp hmem
    rw [hversions, negotiate_found (.inr rfl) (hattempt (by rw [hversions]; rfl) hspeaks)]
  · rw [hversions] at hmem
    obtain rfl := List.mem_singleton.mp hmem
    rw [hversions, negotiate_found (.inl rfl) (hattempt (by rw [hversions]; rfl) hspeaks)]
  · rw [hversions] at hmem hnewest
    cases hthree : session.speaks quackV3 with
    | true =>
        have hle := hnewest quackV3 (List.mem_cons_self ..) hthree
        have hsame : quackVersion = quackV3 := by
          rcases List.mem_cons.mp hmem with heq | hone
          · exact heq
          · rw [List.mem_singleton.mp hone] at hle
            exact absurd hle (by decide)
        subst hsame
        rw [hversions, negotiate_found (.inr rfl) (hattempt (by rw [hversions]; rfl) hspeaks)]
    | false =>
        have hsame : quackVersion = quackV1 := by
          rcases List.mem_cons.mp hmem with rfl | hone
          · cases hspeaks.symm.trans hthree
          · exact List.mem_singleton.mp hone
        subst hsame
        have hunknown := hserved 0 quackV3 (by rw [hversions]; rfl)
        rw [if_neg (by rw [hthree]; decide)] at hunknown
        rw [hversions]
        obtain ⟨error, hnext⟩ := @negotiate_next layout prims options replies 2 0 none [quackV1] (by decide)
          hunknown
        rw [List.length_cons, List.length_singleton, hnext,
          negotiate_found (.inl rfl) (@hattempt 1 _ (by rw [hversions]; rfl) hspeaks)]

/-- Without a version in common there is no connection. -/
theorem connect_disagrees (hoptions : options.Usable)
    (hserved : ServesAttempts layout prims canonicalReason session options replies)
    (hnone : ∀ version ∈ options.versions, session.speaks version = false) :
    ∃ failure, (connect layout prims options replies).result = .error failure := by
  have hunknown : ∀ {index : Nat} {version : U64}, options.versions[index]? = some version →
      Negotiable (replies index) := by
    intro index version hversion
    have hreply := hserved index version hversion
    rwa [if_neg (by rw [hnone version (List.mem_of_getElem? hversion)]; decide)] at hreply
  rw [connect_usable hoptions]
  rcases versions_cases options with hversions | hversions | hversions | hversions
  · exact absurd hversions hoptions.known
  · obtain ⟨failure, hlast⟩ := @negotiate_last layout prims options replies quackV3 1 0 none (.inr rfl) rfl
      (hunknown (by rw [hversions]; rfl))
    rw [hversions, List.length_singleton, hlast]
    exact ⟨failure, rfl⟩
  · obtain ⟨failure, hlast⟩ := @negotiate_last layout prims options replies quackV1 1 0 none (.inl rfl) rfl
      (hunknown (by rw [hversions]; rfl))
    rw [hversions, List.length_singleton, hlast]
    exact ⟨failure, rfl⟩
  · obtain ⟨error, hnext⟩ := @negotiate_next layout prims options replies 2 0 none [quackV1] (by decide)
      (hunknown (by rw [hversions]; rfl))
    obtain ⟨failure, hlast⟩ := @negotiate_last layout prims options replies quackV1 2 1 (some error) (.inl rfl) rfl
      (hunknown (by rw [hversions]; rfl))
    rw [hversions, List.length_cons, List.length_singleton, hnext, hlast]
    exact ⟨failure, rfl⟩

/-- A connection further on in its session: the counters have moved. -/
structure Connection.Continues (connection later : Connection) : Prop where
  connectionId : later.connectionId = connection.connectionId
  quackVersion : later.quackVersion = connection.quackVersion
  ready : later.closed = false

/-- A client and a server that meet come to the newest version that both speak, or to no connection; and each
query that the server answers on the connection, sooner or later, gives the client the result that it has. -/
theorem session_delivered (hfloat : ∀ bits, prims.f64ToF32 (prims.f32ToF64 bits) = bits)
    (hoptions : options.Usable) (husable : session.Usable)
    (hserved : ServesAttempts layout prims canonicalReason session options replies) :
    ((∀ version ∈ options.versions, session.speaks version = false) →
      ∃ failure, (connect layout prims options replies).result = .error failure) ∧
    ∀ quackVersion ∈ options.versions, session.speaks quackVersion = true →
      (∀ other ∈ options.versions, session.speaks other = true → other.toNat ≤ quackVersion.toNat) →
      (connect layout prims options replies).result =
          .ok (session.connection quackVersion, session.info quackVersion) ∧
        ∀ (later : Connection) (sql : String) (result : ServedResult) (reply : Reply),
          (session.connection quackVersion).Continues later → HeldText sql → result.Deliverable layout →
          Served layout prims canonicalReason quackVersion result.Prepares (later.prepareRequest sql) reply →
          ∃ prepared, (prepareQuery layout prims later sql reply).result = .ok prepared ∧
            prepared.columns = result.names.zipWith ColumnDefinition.mk (result.types.map LogicalType.asRead) ∧
            (prepared.state.needsMoreFetch = false → result.batches = []) ∧
            ∀ answers, FetchesServed layout prims canonicalReason result quackVersion 0
                (queryStream layout prims prepared answers).requests answers →
              Delivers result prepared.state.connection prepared.state.needsMoreFetch answers.length
                (queryStream layout prims prepared answers) := by
  refine ⟨connect_disagrees hoptions hserved, fun quackVersion hmem hspeaks hnewest => ?_⟩
  refine ⟨connect_agrees hoptions husable hserved hmem hspeaks hnewest, ?_⟩
  intro later sql result reply hlater hsql hresult hprepared
  have hversion := (mem_versions.mp hmem).1.symm
  have hsame : later.quackVersion = quackVersion := hlater.quackVersion
  have hid : HeldText later.connectionId := by
    rw [hlater.connectionId]
    exact husable.connectionId
  rw [← hsame] at hversion hprepared ⊢
  obtain ⟨prepared, hok, hcolumns, more, hobtains⟩ :=
    query_obtains hlater.ready hversion hid hsql hfloat hresult hprepared
  exact ⟨prepared, hok, hcolumns, more, fun answers hfetches =>
    (hobtains answers hfetches).delivers hfloat hresult⟩

end

def plainOptions : QuackClientOptions := ⟨none, none, none, none, none, none, none⟩

theorem plainOptions_usable : plainOptions.Usable where
  range := by decide
  known := by decide
  heartbeat _ := by decide
  texts quackVersion text htext := by
    obtain rfl := List.mem_singleton.mp htext
    exact heldText_short (by decide)

/-- A server that speaks version 3 only. -/
def newServer : ServedSession := ⟨fun quackVersion => decide (quackVersion = quackV3), "c", none, none, 60⟩

theorem newServer_usable : newServer.Usable := ⟨heldText_short (by decide), by decide, by decide⟩

def newServerReply : QuackMessage :=
  .connectionResponse ⟨.connectionResponse, some "c", some 1⟩ none none (some quackV3) (some 60)

theorem atMost_connectionRequest : (encodeMessageForVersion .words .floatless
    (plainOptions.connectionRequest quackV3) quackV3).AtMost 512 := by
  have hcode : MessageType.connectionRequest.code < 2 ^ 63 := by decide
  have hnone : (writeUleb (optionalIndexInvalid : U64).toNat).AtMost 10 :=
    .ok (@Varint.length_uleb_le _ 9 (by decide))
  have hheader : (encodeHeader ⟨.connectionRequest, none, none⟩).AtMost (2 + 9 + (0 + (2 + 10 + 0)) + 2) :=
    ((Encode.AtMost.field (.uleb hcode) 1).append ((Encode.AtMost.ok le_rfl).append
      ((Encode.AtMost.field hnone 3).append .nothing))).object
  have hplatform : (writeOptionalString 3 (some "quack-rust")).AtMost (2 + (9 + 10)) :=
    Encode.AtMost.field (.stringBytes (by decide) (heldText_short (by decide))) 3
  have hnumber : ∀ (fieldId : Nat) (number : U64), number.toNat < 2 ^ 63 →
      (writeOptionalIndexDefaultZero fieldId number).AtMost (2 + 9) := by
    intro fieldId number hnumber
    unfold writeOptionalIndexDefaultZero
    split
    · exact .field (.uleb hnumber) fieldId
    · exact .ok (Nat.zero_le _)
  have hbody : (encodeBodyV3 .words .floatless (plainOptions.connectionRequest quackV3)).AtMost
      (0 + (0 + (2 + (9 + 10) + (2 + 9 + (2 + 9 + (0 + (2 + 9 + 0)))))) + 2) :=
    ((Encode.AtMost.ok le_rfl).append ((Encode.AtMost.ok le_rfl).append (hplatform.append
      ((hnumber 4 quackV3 (by decide)).append ((hnumber 5 quackV3 (by decide)).append
        ((Encode.AtMost.ok le_rfl).append ((hnumber 7 60 (by decide)).append .nothing))))))).object
  exact (hheader.append hbody).mono (by decide)

theorem encode_newServerReply : ∃ bytes,
    encodeMessageForVersion .words .floatless newServerReply quackV3 = .ok bytes ∧ Held bytes := by
  have hbody : (encodeBodyV3 .words .floatless newServerReply).AtMost
      (0 + (0 + (2 + 9 + (2 + 9 + 0))) + 2) :=
    ((Encode.AtMost.ok le_rfl).append ((Encode.AtMost.ok le_rfl).append
      ((Encode.AtMost.field (.uleb (by decide)) 3).append
        ((Encode.AtMost.field (.uleb (by decide)) 4).append .nothing)))).object
  refine ⟨_, rfl, held_of_atMost ?_ rfl⟩
  exact ((atMost_liveHeader .connectionResponse (by decide)).append hbody).mono (by decide)

/-- The replies of the server to the attempts: the connection, or a status of 500 for the given reason. -/
def newServerReplies (reason : String) : Nat → Reply
  | 0 => .ok (newServerReply.readWith (storedChunk .floatless) quackV3)
  | _ => .error (.protocol s!"Quack HTTP request failed with {500} {reason}")

theorem newServer_serves (reason : String) :
    ServesAttempts .words .floatless (fun _ => none) newServer plainOptions (newServerReplies reason) := by
  intro index quackVersion hversion
  have hversions : plainOptions.versions = [quackV3, quackV1] := by decide
  have hcases : index = 0 ∧ quackVersion = quackV3 ∨ index = 1 ∧ quackVersion = quackV1 := by
    rw [hversions] at hversion
    obtain ⟨hlt, rfl⟩ := List.getElem?_eq_some_iff.mp hversion
    obtain rfl | rfl : index = 0 ∨ index = 1 := by
      rw [List.length_cons, List.length_singleton] at hlt
      omega
    · exact .inl ⟨rfl, rfl⟩
    · exact .inr ⟨rfl, rfl⟩
  rcases hcases with ⟨rfl, rfl⟩ | ⟨rfl, rfl⟩
  · obtain ⟨bytes, hbytes⟩ := @writes_connectionRequest .words .floatless plainOptions quackV3 (.inr rfl)
    obtain ⟨body, hbody, hheld⟩ := encode_newServerReply
    refine served_intro (.inr rfl) (connectionRequest_inMemory (plainOptions_usable.texts quackV3)) rfl trivial rfl
      hbytes (held_of_atMost atMost_connectionRequest hbytes) ?_ ?_ rfl trivial (fun chunk hmem => by cases hmem)
      hbody hheld
    · exact .intro (by decide) rfl fun _ => rfl
    · refine ⟨fun text htext => ?_, fun T hT => (by cases hT), fits_none _ _, fits_none _ _, fits_none _ _⟩
      obtain rfl := List.mem_singleton.mp htext
      exact heldText_short (by decide)
  · exact @negotiable_internal .words (fun _ => some reason) quackV1 none _ (.error _)

theorem session_delivered_booleans : ∃ prepared,
    (connect .words .floatless plainOptions (newServerReplies "")).result =
        .ok (liveConnection, newServer.info quackV3) ∧
      (prepareQuery .words .floatless liveConnection "SELECT"
        (.ok (booleanPrepared.readWith (storedChunk .floatless) quackV3))).result = .ok prepared ∧
      Delivers booleanResult prepared.state.connection prepared.state.needsMoreFetch 2
        (queryStream .words .floatless prepared [booleanAnswer, lastAnswer]) := by
  have hnewest : ∀ other ∈ plainOptions.versions, newServer.speaks other = true → other.toNat ≤ quackV3.toNat := by
    intro other hmem _
    rcases (mem_versions.mp hmem).1 with rfl | rfl <;> decide
  obtain ⟨-, hagreed⟩ := session_delivered Primitives.floatless_back plainOptions_usable newServer_usable
    (newServer_serves "")
  obtain ⟨hconnect, hqueries⟩ := hagreed quackV3 (by decide) rfl hnewest
  have hcontinues : (newServer.connection quackV3).Continues liveConnection := ⟨rfl, rfl, rfl⟩
  obtain ⟨prepared, hok, -, -, hall⟩ := hqueries liveConnection "SELECT" booleanResult _ hcontinues
    (heldText_short (by decide)) booleanResult_deliverable prepare_booleans
  obtain ⟨hreached, -, -⟩ := prepareQuery_reached (.inr rfl) hok
  obtain ⟨needsMoreFetch, -, hserved⟩ := prepared_served rfl (.inr rfl) (heldText_short (by decide))
    (heldText_short (by decide)) Primitives.floatless_back booleanResult_deliverable prepare_booleans
  cases hok.symm.trans hserved
  exact ⟨_, hconnect, hok, hall _ (fetchesServed_booleans hreached)⟩

end QuackProtocol
