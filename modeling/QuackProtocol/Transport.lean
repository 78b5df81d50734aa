import QuackProtocol.Client
import QuackProtocol.FetchOrder
import QuackProtocol.MessagesRoundTrip
import QuackProtocol.PrefixFree

/-! The transport (`client.rs`). A message is posted as bytes, and the body of a response that reports
success is decoded in the version of the request; what the rest of the client sees of an exchange is the
message or the error that comes of it. -/

open Decoding Sending

namespace QuackProtocol

/-- What the HTTP client gives for a POST: an error, or a status with the body, which may still fail to be
read. -/
inductive HttpReply where
  | failed
  | response (status : Nat) (body : Option Bytes)

/-- `StatusCode::is_success`. -/
def isSuccess (status : Nat) : Bool := decide (200 ≤ status ∧ status < 300)

section
variable (layout : Layout) (prims : Primitives) (canonicalReason : Nat → Option String)

/-- The message in a response, or what is wrong with it. -/
def HttpReply.decode (quackVersion : U64) : HttpReply → Outcome QuackError QuackMessage
  | .failed => .err .http
  | .response status body =>
    if !isSuccess status then
      let reason := (canonicalReason status).getD ""
      .err (.protocol s!"Quack HTTP request failed with {status} {reason}")
    else
      match body with
      | none => .err .http
      | some bytes => decodeMessageForVersion layout bytes quackVersion

/-- `Transport::send`, where `post` is what comes back for the bytes that are posted. -/
def Transport.send (message : QuackMessage) (quackVersion : U64) (post : Bytes → HttpReply) :
    Outcome QuackError QuackMessage := do
  let bytes ← encodeMessageForVersion layout prims message quackVersion
  let decoded ← (post bytes).decode layout canonicalReason quackVersion
  match decoded with
  | .errorResponse _ message => .err (.server message)
  | decoded => pure decoded

end

/-- The reply that an exchange comes to, unless the client panics over it. -/
inductive Replied : Outcome QuackError QuackMessage → Reply → Prop where
  | message (message : QuackMessage) : Replied (.ok message) (.ok message)
  | error (error : QuackError) : Replied (.err error) (.error error)

/-- What a call comes to, whatever the stage at which it failed. -/
def outcomeOf {α : Type} : Except Failure α → Outcome QuackError α
  | .ok value => .ok value
  | .error (.error _ error) => .err error
  | .error (.panic cause) => .panic cause

section
variable {layout : Layout} {prims : Primitives} {canonicalReason : Nat → Option String} {quackVersion : U64}
  {message : QuackMessage} {reply : Reply} {bytes body : Bytes} {status : Nat}

theorem decode_success (hstatus : isSuccess status = true) :
    (HttpReply.response status (some body)).decode layout canonicalReason quackVersion =
      decodeMessageForVersion layout body quackVersion := by
  rw [HttpReply.decode, hstatus]
  rfl

/-- The calls of a connection are those of the transport, with the reply that its exchange comes to. -/
theorem connection_send_eq {connection : Connection} {post : Bytes → HttpReply}
    (hreply : ∀ bytes, encodeMessageForVersion layout prims message connection.quackVersion = .ok bytes →
      Replied ((post bytes).decode layout canonicalReason connection.quackVersion) reply) :
    outcomeOf (connection.send layout prims message reply).result =
      Transport.send layout prims canonicalReason message connection.quackVersion post := by
  unfold Connection.send Transport.send
  cases hbytes : encodeMessageForVersion layout prims message connection.quackVersion with
  | err e => rfl
  | panic cause => rfl
  | ok bytes =>
      have hreplied := hreply bytes hbytes
      rw [Outcome.ok_bind]
      cases hdecode : (post bytes).decode layout canonicalReason connection.quackVersion with
      | panic cause =>
          rw [hdecode] at hreplied
          cases hreplied
      | err e =>
          rw [hdecode] at hreplied
          cases hreplied
          rfl
      | ok decoded =>
          rw [hdecode] at hreplied
          cases hreplied
          cases decoded <;> rfl

end

end QuackProtocol
