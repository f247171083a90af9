/-
The error kinds of the client. An error's cause chain is not read by any modelled function, so an
error is its kind.
-/
import TokioMqtt.Proto.Types

namespace TokioMqtt

open Proto

/-- The kinds of `errors::proto`. -/
inductive ProtoErrorKind where
  | responseTimeout (p : PacketType)
  | unexpectedResponse (p : PacketType)
  | connectionRefused (c : ConnRetCode)
  | subscriptionRejected (t : String) (q : QualityOfService)
  | qualityOfServiceError (q : QualityOfService) (s : String)
  deriving DecidableEq

inductive ErrorKind where
  | protocol (k : ProtoErrorKind)
  | persistenceError
  | stringConversionError
  | packetDecodingError
  | packetEncodingError (p : MqttPacket)
  | loopError
  | invalidTopicFilter
  | alreadyConnected
  | clientUnavailable
  deriving DecidableEq

/-- Why a thread panics. -/
inductive Panic where
  /-- An `unreachable!()` arm was reached. -/
  | unreachable
  /-- `unwrap` was called on `None` or on an error. -/
  | unwrap
  /-- An arithmetic operation overflowed. -/
  | overflow
  deriving DecidableEq, Repr

/-- The result of a call: a value, an error, or a panic. -/
inductive Outcome (α : Type) where
  | ok (a : α)
  | err (e : ErrorKind)
  | panic (p : Panic)
  deriving DecidableEq

def Outcome.isPanic {α : Type} : Outcome α → Bool
  | .panic _ => true
  | _ => false

end TokioMqtt
