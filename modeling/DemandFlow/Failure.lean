import DemandFlow.Span

/-
  Causes of failure and their wording. Options are rejected before anything reaches the
  transport; a fatal status, silence and a transport that cannot carry a request are told apart;
  `Failure.overflow` is the one call that ends without an answer, when a span times a number
  passes the longest span.
-/

namespace DemandFlow

/-- Options that cannot be used. -/
inductive ConfigError where
  | invalidBatchSize (n : Nat)
  | invalidThreshold (percent : Nat)
  | expiresTooShort (least actual : Span)
  | missingTimeout
  | heartbeatTooLong (most actual : Span)
  | heartbeatExceedsExpiry (heartbeat expires : Span)
deriving DecidableEq

/-- A fatal status. -/
structure StatusError where
  code : Nat
  text : String
deriving DecidableEq

/-- Why a transport did not carry a request. -/
inductive TransportError where
  | closed
  | encode
  | other (reason : String)
deriving DecidableEq

/-- What a consumer reports to its caller. -/
inductive ConsumerError where
  | config (e : ConfigError)
  | status (e : StatusError)
  | liveness (silentFor : Span)
  | transport (e : TransportError)
  | closed
deriving DecidableEq

/-- How a call can fail. -/
inductive Failure where
  | error (e : ConsumerError)
  | overflow
deriving DecidableEq

namespace ConfigError

def message : ConfigError → String
  | .invalidBatchSize n => s!"invalid batch size {n}; must be >= 1"
  | .invalidThreshold p => s!"invalid threshold percent {p}; must be between 1 and 100"
  | .expiresTooShort least actual =>
    "expires in " ++ actual.text ++ " is below the minimum of " ++ least.text
  | .missingTimeout => "a non-zero timeout is required"
  | .heartbeatTooLong most actual =>
    "idle heartbeat " ++ actual.text ++ " exceeds the maximum of " ++ most.text
  | .heartbeatExceedsExpiry heartbeat expires =>
    "idle heartbeat " ++ heartbeat.text ++ " must be less than half of expires in " ++ expires.text

/-- The error as a program that stops with it shows it. -/
def description : ConfigError → String
  | .invalidBatchSize n => s!"InvalidBatchSize({n})"
  | .invalidThreshold p => s!"InvalidThreshold({p})"
  | .expiresTooShort least actual =>
    "ExpiresTooShort \x7b min: " ++ least.text ++ ", actual: " ++ actual.text ++ " \x7d"
  | .missingTimeout => "MissingTimeout"
  | .heartbeatTooLong most actual =>
    "HeartbeatTooLong \x7b max: " ++ most.text ++ ", actual: " ++ actual.text ++ " \x7d"
  | .heartbeatExceedsExpiry heartbeat expires =>
    "HeartbeatExceedsExpiry \x7b heartbeat: " ++ heartbeat.text ++ ", expires: " ++ expires.text
      ++ " \x7d"

end ConfigError

def StatusError.message (e : StatusError) : String :=
  s!"pull status error {e.code}: {e.text}"

def livenessMessage (silentFor : Span) : String :=
  "no heartbeat or message received for " ++ silentFor.text ++ " while demand was outstanding"

namespace TransportError

def message : TransportError → String
  | .closed => "transport closed"
  | .encode => "failed to encode pull request"
  | .other reason => "transport failure: " ++ reason

/-- Whether another error stands behind this one. -/
def hasSource : TransportError → Bool
  | .closed => false
  | .encode => true
  | .other _ => true

end TransportError

namespace ConsumerError

def message : ConsumerError → String
  | .config e => e.message
  | .status e => e.message
  | .liveness silentFor => livenessMessage silentFor
  | .transport e => e.message
  | .closed => "consumer is closed"

/-- The status behind the error, when it is a rejection by the broker. -/
def status? : ConsumerError → Option StatusError
  | .status e => some e
  | _ => none

def isLiveness : ConsumerError → Bool
  | .liveness _ => true
  | _ => false

def hasSource : ConsumerError → Bool
  | .transport e => e.hasSource
  | _ => false

end ConsumerError

namespace Failure

def ofConfig (e : ConfigError) : Failure := .error (.config e)

def ofTransport (e : TransportError) : Failure := .error (.transport e)

def message : Failure → String
  | .error e => e.message
  | .overflow => "overflow when multiplying duration by scalar"

end Failure

end DemandFlow
