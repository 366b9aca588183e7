import DemandFlow.Demand
import DemandFlow.Frame.Disposition
import DemandFlow.Log

/-
  The log entries that the program writes, one function for each: its level, its text and the
  order of its fields. An inbox is quoted in some entries and bare in others.
-/

namespace DemandFlow.Journal

open Log (Entry Value)

/-! ## Origins -/

def inDemand : String := "pullwire::demand"
def inMonitor : String := "pullwire::heartbeat"
def inManager : String := "pullwire::manager"
def inListener : String := "pullwire::listener"
def inWorker : String := "pullwire::subscription::worker"
def inSubscription : String := "pullwire::subscription"
def inFetch : String := "pullwire::consumer::fetch"
def inContinuous : String := "pullwire::consumer::simple"
def inLoopback : String := "pullwire::loopback"
def inBroker : String := "pullwire::loopback::broker"

/-- The field `inbox`, quoted. -/
def quotedInbox (inbox : String) : String × Value := ("inbox", .plain inbox)

/-- The field `inbox`, bare. -/
def bareInbox (inbox : String) : String × Value := ("inbox", .shown inbox)

/-! ## Demand and liveness -/

def windowClosed : Entry :=
  ⟨.debug, inDemand, "pull demand exhausted; accounting window closed", []⟩

def pullStarted (r : PullRequest) (d : Demand) : Entry :=
  ⟨.debug, inDemand, "pull request started",
    [("batch", .count r.batch), ("max_bytes", .count r.maxBytes),
     ("pending_messages", .count d.messages), ("pending_bytes", .count d.bytes)]⟩

def pullWithdrawn (r : PullRequest) (d : Demand) : Entry :=
  ⟨.debug, inDemand, "pull request withdrawn",
    [("batch", .count r.batch), ("max_bytes", .count r.maxBytes),
     ("pending_messages", .count d.messages)]⟩

def monitorStopped : Entry := ⟨.debug, inMonitor, "heartbeat monitor stopped", []⟩

def silence (silentFor : Span) : Entry :=
  ⟨.warn, inMonitor, "heartbeat alarm", [("silent_for", .shown silentFor.text)]⟩

/-! ## Frames -/

def messageAccounted (m : Message) : Entry :=
  ⟨.trace, inManager, "message accounted", [("subject", .plain m.subject)]⟩

def heartbeatReceived (s : Status) : Entry :=
  ⟨.trace, inManager, "heartbeat received", [("text", .plain s.text)]⟩

def statusReceived (s : Status) : Entry :=
  ⟨.debug, inManager, "status received",
    [("code", .count s.code), ("text", .plain s.text),
     ("disposition", .plain s.disposition.name)]⟩

def feedEnded (inbox : String) : Entry :=
  ⟨.debug, inWorker, "frame feed ended", [quotedInbox inbox]⟩

def workerStopped (inbox : String) : Entry :=
  ⟨.debug, inWorker, "delivery worker stopped", [quotedInbox inbox]⟩

def fatalStatus (inbox : String) (s : Status) : Entry :=
  ⟨.warn, inWorker, "fatal pull status; further pulls are futile",
    [quotedInbox inbox, ("code", .count s.code)]⟩

/-! ## The logging listener -/

def statusWarning (inbox : String) (s : Status) : Entry :=
  ⟨.warn, inListener, "pull status warning",
    [quotedInbox inbox, ("code", .count s.code), ("text", .plain s.text)]⟩

def statusError (inbox : String) (s : Status) : Entry :=
  ⟨.error, inListener, "pull status error",
    [quotedInbox inbox, ("code", .count s.code), ("text", .shown s.text)]⟩

def alarm (inbox : String) (silentFor : Span) : Entry :=
  ⟨.warn, inListener, "heartbeat alarm",
    [quotedInbox inbox, ("silent_for", .shown silentFor.text)]⟩

/-! ## Subscriptions -/

def subscriptionOpened (inbox : String) : Entry :=
  ⟨.info, inSubscription, "subscription opened", [bareInbox inbox]⟩

def subscriptionClosed (inbox : String) : Entry :=
  ⟨.info, inSubscription, "subscription closed", [bareInbox inbox]⟩

def subscriptionDropped (inbox : String) : Entry :=
  ⟨.debug, inSubscription, "subscription dropped", [bareInbox inbox]⟩

def publishingPull (inbox : String) (r : PullRequest) : Entry :=
  ⟨.debug, inSubscription, "publishing pull request",
    [bareInbox inbox, ("batch", .count r.batch), ("max_bytes", .count r.maxBytes),
     ("no_wait", .flag r.noWait)]⟩

def pullNotPublished (inbox : String) (e : TransportError) : Entry :=
  ⟨.warn, inSubscription, "pull request not published",
    [bareInbox inbox, ("error", .shown e.message)]⟩

/-! ## Consumers -/

def refilling (inbox : String) (r : PullRequest) : Entry :=
  ⟨.debug, inContinuous, "refilling demand",
    [quotedInbox inbox, ("batch", .count r.batch), ("max_bytes", .count r.maxBytes)]⟩

def refillFailed (inbox : String) (e : ConsumerError) : Entry :=
  ⟨.warn, inContinuous, "refill failed", [quotedInbox inbox, ("error", .shown e.message)]⟩

def handlerFailed (inbox cause : String) : Entry :=
  ⟨.error, inContinuous, "message handler panicked",
    [quotedInbox inbox, ("panic", .shown cause)]⟩

def batchEnded (inbox : String) (s : Status) : Entry :=
  ⟨.debug, inContinuous, "batch ended",
    [quotedInbox inbox, ("code", .count s.code), ("text", .plain s.text)]⟩

def consumerStarted (inbox : String) (batch bytes threshold : Nat) : Entry :=
  ⟨.info, inContinuous, "consumer started",
    [quotedInbox inbox, ("batch", .count batch), ("batch_bytes", .count bytes),
     ("threshold_percent", .count threshold)]⟩

def consumerDraining (inbox : String) (grace : Span) : Entry :=
  ⟨.info, inContinuous, "consumer draining",
    [quotedInbox inbox, ("grace", .shown grace.text)]⟩

def graceElapsed (inbox : String) (d : Demand) : Entry :=
  ⟨.debug, inContinuous, "grace period elapsed with demand outstanding",
    [quotedInbox inbox, ("pending", .shown d.text)]⟩

def fetchFinished (inbox reason : String) (messages bytes : Nat) : Entry :=
  ⟨.debug, inFetch, "fetch finished",
    [quotedInbox inbox, ("reason", .plain reason), ("messages", .count messages),
     ("bytes", .count bytes)]⟩

/-! ## The broker -/

def commandDropped : Entry :=
  ⟨.debug, inLoopback, "loopback broker stopped; command dropped", []⟩

def pullEncoded (inbox : String) (bytes : Nat) : Entry :=
  ⟨.trace, inLoopback, "pull request encoded", [quotedInbox inbox, ("bytes", .count bytes)]⟩

def frameDropped (inbox : String) : Entry :=
  ⟨.trace, inBroker, "frame for unknown inbox dropped", [quotedInbox inbox]⟩

def feedClosed (inbox : String) : Entry :=
  ⟨.debug, inBroker, "feed closed; dropping subscription", [quotedInbox inbox]⟩

def messagePublished (m : Message) : Entry :=
  ⟨.trace, inBroker, "message published", [("subject", .plain m.subject)]⟩

def subscriptionRegistered (inbox : String) : Entry :=
  ⟨.debug, inBroker, "subscription registered", [bareInbox inbox]⟩

def subscriptionRemoved (inbox : String) : Entry :=
  ⟨.debug, inBroker, "subscription removed", [bareInbox inbox]⟩

def pullIgnored (inbox : String) : Entry :=
  ⟨.debug, inBroker, "pull for unknown inbox ignored", [bareInbox inbox]⟩

def pullRefused (inbox : String) (s : Status) : Entry :=
  ⟨.debug, inBroker, "pull refused",
    [bareInbox inbox, ("code", .count s.code), ("text", .plain s.text)]⟩

def brokerStopped (stats : String) : Entry :=
  ⟨.debug, inBroker, "loopback broker stopped", [("stats", .shown stats)]⟩

end DemandFlow.Journal
