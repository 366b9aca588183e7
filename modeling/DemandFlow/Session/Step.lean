import DemandFlow.Exchange.Consume

/-
  What can be done in a session, what each step gives back, and what a report says.
-/

namespace DemandFlow.Session

/-- What can be done on the transport. -/
inductive TransportStep where
  | publish (m : Message)
  | publishMany (subject : String) (n pad : Nat)
  | inject (target : String) (f : Frame)
  | heartbeat (target : String)
  | stats
  | config
  | pullLog
  | subscribe (id : String)
  | rawPull (target : String) (d : PullRequest.Draft)
  | rawUnsubscribe (target : String)
  | feed (target : String) (fs : List Frame)
  | closeFeed (target : String)
  | fail (subscribe publish : Option TransportError)
  | unsubscribed
  | closeBroker

/-- What can be done with consumers. -/
inductive ConsumerStep where
  | manual (id : String)
  | pull (id : String) (w : Exchange.Wish)
  | next (id : String) (timeout : Span)
  | nextBehind (id : String) (timeout : Span) (tag : String)
  | read (id : String) (timeout : Span)
  | unsubscribe (id : String)
  | fetch (id : String) (s : FetchOptions.Settings)
  | fetchAll (s : FetchOptions.Settings)
  | fetchNext (id : String)
  | fetchBatch (id : String)
  | fetchStream (id : String)
  | consume (id : String) (s : ConsumeOptions.Settings) (h : Handler)
  | drain (id : String) (grace : Span)
  | drainBehind (id : String) (grace : Span) (tag : String)
  | stop (id : String)
  | waitHandled (id : String) (n : Nat) (limit : Span)
  | drop (id : String)
  | dropOutside (id : String)
  | describe (id : String)

/-- What can be done in a session. -/
inductive Step where
  | advance (d : Span)
  | transport (t : TransportStep)
  | consumer (c : ConsumerStep)
  | context
  | recorded
  | assertCounter (name : String) (expected : Nat)
  | find (needle : String)

/-- What a step gives back. -/
inductive Reply where
  | nothing
  | text (s : String)
  | texts (l : List String)
  | count (n : Nat)
  | capacity (n : Nat)
  | counts (l : List Nat)
  | flag (b : Bool)
  | limits (l : Broker.Limits)
  | carried (l : List (String × PullRequest))
  | started (inbox : String) (o : ConsumeOptions)
  | notices (l : List Notice)
  | answer (a : Answer)
  | failed (e : Failure)
  | hang

/-- What is known of a consumer after a step. -/
inductive Condition where
  | manual (d : Demand) (closed : Bool)
  | fetch (d : Demand) (f : Fetch)
  | continuous (d : Demand) (mode : Mode)

structure Report where
  reply : Reply
  now : Nat
  frames : List (String × Frame)
  handled : List (String × Message)
  notices : List Notice
  behind : List (String × Answer)
  log : List Log.Entry
  found : List String
  consumers : List (String × Condition)
  /-- Totals since the session began. -/
  counters : Counters
  /-- Pulls that went out in this step. -/
  pulls : Nat

/-- How a session is set up. -/
structure Setup where
  transport : Transport
  keepsNotices : Bool
  queueCapacity : Nat
  /-- Whether log entries are kept until they are looked for. -/
  keepsLog : Bool

end DemandFlow.Session
