import DemandFlow.Broker.State
import DemandFlow.Counters
import DemandFlow.Feed
import DemandFlow.Log
import DemandFlow.Subscription

/-
  One broker, or a scripted stand-in for it, with every subscription on it and everyone who waits
  for an answer: the state of an exchange. Feeds carry frames from the broker to subscriptions;
  each subscription has a worker that takes the frames in and an alarm task that watches for
  silence. Tasks that can run stand in line in `ready`; sleepers stand in `timers` in the order
  in which they went to sleep.
-/

namespace DemandFlow

/-! ## Callers -/

/-- What a call gives back. -/
inductive Answer where
  | done
  | flag (b : Bool)
  | reading (r : Reading)
  | readings (got : List Message) (last : Reading)
  | batch (ms : List Message)
  | stream (items : List (Except ConsumerError Message))
  | stats (s : Broker.Stats)
  | pulls (rs : List PullRequest)

/-- How the messages of a fetch are asked for, with what it has given so far, the latest first. -/
inductive FetchMode where
  | one
  | batch (got : List Message)
  | stream (items : List (Except ConsumerError Message))

/-- The answer when a fetch ends with a reading that is no message. -/
def FetchMode.last (mode : FetchMode) (r : Reading) : Answer :=
  match mode, r with
  | .one, r => .reading r
  | .batch _, .error e => .reading (.error e)
  | .batch got, .ok _ => .batch got.reverse
  | .stream items, .error e => .stream (.error e :: items).reverse
  | .stream items, .ok _ => .stream items.reverse

/-- What a caller waits for; a reader of all messages keeps them with the latest first. -/
inductive Activity where
  | sleep (due : Nat)
  | read (sub : Nat) (due : Option Nat)
  | readAll (sub : Nat) (timeout : Span) (due : Option Nat) (got : List Message)
  | fetch (sub : Nat) (mode : FetchMode)
  | drain (sub : Nat) (due : Nat)
  | leave (sub : Nat) (answer : Answer)
  | watch (sub : Option Nat) (handled due : Nat)
  | ask

/-- The subscription that an activity uses. -/
def Activity.sub? : Activity → Option Nat
  | .sleep _ => none
  | .read i _ => some i
  | .readAll i _ _ _ => some i
  | .fetch i _ => some i
  | .drain i _ => some i
  | .leave i _ => some i
  | .watch i _ _ => i
  | .ask => none

structure Caller where
  id : Nat
  activity : Activity

/-! ## Tasks -/

/-- Everything that can run. -/
inductive Task where
  | broker
  | alarm (sub : Nat)
  | worker (sub : Nat)
  | farewell (sub : Nat)
  | caller (id : Nat)
deriving DecidableEq

/-- A task that sleeps until `due`, in whole milliseconds. -/
structure Timer where
  task : Task
  due : Nat

/-! ## The transport -/

/-- A broker with the commands that it has not taken in. -/
structure Loopback where
  broker : Broker.State
  commands : Fifo Broker.Command
  alive : Bool
  /-- Whether anyone can still send commands. -/
  held : Bool
  nextInbox : Nat
  nextSequence : Nat

/-- A stand-in for the broker that does what it is told. -/
structure Script where
  nextInbox : Nat
  subscribeFault : Option TransportError
  publishFault : Option TransportError
  pulls : List (String × PullRequest)
  released : List String

/-- A broker that has heard of nothing yet, alive or gone already. -/
def Loopback.start (l : Broker.Limits) (alive : Bool) : Loopback :=
  ⟨.start l, .empty, alive, true, 1, 1⟩

/-- A script that does not fail. -/
def Script.start : Script := ⟨1, none, none, [], []⟩

inductive Transport where
  | loopback (l : Loopback)
  | scripted (s : Script)

/-! ## The exchange -/

/-- What a listener is told. -/
inductive Notice where
  | warning (inbox : String) (s : Status)
  | error (inbox : String) (s : Status)
  | alarm (inbox : String) (silentFor : Span)

structure Exchange where
  now : Nat
  transport : Transport
  /-- Whether notices are kept; else they are logged. -/
  keepsNotices : Bool
  queueCapacity : Nat
  feeds : Array Feed
  subs : Array Subscription
  callers : List Caller
  nextCaller : Nat
  /-- The caller that everyone else goes before. -/
  foreground : Option Nat
  foregroundReady : Bool
  ready : List Task
  timers : List Timer
  counters : Counters
  log : Array Log.Entry
  notices : List Notice
  handled : Array (Nat × Message)
  answers : List (Nat × Answer)

namespace Exchange

def start (t : Transport) (keepsNotices : Bool) (queueCapacity : Nat) : Exchange where
  now := 0
  transport := t
  keepsNotices := keepsNotices
  queueCapacity := queueCapacity
  feeds := #[]
  subs := #[]
  callers := []
  nextCaller := 0
  foreground := none
  foregroundReady := false
  ready := []
  timers := []
  counters := .start
  log := #[]
  notices := []
  handled := #[]
  answers := []

end Exchange

end DemandFlow
