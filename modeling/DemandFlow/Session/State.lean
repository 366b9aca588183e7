import DemandFlow.Session.Step

/-
  The state of a session: an exchange, and the names that were given to consumers, raw feeds and
  calls in the background. The functions here run one call or one change of the exchange until
  everything waits.
-/

namespace DemandFlow.Session

structure State where
  exchange : Exchange
  consumers : List (String × Nat)
  raws : List (String × Nat)
  /-- The name under which each subscription was opened. -/
  names : List (Nat × String)
  /-- The tags of the calls in the background. -/
  tags : List (Nat × String)
  notices : List Notice
  keepsLog : Bool
  log : List Log.Entry

def State.start (s : Setup) : State :=
  ⟨.start s.transport s.keepsNotices s.queueCapacity, [], [], [], [], [], s.keepsLog, []⟩

namespace State

def sub? (s : State) (id : String) : Option Nat := s.consumers.lookup id

/-- The inbox that a name stands for: that of a consumer or a raw feed, or the name itself. -/
def inboxOf (s : State) (target : String) : String :=
  let viaSub := (s.sub? target).bind fun i => s.exchange.subs[i]?.map Subscription.inbox
  let viaRaw := (s.raws.lookup target).bind fun i => s.exchange.feeds[i]?.map Feed.inbox
  (viaSub.or viaRaw).getD target

def inbox (s : State) (i : Nat) : String :=
  (s.exchange.subs[i]?.map Subscription.inbox).getD ""

/-- The session on another exchange. -/
def put (s : State) (x : Exchange) : State := { s with exchange := x }

/-- Everything runs until it waits. -/
def settled (s : State) (x : Exchange) (r : Reply) : State × Reply :=
  (s.put (x.settle Exchange.stepFuel), r)

def ofAnswer : Option Answer → Reply
  | some a => .answer a
  | none => .hang

/-- A call in the foreground. -/
def called (s : State) (x : Exchange) (a : Activity) : State × Reply :=
  let (x, answer) := x.call a
  (s.put x, ofAnswer answer)

/-- A call in the background. -/
def calledBehind (s : State) (x : Exchange) (a : Activity) (tag : String) : State × Reply :=
  let (x, id) := x.callBehind a
  { s with tags := s.tags ++ [(id, tag)] }.settled x .nothing

/-- Nothing but waiting: the step names a consumer that is not there. -/
def absent (s : State) : State × Reply := s.settled s.exchange .nothing

def ofResult (r : Except Failure Unit) : Reply :=
  match r with
  | .ok () => .text "ok"
  | .error e => .failed e

/-- Keep a subscription under a name; one that had the name before is dropped. -/
def keep (s : State) (id : String) (i : Nat) : State :=
  let x :=
    match s.sub? id with
    | some old => s.exchange.discard old true
    | none => s.exchange
  { s with
    exchange := x
    consumers := s.consumers.filter (fun c => c.1 != id) ++ [(id, i)]
    names := s.names ++ [(i, id)] }

/-- Keep a raw feed under a name. -/
def keepRaw (s : State) (id : String) (i : Nat) : State :=
  { s with raws := s.raws.filter (fun c => c.1 != id) ++ [(id, i)] }

/-- Keep what was opened, if it was. -/
def opened (s : State) (id : String) (x : Exchange) (r : Except Failure Nat)
    (reply : State → Nat → Reply) : State × Reply :=
  match r with
  | .error e => (s.put x).settled x (.failed e)
  | .ok i =>
    let s := (s.put x).keep id i
    s.settled s.exchange (reply s i)

def replyInbox (s : State) (i : Nat) : Reply := .text (s.inbox i)

/-- Drop a consumer or a raw feed, and whether it was there. -/
def dropped (s : State) (id : String) (inside : Bool) : State × Reply :=
  match s.sub? id, s.raws.lookup id with
  | some i, _ =>
    let s := { s with consumers := s.consumers.filter fun c => c.1 != id }
    s.settled (s.exchange.discard i inside) (.flag true)
  | none, some i =>
    let s := { s with raws := s.raws.filter fun c => c.1 != id }
    s.settled (s.exchange.abandonFeed i) (.flag true)
  | none, none => s.settled s.exchange (.flag false)

/-- With the consumer of a name, or nothing. -/
def withSub (s : State) (id : String) (f : Nat → State × Reply) : State × Reply :=
  match s.sub? id with
  | none => s.absent
  | some i => f i

end State

end DemandFlow.Session
