import DemandFlow.Exchange.Subscribe

/-
  Callers. A caller is at one activity at a time; each step either gets it further or finds that
  it has to wait. A read takes the next delivery, finds the queue at its end or runs out of time;
  what is there goes before the time.
-/

namespace DemandFlow.Exchange

/-- Take a caller out of the line of readers; the next one looks. -/
def leaveLine (x : Exchange) (id i : Nat) : Exchange :=
  match x.subs[i]? with
  | none => x
  | some s =>
    let rest := s.readers.filter (· ≠ id)
    (x.modifySub i fun s => { s with readers := rest }).wakeAll
      ((rest.head?.map Task.caller).toList)

def joinLine (x : Exchange) (id i : Nat) : Exchange :=
  x.modifySub i fun s => { s with readers := s.readers ++ [id] }

/-- What a look at the queue can come to. -/
inductive Look where
  | taken (d : Option Delivery)
  | late
  | waiting

/-- Look at the queue of a subscription. -/
def look (x : Exchange) (id i : Nat) (s : Subscription) (due : Option Nat) : Exchange × Look :=
  let late := (due.filter (· ≤ x.now)).isSome
  if s.readers.head? = some id then
    match s.queue.pop? with
    | some (d, rest) =>
      let x := x.modifySub i fun s => { s with queue := rest }
      ((x.wake (.worker i)).leaveLine id i, .taken (some d))
    | none =>
      if s.worker = .ended then (x.leaveLine id i, .taken none)
      else if late then (x.leaveLine id i, .late)
      else (x, .waiting)
  else if late then (x.leaveLine id i, .late)
  else (x, .waiting)

/-- The caller sleeps while it waits, if its time is limited. -/
def waitUntil (x : Exchange) (id : Nat) (due : Option Nat) : Exchange :=
  match due with
  | none => x
  | some due => x.keepTimer (.caller id) due

/-- The reading that a look comes to, unless it has to wait. -/
def Look.reading? : Look → Option Reading
  | .taken d => some (Delivery.reading d)
  | .late => some (.ok none)
  | .waiting => none

/-! ## Reading -/

def readStepOf (x : Exchange) (id i : Nat) (due : Option Nat) : Exchange × Bool :=
  match x.subs[i]? with
  | none => (x.finish id (.reading (.ok none)), false)
  | some s =>
    let (x, l) := x.look id i s due
    match l.reading? with
    | some r => (x.finish id (.reading r), false)
    | none => (x.waitUntil id due, false)

/-- The instant at which a read that starts now is late; without a timeout it never is. -/
def dueIn (x : Exchange) (timeout : Span) : Option Nat :=
  if timeout.isZero then none else some (waitEnd x.now timeout)

/-- Read message after message until there is none or an error. -/
def readAllStep (x : Exchange) (id i : Nat) (timeout : Span) (due : Option Nat)
    (got : List Message) : Exchange × Bool :=
  match x.subs[i]? with
  | none => (x.finish id (.readings got.reverse (.ok none)), false)
  | some s =>
    let (x, l) := x.look id i s due
    match l.reading? with
    | some (.ok (some m)) =>
      let x := x.setActivity id (.readAll i timeout (x.dueIn timeout) (m :: got))
      (x.joinLine id i, true)
    | some r => (x.finish id (.readings got.reverse r), false)
    | none => (x.waitUntil id due, false)

/-! ## Fetching -/

/-- A fetch ends: its subscription is closed and the caller waits until that is over. -/
def endFetch (x : Exchange) (id i : Nat) (f : Fetch) (due : Nat) (reason : String)
    (answer : Answer) : Exchange :=
  let x := x.modifySub i fun s => { s with purpose := .fetch f.finish due }
  let inbox := ((x.subs[i]?).map Subscription.inbox).getD ""
  let x := x.note (Journal.fetchFinished inbox reason f.messages f.bytes)
  (x.unsubscribe i).setActivity id (.leave i answer)

/-- A fetch has a message more; unless one was all that was asked for, it goes on. -/
def gotMessage (x : Exchange) (id i : Nat) (mode : FetchMode) (m : Message) : Exchange × Bool :=
  match mode with
  | .one => (x.finish id (.reading (.ok (some m))), false)
  | .batch got => ((x.setActivity id (.fetch i (.batch (m :: got)))).joinLine id i, true)
  | .stream items =>
    ((x.setActivity id (.fetch i (.stream (.ok m :: items)))).joinLine id i, true)

def fetchStep (x : Exchange) (id i : Nat) (mode : FetchMode) : Exchange × Bool :=
  match x.subs[i]? with
  | none => (x.finish id (mode.last (.ok none)), false)
  | some s =>
    match s.purpose with
    | .fetch f due =>
      if f.finished then ((x.leaveLine id i).finish id (mode.last (.ok none)), false)
      else if f.isFull then
        ((x.leaveLine id i).endFetch id i f due Fetch.fullReason (mode.last (.ok none)), true)
      else
        match x.look id i s (some due) with
        | (x, .waiting) => (x.waitUntil id (some due), false)
        | (x, .late) => (x.endFetch id i f due Fetch.lateReason (mode.last (.ok none)), true)
        | (x, .taken d) =>
          match d, Fetch.endReason? d with
          | some (.message m), _ =>
            let x := x.modifySub i fun s => { s with purpose := .fetch (f.receive m) due }
            x.gotMessage id i mode m
          | _, some reason => (x.endFetch id i f due reason (mode.last (Delivery.reading d)), true)
          | _, none => (x, false)
    | _ => (x.finish id (mode.last (.ok none)), false)

/-! ## Draining and waiting -/

/-- Close a continuous consumer. -/
def closeContinuous (x : Exchange) (i : Nat) : Exchange :=
  x.modifySub i fun s =>
    match s.purpose with
    | .continuous c => { s with purpose := .continuous c.close }
    | _ => s

/-- Close a continuous consumer and wait until its subscription is over. -/
def stopWith (x : Exchange) (id i : Nat) (answer : Answer) : Exchange :=
  ((x.closeContinuous i).unsubscribe i).setActivity id (.leave i answer)

/-- Wait for the demand to be exhausted, until the timer of the grace goes off. -/
def drainStep (x : Exchange) (id i : Nat) (due : Nat) : Exchange × Bool :=
  match x.subs[i]? with
  | none => (x.finish id (.flag false), false)
  | some s =>
    if s.tracker.isExhausted then (x.stopWith id i (.flag true), true)
    else if wholeMillis due ≤ x.now then
      ((x.note (Journal.graceElapsed s.inbox s.demand)).stopWith id i (.flag false), true)
    else (x.keepTimer (.caller id) due, false)

def leaveStep (x : Exchange) (id i : Nat) (answer : Answer) : Exchange × Bool :=
  match x.subs[i]? with
  | none => (x.finish id answer, false)
  | some s => if s.isOver then (x.finish id answer, false) else (x, false)

/-- The messages that the handler of a subscription has taken in. -/
def handledOf (x : Exchange) (i : Option Nat) : Nat :=
  match i.bind fun i => x.subs[i]? with
  | some { purpose := .continuous c, .. } => c.handled
  | _ => 0

/-- Look every millisecond whether a handler has taken in so many messages. -/
def watchStep (x : Exchange) (id : Nat) (i : Option Nat) (handled due : Nat) : Exchange × Bool :=
  if handled ≤ x.handledOf i then (x.finish id (.flag true), false)
  else if due ≤ x.now then (x.finish id (.flag false), false)
  else (x.keepTimer (.caller id) (x.now + Span.nanosPerMilli), false)

def callerStep (x : Exchange) (id : Nat) : Exchange × Bool :=
  match x.callers.find? fun c => c.id = id with
  | none => (x, false)
  | some c =>
    match c.activity with
    | .sleep due =>
      if due ≤ x.now then (x.finish id .done, false) else (x.keepTimer (.caller id) due, false)
    | .read i due => x.readStepOf id i due
    | .readAll i timeout due got => x.readAllStep id i timeout due got
    | .fetch i mode => x.fetchStep id i mode
    | .drain i due => x.drainStep id i due
    | .leave i answer => x.leaveStep id i answer
    | .watch i handled due => x.watchStep id i handled due
    | .ask => (x, false)

end DemandFlow.Exchange
