import DemandFlow.Exchange.Transport

/-
  The life of a subscription as its owner drives it: opened, asked to pull, shut down, told to
  the transport as over, or simply dropped.
-/

namespace DemandFlow.Exchange

/-- Put a changed tracker in its place; the alarm task is woken when its monitor is stirred. -/
def setTracker (x : Exchange) (i : Nat) (t : Tracker) : Exchange :=
  (x.modifySub i fun s => { s with tracker := t }).wakeIf t.monitor.stirred (.alarm i)

/-- Open a subscription. Its alarm task and its worker start to run. -/
def openSub (x : Exchange) (purpose : Purpose) : Exchange × Except Failure Nat :=
  let i := x.subs.size
  match x.subscribe (some i) with
  | (x, .error e) => (x, .error (.ofTransport e))
  | (x, .ok (feed, inbox)) =>
    let sub := Subscription.start inbox feed x.now x.queueCapacity purpose
    let x := { x with subs := x.subs.push sub }
    (((x.wake (.alarm i)).wake (.worker i)).note (Journal.subscriptionOpened inbox), .ok i)

/-- Record a request and send it; when the transport fails, the record is undone. -/
def pull (x : Exchange) (i : Nat) (r : PullRequest) : Exchange × Except Failure Unit :=
  match x.subs[i]? with
  | none => (x, .error (.error .closed))
  | some s =>
    if s.closed then (x, .error (.error .closed))
    else
      match s.tracker.issue x.now r with
      | none => (x.setTracker i (s.tracker.added r), .error .overflow)
      | some t =>
        let x := (x.setTracker i t).wakeDrainers i
        let x := x.note (Journal.pullStarted r t.demand)
        let x := x.note (Journal.publishingPull s.inbox r)
        match x.carry s.inbox r with
        | (x, .ok ()) => (x.count Counters.addPull, .ok ())
        | (x, .error e) =>
          let t := t.cancel r
          let x := (x.setTracker i t).wakeDrainers i
          let x := x.note (Journal.pullWithdrawn r t.demand)
          (x.note (Journal.pullNotPublished s.inbox e), .error (.ofTransport e))

/-- Shut down: both tasks are told to end. -/
def close (x : Exchange) (i : Nat) : Exchange :=
  match x.subs[i]? with
  | none => x
  | some s =>
    let x := (x.modifySub i fun s => { s with closed := true }).wake (.worker i)
    x.setTracker i { s.tracker with monitor := s.tracker.monitor.shutdown }

/-- Shut down and tell the transport, unless that was done before. -/
def unsubscribe (x : Exchange) (i : Nat) : Exchange :=
  let x := x.close i
  match x.subs[i]? with
  | none => x
  | some s =>
    if s.claimed then x
    else
      let x := x.modifySub i fun s => { s with claimed := true }
      (x.release s.inbox).note (Journal.subscriptionClosed s.inbox)

/-- The owner drops the subscription. The transport is told by a task of its own, unless that
was done before or there is nowhere for such a task to run. -/
def dropSub (x : Exchange) (i : Nat) (inside : Bool) : Exchange :=
  let x := x.close i
  match x.subs[i]? with
  | none => x
  | some s =>
    if s.claimed then x
    else (x.modifySub i fun s => { s with claimed := true }).wakeIf inside (.farewell i)

/-- The task that tells the transport of a dropped subscription. -/
def farewell (x : Exchange) (i : Nat) : Exchange :=
  match x.subs[i]? with
  | none => x
  | some s => (x.release s.inbox).note (Journal.subscriptionDropped s.inbox)

end DemandFlow.Exchange
