import DemandFlow.Exchange.Subscribe

/-
  The two tasks of a subscription. The alarm task looks at the monitor and passes alarms to the
  worker. The worker takes in frames, and alarms when there is no frame; what they come to goes
  into the queue of a reading subscription or to the handler of a continuous one. Each function
  here makes one step and says whether the task can go on at once.
-/

namespace DemandFlow.Exchange

/-! ## The alarm task -/

/-- The alarm task has ended. -/
def endAlarm (x : Exchange) (i : Nat) : Exchange :=
  let x := (x.modifySub i fun s => { s with watching := false }).clearTimer (.alarm i)
  x.wakeLeavers i

/-- The monitor has been looked at. -/
def sawMonitor (x : Exchange) (i : Nat) : Exchange :=
  x.modifySub i fun s =>
    { s with tracker := { s.tracker with monitor := s.tracker.monitor.seen x.now } }

def alarmStep (x : Exchange) (i : Nat) : Exchange × Bool :=
  match x.subs[i]? with
  | none => (x, false)
  | some s =>
    if s.watching then
      match s.tracker.monitor.look x.now with
      | .stop => ((x.note Journal.monitorStopped).endAlarm i, false)
      | .wait => ((x.sawMonitor i).clearTimer (.alarm i), false)
      | .sleep due => ((x.sawMonitor i).setTimer (.alarm i) due, false)
      | .alarm d =>
        let x := (x.sawMonitor i).note (Journal.silence d)
        let x := x.modifySub i fun s => { s with alarms := s.alarms ++ [d] }
        (x.wake (.worker i), true)
      | .breakDown => (x.endAlarm i, false)
    else (x, false)

/-! ## The worker -/

/-- The worker has ended: it shuts the subscription down, and its feed and queue with it. -/
def endWorker (x : Exchange) (i : Nat) : Exchange :=
  let x := x.close i
  match x.subs[i]? with
  | none => x
  | some s =>
    let x := x.modifySub i fun s => { s with worker := .ended }
    let x := x.note (Journal.workerStopped s.inbox)
    let x := (x.abandonFeed s.feed).wakeAll (readerAt s)
    (x.wakeLeavers i).wake .broker

/-- Pass a delivery to the readers; the worker holds it while the queue is full. -/
def hold (x : Exchange) (i : Nat) (d : Delivery) : Exchange :=
  x.modifySub i (·.hold d)

/-- Ask for more if it is time to. A failure is only logged. -/
def refill (x : Exchange) (i : Nat) (c : Continuous) : Exchange :=
  match x.subs[i]? with
  | none => x
  | some s =>
    match c.refill? s.demand with
    | none => x
    | some r =>
      match (x.note (Journal.refilling s.inbox r)).pull i r with
      | (x, .error (.error .closed)) => x
      | (x, .error (.error e)) => x.note (Journal.refillFailed s.inbox e)
      | (x, _) => x

/-- The handler takes a message, or fails. -/
def handle (x : Exchange) (i : Nat) (inbox : String) (c : Continuous) (m : Message) : Exchange :=
  match c.handler.fails m with
  | some cause => x.note (Journal.handlerFailed inbox cause.text)
  | none =>
    let x := x.modifySub i fun s =>
      { s with purpose := .continuous { c with handled := c.handled + 1 } }
    let x := { x with handled := x.handled.push (i, m) }
    match c.handler.publishes m with
    | none => x
    | some m => (x.publish m).1

/-- A message for a continuous consumer; once that is closed, the worker ends instead. -/
def handleMessage (x : Exchange) (i : Nat) (inbox : String) (c : Continuous) (m : Message) :
    Exchange × Bool :=
  match c.mode with
  | .closed => (x.endWorker i, false)
  | .active | .draining => ((x.handle i inbox c m).refill i c, true)

/-- A terminus for a continuous consumer. More is asked for, except after a message that passes
the byte budget by itself: it would end the next pull in the same way. -/
def handleTerminus (x : Exchange) (i : Nat) (inbox : String) (c : Continuous) (s : Status) :
    Exchange :=
  if s.isTooLarge then x.notify (.error inbox s)
  else (x.note (Journal.batchEnded inbox s)).refill i c

/-- Log what became of a frame in the accounts of a subscription whose demand then is `d`. -/
def noteAccount (x : Exchange) (f : Frame) (d : Demand) : Exchange :=
  match f with
  | .message m => (x.noteIf d.isClosed Journal.windowClosed).note (Journal.messageAccounted m)
  | .status s =>
    if s.isHeartbeat then x.note (Journal.heartbeatReceived s)
    else
      (x.noteIf (s.pendingCounts.isSome && d.isClosed) Journal.windowClosed).note
        (Journal.statusReceived s)

/-- Count a frame. -/
def countFrame (x : Exchange) : Intake → Exchange
  | .message _ => x.count Counters.addMessage
  | .heartbeat => x
  | .terminus _ => x.count (·.addStatus .terminus)
  | .warning _ => x.count (·.addStatus .warning)
  | .error _ => x.count (·.addStatus .error)

/-- Enter a frame into the accounts of a subscription. -/
def account (x : Exchange) (i : Nat) (s : Subscription) (f : Frame) : Exchange :=
  let t := s.tracker.account x.now f
  let x := ((x.setTracker i t).wakeDrainers i).noteAccount f t.demand
  x.countFrame (.ofFrame f)

/-- Take in a frame. -/
def takeFrame (x : Exchange) (i : Nat) (s : Subscription) (f : Frame) : Exchange × Bool :=
  let x := x.account i s f
  match Intake.ofFrame f, s.purpose with
  | .heartbeat, _ => (x, true)
  | .warning st, _ => (x.notify (.warning s.inbox st), true)
  | .message m, .continuous c => x.handleMessage i s.inbox c m
  | .terminus st, .continuous c => (x.handleTerminus i s.inbox c st, true)
  | .error st, purpose =>
    let x := (x.note (Journal.fatalStatus s.inbox st)).notify (.error s.inbox st)
    match purpose with
    | .continuous _ => (x, true)
    | _ => (x.hold i (.error ⟨st.code, st.text⟩), true)
  | .message m, _ => (x.hold i (.message m), true)
  | .terminus st, _ => (x.hold i (.terminus st), true)

/-- Take in an alarm. -/
def takeAlarm (x : Exchange) (i : Nat) (s : Subscription) (d : Span) : Exchange :=
  let x := (x.count Counters.addAlarm).notify (.alarm s.inbox d)
  match s.purpose with
  | .continuous _ => x
  | _ => x.hold i (.liveness d)

/-- The worker reads: the next frame, or the end of the feed, or the next alarm. -/
def readStep (x : Exchange) (i : Nat) (s : Subscription) : Exchange × Bool :=
  match x.feeds[s.feed]? with
  | none => (x, false)
  | some feed =>
    match feed.frames.pop? with
    | some (f, rest) =>
      ((x.modifyFeed s.feed fun feed => { feed with frames := rest }).wakeHeldUp).takeFrame i s f
    | none =>
      if feed.writing then
        match s.alarms with
        | [] => (x, false)
        | d :: rest => ((x.modifySub i fun s => { s with alarms := rest }).takeAlarm i s d, true)
      else ((x.note (Journal.feedEnded s.inbox)).endWorker i, false)

/-- The worker puts what it holds into the queue, as soon as there is room. -/
def holdStep (x : Exchange) (i : Nat) (s : Subscription) (d : Delivery) : Exchange × Bool :=
  if s.hasRoom then ((x.modifySub i (·.enqueue d)).wakeAll (readerAt s), true)
  else (x, false)

def workerStep (x : Exchange) (i : Nat) : Exchange × Bool :=
  match x.subs[i]? with
  | none => (x, false)
  | some s =>
    match s.worker with
    | .ended => (x, false)
    | .holding d => if s.closed then (x.endWorker i, false) else x.holdStep i s d
    | .reading => if s.closed then (x.endWorker i, false) else x.readStep i s

end DemandFlow.Exchange
