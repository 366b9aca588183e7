import DemandFlow.Clock
import DemandFlow.Exchange.State

/-
  Small steps on an exchange: writing to the log, counting, putting tasks in line and to sleep,
  and changing one feed, one subscription or one caller.
-/

namespace DemandFlow.Exchange

def note (x : Exchange) (e : Log.Entry) : Exchange := { x with log := x.log.push e }

def noteIf (x : Exchange) (b : Bool) (e : Log.Entry) : Exchange := if b then x.note e else x

def count (x : Exchange) (f : Counters → Counters) : Exchange :=
  { x with counters := f x.counters }

/-- Put a task in line, unless it stands there. The foreground caller waits apart. -/
def wake (x : Exchange) (t : Task) : Exchange :=
  match t, x.foreground with
  | .caller id, some front =>
    if id = front then { x with foregroundReady := true }
    else if x.ready.contains t then x else { x with ready := x.ready ++ [t] }
  | _, _ => if x.ready.contains t then x else { x with ready := x.ready ++ [t] }

def wakeIf (x : Exchange) (b : Bool) (t : Task) : Exchange := if b then x.wake t else x

def wakeAll (x : Exchange) (ts : List Task) : Exchange := ts.foldl wake x

def isAsleep (x : Exchange) (t : Task) : Bool := x.timers.any fun e => e.task = t

def clearTimer (x : Exchange) (t : Task) : Exchange :=
  { x with timers := x.timers.filter fun e => e.task ≠ t }

/-- The task goes to sleep now, behind all who sleep already. -/
def setTimer (x : Exchange) (t : Task) (due : Nat) : Exchange :=
  let x := x.clearTimer t
  { x with timers := x.timers ++ [⟨t, wholeMillis due⟩] }

/-- The task sleeps on, or goes to sleep now. -/
def keepTimer (x : Exchange) (t : Task) (due : Nat) : Exchange :=
  if x.isAsleep t then x else x.setTimer t due

def modifyFeed (x : Exchange) (i : Nat) (f : Feed → Feed) : Exchange :=
  { x with feeds := x.feeds.modify i f }

def modifySub (x : Exchange) (i : Nat) (f : Subscription → Subscription) : Exchange :=
  { x with subs := x.subs.modify i f }

def feedOf? (x : Exchange) (inbox : String) : Option Nat :=
  x.feeds.findIdx? fun f => f.inbox == inbox

/-! ## Who waits for what -/

/-- The task that reads a feed. -/
def readerOf (f : Feed) : List Task := (f.reader.map Task.worker).toList

def Activity.isDraining (sub : Nat) : Activity → Bool
  | .drain s _ => s == sub
  | _ => false

def Activity.isLeaving (sub : Nat) : Activity → Bool
  | .leave s _ => s == sub
  | _ => false

/-- The callers at an activity. -/
def callersAt (x : Exchange) (p : Activity → Bool) : List Task :=
  (x.callers.filter fun c => p c.activity).map fun c => .caller c.id

/-- The caller whose turn it is to read from a subscription. -/
def readerAt (s : Subscription) : List Task := (s.readers.head?.map Task.caller).toList

/-- Those who wait for the demand of a subscription to change look again. -/
def wakeDrainers (x : Exchange) (i : Nat) : Exchange :=
  x.wakeAll (x.callersAt (Activity.isDraining i))

/-- Those who wait for the tasks of a subscription to end look again. -/
def wakeLeavers (x : Exchange) (i : Nat) : Exchange :=
  x.wakeAll (x.callersAt (Activity.isLeaving i))

/-- Whether the broker is held up by a full feed. -/
def isHeldUp (x : Exchange) : Bool :=
  match x.transport with
  | .loopback l => !l.broker.agenda.isEmpty
  | .scripted _ => false

/-- The broker tries again to post, if it is held up. -/
def wakeHeldUp (x : Exchange) : Exchange := x.wakeIf x.isHeldUp .broker

/-- A caller is done. -/
def finish (x : Exchange) (id : Nat) (a : Answer) : Exchange :=
  { x.clearTimer (.caller id) with
    callers := x.callers.filter fun c => c.id ≠ id
    answers := x.answers ++ [(id, a)] }

def setActivity (x : Exchange) (id : Nat) (a : Activity) : Exchange :=
  { x.clearTimer (.caller id) with
    callers := x.callers.map fun c => if c.id = id then ⟨id, a⟩ else c }

end DemandFlow.Exchange
