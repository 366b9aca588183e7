import DemandFlow.Exchange.Call
import DemandFlow.Exchange.Post
import DemandFlow.Exchange.Work

/-
  Running an exchange. The task at the head of the line runs until it has to wait; the foreground
  caller runs when nobody else can. Only when nobody at all can run does the clock move on to
  the next instant at which someone wakes. A call that is not answered within its patience is
  given up.
-/

namespace DemandFlow.Exchange

/-- One step of a task, and whether it can go on. -/
def stepOf (x : Exchange) : Task → Exchange × Bool
  | .broker => x.brokerStep
  | .alarm i => x.alarmStep i
  | .worker i => x.workerStep i
  | .farewell i => (x.farewell i, false)
  | .caller id => x.callerStep id

/-- Whether a caller uses a subscription. -/
def isUsed (x : Exchange) (i : Nat) : Bool := x.callers.any fun c => c.activity.sub? = some i

/-- Drop a subscription, or leave that to the last call that uses it. -/
def discard (x : Exchange) (i : Nat) (inside : Bool) : Exchange :=
  if x.isUsed i then x.modifySub i fun s => { s with orphaned := true }
  else x.dropSub i inside

/-- Drop the subscriptions without an owner that no call uses any more. -/
def dropOrphans (x : Exchange) : Exchange :=
  (List.range x.subs.size).foldl (fun x i =>
    match x.subs[i]? with
    | some s => if s.orphaned && !s.claimed && !x.isUsed i then x.dropSub i true else x
    | none => x) x

/-- The head of the line makes one step and leaves the line when it cannot go on. -/
def stepHead (x : Exchange) (t : Task) : Exchange :=
  let (x, more) := x.stepOf t
  let x :=
    match t with
    | .caller _ => x.dropOrphans
    | _ => x
  if more then x else { x with ready := x.ready.tail }

/-- The foreground caller makes one step. -/
def stepForeground (x : Exchange) : Exchange :=
  match x.foreground with
  | none => { x with foregroundReady := false }
  | some id =>
    let (x, more) := x.callerStep id
    { x with foregroundReady := more }

/-- Whether all wait. -/
def isQuiet (x : Exchange) : Bool := x.ready.isEmpty && !x.foregroundReady

/-- One step of whoever is due. -/
def step (x : Exchange) : Exchange :=
  match x.ready with
  | t :: _ => x.stepHead t
  | [] => if x.foregroundReady then x.stepForeground else x

/-- Run until all wait. -/
def settle (fuel : Nat) (x : Exchange) : Exchange :=
  match fuel with
  | 0 => x
  | fuel + 1 => if x.isQuiet then x else settle fuel x.step

/-! ## The clock -/

/-- The next instant at which someone wakes. -/
def nextRing (x : Exchange) : Option Nat :=
  (x.timers.map Timer.due).min?

/-- Move the clock and wake everyone whose time has come, those who slept longest first. -/
def ring (x : Exchange) (now : Nat) : Exchange :=
  let due := x.timers.filter fun t => t.due ≤ now
  let x := { x with now := now, timers := x.timers.filter fun t => now < t.due }
  x.wakeAll (due.map Timer.task)

/-- The answer of a caller, if it has one. -/
def answerOf? (x : Exchange) (id : Nat) : Option Answer := x.answers.lookup id

/-- Steps that one instant may take: more than any exchange of this size needs. -/
def stepFuel : Nat := 1000000000

/-- Run until the caller has its answer or its patience ends, moving the clock as needed. -/
def await (fuel : Nat) (id limit : Nat) (x : Exchange) : Exchange :=
  match fuel with
  | 0 => x
  | fuel + 1 =>
    let x := x.settle stepFuel
    if (x.answerOf? id).isSome then x
    else
      match x.nextRing with
      | some due =>
        if due ≤ limit then await fuel id limit (x.ring due)
        else { x with now := max x.now limit }
      | none => { x with now := max x.now limit }

/-! ## Calls -/

/-- The subscription from which an activity reads. -/
def sourceOf? : Activity → Option Nat
  | .read i _ => some i
  | .readAll i _ _ _ => some i
  | .fetch i _ => some i
  | _ => none

/-- Add a caller; one that reads joins the line of readers. Its number is the old count. -/
def enroll (x : Exchange) (a : Activity) : Exchange :=
  let id := x.nextCaller
  let x := { x with callers := x.callers ++ [Caller.mk id a], nextCaller := id + 1 }
  match sourceOf? a with
  | none => x
  | some i => x.joinLine id i

/-- A call in the background: it stands in line like any task. -/
def callBehind (x : Exchange) (a : Activity) : Exchange × Nat :=
  ((x.enroll a).wake (.caller x.nextCaller), x.nextCaller)

/-- A call gives up: nobody waits for its answer any more, and a fetch that it alone used is
dropped with it. -/
def giveUp (x : Exchange) (id : Nat) : Exchange :=
  match x.callers.find? fun c => c.id = id with
  | none => x
  | some c =>
    let x := { x.clearTimer (.caller id) with callers := x.callers.filter fun c => c.id ≠ id }
    let x := { x with foreground := none, foregroundReady := false }
    match c.activity with
    | .read i _ => x.leaveLine id i
    | .readAll i _ _ _ => x.leaveLine id i
    | .fetch i .one => x.leaveLine id i
    | .fetch i _ => (x.leaveLine id i).dropSub i true
    | _ => x

/-- How long a call in the foreground may take. -/
def patience : Span := .ofSecs 600

/-- The foreground caller runs first of all, up to where it has to wait. -/
def begin (fuel : Nat) (id : Nat) (x : Exchange) : Exchange :=
  match fuel with
  | 0 => x
  | fuel + 1 =>
    match x.callerStep id with
    | (x, true) => begin fuel id x
    | (x, false) => x

/-- A call in the foreground: everything runs until it is answered, and then until all wait.
There is no answer when its patience ends. -/
def call (x : Exchange) (a : Activity) : Exchange × Option Answer :=
  let id := x.nextCaller
  let x := { x.enroll a with foreground := some id }
  let x := begin stepFuel id x
  let x := await stepFuel id (x.now + patience.nanos) x
  let answer := x.answerOf? id
  let x :=
    if answer.isSome then { x with foreground := none, foregroundReady := false }
    else x.giveUp id
  let x := { x with answers := x.answers.filter fun a => a.1 ≠ id }
  (x.settle stepFuel, answer)

end DemandFlow.Exchange
