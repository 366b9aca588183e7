import DemandFlow.Clock
import DemandFlow.Intake
import DemandFlow.Script

/-
  A tracker on a clock of its own, driven by hand. The alarm task, once it runs, sleeps until the
  deadline that it last looked up; it looks again when that instant comes or when the monitor is
  stirred. Waiters end as soon as they find the demand exhausted.
-/

namespace DemandFlow

namespace Bench

/-- Where the alarm task is. -/
inductive Watcher where
  | absent
  | waiting
  | asleep (due : Nat)
  | ended
deriving DecidableEq

/-- A tracker and everything around it. With `accounting` off, frames and requests
reach the monitor only. -/
structure State where
  now : Nat
  accounting : Bool
  tracker : Tracker
  watcher : Watcher
  /-- Whether someone still receives the alarms. -/
  heard : Bool
  waiters : List String
deriving DecidableEq

def State.start (accounting : Bool) : State := ⟨0, accounting, .start 0, .absent, true, []⟩

/-- The alarm task looks at the monitor until it has nothing more to do at this instant. -/
def State.watch (s : State) : State × List Span :=
  let m := s.tracker.monitor
  let t := { s.tracker with monitor := m.seen s.now }
  match m.look s.now with
  | .stop => ({ s with tracker := t, watcher := .ended }, [])
  | .wait => ({ s with tracker := t, watcher := .waiting }, [])
  | .sleep due => ({ s with tracker := t, watcher := .asleep due }, [])
  | .alarm d =>
    if s.heard then ({ s with tracker := t, watcher := .waiting }, [d])
    else ({ s with tracker := t, watcher := .ended }, [])
  | .breakDown => ({ s with tracker := t, watcher := .ended }, [])

/-- Whether the alarm task is due to look. -/
def State.isDue (s : State) : Bool :=
  match s.watcher with
  | .absent | .ended => false
  | .waiting => s.tracker.monitor.stirred
  | .asleep due => s.tracker.monitor.stirred || wholeMillis due ≤ s.now

/-- The alarm task looks, if it is due to. -/
def State.rouse (s : State) : State × List Span := if s.isDue then s.watch else (s, [])

/-- The clock moves on to `target`; on its way the alarm task wakes at its own deadline, which
by then is the only one left: an alarm ends its episode. -/
def State.moveTo (target : Nat) (fuel : Nat) (s : State) : State × List Span :=
  match fuel with
  | 0 => ({ s with now := target }, [])
  | fuel + 1 =>
    match s.watcher with
    | .asleep due =>
      if wholeMillis due ≤ target then
        let (s, first) := { s with now := max s.now (wholeMillis due) }.watch
        let (s, later) := s.moveTo target fuel
        (s, first ++ later)
      else ({ s with now := target }, [])
    | _ => ({ s with now := target }, [])

/-- The waiters that end now, and the state without them. -/
def State.release (s : State) : State × List String :=
  if s.tracker.isExhausted then ({ s with waiters := [] }, s.waiters) else (s, [])

/-! ## Steps -/

/-- What can be done to the tracker. -/
inductive Step where
  | issue (d : PullRequest.Draft)
  | cancel (d : PullRequest.Draft)
  | track (m : Message)
  | reconcile (st : Status)
  | manage (f : Frame)
  | configure (heartbeat : Option Span)
  | arm
  | disarm
  | record
  | shutdown
  | run
  | dropReceiver
  | wait (tag : String)
  | advance (d : Span)
  | debug
deriving DecidableEq

/-- What a step gives back. -/
inductive Reply where
  | nothing
  | flag (b : Bool)
  | intake (i : Intake)
  | text (s : String)
  | failed (e : Failure)
deriving DecidableEq

/-- What is known of the state after a step. -/
structure Report where
  reply : Reply
  pending : Demand
  armed : Bool
  period : Option Span
  alarms : List Span
  done : List String
  running : Bool
  now : Nat
deriving DecidableEq

def State.withMonitor (s : State) (m : Monitor) : State :=
  { s with tracker := { s.tracker with monitor := m } }

/-- The demand that the manager shows. -/
def State.pending (s : State) : Demand := if s.accounting then s.tracker.demand else .none

def State.isRunning (s : State) : Bool :=
  match s.watcher with
  | .waiting | .asleep _ => true
  | .absent | .ended => false

/-- The step itself, before anything else gets to run. -/
def State.act (s : State) : Step → State × Reply
  | .issue d =>
    match d.build with
    | .error e => (s, .failed (.ofConfig e))
    | .ok r =>
      if s.accounting then
        match s.tracker.issue s.now r with
        | none => ({ s with tracker := s.tracker.added r }, .failed .overflow)
        | some t => ({ s with tracker := t }, .nothing)
      else (s, .nothing)
  | .cancel d =>
    match d.build with
    | .error e => (s, .failed (.ofConfig e))
    | .ok r =>
      (if s.accounting then { s with tracker := s.tracker.cancel r } else s, .nothing)
  | .track m => (if s.accounting then { s with tracker := s.tracker.track m } else s, .nothing)
  | .reconcile st =>
    (if s.accounting then { s with tracker := s.tracker.reconcile st } else s, .nothing)
  | .manage f =>
    let t := if s.accounting then s.tracker.account s.now f else s.tracker.observe s.now
    ({ s with tracker := t }, .intake (.ofFrame f))
  | .configure heartbeat =>
    match s.tracker.monitor.configure heartbeat with
    | none => (s, .failed .overflow)
    | some m => (s.withMonitor m, .flag m.period.isSome)
  | .arm => (s.withMonitor (s.tracker.monitor.arm s.now), .nothing)
  | .disarm => (s.withMonitor s.tracker.monitor.disarm, .nothing)
  | .record => (s.withMonitor (s.tracker.monitor.record s.now), .nothing)
  | .shutdown => (s.withMonitor s.tracker.monitor.shutdown, .nothing)
  | .run =>
    -- A task that starts looks at once, whether anything stirred or not.
    if s.watcher = .absent then
      ({ s.withMonitor { s.tracker.monitor with stirred := true } with watcher := .waiting },
        .nothing)
    else (s, .nothing)
  | .dropReceiver => ({ s with heard := false }, .nothing)
  | .wait tag => ({ s with waiters := s.waiters ++ [tag] }, .nothing)
  | .advance _ => (s, .nothing)
  | .debug => (s, .text ("MessageManager \x7b pending: " ++ s.pending.text))

/-- The most often that the alarm task wakes on one move of the clock: once for a deadline that
has been moved without its knowledge, and once for the alarm. -/
def wakings : Nat := 2

/-- One step, then everything that can run does. -/
def State.step (s : State) (st : Step) : State × Report :=
  let (s, reply) := s.act st
  let (s, early) := s.rouse
  let (s, late) :=
    match st with
    | .advance d => s.moveTo (wholeMillis (s.now + d.nanos)) wakings
    | _ => (s, [])
  let (s, done) := s.release
  (s, ⟨reply, s.pending, s.tracker.monitor.armed, s.tracker.monitor.period, early ++ late,
    done, s.isRunning, s.now⟩)

def State.run (s : State) (steps : List Step) : List Report := reportsOf State.step s steps

end Bench

end DemandFlow
