import DemandFlow.Consumer.Continuous
import DemandFlow.Consumer.Fetch
import DemandFlow.Fifo

/-
  One subscription: its demand, its alarm task, its worker, and the queue from the worker to its
  readers. A worker that has a delivery for a full queue holds it and reads no further.
-/

namespace DemandFlow

/-- What the worker of a subscription is at. -/
inductive Worker where
  | reading
  | holding (d : Delivery)
  | ended
deriving DecidableEq

/-- What a subscription is for. -/
inductive Purpose where
  | manual
  | fetch (f : Fetch) (deadline : Nat)
  | continuous (c : Continuous)

structure Subscription where
  inbox : String
  /-- The number of its feed. -/
  feed : Nat
  tracker : Tracker
  /-- Whether it was shut down. -/
  closed : Bool
  /-- Whether someone has taken it on to tell the transport that it is over. -/
  claimed : Bool
  /-- Whether its owner is gone while a background call still uses it. -/
  orphaned : Bool
  /-- Whether the alarm task still runs. -/
  watching : Bool
  /-- Alarms that the worker has not taken in. -/
  alarms : List Span
  worker : Worker
  queue : Fifo Delivery
  capacity : Nat
  /-- Callers that wait to read, first come first. -/
  readers : List Nat
  purpose : Purpose

namespace Subscription

/-- A subscription that opens at `now`; its queue holds at least one delivery. -/
def start (inbox : String) (feed now capacity : Nat) (purpose : Purpose) : Subscription where
  inbox := inbox
  feed := feed
  tracker := .start now
  closed := false
  claimed := false
  orphaned := false
  watching := true
  alarms := []
  worker := .reading
  queue := .empty
  capacity := max 1 capacity
  readers := []
  purpose := purpose

def demand (s : Subscription) : Demand := s.tracker.demand

/-- Both tasks have ended. -/
def isOver (s : Subscription) : Bool := !s.watching && decide (s.worker = .ended)

def hasRoom (s : Subscription) : Bool := s.queue.size < s.capacity

/-- The worker puts what it holds into the queue. -/
def enqueue (s : Subscription) (d : Delivery) : Subscription :=
  { s with queue := s.queue.push d, worker := .reading }

/-- The worker holds a delivery. -/
def hold (s : Subscription) (d : Delivery) : Subscription := { s with worker := .holding d }

/-- The deliveries that were made and not yet taken: those in the queue, then the one that the
worker holds. -/
def undelivered (s : Subscription) : List Delivery :=
  s.queue.toList ++
    match s.worker with
    | .holding d => [d]
    | .reading | .ended => []

theorem undelivered_enqueue {s : Subscription} {d : Delivery} (h : s.worker = .holding d) :
    (s.enqueue d).undelivered = s.undelivered := by
  simp [undelivered, enqueue, Fifo.toList_push, h]

theorem undelivered_hold {s : Subscription} {d : Delivery} (h : s.worker = .reading) :
    (s.hold d).undelivered = s.undelivered ++ [d] := by
  simp [undelivered, hold, h]

end Subscription

end DemandFlow
