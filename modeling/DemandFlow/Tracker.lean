import DemandFlow.Demand
import DemandFlow.Monitor
import DemandFlow.Frame.Disposition

/-
  Demand tied to liveness: the tracker of one subscription. A pull adds demand and arms the
  monitor when it asks for heartbeats; the monitor is disarmed once the demand is gone. Each
  operation says what became of both.
-/

namespace DemandFlow

structure Tracker where
  demand : Demand
  monitor : Monitor
deriving DecidableEq

namespace Tracker

def start (now : Nat) : Tracker := ⟨.none, .start now⟩

def isExhausted (t : Tracker) : Bool := t.demand.isExhausted

/-- The demand of a request added and nothing else. -/
def added (r : PullRequest) (t : Tracker) : Tracker := { t with demand := t.demand.add r }

/-- A request goes out. There is nothing when its alarm period passes the longest span; then the
demand has been added already, as `added` says. -/
def issue (now : Nat) (r : PullRequest) (t : Tracker) : Option Tracker :=
  (t.monitor.configure r.heartbeat).map fun m =>
    ⟨t.demand.add r, if m.period.isSome then m.arm now else m.disarm⟩

/-- A request did not reach the broker. -/
def cancel (r : PullRequest) (t : Tracker) : Tracker :=
  let d := t.demand.withdraw r
  ⟨d, if d.isClosed then t.monitor.disarm else t.monitor⟩

/-- Messages and bytes were delivered or given back. -/
def settle (messages bytes : Nat) (t : Tracker) : Tracker :=
  let d := t.demand.subtract messages bytes
  ⟨d, if d.isClosed then t.monitor.disarm else t.monitor⟩

/-- One message was delivered. -/
def track (m : Message) (t : Tracker) : Tracker := t.settle 1 m.size

/-- A status gives back the counts it carries, if it carries any. -/
def reconcile (s : Status) (t : Tracker) : Tracker :=
  match s.pendingCounts with
  | none => t
  | some (messages, bytes) => t.settle messages bytes

/-- The frame was seen by the monitor. -/
def observe (now : Nat) (t : Tracker) : Tracker := { t with monitor := t.monitor.record now }

/-- A frame is taken in: the monitor sees it, then the demand is settled. -/
def account (now : Nat) (f : Frame) (t : Tracker) : Tracker :=
  let t := t.observe now
  match f with
  | .message m => t.track m
  | .status s => if s.isHeartbeat then t else t.reconcile s

theorem account_heartbeat {now : Nat} {s : Status} {t : Tracker} (h : s.isHeartbeat = true) :
    t.account now (.status s) = t.observe now := by
  simp [account, h]

theorem demand_account_message (now : Nat) (m : Message) (t : Tracker) :
    (t.account now (.message m)).demand = t.demand.subtract 1 m.size := rfl

theorem demand_issue {now : Nat} {r : PullRequest} {t u : Tracker}
    (h : t.issue now r = some u) : u.demand = t.demand.add r := by
  simp only [issue, Option.map_eq_some_iff] at h
  obtain ⟨m, _, rfl⟩ := h
  rfl

end Tracker

end DemandFlow
