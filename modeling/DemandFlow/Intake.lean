import DemandFlow.Tracker

/-
  What a frame is to a consumer. Messages go on, heartbeats go no further, and a status is a
  terminus, a warning or an error by its disposition.
-/

namespace DemandFlow

inductive Intake where
  | message (m : Message)
  | heartbeat
  | terminus (s : Status)
  | warning (s : Status)
  | error (s : Status)
deriving DecidableEq

namespace Intake

def ofStatus (s : Status) : Intake :=
  if s.isHeartbeat then .heartbeat
  else
    match s.disposition with
    | .terminus => .terminus s
    | .warning => .warning s
    | .error => .error s

def ofFrame : Frame → Intake
  | .message m => .message m
  | .status s => ofStatus s

theorem ofStatus_ne_message (s : Status) (m : Message) : ofStatus s ≠ .message m := by
  unfold ofStatus
  split
  · simp
  · cases s.disposition <;> simp

theorem ofStatus_eq_heartbeat_iff {s : Status} :
    ofStatus s = .heartbeat ↔ s.isHeartbeat = true := by
  unfold ofStatus
  split
  · simp_all
  · cases s.disposition <;> simp_all

theorem ofFrame_eq_message_iff {f : Frame} {m : Message} :
    ofFrame f = .message m ↔ f = .message m := by
  cases f with
  | message n => simp [ofFrame]
  | status s => simp [ofFrame, ofStatus_ne_message]

theorem ofFrame_eq_heartbeat_iff {f : Frame} :
    ofFrame f = .heartbeat ↔ ∃ s, f = .status s ∧ s.isHeartbeat = true := by
  cases f with
  | message n => simp [ofFrame]
  | status s => simp [ofFrame, ofStatus_eq_heartbeat_iff]

end Intake

end DemandFlow
