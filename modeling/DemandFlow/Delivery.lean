import DemandFlow.Failure
import DemandFlow.Intake

/-
  What the worker of a subscription passes on to its readers, and what a reader makes of it: a
  message, the end of a batch, or an error.
-/

namespace DemandFlow

/-- What the worker of a subscription passes on to its reader. -/
inductive Delivery where
  | message (m : Message)
  | terminus (s : Status)
  | error (e : StatusError)
  | liveness (silentFor : Span)
deriving DecidableEq

/-- The delivery that a frame leads to; heartbeats and warnings lead to none. -/
def Intake.delivery? : Intake → Option Delivery
  | .message m => some (.message m)
  | .heartbeat => none
  | .terminus s => some (.terminus s)
  | .warning _ => none
  | .error s => some (.error ⟨s.code, s.text⟩)

/-- What one read gives: a message, the end of the batch, or an error. -/
abbrev Reading := Except ConsumerError (Option Message)

/-- The reading of a delivery; `none` is the end of the deliveries. -/
def Delivery.reading : Option Delivery → Reading
  | some (.message m) => .ok (some m)
  | some (.terminus _) => .ok none
  | some (.error e) => .error (.status e)
  | some (.liveness d) => .error (.liveness d)
  | none => .ok none

theorem Intake.delivery?_ofFrame_message (m : Message) :
    (Intake.ofFrame (.message m)).delivery? = some (.message m) := rfl

theorem Delivery.reading_eq_message_iff {d : Option Delivery} {m : Message} :
    Delivery.reading d = .ok (some m) ↔ d = some (.message m) := by
  cases d with
  | none => simp [Delivery.reading]
  | some d => cases d <;> simp [Delivery.reading]

end DemandFlow
