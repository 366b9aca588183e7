import DemandFlow.Consumer.Refill
import DemandFlow.Frame

/-
  Continuous consumption: a handler is called for each message while the consumer is not closed,
  and demand is refilled while it is active. The mode goes one way only.
-/

namespace DemandFlow

/-- Life of a continuous consumer. -/
inductive Mode where
  | active
  | draining
  | closed
deriving DecidableEq

def Mode.name : Mode → String
  | .active => "active"
  | .draining => "draining"
  | .closed => "closed"

/-- The mode as descriptions show it. -/
def Mode.text : Mode → String
  | .active => "Active"
  | .draining => "Draining"
  | .closed => "Closed"

/-- Why a handler failed, in words if there are any. -/
inductive Cause where
  | words (s : String)
  | wordless
deriving DecidableEq

def Cause.text : Cause → String
  | .words s => s
  | .wordless => "<non-string panic>"

/-- What the handler of a consumer does with a message: it may fail with a cause, and it may
publish a message of its own. -/
structure Handler where
  fails : Message → Option Cause
  publishes : Message → Option Message

namespace Handler

/-- A handler that only takes messages in. -/
def plain : Handler := ⟨fun _ => none, fun _ => none⟩

end Handler

/-- A continuous consumer without its subscription. -/
structure Continuous where
  mode : Mode
  options : ConsumeOptions
  plan : RefillPlan
  handler : Handler
  /-- Messages that the handler has taken in. -/
  handled : Nat

namespace Continuous

def start (o : ConsumeOptions) (h : Handler) : Continuous :=
  ⟨.active, o, .ofOptions o, h, 0⟩

def close (c : Continuous) : Continuous := { c with mode := .closed }

/-- Begin to drain, which only an active consumer does. -/
def drain? (c : Continuous) : Option Continuous :=
  match c.mode with
  | .active => some { c with mode := .draining }
  | .draining | .closed => none

/-- The request that is due at this demand: none once the consumer is no longer active. -/
def refill? (c : Continuous) (d : Demand) : Option PullRequest :=
  match c.mode with
  | .active => c.plan.next? d
  | .draining | .closed => none

theorem refill?_of_not_active {c : Continuous} (h : c.mode ≠ .active) (d : Demand) :
    c.refill? d = none := by
  unfold refill?
  cases hm : c.mode <;> simp_all

theorem drain?_eq_none_iff {c : Continuous} : c.drain? = none ↔ c.mode ≠ .active := by
  unfold drain?
  cases c.mode <;> simp

end Continuous

end DemandFlow
