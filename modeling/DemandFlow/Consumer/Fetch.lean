import DemandFlow.Delivery
import DemandFlow.Options

/-
  A fetch: it reads until one of its limits is reached, its batch ends or something goes wrong.
  A fetch that has ended reads no more.
-/

namespace DemandFlow

/-- The state of a fetch: its limits and what it has received. -/
structure Fetch where
  maxMessages : Nat
  /-- Byte limit; zero means none. -/
  maxBytes : Nat
  messages : Nat
  bytes : Nat
  finished : Bool
deriving DecidableEq

namespace Fetch

def start (o : FetchOptions) : Fetch := ⟨o.maxMessages, o.maxBytes, 0, 0, false⟩

def isFull (f : Fetch) : Bool :=
  f.maxMessages ≤ f.messages || (0 < f.maxBytes && f.maxBytes ≤ f.bytes)

def receive (f : Fetch) (m : Message) : Fetch :=
  { f with messages := f.messages + 1, bytes := Count.add f.bytes m.size }

def finish (f : Fetch) : Fetch := { f with finished := true }

/-- Why a fetch ends when this delivery is taken, unless it goes on. -/
def endReason? : Option Delivery → Option String
  | some (.message _) => none
  | some (.terminus _) => some "terminus"
  | some (.error _) => some "status error"
  | some (.liveness _) => some "heartbeat alarm"
  | none => some "closed"

/-- Why a fetch ends that has reached a limit. -/
def fullReason : String := "limit reached"

/-- Why a fetch ends whose time is over. -/
def lateReason : String := "expired"

theorem endReason?_eq_none_iff {d : Option Delivery} :
    endReason? d = none ↔ ∃ m, d = some (.message m) := by
  cases d with
  | none => simp [endReason?]
  | some d => cases d <;> simp [endReason?]

theorem isFull_start (o : FetchOptions) : (start o).isFull = false := by
  have h := o.maxMessages_pos
  unfold start isFull
  dsimp only
  rw [Bool.or_eq_false_iff, decide_eq_false_iff_not]
  refine ⟨by omega, ?_⟩
  cases o.maxBytes with
  | zero => rfl
  | succ n => simp

end Fetch

end DemandFlow
