import DemandFlow.Pull.Request

/-
  Outstanding demand of one subscription: the messages and bytes that the broker may still
  deliver. A pull adds to both; what arrives is subtracted. When the messages run out, or the
  bytes while a budget is tracked, the accounting window closes and everything is forgotten.
-/

namespace DemandFlow

/-- What the broker may still deliver; `bytes` counts only while `tracking` is set, which it is
when the latest request carried a byte budget. -/
structure Demand where
  messages : Nat
  bytes : Nat
  tracking : Bool
deriving DecidableEq

namespace Demand

def none : Demand := ⟨0, 0, false⟩

/-- Nothing is outstanding. -/
def isExhausted (d : Demand) : Bool := d.messages == 0 && !d.tracking

/-- The demand with a request added. -/
def add (d : Demand) (r : PullRequest) : Demand :=
  ⟨Count.add d.messages r.batch, Count.add d.bytes r.maxBytes, decide (0 < r.maxBytes)⟩

/-- The demand once the window is closed, if it is to be closed. -/
def closeIf (closed : Bool) (d : Demand) : Demand := if closed then none else d

/-- The demand without a request that never reached the broker. -/
def withdraw (d : Demand) (r : PullRequest) : Demand :=
  let messages := d.messages - r.batch
  let bytes := d.bytes - r.maxBytes
  closeIf (messages == 0) ⟨messages, bytes, d.tracking && bytes != 0⟩

/-- The demand after `messages` and `bytes` were delivered or given back. -/
def subtract (d : Demand) (messages bytes : Nat) : Demand :=
  let left := d.messages - messages
  if d.tracking then
    let leftBytes := d.bytes - bytes
    closeIf (left == 0 || leftBytes == 0) ⟨left, leftBytes, true⟩
  else closeIf (left == 0) ⟨left, d.bytes, false⟩

/-- Whether an operation that led to `d` closed the window. -/
def isClosed (d : Demand) : Bool := d.messages == 0

theorem isExhausted_none : none.isExhausted = true := rfl

theorem subtract_none (m b : Nat) : none.subtract m b = none := by
  simp [none, subtract, closeIf]

theorem closeIf_isClosed {closed : Bool} {d : Demand} (hd : d.messages = 0 → closed = true)
    (h : (closeIf closed d).isClosed = true) : closeIf closed d = none := by
  cases closed with
  | true => rfl
  | false =>
    have hm : d.messages = 0 := by simpa [closeIf, isClosed] using h
    simp at hd
    exact absurd hm hd

theorem subtract_isClosed {d : Demand} {m b : Nat} (h : (d.subtract m b).isClosed = true) :
    d.subtract m b = none := by
  unfold subtract at *
  split at h
  · rename_i ht
    rw [if_pos ht]
    exact closeIf_isClosed (by simp_all) h
  · rename_i ht
    rw [if_neg ht]
    exact closeIf_isClosed (by simp_all) h

theorem withdraw_isClosed {d : Demand} {r : PullRequest} (h : (d.withdraw r).isClosed = true) :
    d.withdraw r = none :=
  closeIf_isClosed (by simp_all) h

/-- The demand as descriptions show it. -/
def text (d : Demand) : String :=
  s!"PendingDemand \x7b messages: {d.messages}, bytes: {d.bytes}, tracking_bytes: {d.tracking} \x7d"

end Demand

end DemandFlow
