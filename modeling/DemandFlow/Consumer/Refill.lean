import DemandFlow.Demand
import DemandFlow.Options

/-
  When continuous consumption asks for more. It starts with one full request; after that it asks
  for a share of the batch as soon as a share of it is used up, of the messages or of the bytes,
  and for a full batch again when nothing is outstanding at all.
-/

namespace DemandFlow

/-- The percentage of a count, but at least one. -/
def shareOf (percent n : Nat) : Nat := max 1 (Count.mul n percent / 100)

theorem shareOf_pos (percent n : Nat) : 0 < shareOf percent n := by
  unfold shareOf; omega

theorem shareOf_le {percent n : Nat} (hp : percent ≤ 100) (hn : 0 < n) :
    shareOf percent n ≤ n := by
  have h : Count.mul n percent ≤ n * 100 :=
    Nat.le_trans (Nat.min_le_left _ _) (Nat.mul_le_mul_left n hp)
  unfold shareOf
  omega

/-- What continuous consumption asks for, and below which demand. -/
structure RefillPlan where
  initial : PullRequest
  refill : PullRequest
  leastMessages : Nat
  leastBytes : Option Nat
deriving DecidableEq

namespace RefillPlan

/-- The bytes of a refill; zero when there is no byte budget. -/
def refillBytes (o : ConsumeOptions) : Nat :=
  if o.batchBytes = 0 then 0 else shareOf o.threshold o.batchBytes

def ofOptions (o : ConsumeOptions) : RefillPlan where
  initial := o.initial
  refill := .timed (shareOf o.threshold o.batchSize) (refillBytes o) o.expires o.heartbeat
    (shareOf_pos _ _)
  leastMessages := o.batchSize - shareOf o.threshold o.batchSize
  leastBytes := if 0 < o.batchBytes then some (o.batchBytes - refillBytes o) else none

/-- Whether the outstanding bytes are down to the threshold. -/
def isLowOnBytes (plan : RefillPlan) (d : Demand) : Bool :=
  d.tracking && (plan.leastBytes.filter (d.bytes ≤ ·)).isSome

/-- The request to send at this demand, if any. -/
def next? (plan : RefillPlan) (d : Demand) : Option PullRequest :=
  if d.isExhausted then some plan.initial
  else if d.messages ≤ plan.leastMessages || plan.isLowOnBytes d then some plan.refill
  else none

theorem next?_none (plan : RefillPlan) : plan.next? .none = some plan.initial := rfl

theorem leastMessages_add_batch (o : ConsumeOptions) :
    (ofOptions o).leastMessages + (ofOptions o).refill.batch = o.batchSize := by
  have h := shareOf_le o.threshold_le o.batchSize_pos
  simp only [ofOptions, PullRequest.timed]
  omega

end RefillPlan

end DemandFlow
