import DemandFlow.Consumer.Refill
import DemandFlow.Proofs.Demand.Window

/-
  Refill plans over the whole range of counts. A share is the percentage of a count, computed in
  words that stop at the top; `IsShare` says what that comes to where the product fits a word and
  where it does not, and that it is at least one and at most the count in either case. So a plan
  can always be put together: both of its requests pass the check of the builder, and what is left
  of a batch beside a refill is never negative, in messages or in bytes. `plan_wellFormed` adds
  what that is for: a request of the plan never brings the demand above one batch.
-/

namespace DemandFlow

/-- `k` is the percentage of `n`, at least one; where the product with the percentage passes a
word, it is the hundredth part of the largest word. -/
structure IsShare (percent n k : Nat) : Prop where
  pos : 1 ≤ k
  le : k ≤ n
  of_fits : n * percent < 2 ^ 64 → k = max 1 (n * percent / 100)
  of_passes : 2 ^ 64 ≤ n * percent → k = (2 ^ 64 - 1) / 100

theorem isShare_shareOf {percent n : Nat} (hp : percent ≤ 100) (hn : 0 < n) :
    IsShare percent n (shareOf percent n) where
  pos := shareOf_pos percent n
  le := shareOf_le hp hn
  of_fits hlt := by
    have hle : n * percent ≤ Count.top := Nat.le_of_lt_succ hlt
    unfold shareOf
    rw [Count.mul_of_le hle]
  of_passes hle := by
    have hmul : Count.mul n percent = Count.top := Nat.min_eq_right (Nat.le_of_succ_le hle)
    unfold shareOf
    rw [hmul]
    rfl

namespace RefillPlan

/-! ## Putting a plan together -/

/-- The difference of two counts, where it is one. -/
def difference? (a b : Nat) : Option Nat := if b ≤ a then some (a - b) else none

/-- The request of these numbers, where the builder takes them. -/
def request? (batch bytes : Nat) (expires heartbeat : Span) : Option PullRequest :=
  (PullRequest.Draft.mk batch bytes (some expires) (some heartbeat) false).build.toOption

/-- A plan of bare numbers, which need not be those of options: there is none if a request is
refused, or if a refill would be larger than what it is a share of. -/
def assemble? (size bytes percent : Nat) (expires heartbeat : Span) : Option RefillPlan := do
  let share := shareOf percent size
  let shareBytes := if bytes = 0 then 0 else shareOf percent bytes
  let refill ← request? share shareBytes expires heartbeat
  let initial ← request? size bytes expires heartbeat
  let leastMessages ← difference? size share
  if bytes = 0 then
    return ⟨initial, refill, leastMessages, none⟩
  let leastBytes ← difference? bytes shareBytes
  return ⟨initial, refill, leastMessages, some leastBytes⟩

theorem difference?_of_le {a b : Nat} (h : b ≤ a) : difference? a b = some (a - b) := if_pos h

theorem request?_of_pos {batch : Nat} (h : 0 < batch) (bytes : Nat) (expires heartbeat : Span) :
    request? batch bytes expires heartbeat = some (.timed batch bytes expires heartbeat h) := by
  unfold request?
  rw [PullRequest.timed_eq_build batch bytes expires heartbeat h]
  rfl

/-- Whatever the options, nothing stands in the way of their plan. -/
theorem assemble?_options (o : ConsumeOptions) :
    assemble? o.batchSize o.batchBytes o.threshold o.expires o.heartbeat = some (ofOptions o) := by
  have hle : shareOf o.threshold o.batchSize ≤ o.batchSize :=
    shareOf_le o.threshold_le o.batchSize_pos
  unfold assemble?
  dsimp only
  rw [request?_of_pos (shareOf_pos o.threshold o.batchSize), request?_of_pos o.batchSize_pos,
    difference?_of_le hle]
  unfold ofOptions refillBytes
  by_cases hz : o.batchBytes = 0
  · have hnone : ¬0 < o.batchBytes := by omega
    rw [if_neg hnone]
    simp only [if_pos hz, Option.bind_eq_bind, Option.bind_some]
    rfl
  · have hpos : 0 < o.batchBytes := by omega
    have hbytes : shareOf o.threshold o.batchBytes ≤ o.batchBytes :=
      shareOf_le o.threshold_le hpos
    rw [if_pos hpos]
    simp only [if_neg hz, difference?_of_le hbytes, Option.bind_eq_bind, Option.bind_some]
    rfl

/-- A refill is a share of the batch and, where there is one, of the byte budget; the thresholds
are the rest. -/
structure WellFormed (o : ConsumeOptions) (plan : RefillPlan) : Prop where
  batch : IsShare o.threshold o.batchSize plan.refill.batch
  leastMessages : plan.leastMessages + plan.refill.batch = o.batchSize
  budget : 0 < o.batchBytes → IsShare o.threshold o.batchBytes plan.refill.maxBytes ∧
    ∃ least, plan.leastBytes = some least ∧ least + plan.refill.maxBytes = o.batchBytes
  noBudget : o.batchBytes = 0 → plan.refill.maxBytes = 0 ∧ plan.leastBytes = none

theorem refillBytes_of_budget {o : ConsumeOptions} (h : 0 < o.batchBytes) :
    refillBytes o = shareOf o.threshold o.batchBytes := if_neg (Nat.ne_of_gt h)

theorem wellFormed_ofOptions (o : ConsumeOptions) : (ofOptions o).WellFormed o where
  batch := isShare_shareOf o.threshold_le o.batchSize_pos
  leastMessages := leastMessages_add_batch o
  budget h := by
    have hshare : IsShare o.threshold o.batchBytes (refillBytes o) := by
      rw [refillBytes_of_budget h]
      exact isShare_shareOf o.threshold_le h
    exact ⟨hshare, _, if_pos h, Nat.sub_add_cancel hshare.le⟩
  noBudget h := ⟨if_pos h, if_neg (Nat.not_lt_of_le (Nat.le_of_eq h))⟩

/-! ## Requests of a plan -/

/-- Without tracked bytes only the messages that are left call for a request: nothing for the full
one, the threshold at most for a refill. -/
theorem next?_untracked {plan : RefillPlan} {d : Demand} {r : PullRequest}
    (ht : d.tracking = false) (hr : plan.next? d = some r) :
    (d.messages = 0 ∧ r = plan.initial) ∨ (d.messages ≤ plan.leastMessages ∧ r = plan.refill) := by
  unfold next? isLowOnBytes Demand.isExhausted at hr
  rw [ht, Bool.not_false, Bool.and_true, Bool.false_and, Bool.or_false] at hr
  split at hr
  · rename_i hz
    exact Or.inl ⟨eq_of_beq hz, (Option.some.inj hr).symm⟩
  · split at hr
    · rename_i hle
      exact Or.inr ⟨of_decide_eq_true hle, (Option.some.inj hr).symm⟩
    · cases hr

theorem messages_add_next_le {o : ConsumeOptions} {d : Demand} {r : PullRequest}
    (ht : d.tracking = false) (hr : (ofOptions o).next? d = some r) :
    (d.add r).messages ≤ o.batchSize := by
  have hsum := leastMessages_add_batch o
  have hadd := Demand.messages_add_le d r
  rcases next?_untracked ht hr with ⟨hz, rfl⟩ | ⟨hle, rfl⟩
  · have hinitial : (ofOptions o).initial.batch = o.batchSize := rfl
    omega
  · omega

/-- Options lead to a plan, and it is well formed; and while no bytes are tracked, whatever the plan
asks for leaves no more than one batch outstanding. -/
theorem plan_wellFormed (o : ConsumeOptions) :
    assemble? o.batchSize o.batchBytes o.threshold o.expires o.heartbeat = some (ofOptions o) ∧
    (ofOptions o).WellFormed o ∧
    ∀ (d : Demand) (r : PullRequest), d.tracking = false → (ofOptions o).next? d = some r →
      (d.add r).messages ≤ o.batchSize :=
  ⟨assemble?_options o, wellFormed_ofOptions o, fun _ _ => messages_add_next_le⟩

/-- The largest batch, with refills of one percent. -/
def largestBatch : ConsumeOptions :=
  ⟨Count.top, 0, Defaults.expires, .ofSecs 15, 1, Count.top_pos, Nat.one_pos, by decide⟩

theorem build_largestBatch : ConsumeOptions.Settings.build
    ⟨some Count.top, none, none, none, some 1⟩ = .ok largestBatch := rfl

/-- At the threshold a refill makes up the whole batch again. -/
theorem largestBatch_refilled :
    let d : Demand := ⟨(ofOptions largestBatch).leastMessages, 0, false⟩
    (∃ s : ConsumeOptions.Settings, s.build = .ok largestBatch) ∧ d.tracking = false ∧
      (ofOptions largestBatch).next? d = some (ofOptions largestBatch).refill ∧
      (d.add (ofOptions largestBatch).refill).messages ≤ Count.top := by
  intro d
  have hnext : (ofOptions largestBatch).next? d = some (ofOptions largestBatch).refill := by decide
  exact ⟨⟨_, build_largestBatch⟩, rfl, hnext, (plan_wellFormed largestBatch).2.2 d _ rfl hnext⟩

/-- All of the largest batch comes to a hundredth of it, as the product passes the word. -/
example : shareOf 100 Count.top = 184467440737095516 := by decide

/-- Two percent of a batch of one would be nothing, and two hundred percent is no share. -/
example : shareOf 2 1 = 1 ∧ assemble? 10 0 200 Defaults.expires (.ofSecs 15) = none := by decide

end RefillPlan

end DemandFlow
