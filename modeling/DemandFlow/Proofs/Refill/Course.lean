import DemandFlow.Proofs.Consume.Order
import DemandFlow.Proofs.Lane.Run
import Mathlib.Data.List.Induction
import Mathlib.Data.Nat.Init

/-
  What consumption without a byte budget asks for while messages come in and nothing else. The
  refill falls due with every message whose number is a multiple of its batch, and after `k`
  messages what is outstanding lacks `k` modulo that batch of being full. Where the refill is as
  large as the batch, nothing is outstanding when it falls due: then the full request is made
  again, and that is the same request.
-/

namespace DemandFlow

/-! ## Dealings -/

namespace Deed

/-- The request that was recorded. -/
def pulled? : Deed → Option PullRequest
  | .pulled r => some r
  | _ => none

/-- Whether demand is settled or added by a deed: a frame is taken in, or a request recorded. -/
def isDealing : Deed → Bool
  | .took _ | .pulled _ => true
  | _ => false

end Deed

/-- The requests that were recorded. -/
def requestsMade (past : List Deed) : List PullRequest := past.filterMap Deed.pulled?

/-- The frames that were taken in and the requests that were recorded, in their order. -/
def dealings (past : List Deed) : List Deed := past.filter Deed.isDealing

theorem requestsMade_append (past new : List Deed) :
    requestsMade (past ++ new) = requestsMade past ++ requestsMade new := List.filterMap_append

theorem dealings_append (past new : List Deed) :
    dealings (past ++ new) = dealings past ++ dealings new := List.filter_append ..

theorem requestsMade_map_pulled (rs : List PullRequest) :
    requestsMade (rs.map .pulled) = rs := by
  induction rs with
  | nil => rfl
  | cons r rs ih => exact congrArg (r :: ·) ih

namespace RefillPlan

/-! ## The course of requests -/

/-- The request that falls due with message number `k`. -/
def dueWith (plan : RefillPlan) (k : Nat) : Option PullRequest :=
  if plan.refill.batch ∣ k then some plan.refill else none

/-- The dealings while these messages come in, from the first request on. -/
def course (plan : RefillPlan) (ms : List Message) : List Deed :=
  .pulled plan.initial :: (ms.zipIdx 1).flatMap fun p =>
    .took (.message p.1) :: (plan.dueWith p.2).toList.map .pulled

theorem course_concat (plan : RefillPlan) (ms : List Message) (m : Message) :
    plan.course (ms ++ [m]) = plan.course ms ++
      .took (.message m) :: (plan.dueWith (ms.length + 1)).toList.map .pulled := by
  unfold course
  rw [List.zipIdx_append, List.flatMap_append, Nat.add_comm 1]
  simp

/-- One full request, and one refill for each batch of it that was filled. -/
theorem requestsMade_course (plan : RefillPlan) (ms : List Message) :
    requestsMade (plan.course ms) =
      plan.initial :: List.replicate (ms.length / plan.refill.batch) plan.refill := by
  induction ms using List.reverseRecOn with
  | nil =>
    rw [List.length_nil, Nat.zero_div]
    rfl
  | append_singleton ms m ih =>
    have hmore : requestsMade (.took (.message m) ::
        (plan.dueWith (ms.length + 1)).toList.map .pulled) =
          (plan.dueWith (ms.length + 1)).toList := requestsMade_map_pulled _
    rw [course_concat, requestsMade_append, ih, hmore, List.length_append, List.length_singleton,
      Nat.succ_div, List.cons_append]
    unfold dueWith
    split
    · rw [List.replicate_succ']
      rfl
    · rw [Option.toList_none, List.append_nil, Nat.add_zero]

/-! ## What is outstanding -/

variable {o : ConsumeOptions}

/-- What is outstanding after `k` messages. -/
def leftAfter (o : ConsumeOptions) (k : Nat) : Demand :=
  ⟨o.batchSize - k % (ofOptions o).refill.batch, 0, false⟩

theorem batch_refill_le (o : ConsumeOptions) : (ofOptions o).refill.batch ≤ o.batchSize :=
  shareOf_le o.threshold_le o.batchSize_pos

/-- A refill as large as the batch is the full request. -/
theorem initial_eq_refill (hz : o.batchBytes = 0) (h : (ofOptions o).refill.batch = o.batchSize) :
    (ofOptions o).initial = (ofOptions o).refill := by
  have hbytes : refillBytes o = o.batchBytes := by
    unfold refillBytes
    rw [if_pos hz, hz]
  have hb : shareOf o.threshold o.batchSize = o.batchSize := h
  show PullRequest.timed o.batchSize o.batchBytes o.expires o.heartbeat _ =
    PullRequest.timed (shareOf o.threshold o.batchSize) (refillBytes o) o.expires o.heartbeat _
  simp only [hbytes, hb]

theorem take_leftAfter (o : ConsumeOptions) (k : Nat) (m : Message) :
    (leftAfter o k).take (.message m) =
      ⟨o.batchSize - k % (ofOptions o).refill.batch - 1, 0, false⟩ := by
  show (leftAfter o k).subtract 1 m.size = _
  unfold Demand.subtract leftAfter
  dsimp only
  rw [if_neg Bool.false_ne_true]
  cases hc : (o.batchSize - k % (ofOptions o).refill.batch - 1 == 0) with
  | true =>
    rw [eq_of_beq hc]
    rfl
  | false => rfl

/-- With one message more either the refill falls due or that much more of it is used up. -/
theorem mod_succ_cases {r : Nat} (hr : 0 < r) (k : Nat) :
    (r ∣ k + 1 ∧ k % r + 1 = r ∧ (k + 1) % r = 0) ∨
      (¬r ∣ k + 1 ∧ k % r + 1 < r ∧ (k + 1) % r = k % r + 1) := by
  have hmod := Nat.mod_lt k hr
  have hadd : (k % r + 1) % r = (k + 1) % r := Nat.mod_add_mod k r 1
  rcases Nat.lt_or_eq_of_le (Nat.succ_le_of_lt hmod) with hlt | heq
  · have hnext : (k + 1) % r = k % r + 1 := hadd ▸ Nat.mod_eq_of_lt hlt
    exact Or.inr ⟨fun hd => (by have := Nat.mod_eq_zero_of_dvd hd; omega), hlt, hnext⟩
  · have hzero : (k + 1) % r = 0 := by
      rw [← hadd, show k % r + 1 = r from heq, Nat.mod_self]
    exact Or.inl ⟨Nat.dvd_of_mod_eq_zero hzero, heq, hzero⟩

/-- The plan asks for the refill exactly when it falls due. -/
theorem next?_leftAfter (hz : o.batchBytes = 0) (k : Nat) (m : Message) :
    (ofOptions o).next? ((leftAfter o k).take (.message m)) = (ofOptions o).dueWith (k + 1) := by
  have hle := batch_refill_le o
  have hsum := leastMessages_add_batch o
  have hlow : ∀ n, (ofOptions o).isLowOnBytes ⟨n, 0, false⟩ = false := fun _ => rfl
  rw [take_leftAfter]
  unfold next? dueWith
  rw [hlow, Bool.or_false]
  rcases mod_succ_cases (ofOptions o).refill.batch_pos k with ⟨hd, hk, _⟩ | ⟨hd, hk, _⟩
  · rw [if_pos hd]
    split
    · rename_i he
      have hnone : o.batchSize - k % (ofOptions o).refill.batch - 1 = 0 := by
        simpa [Demand.isExhausted] using he
      rw [initial_eq_refill hz (by omega)]
    · rw [if_pos (decide_eq_true (by dsimp only; omega))]
  · rw [if_neg hd, if_neg, if_neg]
    · simp only [decide_eq_true_eq]
      omega
    · simp only [Demand.isExhausted, Bool.not_false, Bool.and_true, beq_iff_eq]
      omega

/-- What is outstanding once the request that falls due was made. -/
theorem plus_leftAfter (hf : o.Fits) (hz : o.batchBytes = 0) (k : Nat) (m : Message) :
    Flow.plus ((leftAfter o k).take (.message m)) ((ofOptions o).dueWith (k + 1)) =
      leftAfter o (k + 1) := by
  have hle := batch_refill_le o
  have htop := hf.batchSize
  have hbytes : (ofOptions o).refill.maxBytes = 0 := (issues_refill hf).unbudgeted hz
  rw [take_leftAfter]
  unfold dueWith leftAfter Flow.plus
  rcases mod_succ_cases (ofOptions o).refill.batch_pos k with ⟨hd, hk, hnext⟩ | ⟨hd, hk, hnext⟩
  · rw [if_pos hd, hnext]
    show Demand.add _ _ = _
    unfold Demand.add
    rw [hbytes, Demand.mk.injEq]
    refine ⟨?_, rfl, rfl⟩
    rw [Count.add_of_le (by dsimp only; omega)]
    dsimp only
    omega
  · rw [if_neg hd, hnext]
    show Demand.mk _ _ _ = _
    rw [Demand.mk.injEq]
    exact ⟨by omega, rfl, rfl⟩

/-- What is outstanding after the first request. -/
theorem add_initial (hf : o.Fits) (hz : o.batchBytes = 0) :
    Demand.none.add (ofOptions o).initial = leftAfter o 0 := by
  have hbytes : (ofOptions o).initial.maxBytes = 0 := (issues_initial hf).unbudgeted hz
  unfold leftAfter Demand.add
  rw [hbytes, Demand.mk.injEq, Nat.zero_mod]
  refine ⟨?_, rfl, rfl⟩
  show Count.add 0 o.batchSize = _
  rw [Count.add_of_le (by rw [Nat.zero_add]; exact hf.batchSize), Nat.zero_add, Nat.sub_zero]

end RefillPlan

end DemandFlow
