import DemandFlow.Proofs.Demand.Withdrawal

/-
  Settling between two requests. However what is delivered and given back comes in, one by one or
  several at once and in whatever order, the accounts end where one subtraction of the exact sums
  ends: `less` says where that is. A window that closes on the way forgets both counts and the
  flag; it stays closed, and the sums have reached what was outstanding too. Only where nothing at
  all is settled does this need what every tracker keeps (`Reached.coherent`): demand without
  messages, or tracked without bytes, would be forgotten by a subtraction of nothing.
-/

namespace DemandFlow

namespace Tracker

/-- The trackers that requests, withdrawals, messages and statuses lead to, whatever becomes of
the monitor meanwhile. -/
inductive Reached : Tracker → Prop
  | start (now : Nat) : Reached (.start now)
  | issue {t u : Tracker} (now : Nat) (r : PullRequest) (h : Reached t)
      (hi : t.issue now r = some u) : Reached u
  | overflow {t : Tracker} (now : Nat) (r : PullRequest) (h : Reached t)
      (hi : t.issue now r = none) : Reached (t.added r)
  | cancel {t : Tracker} (r : PullRequest) (h : Reached t) : Reached (t.cancel r)
  | track {t : Tracker} (m : Message) (h : Reached t) : Reached (t.track m)
  | reconcile {t : Tracker} (s : Status) (h : Reached t) : Reached (t.reconcile s)
  | monitored {t : Tracker} (m : Monitor) (h : Reached t) : Reached { t with monitor := m }

theorem Reached.coherent {t : Tracker} (h : t.Reached) : t.demand.Coherent := by
  induction h with
  | start now => exact Demand.coherent_none
  | issue now r h hi ih =>
    rw [demand_issue hi]
    exact Demand.coherent_add ih r
  | overflow now r h hi ih => exact Demand.coherent_add ih r
  | cancel r h ih => exact Demand.coherent_withdraw ih r
  | track m h ih => exact Demand.coherent_subtract ih 1 m.size
  | @reconcile t s h ih =>
    unfold Tracker.reconcile
    cases s.pendingCounts with
    | none => exact ih
    | some p => exact Demand.coherent_subtract ih p.1 p.2
  | monitored m h ih => exact ih

end Tracker

namespace Demand

/-- The demand less so many messages and bytes: nothing is left once the messages are used up, or
the bytes while they are tracked. -/
def less (d : Demand) (messages bytes : Nat) : Demand :=
  if d.messages ≤ messages ∨ d.tracking = true ∧ d.bytes ≤ bytes then none
  else ⟨d.messages - messages, if d.tracking then d.bytes - bytes else d.bytes, d.tracking⟩

theorem less_of_reached {d : Demand} {m b : Nat}
    (h : d.messages ≤ m ∨ d.tracking = true ∧ d.bytes ≤ b) : d.less m b = none := if_pos h

theorem less_of_not {d : Demand} {m b : Nat}
    (h : ¬(d.messages ≤ m ∨ d.tracking = true ∧ d.bytes ≤ b)) :
    d.less m b = ⟨d.messages - m, if d.tracking then d.bytes - b else d.bytes, d.tracking⟩ :=
  if_neg h

theorem subtract_eq_less (d : Demand) (m b : Nat) : d.subtract m b = d.less m b := by
  unfold subtract less closeIf
  cases d.tracking with
  | true => simp only [if_true, true_and, Bool.or_eq_true, beq_iff_eq, Nat.sub_eq_zero_iff_le]
  | false =>
    simp only [Bool.false_eq_true, if_false, false_and, or_false, beq_iff_eq,
      Nat.sub_eq_zero_iff_le]

/-- Two subtractions are one of the sums. -/
theorem subtract_subtract (d : Demand) (m b m' b' : Nat) :
    (d.subtract m b).subtract m' b' = d.subtract (m + m') (b + b') := by
  rw [subtract_eq_less, subtract_eq_less, subtract_eq_less]
  by_cases hclosed : d.messages ≤ m ∨ d.tracking = true ∧ d.bytes ≤ b
  · have hboth : d.messages ≤ m + m' ∨ d.tracking = true ∧ d.bytes ≤ b + b' :=
      hclosed.imp Nat.le_add_right_of_le (And.imp_right Nat.le_add_right_of_le)
    rw [less_of_reached hclosed, less_of_reached (Or.inl (Nat.zero_le _)), less_of_reached hboth]
  · rw [less_of_not hclosed]
    cases ht : d.tracking with
    | true =>
      rw [ht] at hclosed
      unfold less
      simp only [ht, if_true, true_and, Nat.sub_le_iff_le_add', Nat.sub_sub]
    | false =>
      unfold less
      simp only [ht, Bool.false_eq_true, if_false, false_and, or_false, Nat.sub_le_iff_le_add',
        Nat.sub_sub]

/-- Nothing is changed where nothing is settled. -/
theorem subtract_zero {d : Demand} (h : d.Coherent) : d.subtract 0 0 = d := by
  rw [subtract_eq_less]
  by_cases hclosed : d.messages ≤ 0 ∨ d.tracking = true ∧ d.bytes ≤ 0
  · have hempty : d.messages = 0 := by
      rcases hclosed with hm | ⟨ht, hb⟩
      · exact Nat.le_zero.1 hm
      · exact absurd (h.tracked ht) (Nat.not_lt_of_le hb)
    rw [less_of_reached hclosed, h.whole hempty]
  · rw [less_of_not hclosed, Nat.sub_zero, Nat.sub_zero, ite_self]

/-! ## Many at once -/

/-- The demand after messages and bytes were settled one after another. -/
def subtractAll (d : Demand) (xs : List (Nat × Nat)) : Demand :=
  xs.foldl (fun d x => d.subtract x.1 x.2) d

/-- The exact sums of messages and of bytes. -/
def total (xs : List (Nat × Nat)) : Nat × Nat := ((xs.map Prod.fst).sum, (xs.map Prod.snd).sum)

theorem total_cons (x : Nat × Nat) (xs : List (Nat × Nat)) :
    total (x :: xs) = (x.1 + (total xs).1, x.2 + (total xs).2) := by
  unfold total
  rw [List.map_cons, List.map_cons, List.sum_cons, List.sum_cons]

theorem total_append (xs ys : List (Nat × Nat)) :
    total (xs ++ ys) = ((total xs).1 + (total ys).1, (total xs).2 + (total ys).2) := by
  unfold total
  rw [List.map_append, List.map_append, List.sum_append, List.sum_append]

theorem total_perm {xs ys : List (Nat × Nat)} (h : xs.Perm ys) : total xs = total ys := by
  unfold total
  rw [(h.map Prod.fst).sum_nat, (h.map Prod.snd).sum_nat]

theorem total_groups (gs : List (List (Nat × Nat))) : total (gs.map total) = total gs.flatten := by
  induction gs with
  | nil => rfl
  | cons g gs ih => rw [List.map_cons, List.flatten_cons, total_cons, total_append, ih]

theorem subtractAll_eq_subtract {d : Demand} (h : d.Coherent) (xs : List (Nat × Nat)) :
    d.subtractAll xs = d.subtract (total xs).1 (total xs).2 := by
  induction xs generalizing d with
  | nil => exact (subtract_zero h).symm
  | cons x xs ih =>
    rw [total_cons, ← subtract_subtract]
    exact ih (coherent_subtract h x.1 x.2)

/-- What is settled one after another comes to one subtraction of the sums, so neither the order
nor the grouping makes a difference. -/
theorem subtractAll_totals {t : Tracker} (h : t.Reached) (xs : List (Nat × Nat)) :
    t.demand.subtractAll xs = t.demand.subtract (total xs).1 (total xs).2 ∧
    t.demand.subtractAll xs = t.demand.less (total xs).1 (total xs).2 ∧
    (∀ ys : List (Nat × Nat), ys.Perm xs → t.demand.subtractAll ys = t.demand.subtractAll xs) ∧
    ∀ gs : List (List (Nat × Nat)), gs.flatten.Perm xs →
      t.demand.subtractAll (gs.map total) = t.demand.subtractAll xs := by
  have hall := subtractAll_eq_subtract h.coherent
  have hsame : ∀ ys, total ys = total xs → t.demand.subtractAll ys = t.demand.subtractAll xs :=
    fun ys he => by rw [hall, hall, he]
  refine ⟨hall xs, ?_, fun ys hp => hsame ys (total_perm hp), fun gs hp => hsame _ ?_⟩
  · rw [hall, subtract_eq_less]
  · rw [total_groups, total_perm hp]

/-- Five messages and a hundred bytes are outstanding. -/
def fiveInHundred : Tracker := ⟨⟨5, 100, true⟩, (Monitor.start 0).disarm⟩

theorem reached_fiveInHundred : fiveInHundred.Reached :=
  .issue 0 ⟨5, 100, .none, .none, false, by decide, nofun, nofun⟩ (.start 0) rfl

/-- The bytes run out on the way, sooner or later, with messages left. -/
theorem fiveInHundred_totals :
    let xs := [(2, 95), (1, 10), (1, 0)]
    let gs := [[(1, 10)], [], [(1, 0), (2, 95)]]
    fiveInHundred.Reached ∧ gs.flatten.Perm xs ∧ fiveInHundred.demand.subtractAll xs = none ∧
      fiveInHundred.demand.subtractAll (gs.map total) = none := by
  intro xs gs
  have hperm : gs.flatten.Perm xs := by decide
  obtain ⟨_, hless, _, hgroups⟩ := subtractAll_totals reached_fiveInHundred xs
  exact ⟨reached_fiveInHundred, hperm, hless, (hgroups gs hperm).trans hless⟩

end Demand

end DemandFlow
