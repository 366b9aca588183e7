import DemandFlow.Proofs.Exchange.Withdrawal
import DemandFlow.Proofs.Lane.Reach

/-
  Pulls that are not published, on any transport. A pull that fails is to leave demand, alarm
  period and alarm as they were. `failed_pull_iff` says for every state that a subscription can
  reach, and for every request, when it does; `smallPull_untracks` is a pull that does not.
-/

namespace DemandFlow.Exchange

variable {x : Exchange}

/-! ## Pulls that fail -/

/-- A pull that fails leaves demand, alarm period and alarm of its subscription as they were
exactly when the subscription is closed, or the request went to the transport and sets nothing
that is not set, or its alarm period overflows and all that it adds to is at its most. -/
theorem failed_pull_iff (hx : Reached x) {i : Nat} {s : Subscription} (hs : x.subs[i]? = some s)
    {r : PullRequest} (hr : r.Fits) {e : Failure} (he : (x.pull i r).2 = .error e) :
    ∃ s', (x.pull i r).1.subs[i]? = some s' ∧
      (s.tracker.Unchanged s'.tracker ↔
        s.closed = true ∨ r.GoesOut ∧ s.tracker.Undoable r ∨
          ¬r.GoesOut ∧ s.tracker.Saturated r) := by
  have hk := hx.kept i s hs
  have hget : ∀ t, (retracked i t x.subs)[i]? = some { s with tracker := t } := fun t => by
    rw [retracked, Array.getElem?_modify, if_pos rfl, hs]
    rfl
  rcases pull_cases x i r with ⟨hc, hp⟩ | ⟨u, hu, hc, hcase⟩
  · rw [hp]
    exact ⟨s, hs, fun _ => Or.inl (hc s hs), fun _ => s.tracker.unchanged_refl⟩
  · cases hs.symm.trans hu
    rw [hc] at hk
    rcases hcase with ⟨ht, _, hsubs⟩ | ⟨t, ht, ⟨hok, _⟩ | ⟨_, _, hsubs⟩⟩
    · have hgo : ¬r.GoesOut := not_not.2 (Tracker.issue_eq_none_iff.1 ht)
      refine ⟨_, hsubs ▸ hget _, ?_⟩
      rw [Tracker.unchanged_added_iff hk]
      simp [hc, hgo]
    · rw [hok] at he
      cases he
    · have hgo : r.GoesOut := by
        rw [PullRequest.GoesOut, (Tracker.issue_eq_some ht).1]
        simp
      refine ⟨_, hsubs ▸ hget _, ?_⟩
      rw [Tracker.unchanged_cancel_iff hk hr ht]
      simp [hc, hgo]

/-! ## A pull that is not undone -/

/-- A request with a byte budget. -/
def budgeted : PullRequest :=
  ⟨5, 100, none, none, false, Nat.le_add_left 1 4, PullRequest.none_ne_zero, PullRequest.none_ne_zero⟩

/-- A request without one. -/
def smallPull : PullRequest :=
  ⟨1, 0, none, none, false, Nat.one_pos, PullRequest.none_ne_zero, PullRequest.none_ne_zero⟩

/-- A script has carried one request and then fails. -/
def troubled : Exchange :=
  (start (.scripted .start) true Defaults.queueCapacity).after
    [.manual, .pull 0 (.draft budgeted.draft), .fail none (some .closed)]

theorem reached_troubled : Reached troubled := (Reached.start _ _ _).after _

/-- The pull that fails is withdrawn, but bytes are not tracked any more. -/
theorem smallPull_untracks : smallPull.draft.build = .ok smallPull ∧ smallPull.Fits ∧
    Reached troubled ∧ (troubled.pull 0 smallPull).2 = .error (.ofTransport .closed) ∧
      troubled.subs[0]?.map Subscription.demand = some ⟨5, 100, true⟩ ∧
      (troubled.pull 0 smallPull).1.subs[0]?.map Subscription.demand = some ⟨5, 100, false⟩ :=
  ⟨PullRequest.build_draft smallPull, ⟨by decide, by decide⟩, reached_troubled, rfl, rfl, rfl⟩

/-- The equivalence at that pull. -/
theorem smallPull_not_undone : smallPull.Fits ∧ Reached troubled ∧
    ∃ s : Subscription, troubled.subs[0]? = some s ∧
      (troubled.pull 0 smallPull).2 = .error (.ofTransport .closed) ∧
      ∃ s' : Subscription, (troubled.pull 0 smallPull).1.subs[0]? = some s' ∧
        (s.tracker.Unchanged s'.tracker ↔
          s.closed = true ∨ smallPull.GoesOut ∧ s.tracker.Undoable smallPull ∨
            ¬smallPull.GoesOut ∧ s.tracker.Saturated smallPull) := by
  have hr : smallPull.Fits := ⟨by decide, by decide⟩
  obtain ⟨s, hs⟩ : ∃ s, troubled.subs[0]? = some s := ⟨_, rfl⟩
  exact ⟨hr, reached_troubled, s, hs, rfl, failed_pull_iff reached_troubled hs hr rfl⟩

end DemandFlow.Exchange
