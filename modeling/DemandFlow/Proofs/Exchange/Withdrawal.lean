import DemandFlow.Proofs.Accounts.Balance
import DemandFlow.Proofs.Demand.Withdrawal
import DemandFlow.Proofs.Exchange.Reached

/-
  What a pull comes to for its subscription, on any transport: it finds nobody to pull for, or
  overflows, or goes out, or is withdrawn. Whichever it is, every tracker stays coherent, and so
  it is in all states that can be reached.
-/

namespace DemandFlow.Exchange

variable {x y : Exchange}

/-! ## What a pull does to its subscription -/

/-- The subscriptions after the tracker of one was replaced. -/
def retracked (i : Nat) (t : Tracker) (ss : Array Subscription) : Array Subscription :=
  ss.modify i fun s => { s with tracker := t }

theorem subs_setTracker (x : Exchange) (i : Nat) (t : Tracker) :
    (x.setTracker i t).subs = retracked i t x.subs :=
  congrArg Core.subs (core_setTracker x i t)

theorem retracked_retracked (i : Nat) (t u : Tracker) (ss : Array Subscription) :
    retracked i u (retracked i t ss) = retracked i u ss :=
  modify_modify ss i _ _

/-- A pull finds nobody to pull for, or overflows, or goes out, or is withdrawn. -/
theorem pull_cases (x : Exchange) (i : Nat) (r : PullRequest) :
    ((∀ s, x.subs[i]? = some s → s.closed = true) ∧
      x.pull i r = (x, .error (.error .closed))) ∨
    ∃ s, x.subs[i]? = some s ∧ s.closed = false ∧
      ((s.tracker.issue x.now r = none ∧ (x.pull i r).2 = .error .overflow ∧
          (x.pull i r).1.subs = retracked i (s.tracker.added r) x.subs) ∨
        ∃ t, s.tracker.issue x.now r = some t ∧
          (((x.pull i r).2 = .ok () ∧ (x.pull i r).1.subs = retracked i t x.subs) ∨
            ∃ e, (x.pull i r).2 = .error (.ofTransport e) ∧
              (x.pull i r).1.subs = retracked i (t.cancel r) x.subs)) := by
  unfold pull
  cases hs : x.subs[i]? with
  | none => exact Or.inl ⟨fun s h => (by cases h), rfl⟩
  | some s =>
    dsimp only
    cases hc : s.closed with
    | true => exact Or.inl ⟨fun u hu => by rw [← Option.some.inj hu, hc], rfl⟩
    | false =>
      rw [if_neg Bool.false_ne_true]
      refine Or.inr ⟨s, rfl, hc, ?_⟩
      cases ht : s.tracker.issue x.now r with
      | none => exact Or.inl ⟨rfl, rfl, subs_setTracker x i _⟩
      | some t =>
        refine Or.inr ⟨t, rfl, ?_⟩
        dsimp only
        have hsubs : (((((x.setTracker i t).wakeDrainers i).note
            (Journal.pullStarted r t.demand)).note (Journal.publishingPull s.inbox r)).carry
              s.inbox r).1.subs = retracked i t x.subs := by
          rw [subs_carry, subs_note, subs_note, wakeDrainers, subs_wakeAll, subs_setTracker]
        split
        · rename_i y hy
          rw [hy] at hsubs
          exact Or.inl ⟨rfl, hsubs⟩
        · rename_i y e hy
          rw [hy] at hsubs
          refine Or.inr ⟨e, rfl, ?_⟩
          rw [subs_note, subs_note, wakeDrainers, subs_wakeAll, subs_setTracker, hsubs,
            retracked_retracked]

/-! ## What trackers keep -/

/-- Every tracker is coherent. -/
def Kept (ss : Array Subscription) : Prop :=
  ∀ (i : Nat) (s : Subscription), ss[i]? = some s → s.tracker.Coherent s.closed

section Kept

variable {ss ss' : Array Subscription}

theorem kept_of_untouched (h : Kept ss) (hs : Untouched ss ss') : Kept ss' := by
  intro i s' hs'
  obtain ⟨s, hi, ht, hc⟩ := hs i s' hs'
  rw [ht, hc]
  exact h i s hi

theorem kept_modify (h : Kept ss) {i : Nat} {g : Subscription → Subscription}
    (hg : ∀ s, ss[i]? = some s → (g s).tracker.Coherent (g s).closed) : Kept (ss.modify i g) := by
  intro j s' hs'
  rcases getElem?_modify_eq_some hs' with ⟨s, rfl, hs, rfl⟩ | ⟨_, hs⟩
  · exact hg s hs
  · exact h j s' hs

theorem kept_retracked (h : Kept ss) {i : Nat} {s : Subscription} (hs : ss[i]? = some s)
    {t : Tracker} (ht : t.Coherent s.closed) : Kept (retracked i t ss) := by
  refine kept_modify h fun u hu => ?_
  rw [Option.some.inj (hu.symm.trans hs)]
  exact ht

theorem kept_push (h : Kept ss) {s : Subscription} (hs : s.tracker.Coherent s.closed) :
    Kept (ss.push s) := by
  intro i u hu
  rw [Array.getElem?_push] at hu
  split at hu
  · rw [← Option.some.inj hu]
    exact hs
  · exact h i u hu

theorem kept_openSub (h : Kept x.subs) (p : Purpose) : Kept (x.openSub p).1.subs := by
  refine openSub_keeps (P := fun y => Kept y.subs) ((subs_subscribe x _).symm ▸ h)
    fun y feed inbox hy => ?_
  rw [subs_note, subs_wake, subs_wake]
  exact kept_push hy (Tracker.coherent_start y.now)

theorem kept_pull (h : Kept x.subs) (i : Nat) (r : PullRequest) : Kept (x.pull i r).1.subs := by
  rcases pull_cases x i r with ⟨_, he⟩ | ⟨s, hs, _, ⟨_, _, he⟩ | ⟨t, ht, ⟨_, he⟩ | ⟨_, _, he⟩⟩⟩
  · rw [he]
    exact h
  · rw [he]
    exact kept_retracked h hs (Tracker.coherent_added (h i s hs) r)
  · rw [he]
    exact kept_retracked h hs (Tracker.coherent_issue (h i s hs) ht)
  · rw [he]
    exact kept_retracked h hs (Tracker.coherent_cancel (Tracker.coherent_issue (h i s hs) ht) r)

theorem kept_manage (h : Kept x.subs) (i : Nat) : Kept (x.manage i).subs := by
  rcases core_manage x i with hc | ⟨s, feed, f, rest, hs, _, _, hc⟩
  · have hsubs : (x.manage i).subs = x.subs := congrArg Core.subs hc
    exact hsubs ▸ h
  · have hsubs : (x.manage i).subs = retracked i (s.tracker.account x.now f) x.subs :=
      congrArg Core.subs hc
    rw [hsubs]
    exact kept_retracked h hs (Tracker.coherent_account (h i s hs) x.now f)

theorem kept_alarmStep (h : Kept x.subs) (i : Nat) : Kept (x.alarmStep i).1.subs := by
  have hsaw : Kept (x.sawMonitor i).subs :=
    kept_modify h fun s hs => Tracker.coherent_seen (h i s hs) x.now
  have hend : ∀ {z : Exchange}, Kept z.subs → Kept (z.endAlarm i).subs := by
    intro z hz
    unfold endAlarm wakeLeavers
    rw [subs_wakeAll]
    exact kept_modify hz fun u hu => hz i u hu
  unfold alarmStep
  split
  · exact h
  · rename_i s hs
    split
    · split
      · exact hend (z := x.note Journal.monitorStopped) h
      · exact hsaw
      · exact hsaw
      · rw [subs_wake]
        exact kept_modify hsaw fun u hu => hsaw i u hu
      · exact hend h
    · exact h

theorem kept_close (h : Kept x.subs) (i : Nat) : Kept (x.close i).subs := by
  have hs : (x.close i).subs = shutDown i x.subs := congrArg Core.subs (core_close x i)
  rw [hs]
  exact kept_modify h fun s hs => Tracker.coherent_shutdown (h i s hs)

/-- In all states that can be reached every tracker is coherent. -/
theorem Reached.kept (h : Reached x) : Kept x.subs := by
  induction h with
  | start t keepsNotices queueCapacity =>
    intro i s hs
    cases hs
  | opened _ p ih => exact kept_openSub ih p
  | pulled _ i r ih => exact kept_pull ih i r
  | managed _ i ih => exact kept_manage ih i
  | watched _ i ih => exact kept_alarmStep ih i
  | closed _ i ih => exact kept_close ih i
  | elsewhere _ hs ih => exact kept_of_untouched ih hs

end Kept

end DemandFlow.Exchange
