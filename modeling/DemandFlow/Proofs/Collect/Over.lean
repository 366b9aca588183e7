import DemandFlow.Proofs.Collect.Arrivals
import DemandFlow.Proofs.Collect.Turns

/-
  A fetch that is over. Who ends it shuts its subscription down, so that no delivery comes in any
  more, and it stays over whatever happens (`Finished`). A call that comes later is told so in its
  first turn, and is given nothing.
-/

namespace DemandFlow

/-- A call that begins to collect. -/
inductive FetchMode.IsFresh : FetchMode → Prop
  | one : IsFresh .one
  | batch : IsFresh (.batch [])
  | stream : IsFresh (.stream [])

/-- Nothing is given, and no error. -/
inductive Answer.IsNothing : Answer → Prop
  | one : IsNothing (.reading (.ok none))
  | batch : IsNothing (.batch [])
  | stream : IsNothing (.stream [])

theorem FetchMode.IsFresh.isNothing {mode : FetchMode} (h : mode.IsFresh) :
    (mode.last (.ok none)).IsNothing := by
  cases h with
  | one => exact .one
  | batch => exact .batch
  | stream => exact .stream

namespace Exchange

variable {x : Exchange} {id i : Nat} {s : Subscription} {mode : FetchMode}

/-! ## The end -/

/-- The fetch has ended. -/
def IsOver (h : Shelf) : Prop := ∃ f due, h.purpose = .fetch f due ∧ f.finished = true

theorem ofFetch_isOver : Shelf.OfFetch IsOver := fun _ h => h.imp fun _ h => h.imp fun _ h => h.1

theorem busy_isOver : Shelf.Busy IsOver := fun _ _ _ h => h

theorem idle_isOver : Shelf.Idle IsOver where
  line := fun _ _ _ h => h
  finished := fun h f due hp hf => by
    obtain ⟨g, _, hg, hfin⟩ := hp
    cases hf.symm.trans hg
    exact hfin

/-- A fetch that ends leaves a subscription that is shut down, and a caller that waits for its
tasks. -/
theorem endFetch_of (hs : x.subs[i]? = some s) (id : Nat) (f : Fetch) (due : Nat)
    (reason : String) (a : Answer) :
    ∃ y u, Stays x y ∧ y.subs[i]? = some u ∧ u.closed = true ∧ IsOver u.shelf ∧
      x.endFetch id i f due reason a = y.setActivity id (.leave i a) := by
  have hset : (x.setFetch i f.finish due).subs[i]? =
      some { s with purpose := .fetch f.finish due } := by
    show (x.subs.modify i _)[i]? = _
    rw [Array.getElem?_modify, if_pos rfl, hs]
    rfl
  refine ⟨_, ({ s with purpose := .fetch f.finish due } : Subscription).left,
    ((stays_modifySub x i _).trans (stays_note _ _)).trans (stays_unsubscribe _ i), ?_, rfl,
    ⟨_, _, rfl, rfl⟩, rfl⟩
  rw [subs_unsubscribe, Array.getElem?_modify, if_pos rfl]
  show ((x.setFetch i f.finish due).subs[i]?).map _ = _
  rw [hset]
  rfl

/-- The fetch of a subscription is over, and the subscription is shut down. -/
structure Finished (i : Nat) (x : Exchange) : Prop where
  ended : Reserved IsOver (fun _ => True) i x
  closed : ∃ s : Subscription, x.subs[i]? = some s ∧ s.closed = true

theorem Finished.of_sub (hs : x.subs[i]? = some s) (hc : s.closed = true) (h : IsOver s.shelf) :
    Finished i x := ⟨⟨⟨s, hs, h⟩, fun _ _ _ => trivial⟩, ⟨s, hs, hc⟩⟩

/-- What is over stays over, whoever reads. -/
theorem Finished.follow (h : Finished i x) (m : Move) : Finished i (x.follow m) := by
  refine ⟨h.ended.follow ofFetch_isOver m (fun _ => busy_isOver)
    (fun _ => ⟨idle_isOver, fun _ => trivial⟩) fun _ _ _ => idle_isOver, ?_⟩
  obtain ⟨s, hs, hc⟩ := h.closed
  by_cases hclock : ∃ now, m = .clock now
  · obtain ⟨now, rfl⟩ := hclock
    rw [follow_clock, subs_ring]
    exact ⟨s, hs, hc⟩
  obtain ⟨front, ps, y, hw, hy, _⟩ := works_follow x fun now he => hclock ⟨now, he⟩
  obtain ⟨u, hu, _⟩ := hw.retains i s hs
  rw [hy]
  exact ⟨u, hu, hw.stays_closed hs hc hu⟩

theorem Finished.followed (h : Finished i x) (ms : List Move) : Finished i (x.followed ms) := by
  induction ms generalizing x with
  | nil => exact h
  | cons m ms ih => exact ih (h.follow m)

theorem Finished.arriving (h : Finished i x) (m : Move) : x.arriving i m = [] := by
  obtain ⟨s, hs, hc⟩ := h.closed
  exact arriving_of_closed hs hc m

/-! ## Later calls -/

/-- A call that comes when the fetch is over: it stands in line, and is told so in its turn. -/
inductive IsTold (id i : Nat) (mode : FetchMode) (x : Exchange) : Prop
  | asks (caller : x.callerOf? id = some ⟨id, .fetch i mode⟩) (answer : x.answerOf? id = none)
    (ready : .caller id ∈ x.ready)
  | told (caller : x.callerOf? id = none) (answer : x.answerOf? id = some (mode.last (.ok none)))

theorem isTold_turn (hx : Finished i x) (hc : x.callerOf? id = some ⟨id, .fetch i mode⟩)
    (ha : x.answerOf? id = none) : IsTold id i mode (x.turn (.caller id)) := by
  obtain ⟨s, hs, f, due, hp, hf⟩ := hx.ended.shelf
  have hstep : x.stepOf (.caller id) = _ :=
    (callerStep_of_fetch hc).trans (Reserved.fetchStep_of_over hs hp hf id mode)
  rw [turn_of_false hstep]
  obtain ⟨hstays, _⟩ := leaveLine_of hs id
  refine .told (callerOf?_finish_self (x.leaveLine id i) id (mode.last (.ok none))) ?_
  show List.lookup id ((x.leaveLine id i).answers ++ [(id, mode.last (.ok none))]) = _
  rw [hstays.answers, List.lookup_append, show List.lookup id x.answers = none from ha]
  simp

theorem IsTold.follow (h : Steady x) (hx : Finished i x) (hk : IsTold id i mode x) (m : Move) :
    IsTold id i mode (x.follow m) := by
  cases hk with
  | asks hc ha hr =>
    by_cases hown : m = .turn (.caller id)
    · exact hown ▸ isTold_turn hx hc ha
    · obtain ⟨hcaller, hanswer⟩ := caller_follow h (id_lt_of_caller h hc) fun he => absurd he hown
      exact .asks (hcaller.trans hc) (hanswer.trans ha) (ready_follow h hown hr)
  | told hc ha =>
    obtain ⟨hcaller, hanswer⟩ := caller_follow h (id_lt_of_answer h ha) fun _ => hc
    exact .told (hcaller.trans hc) (hanswer.trans ha)

theorem IsTold.followed (h : Steady x) (hx : Finished i x) (hk : IsTold id i mode x)
    {ms : List Move} (hrun : x.IsRun ms) : IsTold id i mode (x.followed ms) := by
  induction ms generalizing x with
  | nil => exact hk
  | cons m ms ih => exact ih (steady_follow h hrun.1) (hx.follow m) (hk.follow h hx m) hrun.2

/-- From now on, whoever collects what a fetch brings is given nothing. -/
def GivesNothing (x : Exchange) (i : Nat) : Prop :=
  ∀ (ms ns : List Move) (mode : FetchMode), mode.IsFresh →
    x.IsRun (ms ++ .collect i mode :: ns) →
      let y := x.followed ms
      let z := (y.follow (.collect i mode)).followed ns
      (∀ a, z.answerOf? y.nextCaller = some a → a.IsNothing) ∧
        (z.isQuiet = true → ∃ a, z.answerOf? y.nextCaller = some a ∧ a.IsNothing)

theorem givesNothing_of_finished (h : Steady x) (hx : Finished i x) : x.GivesNothing i := by
  intro ms ns mode hmode hrun y z
  obtain ⟨hrun, hmore⟩ := isRun_append.1 hrun
  have hy : Steady y := steady_followed h hrun
  have hover : Finished i y := hx.followed ms
  have hasks : IsTold y.nextCaller i mode (y.follow (.collect i mode)) :=
    .asks (callerOf?_callBehind_self hy.seated _) (answerOf?_callBehind_self hy.seated _)
      (mem_callBehind hy.seated _)
  have hz : IsTold y.nextCaller i mode z :=
    hasks.followed (steady_follow hy hmore.1) (hover.follow _) hmore.2
  cases hz with
  | asks hc ha hr =>
    refine ⟨fun a he => ?_, fun hq => ?_⟩
    · cases ha.symm.trans he
    · rw [ready_of_isQuiet hq] at hr
      cases hr
  | told hc ha =>
    refine ⟨fun a he => ?_, fun _ => ⟨_, ha, hmode.isNothing⟩⟩
    cases ha.symm.trans he
    exact hmode.isNothing

end Exchange

end DemandFlow
