import DemandFlow.Proofs.Wake.Run

/-
  A call among all that happens. Whoever calls gets a number of its own and stands in line. From
  then on only its own turns move it on (`caller_follow`), and it stands in line until one of them
  is over (`ready_follow`). Who waits for the tasks of a subscription that is shut down waits until
  the next lull at most.
-/

namespace DemandFlow.Exchange

variable {x y : Exchange} {id i : Nat}

/-! ## What a move leaves alone -/

/-- Every move but one of the clock is work, and what it does besides to the line of tasks; a
caller is in front only in its own turn, while it is there. -/
theorem works_follow (x : Exchange) {m : Move} (hm : ∀ now, m ≠ .clock now) :
    ∃ front ps y, Works front x ps y ∧ x.follow m = { y with ready := (x.follow m).ready } ∧
      ∀ id, front = some (.caller id) →
        m = .turn (.caller id) ∧ ∃ c, x.callerOf? id = some c := by
  by_cases hturn : ∃ t, m = .turn t
  · obtain ⟨t, rfl⟩ := hturn
    obtain ⟨front, ps, hw, hfront, hcaller⟩ := works_stepOf x t
    refine ⟨front, ps, _, hw, ?_, fun id hid => ⟨?_, hcaller id hid⟩⟩
    · show x.turn t = { (x.stepOf t).1 with ready := (x.turn t).ready }
      rcases turn_cases x t with ⟨_, he⟩ | ⟨_, he⟩ <;> rw [he]
    · rcases hfront with hn | hn
      · cases hid.symm.trans hn
      · cases hid.symm.trans hn
        rfl
  · have hnot : ∀ t, m ≠ .turn t := fun t he => hturn ⟨t, he⟩
    obtain ⟨ps, _, hw⟩ := Works.next x m hm
    refine ⟨m.front, ps, _, hw, ?_, fun id hid => ?_⟩
    · rw [follow_of_ne hnot]
    · rcases front_of_ne hnot with hn | hn <;> cases hid.symm.trans hn

/-- A caller is left where it is by every move but its own turn, and so is its answer. -/
theorem caller_follow (h : Steady x) {m : Move} (hid : id < x.nextCaller)
    (hown : m = .turn (.caller id) → x.callerOf? id = none) :
    (x.follow m).callerOf? id = x.callerOf? id ∧ (x.follow m).answerOf? id = x.answerOf? id := by
  by_cases hclock : ∃ now, m = .clock now
  · obtain ⟨now, rfl⟩ := hclock
    rw [follow_clock]
    exact ⟨callerOf?_ring x now id, congrArg (List.lookup id) (stays_ring x now).answers⟩
  obtain ⟨front, ps, y, hw, hy, hcaller⟩ := works_follow x fun now he => hclock ⟨now, he⟩
  obtain ⟨_, hsits, _⟩ := h.works hw fun id hid => (hcaller id hid).2
  have hfront : front ≠ some (.caller id) := fun he => by
    obtain ⟨hm, c, hc⟩ := hcaller id he
    cases (hown hm).symm.trans hc
  rw [hy]
  exact ⟨hsits.caller id hid hfront, hsits.answer id hid hfront⟩

theorem id_lt_of_caller (h : Steady x) {c : Caller} (hc : x.callerOf? id = some c) :
    id < x.nextCaller := id_of_callerOf? hc ▸ h.seated.callers c (mem_of_callerOf? hc)

theorem id_lt_of_answer (h : Steady x) {a : Answer} (ha : x.answerOf? id = some a) :
    id < x.nextCaller := by
  obtain ⟨l, r, hl, _⟩ := List.lookup_eq_some_iff.1 ha
  exact h.seated.answers (id, a) (hl ▸ List.mem_append_right l List.mem_cons_self)

theorem turn_of_true {t : Task} (h : x.stepOf t = (y, true)) : x.turn t = y := by
  unfold turn
  rw [h]
  exact if_pos rfl

theorem turn_of_false {t : Task} (h : x.stepOf t = (y, false)) :
    x.turn t = { y with ready := y.ready.erase t } := by
  unfold turn
  rw [h]
  exact if_neg Bool.false_ne_true

/-- Whoever stands in line does so until its own turn is over. -/
theorem ready_stepOf (h : Steady x) (t : Task) {u : Task} (hu : u ∈ x.ready) :
    u ∈ (x.stepOf t).1.ready := by
  obtain ⟨front, ps, hw, _, hcaller⟩ := works_stepOf x t
  obtain ⟨_, _, hstirs, _⟩ := h.works hw hcaller
  exact hstirs.ready u hu

theorem ready_follow (h : Steady x) {m : Move} {t : Task} (hm : m ≠ .turn t) (ht : t ∈ x.ready) :
    t ∈ (x.follow m).ready := by
  by_cases hclock : ∃ now, m = .clock now
  · obtain ⟨now, rfl⟩ := hclock
    exact (stays_ring x now).ready t ht
  by_cases hturn : ∃ u, m = .turn u
  · obtain ⟨u, rfl⟩ := hturn
    have hstep := ready_stepOf h u ht
    show t ∈ (x.turn u).ready
    rcases turn_cases x u with ⟨_, he⟩ | ⟨_, he⟩
    · exact he ▸ hstep
    · rw [he]
      exact (List.mem_erase_of_ne fun e => hm (congrArg Move.turn e.symm)).2 hstep
  · have hnot : ∀ u, m ≠ .turn u := fun u he => hturn ⟨u, he⟩
    obtain ⟨ps, _, hw⟩ := Works.next x m fun now he => hclock ⟨now, he⟩
    obtain ⟨_, _, hstirs, _⟩ := h.works hw fun id hid => by
      rcases front_of_ne hnot with hn | hn <;> cases hid.symm.trans hn
    rw [follow_of_ne hnot]
    exact hstirs.ready t ht

/-! ## Lulls -/

/-- Who waits for the tasks of a subscription that is shut down owes a step as soon as all wait. -/
theorem not_isQuiet_of_leave (h : Steady x) {a : Answer}
    (hc : x.callerOf? id = some ⟨id, .leave i a⟩) {s : Subscription} (hs : x.subs[i]? = some s)
    (hclosed : s.closed = true) : x.isQuiet = false := by
  rw [← Bool.not_eq_true]
  intro hq
  have hworker : s.worker = .ended := Decidable.byContradiction fun hne =>
    h.not_owes hq (.worker i) (.worker ⟨s, hs, hclosed, hne⟩)
  have hwatching : s.watching = false := by
    rw [← Bool.not_eq_true]
    exact fun hw => h.not_owes hq (.alarm i) (.alarm ⟨s, hs, hw, h.tight i s hs hclosed⟩)
  refine h.not_owes hq (.caller id) (.ended hc fun u hu => ?_)
  cases hs.symm.trans hu
  unfold Subscription.isOver
  rw [hwatching, hworker]
  rfl

/-! ## Calls -/

/-- Whoever calls has the next number, -/
theorem callerOf?_callBehind_self (h : Seated x) (a : Activity) :
    (x.callBehind a).1.callerOf? x.nextCaller = some ⟨x.nextCaller, a⟩ := by
  have hnone : x.callerOf? x.nextCaller = none :=
    List.find?_eq_none.2 fun c hc => by simp [Nat.ne_of_lt (h.callers c hc)]
  unfold callerOf? at hnone ⊢
  rw [callers_callBehind, List.find?_append, hnone, Option.none_or]
  simp

/-- has no answer yet, -/
theorem answerOf?_callBehind_self (h : Seated x) (a : Activity) :
    (x.callBehind a).1.answerOf? x.nextCaller = none := by
  unfold answerOf?
  rw [answers_callBehind]
  exact List.lookup_eq_none_iff.2 fun p hp => bne_iff_ne.2 (Nat.ne_of_gt (h.answers p hp))

/-- and stands in line. -/
theorem mem_callBehind (h : Seated x) (a : Activity) :
    .caller x.nextCaller ∈ (x.callBehind a).1.ready := by
  unfold callBehind
  refine mem_wake ?_ _
  unfold enroll
  dsimp only
  split <;> exact h.foreground

/-! ## Runs one after the other -/

theorem isRun_append {ms ns : List Move} :
    x.IsRun (ms ++ ns) ↔ x.IsRun ms ∧ (x.followed ms).IsRun ns := by
  induction ms generalizing x with
  | nil => exact (true_and _).symm.to_iff
  | cons m ms ih => exact (and_congr_right fun _ => ih).trans and_assoc.symm

theorem followed_append (x : Exchange) (ms ns : List Move) :
    x.followed (ms ++ ns) = (x.followed ms).followed ns := List.foldl_append

end DemandFlow.Exchange
