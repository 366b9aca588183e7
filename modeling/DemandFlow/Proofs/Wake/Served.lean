import DemandFlow.Proofs.Wake.Owes

/-
  Whoever leaves the line is served. A task leaves it when its step cannot go on; by then it has
  looked at what it waits for and has not found it, or it has ended. So it owes no further step,
  and need not be in line until something happens (`not_owes_of_stepOf`).
-/

namespace DemandFlow.Exchange

variable {x : Exchange} {i id : Nat}

/-! ## Callers that cannot go on -/

theorem callers_waitUntil (x : Exchange) (id : Nat) (due : Option Nat) :
    (x.waitUntil id due).callers = x.callers := by
  cases due with
  | none => rfl
  | some due => exact congrArg Core.callers (core_keepTimer x (.caller id) due)

/-- A caller is done, or is at what it was at. -/
def Pauses (id : Nat) (x y : Exchange) : Prop :=
  y.callerOf? id = none ∨ y.callerOf? id = x.callerOf? id

theorem pauses_finish (x y : Exchange) (id : Nat) (a : Answer) : Pauses id x (y.finish id a) :=
  Or.inl (callerOf?_finish_self y id a)

theorem pauses_of_callers {y : Exchange} (h : y.callers = x.callers) : Pauses id x y :=
  Or.inr (callerOf?_of_callers h id)

theorem pauses_keepTimer (x : Exchange) (id : Nat) (t : Task) (due : Nat) :
    Pauses id x (x.keepTimer t due) :=
  pauses_of_callers (congrArg Core.callers (core_keepTimer x t due))

theorem pauses_look (x : Exchange) (i : Nat) (s : Subscription) (due : Option Nat) :
    Pauses id x ((x.look id i s due).1.waitUntil id due) :=
  pauses_of_callers ((callers_waitUntil _ id due).trans (skips_callers.look x id i s due))

theorem pauses_readStepOf (x : Exchange) (id i : Nat) (due : Option Nat) :
    Pauses id x (x.readStepOf id i due).1 := by
  unfold readStepOf
  split
  · exact pauses_finish x x id _
  · dsimp only
    split
    · exact pauses_finish x _ id _
    · exact pauses_look x i _ due

theorem pauses_readAllStep {timeout : Span} {due : Option Nat} {got : List Message}
    (h : (x.readAllStep id i timeout due got).2 = false) :
    Pauses id x (x.readAllStep id i timeout due got).1 := by
  unfold readAllStep at h ⊢
  split
  · exact pauses_finish x x id _
  · rename_i hs
    rw [hs] at h
    dsimp only at h ⊢
    split
    · rename_i hr
      rw [hr] at h
      cases h
    · exact pauses_finish x _ id _
    · exact pauses_look x i _ due

theorem pauses_gotMessage {y : Exchange} {mode : FetchMode} {m : Message}
    (h : (y.gotMessage id i mode m).2 = false) : Pauses id x (y.gotMessage id i mode m).1 := by
  cases mode with
  | one => exact pauses_finish x y id _
  | batch _ | stream _ => cases h

theorem pauses_fetchStep {mode : FetchMode} (h : (x.fetchStep id i mode).2 = false) :
    Pauses id x (x.fetchStep id i mode).1 := by
  unfold fetchStep at h ⊢
  split
  · exact pauses_finish x x id _
  · rename_i s hs
    rw [hs] at h
    dsimp only at h
    split
    · rename_i f due hp
      rw [hp] at h
      dsimp only at h
      split
      · exact pauses_finish x _ id _
      · rename_i hf
        rw [if_neg hf] at h
        split
        · rename_i hfull
          rw [if_pos hfull] at h
          cases h
        · rename_i hfull
          rw [if_neg hfull] at h
          have hlook := skips_callers.look x id i s (some due)
          split
          · rename_i y hy
            rw [hy] at hlook
            exact pauses_of_callers ((callers_waitUntil y id (some due)).trans hlook)
          · rename_i y hy
            rw [hy] at h
            cases h
          · rename_i y d hy
            rw [hy] at h hlook
            dsimp only at h
            revert h
            split
            · exact pauses_gotMessage
            · exact fun h => by cases h
            · exact fun _ => pauses_of_callers hlook
    · exact pauses_finish x x id _

/-- A drain that cannot go on waits for the demand and for its time. -/
theorem drainStep_of_false {due : Nat} (h : (x.drainStep id i due).2 = false) :
    x.subs[i]? = none ∧ (x.drainStep id i due).1 = x.finish id (.flag false) ∨
      ∃ s : Subscription, x.subs[i]? = some s ∧ s.tracker.isExhausted = false ∧
        x.now < wholeMillis due ∧
        (x.drainStep id i due).1 = x.keepTimer (.caller id) due := by
  unfold drainStep at h ⊢
  cases hs : x.subs[i]? with
  | none => exact Or.inl ⟨rfl, rfl⟩
  | some s =>
    rw [hs] at h
    dsimp only at h ⊢
    cases he : s.tracker.isExhausted with
    | true =>
      rw [if_pos he] at h
      cases h
    | false =>
      have hne : ¬s.tracker.isExhausted = true := by simp [he]
      rw [if_neg hne] at h
      by_cases hd : wholeMillis due ≤ x.now
      · rw [if_pos hd] at h
        cases h
      · exact Or.inr ⟨s, rfl, he, Nat.lt_of_not_le hd, by rw [if_neg (by simp), if_neg hd]⟩

/-- A caller that cannot go on is done, or is at what it was at. -/
theorem pauses_callerStep (h : (x.callerStep id).2 = false) : Pauses id x (x.callerStep id).1 := by
  unfold callerStep at h ⊢
  split
  · exact pauses_of_callers rfl
  · rename_i c hc
    rw [hc] at h
    dsimp only at h
    split
    · split
      · exact pauses_finish x x id _
      · exact pauses_keepTimer x id _ _
    · exact pauses_readStepOf x id _ _
    · rename_i ha
      rw [ha] at h
      exact pauses_readAllStep h
    · rename_i ha
      rw [ha] at h
      exact pauses_fetchStep h
    · rename_i ha
      rw [ha] at h
      rcases drainStep_of_false h with ⟨_, he⟩ | ⟨_, _, _, _, he⟩
      · rw [he]
        exact pauses_finish x x id _
      · rw [he]
        exact pauses_keepTimer x id _ _
    · unfold leaveStep
      split
      · exact pauses_finish x x id _
      · split
        · exact pauses_finish x x id _
        · exact pauses_of_callers rfl
    · unfold watchStep
      split
      · exact pauses_finish x x id _
      · split
        · exact pauses_finish x x id _
        · exact pauses_keepTimer x id _ _
    · exact pauses_of_callers rfl

/-! ## Nothing is owed -/

/-- A caller that cannot go on owes nothing. -/
theorem not_owes_callerStep (hmore : (x.callerStep id).2 = false) :
    ¬(x.callerStep id).1.Owes (.caller id) := by
  have hback : ∀ {a : Activity}, (x.callerStep id).1.callerOf? id = some ⟨id, a⟩ →
      x.callerOf? id = some ⟨id, a⟩ := fun hc => by
    rcases pauses_callerStep hmore with hn | he
    · cases hn.symm.trans hc
    · exact he.symm.trans hc
  have hdrain : ∀ {i due : Nat}, (x.callerStep id).1.callerOf? id = some ⟨id, .drain i due⟩ →
      ∃ s : Subscription, x.subs[i]? = some s ∧ s.tracker.isExhausted = false ∧
        x.now < wholeMillis due ∧
        (x.callerStep id).1 = x.keepTimer (.caller id) due := fun {i due} hc => by
    have hstep := callerStep_of_drain (hback hc)
    rw [hstep] at hmore hc ⊢
    rcases drainStep_of_false hmore with ⟨_, he⟩ | hwait
    · rw [he, callerOf?_finish_self] at hc
      cases hc
    · exact hwait
  intro ho
  cases ho with
  | awake hc hawake =>
    obtain ⟨_, _, _, _, he⟩ := hdrain hc
    rw [he, isAsleep_keepTimer_self] at hawake
    cases hawake
  | late hc hlate =>
    obtain ⟨_, _, _, hlt, he⟩ := hdrain hc
    rw [he, show (x.keepTimer (.caller id) _).now = x.now from
      congrArg Core.now (core_keepTimer x (.caller id) _)] at hlate
    exact Nat.not_le_of_lt hlt hlate
  | @spent _ _ due hc hspent =>
    obtain ⟨s, hs, hout, _, he⟩ := hdrain hc
    rw [he] at hspent
    have hsubs : (x.keepTimer (.caller id) due).subs = x.subs :=
      congrArg Core.subs (core_keepTimer x (.caller id) due)
    rw [hspent s (hsubs ▸ hs)] at hout
    cases hout
  | @ended _ i a hc hover =>
    have hstep := callerStep_of_leave (hback hc)
    rw [hstep] at hc hover
    unfold leaveStep at hc hover
    cases hs : x.subs[i]? with
    | none =>
      rw [hs] at hc
      dsimp only at hc
      rw [callerOf?_finish_self] at hc
      cases hc
    | some s =>
      rw [hs] at hc hover
      dsimp only at hc hover
      split at hc
      · rw [callerOf?_finish_self] at hc
        cases hc
      · rename_i hno
        rw [if_neg hno] at hover
        exact hno (hover s hs)

/-- A worker that has ended owes nothing. -/
theorem not_ending_endWorker (x : Exchange) (i : Nat) : ¬(x.endWorker i).Ending i := by
  rintro ⟨u, hu, _, hw⟩
  rw [subs_endWorker, Array.getElem?_modify, if_pos rfl] at hu
  obtain ⟨s, _, rfl⟩ := Option.map_eq_some_iff.1 hu
  exact hw rfl

/-- A worker that cannot go on has ended, or nobody told it to. -/
theorem not_ending_workerStep (hmore : (x.workerStep i).2 = false) :
    ¬(x.workerStep i).1.Ending i := by
  have hopen : ∀ s : Subscription, x.subs[i]? = some s → s.closed ≠ true → ¬x.Ending i := by
    rintro s hs hc ⟨u, hu, hclosed, _⟩
    cases hs.symm.trans hu
    exact hc hclosed
  unfold workerStep at hmore ⊢
  split
  · rename_i hs
    rintro ⟨u, hu, _⟩
    cases hs.symm.trans hu
  · rename_i s hs
    rw [hs] at hmore
    dsimp only at hmore
    revert hmore
    split
    · rename_i hw
      rintro _ ⟨u, hu, _, hne⟩
      cases hs.symm.trans hu
      exact hne hw
    · rename_i d hw
      split
      · exact fun _ => not_ending_endWorker x i
      · rename_i hc
        unfold holdStep
        split
        · exact fun hmore => by cases hmore
        · exact fun _ => hopen s hs hc
    · split
      · exact fun _ => not_ending_endWorker x i
      · rename_i hc
        unfold readStep
        split
        · exact fun _ => hopen s hs hc
        · split
          · rename_i f rest _
            unfold takeFrame
            dsimp only
            split
            · exact fun hmore => by cases hmore
            · exact fun hmore => by cases hmore
            · unfold handleMessage
              split
              · exact fun _ => not_ending_endWorker _ i
              · exact fun hmore => by cases hmore
              · exact fun hmore => by cases hmore
            · exact fun hmore => by cases hmore
            · split <;> exact fun hmore => by cases hmore
            · exact fun hmore => by cases hmore
            · exact fun hmore => by cases hmore
          · split
            · split
              · exact fun _ => hopen s hs hc
              · exact fun hmore => by cases hmore
            · exact fun _ => not_ending_endWorker _ i

theorem closed_seen (now : Nat) (m : Monitor) : (m.seen now).closed = m.closed := by
  unfold Monitor.seen
  split <;> rfl

theorem look_of_closed {now : Nat} {m : Monitor} (h : m.closed = true) : m.look now = .stop := by
  unfold Monitor.look
  rw [if_pos h]

/-- An alarm task that cannot go on has ended, or nobody told it to. -/
theorem not_closing_alarmStep (hmore : (x.alarmStep i).2 = false) :
    ¬(x.alarmStep i).1.Closing i := by
  have hsaw : ∀ s : Subscription, x.subs[i]? = some s →
      s.tracker.monitor.look x.now ≠ .stop → ¬(x.sawMonitor i).Closing i := by
    rintro s hs hlook ⟨u, hu, _, hc⟩
    have hmod : (x.sawMonitor i).subs[i]? = some { s with tracker := { s.tracker with
        monitor := s.tracker.monitor.seen x.now } } := by
      show (x.subs.modify i _)[i]? = _
      rw [Array.getElem?_modify, if_pos rfl, hs]
      rfl
    cases hmod.symm.trans hu
    exact hlook (look_of_closed ((closed_seen _ _).symm.trans hc))
  have hend : ∀ z : Exchange, ¬(z.endAlarm i).Closing i := by
    rintro z ⟨u, hu, hw, _⟩
    rw [subs_endAlarm] at hu
    rcases getElem?_modify_eq_some hu with ⟨s, _, _, rfl⟩ | ⟨hne, _⟩
    · cases hw
    · exact hne rfl
  unfold alarmStep at hmore ⊢
  split
  · rename_i hs
    rintro ⟨u, hu, _⟩
    cases hs.symm.trans hu
  · rename_i s hs
    rw [hs] at hmore
    dsimp only at hmore
    revert hmore
    split
    · split
      · exact fun _ => hend _
      · rename_i hlook
        exact fun _ => hsaw s hs (by rw [hlook]; exact Monitor.Watch.noConfusion)
      · rename_i hlook
        exact fun _ => hsaw s hs (by rw [hlook]; exact Monitor.Watch.noConfusion)
      · exact fun hmore => by cases hmore
      · exact fun _ => hend _
    · rename_i hw
      rintro _ ⟨u, hu, hwatch, _⟩
      cases hs.symm.trans hu
      exact hw hwatch

/-- A task that cannot go on owes nothing. -/
theorem not_owes_of_stepOf {t : Task} (h : (x.stepOf t).2 = false) : ¬(x.stepOf t).1.Owes t := by
  cases t with
  | broker | farewell _ => exact fun ho => by cases ho
  | alarm i =>
    intro ho
    cases ho with
    | alarm hc => exact not_closing_alarmStep h hc
  | worker i =>
    intro ho
    cases ho with
    | worker he => exact not_ending_workerStep h he
  | caller id => exact not_owes_callerStep h

end DemandFlow.Exchange
