import DemandFlow.Proofs.Silence.Vigil

/-
  Episodes of silence. What a bench does in one step, its tasks and its clock included, is a run
  of acts (`Leads`); those who wait for the end of the demand are left aside. So what is shown for
  the alarms of all runs of acts holds for what a bench reports.
-/

namespace DemandFlow

namespace Bench

namespace Vigil

/-! ## The runs of a bench -/

/-- How long the silence was for which an alarm was raised. -/
def silence? : Entry → Option Span
  | .alarm _ _ d => some d
  | .touched _ | .started _ => none

/-- The alarms of a log, in order of time. -/
def raised (log : List Entry) : List Span := log.reverse.filterMap silence?

theorem raised_append (es log : List Entry) : raised (es ++ log) = raised log ++ raised es := by
  unfold raised
  rw [List.reverse_append, List.filterMap_append]

/-- From `s` on, apart from those who wait for the end of the demand, a run of acts leads to `s'`
and raises these alarms. -/
def Leads (s s' : State) (alarms : List Span) : Prop :=
  ∀ (v : Vigil) (w : List String), s = { v.state with waiters := w } →
    ∃ (as : List Act) (w' : List String), s' = { (as.foldl next v).state with waiters := w' } ∧
      raised (as.foldl next v).log = raised v.log ++ alarms

section Benches

variable {s s' s'' : State} {alarms alarms' : List Span}

theorem leads_refl (s : State) : Leads s s [] :=
  fun _ w h => ⟨[], w, h, (List.append_nil _).symm⟩

theorem Leads.trans (h : Leads s s' alarms) (h' : Leads s' s'' alarms') :
    Leads s s'' (alarms ++ alarms') := by
  intro v w hs
  obtain ⟨as, w', hs', hr⟩ := h v w hs
  obtain ⟨bs, w'', hs'', hr'⟩ := h' _ w' hs'
  rw [← List.foldl_append] at hs'' hr'
  exact ⟨as ++ bs, w'', hs'', by rw [hr', hr, List.append_assoc]⟩

/-- No call but waiting depends on who waits. -/
theorem act_waiters (s : State) (w : List String) (st : Step) :
    ∃ w', (({ s with waiters := w } : State).act st).1 = { (s.act st).1 with waiters := w' } := by
  cases st with
  | wait tag => exact ⟨w ++ [tag], rfl⟩
  | _ =>
    refine ⟨w, ?_⟩
    unfold State.act
    dsimp only [State.withMonitor]
    repeat' split
    all_goals rfl

theorem leads_act (s : State) (st : Step) : Leads s (s.act st).1 [] := by
  intro v w hs
  subst hs
  obtain ⟨w', he⟩ := act_waiters v.state w st
  refine ⟨[.call st], w', he, ?_⟩
  show raised (v.state.marks st ++ v.log) = _
  rw [raised_append]
  unfold State.marks
  cases v.state.touches st <;> cases v.state.starts st <;> rfl

theorem leads_clock {t : Nat} (h : s.now ≤ t) : Leads s { s with now := t } [] := by
  intro v w hs
  subst hs
  refine ⟨[.clock (t - v.state.now)], w, ?_, (List.append_nil _).symm⟩
  show ({ v.state with waiters := w, now := t } : State) =
    { v.state with now := v.state.now + (t - v.state.now), waiters := w }
  rw [Nat.add_sub_of_le h]

theorem leads_watch (hr : s.isRunning = true) : Leads s s.watch.1 s.watch.2 := by
  intro v w hs
  subst hs
  have hnext : v.next .look =
      ⟨v.state.watch.1, v.state.watch.2.map (.alarm v.state.now v.monitor) ++ v.log⟩ := if_pos hr
  have hwatch : ({ v.state with waiters := w } : State).watch =
      ({ v.state.watch.1 with waiters := w }, v.state.watch.2) := by
    unfold State.watch
    dsimp only
    split
    all_goals try split
    all_goals rfl
  rw [hwatch]
  refine ⟨[.look], w, by rw [List.foldl_cons, hnext]; rfl, ?_⟩
  rw [List.foldl_cons, hnext, List.foldl_nil, raised_append]
  rcases v.state.watch_cases with ⟨d, _, _, hd⟩ | ⟨_, _, hd⟩ <;> rw [hd]
  · split <;> rfl
  · rfl

theorem leads_release (s : State) : Leads s s.release.1 [] := by
  intro v w hs
  subst hs
  unfold State.release
  split
  · exact ⟨[], [], rfl, (List.append_nil _).symm⟩
  · exact ⟨[], w, rfl, (List.append_nil _).symm⟩

theorem isRunning_of_isDue (h : s.isDue = true) : s.isRunning = true := by
  unfold State.isDue at h
  unfold State.isRunning
  cases hw : s.watcher <;> rw [hw] at h <;> first | rfl | cases h

theorem leads_rouse (s : State) : Leads s s.rouse.1 s.rouse.2 := by
  unfold State.rouse
  split
  · rename_i hdue
    exact leads_watch (isRunning_of_isDue hdue)
  · exact leads_refl s

/-- On a move of the clock the task looks when its timer is over. -/
theorem leads_moveTo {target : Nat} (fuel : Nat) (h : s.now ≤ target) :
    Leads s (s.moveTo target fuel).1 (s.moveTo target fuel).2 := by
  induction fuel generalizing s with
  | zero => exact leads_clock h
  | succ fuel ih =>
    unfold State.moveTo
    split
    · rename_i due hw
      split
      · rename_i hdue
        have hnow : s.now ≤ max s.now (wholeMillis due) := Nat.le_max_left _ _
        have hrun : ({ s with now := max s.now (wholeMillis due) } : State).isRunning = true := by
          unfold State.isRunning
          rw [hw]
        refine ((leads_clock hnow).trans (leads_watch hrun)).trans (ih ?_)
        rw [State.now_watch]
        exact Nat.max_le.2 ⟨h, hdue⟩
      · exact leads_clock h
    · exact leads_clock h

theorem leads_step (s : State) (st : Step) : Leads s (s.step st).1 (s.step st).2.alarms := by
  have hact := (leads_act s st).trans (leads_rouse (s.act st).1)
  rw [List.nil_append] at hact
  cases st with
  | advance d =>
    have hlater (u : State) : u.now ≤ wholeMillis (u.now + d.nanos) :=
      Nat.le_trans (Nat.le_add_right _ _) (le_wholeMillis _)
    have hall := (hact.trans (leads_moveTo wakings (hlater _))).trans (leads_release _)
    rw [List.append_nil] at hall
    exact hall
  | _ => exact hact.trans (leads_release _)

/-- What a bench reports are the alarms of a run. -/
theorem run_raises (accounting : Bool) (steps : List Step) : ∃ as : List Act,
    raised (after accounting as).log =
      ((State.start accounting).run steps).flatMap Report.alarms := by
  suffices h : ∀ (s : State) (v : Vigil) (w : List String),
      s = { v.state with waiters := w } → ∃ as : List Act,
        raised (as.foldl next v).log = raised v.log ++ (s.run steps).flatMap Report.alarms from
    h _ (start accounting) [] rfl
  induction steps with
  | nil => exact fun s v w _ => ⟨[], (List.append_nil _).symm⟩
  | cons st steps ih =>
    intro s v w hs
    obtain ⟨as, w', hs', hr⟩ := leads_step s st v w hs
    obtain ⟨bs, hr'⟩ := ih _ _ w' hs'
    rw [← List.foldl_append] at hr'
    refine ⟨as ++ bs, ?_⟩
    rw [hr', hr, List.append_assoc]
    rfl

end Benches

/-- Whatever is called, and whenever the alarm task looks: each alarm is raised while the monitor
is armed and not shut down, for exactly the time since the last frame or effective arming, which
is at least the alarm period that is set; and of any two alarms the later one is raised after
another such touch. What a bench reports are the alarms of such a run. -/
theorem alarms_fair (accounting : Bool) :
    (∀ (as : List Act) (late : List Entry) (t : Nat) (m : Monitor) (d : Span) (early : List Entry),
      (after accounting as).log = late ++ .alarm t m d :: early →
      (m.armed = true ∧ m.closed = false ∧ ∃ s p, lastTouch early = some s ∧ s + d.nanos = t ∧
        m.period = some p ∧ p.nanos ≤ d.nanos) ∧
      ∀ mid t' m' d' rest, early = mid ++ .alarm t' m' d' :: rest → ∃ s, .touched s ∈ mid) ∧
    ∀ steps : List Step, ∃ as : List Act, raised (after accounting as).log =
      ((State.start accounting).run steps).flatMap Report.alarms := by
  refine ⟨fun as late t m d early h => ?_, run_raises accounting⟩
  have hfair : Fair (.alarm t m d :: early) := Fair.alarm (h ▸ (sound_after accounting as).fair)
  refine ⟨hfair.1, fun mid t' m' d' rest he => ?_⟩
  have hquiet := hfair.2.1
  rw [he] at hquiet
  exact touch_of_sounded hquiet

/-- Two silences with a frame in between; the task looks late at the second one. -/
def twoSilences : List Act :=
  [.call .run, .call (.configure (some (.ofMillis 100))), .call .arm,
    .clock (Span.ofMillis 300).nanos, .look, .call .record, .clock (Span.ofMillis 400).nanos, .look]

/-- An open and armed monitor with a period of 300 ms that nobody has stirred. -/
def armedSince (t : Nat) (stirred : Bool) : Monitor :=
  ⟨t, some (.ofMillis 300), true, false, false, stirred⟩

theorem twoSilences_fair :
    let first := Span.ofMillis 300
    let second := Span.ofMillis 400
    let early := [.touched first.nanos, .alarm first.nanos (armedSince 0 true) first, .touched 0]
    let m := armedSince first.nanos true
    (after true twoSilences).log =
        [] ++ .alarm (first.nanos + second.nanos) m second :: early ∧
      (m.armed = true ∧ m.closed = false ∧ ∃ s p, lastTouch early = some s ∧
        s + second.nanos = first.nanos + second.nanos ∧ m.period = some p ∧
        p.nanos ≤ second.nanos) ∧
      ∀ mid t' m' d' rest, early = mid ++ .alarm t' m' d' :: rest → ∃ s, .touched s ∈ mid := by
  intro first second early m
  have hlog : (after true twoSilences).log =
      [] ++ .alarm (first.nanos + second.nanos) m second :: early := by decide
  exact ⟨hlog, (alarms_fair true).1 twoSilences _ _ _ _ _ hlog⟩

end Vigil

end Bench

end DemandFlow
