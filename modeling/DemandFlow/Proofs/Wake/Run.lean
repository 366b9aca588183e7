import DemandFlow.Proofs.Consume.World
import DemandFlow.Proofs.Lane.Account
import DemandFlow.Proofs.Wake.Leaving
import DemandFlow.Proofs.Wake.Served

/-
  Runs in time. A task has a turn when it stands in line, in any order, and leaves the line when
  it cannot go on; what comes from outside comes at any moment; the clock goes on when nobody
  stands in line, and passes no sleeper by. All along such a run nobody
  who owes a step is out of line (`steady_follow`), so that in a lull nobody owes one: this is what
  makes waiting end as soon as it can.
-/

namespace DemandFlow.Exchange

variable {front : Option Task} {x y : Exchange} {ps : List (String × PullRequest)}

/-! ## Runs -/

/-- A move; a task that cannot go on leaves the line with it. -/
def follow (x : Exchange) : Move → Exchange
  | .turn t => x.turn t
  | m => x.next m

theorem follow_clock (x : Exchange) (now : Nat) : x.follow (.clock now) = x.ring now := rfl

/-- What can happen next: a task has its turn when it stands in line, and the clock goes on when
nobody does, as far as the next sleeper at most. -/
def Allows (x : Exchange) : Move → Prop
  | .turn t => t ∈ x.ready
  | .timers => .broker ∈ x.ready
  | .clock now => x.isQuiet = true ∧ x.now ≤ now ∧ ∀ e ∈ x.timers, now ≤ e.due
  | _ => True

instance (x : Exchange) (m : Move) : Decidable (x.Allows m) := by
  unfold Allows
  split <;> infer_instance

/-- Each move can happen when it does. -/
def IsRun (x : Exchange) : List Move → Prop
  | [] => True
  | m :: ms => x.Allows m ∧ (x.follow m).IsRun ms

/-- It is decided move by move. -/
def decidableIsRun (x : Exchange) : (ms : List Move) → Decidable (x.IsRun ms)
  | [] => .isTrue trivial
  | m :: ms =>
    have := decidableIsRun (x.follow m) ms
    inferInstanceAs (Decidable (_ ∧ _))

instance (x : Exchange) (ms : List Move) : Decidable (x.IsRun ms) := decidableIsRun x ms

/-- The exchange at the end of a run. -/
def followed (x : Exchange) (ms : List Move) : Exchange := ms.foldl follow x

/-- What a run comes to, move by move. -/
def course (x : Exchange) : List Move → List Exchange
  | [] => []
  | m :: ms => x.follow m :: (x.follow m).course ms

/-- The moments of a run, its first included, at which all wait. -/
def lulls (x : Exchange) (ms : List Move) : List Exchange := (x :: x.course ms).filter isQuiet

/-! ## The line -/

theorem ready_of_isQuiet (h : x.isQuiet = true) : x.ready = [] :=
  List.isEmpty_iff.1 (Bool.and_eq_true_iff.1 h).1

/-- Another line leaves who owes a step as it was. -/
theorem owes_ready (x : Exchange) (ts : List Task) {t : Task}
    (h : Owes { x with ready := ts } t) : x.Owes t := by
  cases h with
  | awake hc ha => exact .awake hc ha
  | late hc hl => exact .late hc hl
  | spent hc hs => exact .spent hc hs
  | ended hc ho => exact .ended hc ho
  | worker he => exact .worker he
  | alarm hc => exact .alarm hc

theorem turn_cases (x : Exchange) (t : Task) :
    (x.stepOf t).2 = true ∧ x.turn t = (x.stepOf t).1 ∨
      (x.stepOf t).2 = false ∧
        x.turn t = { (x.stepOf t).1 with ready := (x.stepOf t).1.ready.erase t } := by
  unfold turn
  cases (x.stepOf t).2 with
  | true => exact Or.inl ⟨rfl, rfl⟩
  | false => exact Or.inr ⟨rfl, rfl⟩

/-! ## What holds all along -/

/-- Callers have their seats, no question is out, monitors of subscriptions that are shut down are
shut, and whoever owes a step stands in line. -/
structure Steady (x : Exchange) : Prop where
  tame : Tame false x
  seated : Seated x
  unasked : x.transport.Unasked
  tight : ∀ (i : Nat) (s : Subscription), x.subs[i]? = some s → s.IsTight
  lively : ∀ t, x.Owes t → t ∈ x.ready

theorem steady_start {t : Transport} (ht : IsNew t) (keeps : Bool) (capacity : Nat) :
    Steady (start t keeps capacity) where
  tame := tame_start ht keeps capacity
  seated := seated_start t keeps capacity
  unasked := by
    cases ht with
    | loopback _ _ => exact fun c hc => by cases hc
    | scripted => exact trivial
  tight := fun i s hs => by cases hs
  lively := fun t ho => by
    cases ho with
    | worker he =>
      obtain ⟨_, hs, _⟩ := he
      cases hs
    | alarm hc =>
      obtain ⟨_, hs, _⟩ := hc
      cases hs
    | awake hc | late hc | spent hc | ended hc => cases hc

/-- In a lull nobody owes a step. -/
theorem Steady.not_owes (h : Steady x) (hq : x.isQuiet = true) (t : Task) : ¬x.Owes t := by
  intro ho
  have ht := h.lively t ho
  rw [ready_of_isQuiet hq] at ht
  cases ht

/-- In a lull, whoever drains sleeps until its time is over. -/
theorem Steady.sleeps (h : Steady x) (hq : x.isQuiet = true) {id i due : Nat}
    (hc : x.callerOf? id = some ⟨id, .drain i due⟩) :
    ∃ e ∈ x.timers, e.task = .caller id ∧ e.due = wholeMillis due := by
  cases ha : x.isAsleep (.caller id) with
  | false => exact absurd (.awake hc ha) (h.not_owes hq _)
  | true =>
    obtain ⟨e, he, hid⟩ := List.any_eq_true.1 ha
    have htask := of_decide_eq_true hid
    exact ⟨e, he, htask, h.seated.rests e he id i due htask hc⟩

/-- What works in the turn of a caller that is there, or in nobody's, leaves things steady but for
who is in front. -/
theorem Steady.works (h : Steady x) (hw : Works front x ps y)
    (hf : ∀ id, front = some (.caller id) → ∃ c, x.callerOf? id = some c) :
    Seated y ∧ Sits front x y ∧ Stirs front x y ∧ y.transport.Unasked ∧
      (∀ (i : Nat) (s : Subscription), y.subs[i]? = some s → s.IsTight) := by
  have hasked := not_isAsked h.unasked
  have hfront : ∀ id, front = some (.caller id) → id < x.nextCaller := by
    intro id hid
    obtain ⟨c, hc⟩ := hf id hid
    exact id_of_callerOf? hc ▸ h.seated.callers c (mem_of_callerOf? hc)
  obtain ⟨hseated, hsits⟩ := hw.seated hasked hfront h.seated
  exact ⟨hseated, hsits, hw.stirs hasked hfront h.seated, hw.unasked h.unasked, hw.tight h.tight⟩

/-- The step of a task is work in its turn, or in nobody's when there is nobody to work. -/
theorem works_stepOf (x : Exchange) (t : Task) :
    ∃ front ps, Works front x ps (x.stepOf t).1 ∧ (front = none ∨ front = some t) ∧
      ∀ id, front = some (.caller id) → ∃ c, x.callerOf? id = some c := by
  by_cases hgone : ∃ id, t = .caller id ∧ x.callerOf? id = none
  · obtain ⟨id, rfl, hn⟩ := hgone
    have he : (x.stepOf (.caller id)).1 = x := congrArg Prod.fst (callerStep_of_none hn)
    exact ⟨none, [], he.symm ▸ .refl, Or.inl rfl, fun _ hid => by cases hid⟩
  · obtain ⟨ps, _, hw⟩ := Works.turn x t
    refine ⟨some t, ps, hw, Or.inr rfl, fun id hid => ?_⟩
    cases hid
    exact Option.ne_none_iff_exists'.1 fun hn => hgone ⟨id, rfl, hn⟩

/-! ## The clock -/

/-- The clock moves on, and before anyone is woken nothing else has changed. -/
def clocked (x : Exchange) (now : Nat) : Exchange :=
  { x with now := now, timers := x.timers.filter fun t => now < t.due }

theorem stays_ring (x : Exchange) (now : Nat) : Stays (x.clocked now) (x.ring now) :=
  stays_wakeAll _ _

theorem subs_ring (x : Exchange) (now : Nat) : (x.ring now).subs = x.subs := subs_wakeAll _ _

theorem callerOf?_ring (x : Exchange) (now id : Nat) :
    (x.ring now).callerOf? id = x.callerOf? id :=
  callerOf?_of_callers (stays_ring x now).callers id

theorem seated_ring (h : Seated x) (now : Nat) : Seated (x.ring now) :=
  (h.same (y := x.clocked now) rfl rfl rfl rfl fun _ he => Or.inl (List.mem_filter.1 he).1).stays
    (stays_ring x now)

/-- Whose time has come is woken. -/
theorem mem_ring (hf : x.foreground = none) {now : Nat} {e : Timer} (he : e ∈ x.timers)
    (hd : e.due ≤ now) : e.task ∈ (x.ring now).ready := by
  refine mem_wakeAll (x := x.clocked now) hf (List.mem_map.2 ⟨e, ?_, rfl⟩)
  exact List.mem_filter.2 ⟨he, decide_eq_true hd⟩

/-- Whom the time makes owe a step, it wakes. -/
theorem lively_ring (h : Steady x) (hq : x.isQuiet = true) {now : Nat} {t : Task}
    (ho : (x.ring now).Owes t) : t ∈ (x.ring now).ready := by
  have hnot := h.not_owes hq
  have hnow : (x.ring now).now = now := (stays_ring x now).now
  have hback : ∀ {id : Nat} {a : Activity}, (x.ring now).callerOf? id = some ⟨id, a⟩ →
      x.callerOf? id = some ⟨id, a⟩ := fun {id a} hc => (callerOf?_ring x now id).symm.trans hc
  cases ho with
  | awake hc ha =>
    obtain ⟨e, he, hid, _⟩ := h.sleeps hq (hback hc)
    by_cases hd : e.due ≤ now
    · exact hid ▸ mem_ring h.seated.foreground he hd
    · refine absurd ha (Bool.not_eq_false _ ▸ List.any_eq_true.2 ⟨e, ?_, decide_eq_true hid⟩)
      rw [(stays_ring x now).timers]
      exact List.mem_filter.2 ⟨he, decide_eq_true (Nat.lt_of_not_le hd)⟩
  | late hc hl =>
    obtain ⟨e, he, hid, hdue⟩ := h.sleeps hq (hback hc)
    rw [hnow] at hl
    exact hid ▸ mem_ring h.seated.foreground he (hdue ▸ hl)
  | spent hc hs =>
    exact absurd (.spent (hback hc) fun s hx => hs s (subs_ring x now ▸ hx)) (hnot _)
  | ended hc hs =>
    exact absurd (.ended (hback hc) fun s hx => hs s (subs_ring x now ▸ hx)) (hnot _)
  | worker he =>
    obtain ⟨s, hs, hclosed⟩ := he
    exact absurd (.worker ⟨s, subs_ring x now ▸ hs, hclosed⟩) (hnot _)
  | alarm he =>
    obtain ⟨s, hs, hclosed⟩ := he
    exact absurd (.alarm ⟨s, subs_ring x now ▸ hs, hclosed⟩) (hnot _)

/-! ## Moves and runs -/

theorem seated_ready (h : Seated x) (ts : List Task) : Seated { x with ready := ts } :=
  h.same rfl rfl rfl rfl fun _ he => Or.inl he

theorem since_follow {calm : Bool} {x₀ : Exchange} {past : List (Nat × Deed)}
    (h : Since calm x₀ past x) (m : Move) (hm : calm = true → m.Calm) :
    Since calm x₀ (past ++ x.deeds m) (x.follow m) := by
  have hnext := h.next m hm
  cases m with
  | turn t =>
    show Since calm x₀ (past ++ x.deeds (.turn t)) (x.turn t)
    rcases turn_cases x t with ⟨_, he⟩ | ⟨_, he⟩
    · exact he ▸ hnext
    · rw [he]
      refine hnext.act_quiet ?_
      exact
        { subsSize := rfl
          feedsSize := rfl
          names := rfl
          tame := hnext.transport
          run := fun i L hL => ⟨L, hL, .nil L⟩
          born := fun p hp => by cases hp
          callers := fun c hc _ _ => Or.inr ⟨c, hc, rfl⟩
          keeps := rfl
          notices := notices_of_heard rfl
          handled := (List.append_nil _).symm }
  | _ => exact hnext

theorem follow_of_ne {m : Move} (hm : ∀ t, m ≠ .turn t) (x : Exchange) :
    x.follow m = x.next m := by
  cases m with
  | turn t => exact absurd rfl (hm t)
  | _ => rfl

/-- Only in its own turn a task is in front, or the broker. -/
theorem front_of_ne {m : Move} (hm : ∀ t, m ≠ .turn t) :
    m.front = none ∨ m.front = some .broker := by
  cases m with
  | turn t => exact absurd rfl (hm t)
  | timers => exact Or.inr rfl
  | _ => exact Or.inl rfl

/-- What comes from outside, and the broker with its timers, keep things steady. -/
theorem steady_next (h : Steady x) {m : Move} (hclock : ∀ now, m ≠ .clock now)
    (hturn : ∀ t, m ≠ .turn t) : Steady (x.next m) := by
  have htame := ((Since.refl h.tame).next m fun hc => by cases hc).toTame
  obtain ⟨ps, _, hw⟩ := Works.next x m hclock
  have hfront := front_of_ne hturn
  obtain ⟨hseated, _, hstirs, hunasked, htight⟩ := h.works hw fun id hid => by
    rcases hfront with hn | hn <;> cases hid.symm.trans hn
  refine ⟨htame, hseated, hunasked, htight, fun u ho => ?_⟩
  have hne : m.front ≠ some u := by
    rintro hu
    rcases hfront with hn | hn
    · cases hu.symm.trans hn
    · cases hu.symm.trans hn
      cases ho
  exact (hstirs.owes u hne ho).elim (fun ho => hstirs.ready u (h.lively u ho)) id

/-- The turn of a task keeps things steady: it puts others in line, and leaves it when it is
served. -/
theorem steady_turn (h : Steady x) {t : Task} (ht : t ∈ x.ready) : Steady (x.turn t) := by
  have htame := (since_follow (Since.refl h.tame) (.turn t) fun hc => by cases hc).toTame
  obtain ⟨front, ps, hw, hfront, hcaller⟩ := works_stepOf x t
  obtain ⟨hseated, _, hstirs, hunasked, htight⟩ := h.works hw hcaller
  have hother : ∀ u, u ≠ t → (x.stepOf t).1.Owes u → u ∈ (x.stepOf t).1.ready := by
    intro u hu ho
    have hne : front ≠ some u := by
      rcases hfront with rfl | rfl
      · exact fun he => by cases he
      · exact fun he => hu (Option.some.inj he).symm
    exact (hstirs.owes u hne ho).elim (fun ho => hstirs.ready u (h.lively u ho)) id
  rcases turn_cases x t with ⟨_, he⟩ | ⟨hmore, he⟩
  · rw [he]
    refine ⟨he ▸ htame, hseated, hunasked, htight, fun u ho => ?_⟩
    by_cases hu : u = t
    · exact hu ▸ hstirs.ready t ht
    · exact hother u hu ho
  · rw [he]
    refine ⟨he ▸ htame, seated_ready hseated _, hunasked, htight, fun u ho => ?_⟩
    have ho := owes_ready _ _ ho
    have hu : u ≠ t := by
      rintro rfl
      exact not_owes_of_stepOf hmore ho
    exact (List.mem_erase_of_ne hu).2 (hother u hu ho)

/-- What can happen leaves nobody who owes a step out of line. -/
theorem steady_follow (h : Steady x) {m : Move} (hm : x.Allows m) : Steady (x.follow m) := by
  by_cases hclock : ∃ now, m = .clock now
  · obtain ⟨now, rfl⟩ := hclock
    obtain ⟨hq, _, _⟩ := hm
    have htame := ((Since.refl h.tame).next (.clock now) fun hc => by cases hc).toTame
    exact
      { tame := htame
        seated := seated_ring h.seated now
        unasked := (transport_ring x now).symm ▸ h.unasked
        tight := fun i s hs => h.tight i s (subs_ring x now ▸ hs)
        lively := fun t ho => lively_ring h hq ho }
  by_cases hturn : ∃ t, m = .turn t
  · obtain ⟨t, rfl⟩ := hturn
    exact steady_turn h hm
  · have hnot : ∀ t, m ≠ .turn t := fun t he => hturn ⟨t, he⟩
    rw [follow_of_ne hnot]
    exact steady_next h (fun now he => hclock ⟨now, he⟩) hnot

/-- Things are steady all along a run. -/
theorem steady_followed (h : Steady x) {ms : List Move} (hrun : x.IsRun ms) :
    Steady (x.followed ms) := by
  induction ms generalizing x with
  | nil => exact h
  | cons m ms ih => exact ih (steady_follow h hrun.1) hrun.2

end DemandFlow.Exchange
