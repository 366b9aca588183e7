import DemandFlow.Proofs.Exchange.Roster
import DemandFlow.Proofs.Wake.Seats

/-
  Nobody is forgotten. A task owes a step when what it waits for has come: a drain whose demand is
  exhausted or whose time is over, a call that waits for tasks which have ended, a task that was
  told to end. Whatever works, and makes another task owe a step, puts that task in line (`Stirs`):
  this is where a wake that is missed would show.
-/

namespace DemandFlow.Exchange

open Broker (Command)

variable {front : Option Task} {x₀ x y z : Exchange} {ps : List (String × PullRequest)} {i : Nat}

/-! ## Who owes a step -/

/-- Nothing is outstanding for a subscription, if it is there. -/
def Spent (x : Exchange) (i : Nat) : Prop :=
  ∀ s : Subscription, x.subs[i]? = some s → s.tracker.isExhausted = true

/-- Both tasks of a subscription have ended, if it is there. -/
def Over (x : Exchange) (i : Nat) : Prop :=
  ∀ s : Subscription, x.subs[i]? = some s → s.isOver = true

/-- The worker of a subscription is told to end. -/
def Ending (x : Exchange) (i : Nat) : Prop :=
  ∃ s : Subscription, x.subs[i]? = some s ∧ s.closed = true ∧ s.worker ≠ .ended

/-- The alarm task of a subscription is told to end. -/
def Closing (x : Exchange) (i : Nat) : Prop :=
  ∃ s : Subscription, x.subs[i]? = some s ∧ s.watching = true ∧ s.tracker.monitor.closed = true

/-- A task owes a step: what it waits for has come, or it has not gone to sleep. -/
inductive Owes (x : Exchange) : Task → Prop
  | awake {id i due : Nat} (caller : x.callerOf? id = some ⟨id, .drain i due⟩)
    (awake : x.isAsleep (.caller id) = false) : Owes x (.caller id)
  | late {id i due : Nat} (caller : x.callerOf? id = some ⟨id, .drain i due⟩)
    (late : wholeMillis due ≤ x.now) : Owes x (.caller id)
  | spent {id i due : Nat} (caller : x.callerOf? id = some ⟨id, .drain i due⟩)
    (spent : x.Spent i) : Owes x (.caller id)
  | ended {id i : Nat} {a : Answer} (caller : x.callerOf? id = some ⟨id, .leave i a⟩)
    (ended : x.Over i) : Owes x (.caller id)
  | worker {i : Nat} (ending : x.Ending i) : Owes x (.worker i)
  | alarm {i : Nat} (closing : x.Closing i) : Owes x (.alarm i)

/-- Whoever stood in line still does, and who owes a step now and did not, and is not in front,
stands in line. -/
structure Stirs (front : Option Task) (x y : Exchange) : Prop where
  ready : ∀ t ∈ x.ready, t ∈ y.ready
  owes : ∀ t, front ≠ some t → y.Owes t → x.Owes t ∨ t ∈ y.ready

theorem stirs_refl (front : Option Task) (x : Exchange) : Stirs front x x :=
  ⟨fun _ h => h, fun _ _ h => Or.inl h⟩

theorem Stirs.trans (h : Stirs front x y) (h' : Stirs front y z) : Stirs front x z := by
  refine ⟨fun t ht => h'.ready t (h.ready t ht), fun t hf ho => ?_⟩
  rcases h'.owes t hf ho with hy | hz
  · exact (h.owes t hf hy).imp_right (h'.ready t)
  · exact Or.inr hz

/-! ## Being woken -/

theorem mem_wake (hf : x.foreground = none) (t : Task) : t ∈ (x.wake t).ready := by
  unfold wake
  rw [hf]
  split
  · rename_i hn
    cases hn
  · split
    · rename_i hc
      exact List.contains_iff_mem.1 hc
    · exact List.mem_append_right _ (List.mem_singleton.2 rfl)

theorem mem_wakeAll (hf : x.foreground = none) {ts : List Task} {t : Task} (ht : t ∈ ts) :
    t ∈ (x.wakeAll ts).ready := by
  unfold wakeAll
  induction ts generalizing x with
  | nil => cases ht
  | cons u us ih =>
    rcases List.mem_cons.1 ht with rfl | ht
    · exact (stays_wakeAll (x.wake t) us).ready t (mem_wake hf t)
    · exact ih ((stays_wake x u).foreground.trans hf) ht

theorem mem_callersAt {p : Activity → Bool} {id : Nat} {a : Activity}
    (hc : x.callerOf? id = some ⟨id, a⟩) (hp : p a = true) : .caller id ∈ x.callersAt p :=
  List.mem_map.2 ⟨⟨id, a⟩, List.mem_filter.2 ⟨mem_of_callerOf? hc, hp⟩, rfl⟩

theorem mem_wakeDrainers (hf : x.foreground = none) {id due : Nat}
    (hc : x.callerOf? id = some ⟨id, .drain i due⟩) : .caller id ∈ (x.wakeDrainers i).ready :=
  mem_wakeAll hf (mem_callersAt hc (beq_self_eq_true i))

theorem mem_wakeLeavers (hf : x.foreground = none) {id : Nat} {a : Answer}
    (hc : x.callerOf? id = some ⟨id, .leave i a⟩) : .caller id ∈ (x.wakeLeavers i).ready :=
  mem_wakeAll hf (mem_callersAt hc (beq_self_eq_true i))

/-- Whoever shuts a subscription down wakes both of its tasks. -/
theorem mem_close (x : Exchange) {s : Subscription} (hs : x.subs[i]? = some s) :
    .worker i ∈ (x.close i).ready ∧ .alarm i ∈ (x.close i).ready := by
  unfold close
  rw [hs]
  dsimp only
  refine ⟨(stays_setTracker _ i _).ready _ (mem_ready_wake _ fun _ => Task.noConfusion), ?_⟩
  exact mem_ready_wake _ fun _ => Task.noConfusion

/-! ## Callers that wait as before -/

/-- It is the same instant, whoever stood in line still does, and whoever does not and is not in
front is where it was; who slept sleeps. -/
structure Waits (front : Option Task) (x y : Exchange) : Prop where
  now : y.now = x.now
  caller : ∀ id, front ≠ some (.caller id) → .caller id ∉ y.ready →
    y.callerOf? id = x.callerOf? id ∧
      (x.isAsleep (.caller id) = true → y.isAsleep (.caller id) = true)
  ready : ∀ t ∈ x.ready, t ∈ y.ready

theorem Stays.waits (h : Stays x y) : Waits front x y :=
  ⟨h.now, fun id _ _ => ⟨callerOf?_of_callers h.callers id, fun hid => by
    unfold isAsleep
    rw [h.timers]
    exact hid⟩, h.ready⟩

theorem Waits.trans (h : Waits front x y) (h' : Waits front y z) : Waits front x z := by
  refine ⟨h'.now.trans h.now, fun id hf hr => ?_, fun t ht => h'.ready t (h.ready t ht)⟩
  obtain ⟨hc, ha⟩ := h.caller id hf fun hy => hr (h'.ready _ hy)
  obtain ⟨hc', ha'⟩ := h'.caller id hf hr
  exact ⟨hc'.trans hc, fun hid => ha' (ha hid)⟩

theorem isAsleep_clearTimer_of_ne {t u : Task} (h : u ≠ t) (x : Exchange) :
    (x.clearTimer t).isAsleep u = x.isAsleep u := by
  show List.any (x.timers.filter _) _ = _
  rw [List.any_filter]
  refine congrArg (List.any x.timers) (funext fun e => ?_)
  by_cases he : e.task = u
  · simp [he, h]
  · simp [he]

theorem isAsleep_setTimer_self (x : Exchange) (t : Task) (due : Nat) :
    (x.setTimer t due).isAsleep t = true := by
  unfold setTimer isAsleep
  simp

theorem isAsleep_setTimer_of_asleep {u : Task} (h : x.isAsleep u = true) (t : Task) (due : Nat) :
    (x.setTimer t due).isAsleep u = true := by
  by_cases he : u = t
  · rw [he]
    exact isAsleep_setTimer_self x t due
  · have hclear := (isAsleep_clearTimer_of_ne he x).trans h
    show List.any ((x.clearTimer t).timers ++ _) _ = true
    rw [List.any_append, Bool.or_eq_true]
    exact Or.inl hclear

theorem isAsleep_keepTimer_self (x : Exchange) (t : Task) (due : Nat) :
    (x.keepTimer t due).isAsleep t = true := by
  unfold keepTimer
  split
  · assumption
  · exact isAsleep_setTimer_self x t due

theorem waits_clearTimer (x : Exchange) {t : Task} (ht : ∀ id, t ≠ .caller id) :
    Waits front x (x.clearTimer t) :=
  ⟨rfl, fun id _ _ => ⟨rfl, fun hid => (isAsleep_clearTimer_of_ne (ht id).symm x).trans hid⟩,
    fun _ h => h⟩

theorem waits_setTimer (x : Exchange) (t : Task) (due : Nat) : Waits front x (x.setTimer t due) :=
  ⟨rfl, fun _ _ _ => ⟨rfl, fun hid => isAsleep_setTimer_of_asleep hid t due⟩, fun _ h => h⟩

theorem waits_keepTimer (x : Exchange) (t : Task) (due : Nat) :
    Waits front x (x.keepTimer t due) := by
  unfold keepTimer
  split
  · exact (stays_refl x).waits
  · exact waits_setTimer x t due

/-! ## What a change of one subscription asks for -/

/-- Where callers wait as before, it is the subscriptions that decide who owes a step. -/
theorem Waits.stirs (h : Waits front x y)
    (hspent : ∀ i, y.Spent i → x.Spent i ∨
      ∀ id due, x.callerOf? id = some ⟨id, .drain i due⟩ → .caller id ∈ y.ready)
    (hover : ∀ i, y.Over i → x.Over i ∨
      ∀ id a, x.callerOf? id = some ⟨id, .leave i a⟩ → .caller id ∈ y.ready)
    (hending : ∀ i, front ≠ some (.worker i) → y.Ending i → x.Ending i ∨ .worker i ∈ y.ready)
    (hclosing : ∀ i, y.Closing i → x.Closing i ∨ .alarm i ∈ y.ready) : Stirs front x y := by
  refine ⟨h.ready, fun t hf ho => ?_⟩
  by_cases hr : t ∈ y.ready
  · exact Or.inr hr
  cases ho with
  | @awake id i due hc ha =>
    obtain ⟨hcall, hasleep⟩ := h.caller id hf hr
    refine Or.inl (.awake (hcall.symm.trans hc) ?_)
    cases hx : x.isAsleep (.caller id) with
    | false => rfl
    | true => rw [hasleep hx] at ha; cases ha
  | late hc hl => exact Or.inl (.late ((h.caller _ hf hr).1.symm.trans hc) (h.now ▸ hl))
  | spent hc hs =>
    have hx := (h.caller _ hf hr).1.symm.trans hc
    exact (hspent _ hs).imp (.spent hx) fun hw => hw _ _ hx
  | ended hc hs =>
    have hx := (h.caller _ hf hr).1.symm.trans hc
    exact (hover _ hs).imp (.ended hx) fun hw => hw _ _ hx
  | worker he => exact (hending _ hf he).imp_left .worker
  | alarm he => exact (hclosing _ he).imp_left .alarm

theorem Waits.stirs_of_subs (h : Waits front x y) (hs : y.subs = x.subs) : Stirs front x y := by
  refine h.stirs ?_ ?_ ?_ ?_
  · exact fun i hi => Or.inl fun s hx => hi s (hs ▸ hx)
  · exact fun i hi => Or.inl fun s hx => hi s (hs ▸ hx)
  · exact fun i _ ⟨s, hy, he⟩ => Or.inl ⟨s, hs ▸ hy, he⟩
  · exact fun i ⟨s, hy, he⟩ => Or.inl ⟨s, hs ▸ hy, he⟩

/-- One subscription changes; whoever waits for what it has come to is woken. -/
theorem Waits.stirs_modify (h : Waits front x y) (i : Nat) (g : Subscription → Subscription)
    (hs : y.subs = x.subs.modify i g)
    (hspent : (∀ s, x.subs[i]? = some s → (g s).tracker.isExhausted = true →
        s.tracker.isExhausted = true) ∨
      ∀ id due, x.callerOf? id = some ⟨id, .drain i due⟩ → .caller id ∈ y.ready)
    (hover : (∀ s, x.subs[i]? = some s → (g s).isOver = true → s.isOver = true) ∨
      ∀ id a, x.callerOf? id = some ⟨id, .leave i a⟩ → .caller id ∈ y.ready)
    (hending : front = some (.worker i) ∨ ∀ s, x.subs[i]? = some s →
      ((g s).closed = true → (g s).worker ≠ .ended → s.closed = true ∧ s.worker ≠ .ended) ∨
        .worker i ∈ y.ready)
    (hclosing : ∀ s, x.subs[i]? = some s →
      ((g s).watching = true → (g s).tracker.monitor.closed = true →
        s.watching = true ∧ s.tracker.monitor.closed = true) ∨ .alarm i ∈ y.ready) :
    Stirs front x y := by
  have hself : ∀ s, x.subs[i]? = some s → y.subs[i]? = some (g s) := fun s hx => by
    rw [hs, Array.getElem?_modify, if_pos rfl, hx]
    rfl
  have hother : ∀ j, i ≠ j → y.subs[j]? = x.subs[j]? := fun j hj => by
    rw [hs, Array.getElem?_modify, if_neg hj]
  refine h.stirs (fun j hj => ?_) (fun j hj => ?_) (fun j hf hj => ?_) fun j hj => ?_
  · by_cases he : i = j
    · subst he
      exact hspent.imp_left fun hg s hx => hg s hx (hj _ (hself s hx))
    · exact Or.inl fun s hx => hj s ((hother j he).trans hx)
  · by_cases he : i = j
    · subst he
      exact hover.imp_left fun hg s hx => hg s hx (hj _ (hself s hx))
    · exact Or.inl fun s hx => hj s ((hother j he).trans hx)
  · obtain ⟨u, hu, hc, hw⟩ := hj
    rw [hs] at hu
    rcases getElem?_modify_eq_some hu with ⟨s, rfl, hx, rfl⟩ | ⟨he, hx⟩
    · refine ((hending.resolve_left hf) s hx).imp_left fun hg => ?_
      exact ⟨s, hx, hg hc hw⟩
    · exact Or.inl ⟨u, hx, hc, hw⟩
  · obtain ⟨u, hu, hw, hc⟩ := hj
    rw [hs] at hu
    rcases getElem?_modify_eq_some hu with ⟨s, rfl, hx, rfl⟩ | ⟨he, hx⟩
    · exact (hclosing s hx).imp_left fun hg => ⟨s, hx, hg hw hc⟩
    · exact Or.inl ⟨u, hx, hw, hc⟩

/-! ## The steps of subscriptions -/

/-- A subscription is shut down, and whatever else becomes of it, its demand and its alarm task are
as before. -/
theorem stirs_of_close {g : Subscription → Subscription} (h : Stays (x.close i) y)
    (hs : y.subs = x.subs.modify i g) (hg : ∀ s, (g s).tracker.demand = s.tracker.demand)
    (hover : (∀ s, (g s).isOver = true → s.isOver = true) ∨
      ∀ id a, x.callerOf? id = some ⟨id, .leave i a⟩ → .caller id ∈ y.ready) :
    Stirs front x y := by
  have hmem := fun s hx => mem_close (i := i) x (s := s) hx
  refine ((stays_close x i).trans h).waits.stirs_modify i g hs ?_ ?_ ?_ ?_
  · exact Or.inl fun s _ he => (congrArg Demand.isExhausted (hg s)).symm.trans he
  · exact hover.imp_left fun ho s _ => ho s
  · exact Or.inr fun s hx => Or.inr (h.ready _ (hmem s hx).1)
  · exact fun s hx => Or.inr (h.ready _ (hmem s hx).2)

theorem subs_close (x : Exchange) (i : Nat) :
    (x.close i).subs = x.subs.modify i Subscription.shut :=
  congrArg Core.subs (core_close x i)

theorem stirs_close (x : Exchange) (i : Nat) : Stirs front x (x.close i) :=
  stirs_of_close (stays_refl _) (subs_close x i) (fun _ => rfl) (Or.inl fun _ => id)

theorem subs_unsubscribe (x : Exchange) (i : Nat) :
    (x.unsubscribe i).subs = x.subs.modify i Subscription.left := by
  obtain ⟨y, hy, _, he | ⟨inbox, e, he⟩⟩ := unsubscribe_cases x i
  · exact he ▸ congrArg Core.subs hy
  · rw [he]
    exact (subs_release y inbox).trans (congrArg Core.subs hy)

theorem stirs_unsubscribe (x : Exchange) (i : Nat) : Stirs front x (x.unsubscribe i) :=
  stirs_of_close (stays_close_unsubscribe x i) (subs_unsubscribe x i) (fun _ => rfl)
    (Or.inl fun _ => id)

theorem subs_dropSub (x : Exchange) (i : Nat) (inside : Bool) :
    (x.dropSub i inside).subs = x.subs.modify i Subscription.left :=
  congrArg Core.subs (dropSub_cases x i inside).1

theorem stirs_dropSub (x : Exchange) (i : Nat) (inside : Bool) :
    Stirs front x (x.dropSub i inside) :=
  stirs_of_close (stays_close_dropSub x i inside) (subs_dropSub x i inside) (fun _ => rfl)
    (Or.inl fun _ => id)

theorem modify_of_none {α : Type} {xs : Array α} {i : Nat} (h : xs[i]? = none) (f : α → α) :
    xs.modify i f = xs :=
  (modify_congr (g := id) fun a ha => by cases h.symm.trans ha).trans (modify_id _ _)

theorem subs_endWorker (x : Exchange) (i : Nat) :
    (x.endWorker i).subs = x.subs.modify i Subscription.ended := by
  cases hs : x.subs[i]? with
  | some s => exact congrArg Core.subs (core_endWorker_of hs)
  | none =>
    rcases core_endWorker x i with hc | ⟨s, hx, _⟩
    · have hshut : (x.endWorker i).subs = shutDown i x.subs := congrArg Core.subs hc
      rw [hshut, shutDown, modify_of_none hs, modify_of_none hs]
    · cases hs.symm.trans hx

/-- A worker that ends wakes those who wait for that. -/
theorem mem_endWorker (hf : x.foreground = none) {s : Subscription} (hs : x.subs[i]? = some s)
    {id : Nat} {a : Answer} (hc : x.callerOf? id = some ⟨id, .leave i a⟩) :
    .caller id ∈ (x.endWorker i).ready := by
  rcases endWorker_cases x i with ⟨hn, _⟩ | ⟨y, hy, he⟩
  · cases hn.symm.trans hs
  · have hstay := (stays_close x i).trans hy
    rw [he]
    refine (stays_wake _ .broker).ready _ (mem_wakeLeavers (a := a) (hstay.foreground.trans hf) ?_)
    exact (callerOf?_of_callers hstay.callers id).trans hc

theorem stirs_endWorker (hf : x.foreground = none) (i : Nat) :
    Stirs front x (x.endWorker i) := by
  cases hs : x.subs[i]? with
  | none =>
    exact (stays_endWorker x i).waits.stirs_of_subs
      ((subs_endWorker x i).trans (modify_of_none hs _))
  | some s =>
    exact stirs_of_close (stays_close_endWorker x i) (subs_endWorker x i) (fun _ => rfl)
      (Or.inr fun id a hc => mem_endWorker hf hs hc)

theorem waits_endAlarm (x : Exchange) (i : Nat) : Waits front x (x.endAlarm i) :=
  ((stays_modifySub x i _).waits.trans (waits_clearTimer _ fun _ => Task.noConfusion)).trans
    (stays_endAlarm x i).waits

theorem subs_endAlarm (x : Exchange) (i : Nat) :
    (x.endAlarm i).subs = x.subs.modify i fun s => { s with watching := false } := by
  unfold endAlarm wakeLeavers
  exact (subs_wakeAll _ _).trans rfl

theorem stirs_endAlarm (hf : x.foreground = none) (i : Nat) : Stirs front x (x.endAlarm i) := by
  refine (waits_endAlarm x i).stirs_modify i _ (subs_endAlarm x i) ?_ ?_ ?_ ?_
  · exact Or.inl fun _ _ he => he
  · refine Or.inr fun id a hc => ?_
    unfold endAlarm
    dsimp only
    refine mem_wakeLeavers (a := a) ?_ ?_
    · exact hf
    · exact hc
  · exact Or.inr fun _ _ => Or.inl fun hc hw => ⟨hc, hw⟩
  · exact fun _ _ => Or.inl fun hw _ => by cases hw

/-- A tracker is put in the place of one whose monitor was open or shut like its own. -/
theorem stirs_setTracker {s : Subscription} {t : Tracker} (hs : x.subs[i]? = some s)
    (ht : t.monitor.closed = s.tracker.monitor.closed) (h : Stays (x.setTracker i t) y)
    (hy : y.subs = (x.setTracker i t).subs)
    (hspent : (t.isExhausted = true → s.tracker.isExhausted = true) ∨
      ∀ id due, x.callerOf? id = some ⟨id, .drain i due⟩ → .caller id ∈ y.ready) :
    Stirs front x y := by
  have hsubs : y.subs = x.subs.modify i fun s => { s with tracker := t } :=
    hy.trans (subs_setTracker x i t)
  have hsame : ∀ u, x.subs[i]? = some u → u = s := fun u hu => Option.some.inj (hu.symm.trans hs)
  refine ((stays_setTracker x i t).trans h).waits.stirs_modify i _ hsubs ?_ ?_ ?_ ?_
  · exact hspent.imp_left fun he u hu => by rw [hsame u hu]; exact he
  · exact Or.inl fun _ _ he => he
  · exact Or.inr fun _ _ => Or.inl fun hc hw => ⟨hc, hw⟩
  · refine fun u hu => Or.inl fun hw hc => ⟨hw, ?_⟩
    rw [hsame u hu]
    exact ht.symm.trans hc

/-- A subscription opens behind the others, if it does. -/
theorem subs_openSub (x : Exchange) (p : Purpose) : (x.openSub p).1.subs = x.subs ∨
    ∃ inbox feed now capacity,
      (x.openSub p).1.subs = x.subs.push (.start inbox feed now capacity p) := by
  have hs := subs_subscribe x (some x.subs.size)
  unfold openSub
  dsimp only
  split
  · rename_i hy
    rw [hy] at hs
    exact Or.inl hs
  · rename_i y feed inbox hy
    rw [hy] at hs
    refine Or.inr ⟨inbox, feed, y.now, y.queueCapacity, ?_⟩
    show (wake _ _).subs = _
    rw [subs_wake, subs_wake]
    exact congrArg (fun ss : Array Subscription => ss.push _) hs

theorem stirs_openSub (x : Exchange) (p : Purpose) : Stirs front x (x.openSub p).1 := by
  have hw : Waits front x (x.openSub p).1 := (stays_openSub x p).waits
  rcases subs_openSub x p with hs | ⟨inbox, feed, now, capacity, hs⟩
  · exact hw.stirs_of_subs hs
  · have hold : ∀ (j : Nat) (s : Subscription), x.subs[j]? = some s →
        (x.openSub p).1.subs[j]? = some s := fun j s hj => by
      obtain ⟨hlt, _⟩ := Array.getElem?_eq_some_iff.1 hj
      rw [hs, Array.getElem?_push, if_neg (Nat.ne_of_lt hlt)]
      exact hj
    have hnew : ∀ (j : Nat) (s : Subscription), (x.openSub p).1.subs[j]? = some s →
        x.subs[j]? = some s ∨ s.closed = false ∧ s.tracker.monitor.closed = false := by
      intro j s hj
      rw [hs, Array.getElem?_push] at hj
      split at hj
      · cases hj
        exact Or.inr ⟨rfl, rfl⟩
      · exact Or.inl hj
    refine hw.stirs ?_ ?_ ?_ ?_
    · exact fun j hj => Or.inl fun s hx => hj s (hold j s hx)
    · exact fun j hj => Or.inl fun s hx => hj s (hold j s hx)
    · rintro j _ ⟨s, hj, hc, hne⟩
      rcases hnew j s hj with hx | ⟨hno, _⟩
      · exact Or.inl ⟨s, hx, hc, hne⟩
      · rw [hno] at hc
        cases hc
    · rintro j ⟨s, hj, hwatch, hc⟩
      rcases hnew j s hj with hx | ⟨_, hno⟩
      · exact Or.inl ⟨s, hx, hwatch, hc⟩
      · rw [hno] at hc
        cases hc

/-! ## The steps of callers -/

/-- Only the caller in front is elsewhere. -/
theorem waits_of_front {id : Nat} (hf : front = some (.caller id)) (hnow : y.now = x.now)
    (hready : y.ready = x.ready) (hcall : ∀ n, n ≠ id → y.callerOf? n = x.callerOf? n)
    (hasleep : ∀ n, n ≠ id → y.isAsleep (.caller n) = x.isAsleep (.caller n)) :
    Waits front x y := by
  refine ⟨hnow, fun n hn _ => ?_, fun t ht => hready.symm ▸ ht⟩
  have hne : n ≠ id := fun e => hn (hf.trans (by rw [e]))
  exact ⟨hcall n hne, fun hid => (hasleep n hne).trans hid⟩

theorem stirs_finish {id : Nat} (hf : front = some (.caller id)) (x : Exchange) (a : Answer) :
    Stirs front x (x.finish id a) := by
  refine Waits.stirs_of_subs (waits_of_front hf rfl rfl ?_ fun n hn => ?_) rfl
  · exact fun _ hn => callerOf?_finish_of_ne hn x a
  · exact isAsleep_clearTimer_of_ne (fun e => hn (Task.caller.inj e)) x

theorem stirs_setActivity {id : Nat} (hf : front = some (.caller id)) (x : Exchange)
    (a : Activity) : Stirs front x (x.setActivity id a) := by
  refine Waits.stirs_of_subs (waits_of_front hf rfl rfl ?_ fun n hn => ?_) rfl
  · exact fun _ hn => callerOf?_setActivity_of_ne hn x a
  · exact isAsleep_clearTimer_of_ne (fun e => hn (Task.caller.inj e)) x

/-- A caller that reads joins the line of readers. -/
theorem subs_callBehind (x : Exchange) (a : Activity) : (x.callBehind a).1.subs = x.subs ∨
    ∃ i, (x.callBehind a).1.subs =
      x.subs.modify i fun s => { s with readers := s.readers ++ [x.nextCaller] } := by
  have hs : (x.callBehind a).1.subs = joined a x.nextCaller x.subs :=
    congrArg Core.subs (core_callBehind x a)
  unfold joined at hs
  split at hs
  · exact Or.inl hs
  · exact Or.inr ⟨_, hs⟩

/-- A new caller stands in line. -/
theorem waits_callBehind (hf : x.foreground = none) (a : Activity) :
    Waits front x (x.callBehind a).1 := by
  have henroll : (x.enroll a).now = x.now ∧ (x.enroll a).timers = x.timers ∧
      (x.enroll a).ready = x.ready ∧ (x.enroll a).foreground = none := by
    unfold enroll
    dsimp only
    split <;> exact ⟨rfl, rfl, rfl, hf⟩
  obtain ⟨hnow, htimers, hready, hfore⟩ := henroll
  have hstay : Stays (x.enroll a) (x.callBehind a).1 := stays_wake _ _
  refine ⟨hstay.now.trans hnow, fun id _ hr => ?_, fun t ht => hstay.ready t (hready.symm ▸ ht)⟩
  have hne : id ≠ x.nextCaller := by
    rintro rfl
    exact hr (mem_wake hfore _)
  refine ⟨callerOf?_callBehind_of_ne hne a, fun hid => ?_⟩
  unfold isAsleep
  rw [hstay.timers, htimers]
  exact hid

theorem stirs_callBehind (hf : x.foreground = none) (a : Activity) :
    Stirs front x (x.callBehind a).1 := by
  have hw : Waits front x (x.callBehind a).1 := waits_callBehind hf a
  rcases subs_callBehind x a with hs | ⟨i, hs⟩
  · exact hw.stirs_of_subs hs
  · refine hw.stirs_modify i _ hs ?_ ?_ ?_ ?_
    · exact Or.inl fun _ _ he => he
    · exact Or.inl fun _ _ ho => ho
    · exact Or.inr fun _ _ => Or.inl fun hc hne => ⟨hc, hne⟩
    · exact fun _ _ => Or.inl fun hwatch hc => ⟨hwatch, hc⟩

/-! ## All that works -/

/-- Whoever works puts those in line who owe a step by that. -/
theorem Works.stirs (h : Works front x₀ ps x) (hq : ∀ id, ¬x₀.IsAsked id)
    (hf : ∀ id, front = some (.caller id) → id < x₀.nextCaller) (hx : Seated x₀) :
    Stirs front x₀ x := by
  have hstay : ∀ {x y : Exchange}, Stirs front x₀ x → Stays x y → y.subs = x.subs →
      Stirs front x₀ y := fun hs hy he => hs.trans (hy.waits.stirs_of_subs he)
  have hfore : ∀ {x ps}, Works front x₀ ps x → x.foreground = none :=
    fun hw => (hw.seated hq hf hx).1.foreground
  induction h with
  | refl => exact stirs_refl front x₀
  | opened p => exact stirs_openSub x₀ p
  | aside _ hy ih => exact hstay ih hy.stays hy.subs
  | woken _ t ih => exact hstay ih (stays_wake _ t) (subs_wake _ t)
  | roused _ t ht ih => exact ih.trans ((waits_clearTimer _ ht).stirs_of_subs rfl)
  | rested _ t due _ ih => exact ih.trans ((waits_setTimer _ t due).stirs_of_subs rfl)
  | waited _ due _ _ ih =>
    exact ih.trans ((waits_keepTimer _ _ due).stirs_of_subs
      (congrArg Core.subs (core_keepTimer _ _ due)))
  | eased _ i g hg hw ih =>
    refine ih.trans ((stays_modifySub _ i g).waits.stirs_modify i g rfl ?_ ?_ ?_ ?_)
    · exact Or.inl fun s _ he => (congrArg Demand.isExhausted (hg s).demand).symm.trans he
    · refine Or.inl fun s _ ho => ?_
      obtain ⟨hwatch, hended⟩ := Bool.and_eq_true_iff.1 ho
      rw [(hg s).watching] at hwatch
      exact Bool.and_eq_true_iff.2
        ⟨hwatch, decide_eq_true ((hg s).ended (of_decide_eq_true hended))⟩
    · refine hw.symm.imp_right fun hsame s _ => Or.inl fun hc hne => ?_
      exact ⟨(hg s).closed.symm.trans hc, fun he => hne ((hsame s).trans he)⟩
    · exact fun s _ => Or.inl fun hwatch hc =>
        ⟨(hg s).watching.symm.trans hwatch, (hg s).shut.symm.trans hc⟩
  | @retracked _ y hw i s t hs ht ih =>
    refine ih.trans (stirs_setTracker hs ht (stays_wakeAll _ _) (subs_wakeAll _ _) (Or.inr ?_))
    intro id due hc
    have hstays := stays_setTracker y i t
    exact mem_wakeDrainers (hstays.foreground.trans (hfore hw))
      ((callerOf?_of_callers hstays.callers id).trans hc)
  | @added _ _ _ _ s hs r ih =>
    refine ih.trans (stirs_setTracker (t := s.tracker.added r) hs rfl (stays_refl _) rfl
      (Or.inl fun he => ?_))
    cases (s.tracker.demand.isExhausted_add r).symm.trans he
  | closed _ i ih => exact ih.trans (stirs_close _ i)
  | unwatched hw i ih => exact ih.trans (stirs_endAlarm (hfore hw) i)
  | ended hw i ih => exact ih.trans (stirs_endWorker (hfore hw) i)
  | left _ i ih => exact ih.trans (stirs_unsubscribe _ i)
  | dropped _ i inside _ ih => exact ih.trans (stirs_dropSub _ i inside)
  | finished _ id a hid ih => exact ih.trans (stirs_finish (hid.resolve_right (hq id)) _ a)
  | turned _ hid a ih => exact ih.trans (stirs_setActivity hid _ a)
  | called hw a ih => exact ih.trans (stirs_callBehind (hfore hw) a)
  | adjusted _ _ ih => exact hstay ih (stays_transport _ _) rfl
  | sent _ _ _ _ ih => exact hstay ih (stays_send _ _) (subs_of_affairs (skips_affairs.send _ _))
  | carried _ _ r ih => exact hstay ih (stays_carry _ _ r) (subs_carry _ _ r)
  | released _ inbox ih => exact hstay ih (stays_release _ inbox) (subs_release _ inbox)
  | served _ _ _ _ ih => exact hstay ih (stays_transport _ _) rfl
  | accepted _ _ _ _ ih => exact hstay ih (stays_transport _ _) rfl

end DemandFlow.Exchange
