import DemandFlow.Proofs.Exchange.Desk
import DemandFlow.Proofs.Exchange.Queued

/-
  Who waits, and for how long. A caller is given the next number when it calls; from then on its
  activity, its answer and its sleep are its own: whatever works besides leaves them alone, unless
  it answers a question that the caller has asked. `Stays` is what most steps do to the callers,
  which is nothing; `Sits` says it of all that works.
-/

namespace DemandFlow.Exchange

open Broker (Command)

variable {front : Option Task} {x₀ x y z : Exchange} {ps : List (String × PullRequest)}

/-! ## Callers stay as they are -/

/-- The clock, the callers, their sleep and their answers are the same, and whoever stood in line
still does. -/
structure Stays (x y : Exchange) : Prop where
  now : y.now = x.now
  callers : y.callers = x.callers
  nextCaller : y.nextCaller = x.nextCaller
  foreground : y.foreground = x.foreground
  timers : y.timers = x.timers
  answers : y.answers = x.answers
  ready : ∀ t ∈ x.ready, t ∈ y.ready

theorem stays_refl (x : Exchange) : Stays x x := ⟨rfl, rfl, rfl, rfl, rfl, rfl, fun _ h => h⟩

theorem Stays.trans (h : Stays x y) (h' : Stays y z) : Stays x z :=
  ⟨h'.now.trans h.now, h'.callers.trans h.callers, h'.nextCaller.trans h.nextCaller,
    h'.foreground.trans h.foreground, h'.timers.trans h.timers, h'.answers.trans h.answers,
    fun t ht => h'.ready t (h.ready t ht)⟩

theorem Beside.stays (h : Beside x y) : Stays x y :=
  ⟨h.now, h.callers, h.nextCaller, h.foreground, h.timers, h.answers,
    fun _ ht => h.ready.symm ▸ ht⟩

theorem stays_note (x : Exchange) (e : Log.Entry) : Stays x (x.note e) := (beside_note x e).stays

theorem stays_modifySub (x : Exchange) (i : Nat) (g : Subscription → Subscription) :
    Stays x (x.modifySub i g) := ⟨rfl, rfl, rfl, rfl, rfl, rfl, fun _ h => h⟩

theorem stays_modifyFeed (x : Exchange) (i : Nat) (g : Feed → Feed) : Stays x (x.modifyFeed i g) :=
  (beside_modifyFeed x i g).stays

theorem stays_transport (x : Exchange) (t : Transport) : Stays x { x with transport := t } :=
  ⟨rfl, rfl, rfl, rfl, rfl, rfl, fun _ h => h⟩

theorem stays_wake (x : Exchange) (t : Task) : Stays x (x.wake t) := by
  unfold wake
  split
  · split
    · exact ⟨rfl, rfl, rfl, rfl, rfl, rfl, fun _ h => h⟩
    · split
      · exact stays_refl x
      · exact ⟨rfl, rfl, rfl, rfl, rfl, rfl, fun _ h => List.mem_append_left _ h⟩
  · split
    · exact stays_refl x
    · exact ⟨rfl, rfl, rfl, rfl, rfl, rfl, fun _ h => List.mem_append_left _ h⟩

theorem stays_wakeIf (x : Exchange) (b : Bool) (t : Task) : Stays x (x.wakeIf b t) := by
  cases b with
  | true => exact stays_wake x t
  | false => exact stays_refl x

theorem stays_wakeAll (x : Exchange) (ts : List Task) : Stays x (x.wakeAll ts) := by
  unfold wakeAll
  induction ts generalizing x with
  | nil => exact stays_refl x
  | cons t ts ih => exact (stays_wake x t).trans (ih (x.wake t))

theorem stays_send (x : Exchange) (c : Command) : Stays x (x.send c).1 := by
  unfold send
  split
  · split
    · dsimp only
      exact (stays_transport x _).trans (stays_wake _ _)
    · exact stays_note x _
  · exact stays_refl x

theorem stays_closeFeed (x : Exchange) (inbox : String) : Stays x (x.closeFeed inbox) := by
  unfold closeFeed
  split
  · exact stays_refl x
  · split
    · exact stays_refl x
    · exact (stays_modifyFeed x _ _).trans (stays_wakeAll _ _)

theorem stays_release (x : Exchange) (inbox : String) : Stays x (x.release inbox) := by
  unfold release
  split
  · exact stays_send x _
  · exact (stays_transport x _).trans (stays_closeFeed _ _)

theorem stays_carry (x : Exchange) (inbox : String) (r : PullRequest) :
    Stays x (x.carry inbox r).1 := by
  unfold carry
  split
  · exact (stays_note x _).trans (stays_send _ _)
  · split
    · exact stays_refl x
    · exact stays_transport x _

theorem stays_subscribe (x : Exchange) (reader : Option Nat) : Stays x (x.subscribe reader).1 := by
  have hfeed : ∀ (y : Exchange) (inbox : String) (n : Nat), Stays y (y.addFeed inbox n reader) :=
    fun y _ _ => ⟨rfl, rfl, rfl, rfl, rfl, rfl, fun _ h => h⟩
  unfold subscribe
  dsimp only
  split
  · split
    · exact ((stays_transport x _).trans (stays_send _ _)).trans (hfeed _ _ _)
    · exact (stays_transport x _).trans (stays_send _ _)
  · split
    · exact stays_refl x
    · exact (stays_transport x _).trans (hfeed _ _ _)

theorem stays_openSub (x : Exchange) (p : Purpose) : Stays x (x.openSub p).1 := by
  refine openSub_keeps (stays_subscribe x _) fun y feed inbox hy => ?_
  have hpush : Stays y { y with subs := y.subs.push (.start inbox feed y.now y.queueCapacity p) } :=
    ⟨rfl, rfl, rfl, rfl, rfl, rfl, fun _ h => h⟩
  exact ((hy.trans hpush).trans ((stays_wake _ _).trans (stays_wake _ _))).trans (stays_note _ _)

theorem stays_setTracker (x : Exchange) (i : Nat) (t : Tracker) : Stays x (x.setTracker i t) :=
  (stays_modifySub x i _).trans (stays_wakeIf _ _ _)

theorem stays_close (x : Exchange) (i : Nat) : Stays x (x.close i) := by
  unfold close
  split
  · exact stays_refl x
  · exact ((stays_modifySub x i _).trans (stays_wake _ _)).trans (stays_setTracker _ _ _)

/-- Whoever unsubscribes shuts down first. -/
theorem stays_close_unsubscribe (x : Exchange) (i : Nat) : Stays (x.close i) (x.unsubscribe i) := by
  unfold unsubscribe
  dsimp only
  split
  · exact stays_refl _
  · split
    · exact stays_refl _
    · exact ((stays_modifySub _ _ _).trans (stays_release _ _)).trans (stays_note _ _)

theorem stays_unsubscribe (x : Exchange) (i : Nat) : Stays x (x.unsubscribe i) :=
  (stays_close x i).trans (stays_close_unsubscribe x i)

/-- So does whoever drops. -/
theorem stays_close_dropSub (x : Exchange) (i : Nat) (inside : Bool) :
    Stays (x.close i) (x.dropSub i inside) := by
  unfold dropSub
  dsimp only
  split
  · exact stays_refl _
  · split
    · exact stays_refl _
    · exact (stays_modifySub _ _ _).trans (stays_wakeIf _ _ _)

theorem stays_dropSub (x : Exchange) (i : Nat) (inside : Bool) : Stays x (x.dropSub i inside) :=
  (stays_close x i).trans (stays_close_dropSub x i inside)

/-- A worker that ends shuts down first, and in the end wakes those who wait for that. -/
theorem endWorker_cases (x : Exchange) (i : Nat) :
    x.subs[i]? = none ∧ x.endWorker i = x.close i ∨
      ∃ y, Stays (x.close i) y ∧ x.endWorker i = (y.wakeLeavers i).wake .broker := by
  unfold endWorker
  dsimp only
  split
  · rename_i hs
    exact Or.inl ⟨none_of_close hs, rfl⟩
  · rename_i s _
    have hended : Stays (x.close i) (((x.close i).modifySub i fun s =>
        { s with worker := .ended }).note (Journal.workerStopped s.inbox)) :=
      (stays_modifySub _ _ _).trans (stays_note _ _)
    refine Or.inr ⟨_, hended.trans ?_, rfl⟩
    exact ((stays_modifyFeed _ _ _).trans (stays_wakeIf _ _ _)).trans (stays_wakeAll _ _)

theorem stays_close_endWorker (x : Exchange) (i : Nat) : Stays (x.close i) (x.endWorker i) := by
  rcases endWorker_cases x i with ⟨_, he⟩ | ⟨y, hy, he⟩
  · exact he ▸ stays_refl _
  · exact he ▸ (hy.trans (stays_wakeAll _ _)).trans (stays_wake _ _)

theorem stays_endWorker (x : Exchange) (i : Nat) : Stays x (x.endWorker i) :=
  (stays_close x i).trans (stays_close_endWorker x i)

/-- An alarm task that ends leaves no sleep behind. -/
theorem stays_endAlarm (x : Exchange) (i : Nat) :
    Stays ((x.modifySub i fun s => { s with watching := false }).clearTimer (.alarm i))
      (x.endAlarm i) :=
  stays_wakeAll _ _

/-! ## Callers by number -/

theorem id_of_callerOf? {id : Nat} {c : Caller} (h : x.callerOf? id = some c) : c.id = id := by
  simpa using List.find?_some h

theorem mem_of_callerOf? {id : Nat} {c : Caller} (h : x.callerOf? id = some c) : c ∈ x.callers :=
  List.mem_of_find?_eq_some h

theorem callerOf?_of_callers (h : y.callers = x.callers) (id : Nat) :
    y.callerOf? id = x.callerOf? id := congrArg (List.find? _) h

theorem callerOf?_finish_self (x : Exchange) (id : Nat) (a : Answer) :
    (x.finish id a).callerOf? id = none := by
  refine List.find?_eq_none.2 fun c hc => ?_
  simpa using (List.mem_filter.1 hc).2

theorem callerOf?_finish_of_ne {id n : Nat} (h : n ≠ id) (x : Exchange) (a : Answer) :
    (x.finish id a).callerOf? n = x.callerOf? n := by
  show List.find? _ (x.callers.filter _) = _
  rw [List.find?_filter]
  refine congrArg (fun p => List.find? p x.callers) (funext fun c => ?_)
  by_cases hc : c.id = n
  · simp [hc, h]
  · simp [hc]

theorem now_setActivity (x : Exchange) (id : Nat) (a : Activity) :
    (x.setActivity id a).now = x.now := rfl

theorem subs_setActivity (x : Exchange) (id : Nat) (a : Activity) :
    (x.setActivity id a).subs = x.subs := rfl

theorem transport_setActivity (x : Exchange) (id : Nat) (a : Activity) :
    (x.setActivity id a).transport = x.transport := rfl

theorem answers_setActivity (x : Exchange) (id : Nat) (a : Activity) :
    (x.setActivity id a).answers = x.answers := rfl

theorem callerOf?_setActivity_self {id : Nat} {c : Caller} (h : x.callerOf? id = some c)
    (a : Activity) : (x.setActivity id a).callerOf? id = some ⟨id, a⟩ := by
  show List.find? _ (x.callers.map _) = _
  rw [List.find?_map]
  have hcomp : ((fun c : Caller => decide (c.id = id)) ∘
      fun c => if c.id = id then Caller.mk id a else c) = fun c => decide (c.id = id) := by
    funext d
    by_cases hd : d.id = id <;> simp [hd]
  rw [hcomp]
  show Option.map _ (x.callerOf? id) = _
  rw [h, Option.map_some, if_pos (id_of_callerOf? h)]

theorem callerOf?_setActivity_of_ne {id n : Nat} (h : n ≠ id) (x : Exchange) (a : Activity) :
    (x.setActivity id a).callerOf? n = x.callerOf? n := by
  show List.find? _ (x.callers.map _) = _
  rw [List.find?_map]
  have hcomp : ((fun c : Caller => decide (c.id = n)) ∘
      fun c => if c.id = id then Caller.mk id a else c) = fun c => decide (c.id = n) := by
    funext d
    by_cases hd : d.id = id
    · simp [hd, Ne.symm h]
    · simp [hd]
  rw [hcomp]
  show Option.map _ (x.callerOf? n) = x.callerOf? n
  cases hc : x.callerOf? n with
  | none => rfl
  | some c =>
    have hn := id_of_callerOf? hc
    rw [Option.map_some, if_neg (by rw [hn]; exact h)]

theorem callers_callBehind (x : Exchange) (a : Activity) :
    (x.callBehind a).1.callers = x.callers ++ [⟨x.nextCaller, a⟩] :=
  congrArg Core.callers (core_callBehind x a)

theorem callerOf?_callBehind_of_ne {n : Nat} (h : n ≠ x.nextCaller) (a : Activity) :
    (x.callBehind a).1.callerOf? n = x.callerOf? n := by
  unfold callerOf?
  rw [callers_callBehind, List.find?_append]
  have hnew : List.find? (fun c : Caller => decide (c.id = n)) [⟨x.nextCaller, a⟩] = none := by
    simp [Ne.symm h]
  rw [hnew, Option.or_none]

/-! ## What callers keep -/

/-- Numbers are given in turn, nobody is in the foreground, and who waits for a drain sleeps until
its time is over. -/
structure Seated (x : Exchange) : Prop where
  foreground : x.foreground = none
  callers : ∀ c ∈ x.callers, c.id < x.nextCaller
  answers : ∀ p ∈ x.answers, p.1 < x.nextCaller
  sleepers : ∀ e ∈ x.timers, ∀ id, e.task = .caller id → id < x.nextCaller
  rests : ∀ e ∈ x.timers, ∀ id i due, e.task = .caller id →
    x.callerOf? id = some ⟨id, .drain i due⟩ → e.due = wholeMillis due

/-- Whoever called before, and is not in front, is where it was. -/
structure Sits (front : Option Task) (x y : Exchange) : Prop where
  grown : x.nextCaller ≤ y.nextCaller
  caller : ∀ id < x.nextCaller, front ≠ some (.caller id) → y.callerOf? id = x.callerOf? id
  answer : ∀ id < x.nextCaller, front ≠ some (.caller id) → y.answerOf? id = x.answerOf? id

theorem sits_refl (front : Option Task) (x : Exchange) : Sits front x x :=
  ⟨Nat.le_refl _, fun _ _ _ => rfl, fun _ _ _ => rfl⟩

theorem Sits.trans (h : Sits front x y) (h' : Sits front y z) : Sits front x z where
  grown := Nat.le_trans h.grown h'.grown
  caller := fun id hid hf =>
    (h'.caller id (Nat.lt_of_lt_of_le hid h.grown) hf).trans (h.caller id hid hf)
  answer := fun id hid hf =>
    (h'.answer id (Nat.lt_of_lt_of_le hid h.grown) hf).trans (h.answer id hid hf)

theorem sits_of_same (hc : y.callers = x.callers) (hn : y.nextCaller = x.nextCaller)
    (ha : y.answers = x.answers) : Sits front x y :=
  ⟨Nat.le_of_eq hn.symm, fun id _ _ => callerOf?_of_callers hc id,
    fun id _ _ => congrArg (List.lookup id) ha⟩

theorem Stays.sits (h : Stays x y) : Sits front x y :=
  sits_of_same h.callers h.nextCaller h.answers

theorem seated_start (t : Transport) (keeps : Bool) (capacity : Nat) :
    Seated (start t keeps capacity) where
  foreground := rfl
  callers := fun _ h => by cases h
  answers := fun _ h => by cases h
  sleepers := fun _ h => by cases h
  rests := fun _ h => by cases h

namespace Seated

/-- Nobody but tasks that are no callers goes to sleep. -/
theorem same (h : Seated x) (hf : y.foreground = x.foreground) (hc : y.callers = x.callers)
    (hn : y.nextCaller = x.nextCaller) (ha : y.answers = x.answers)
    (ht : ∀ e ∈ y.timers, e ∈ x.timers ∨ ∀ id, e.task ≠ .caller id) : Seated y where
  foreground := hf.trans h.foreground
  callers := by
    rw [hc, hn]
    exact h.callers
  answers := by
    rw [ha, hn]
    exact h.answers
  sleepers := fun e he id hid => by
    rw [hn]
    exact h.sleepers e ((ht e he).resolve_right fun hno => hno id hid) id hid
  rests := fun e he id i due hid hcall => by
    rw [callerOf?_of_callers hc] at hcall
    exact h.rests e ((ht e he).resolve_right fun hno => hno id hid) id i due hid hcall

theorem stays (h : Seated x) (hy : Stays x y) : Seated y :=
  h.same hy.foreground hy.callers hy.nextCaller hy.answers fun _ he => Or.inl (hy.timers ▸ he)

theorem clearTimer (h : Seated x) (t : Task) : Seated (x.clearTimer t) :=
  h.same rfl rfl rfl rfl fun _ he => Or.inl (List.mem_filter.1 he).1

theorem setTimer (h : Seated x) {t : Task} (ht : ∀ id, t ≠ .caller id) (due : Nat) :
    Seated (x.setTimer t due) := by
  refine h.same rfl rfl rfl rfl fun e he => ?_
  rcases List.mem_append.1 he with he | he
  · exact Or.inl (List.mem_filter.1 he).1
  · rw [List.mem_singleton.1 he]
    exact Or.inr ht

/-- A caller goes to sleep; one that drains does so until its time is over. -/
theorem keepTimer (h : Seated x) {c : Caller} {due : Nat} (hc : x.callerOf? c.id = some c)
    (hd : ∀ i d, c.activity = .drain i d → due = d) : Seated (x.keepTimer (.caller c.id) due) := by
  unfold Exchange.keepTimer
  split
  · exact h
  · have hold : ∀ e ∈ (x.setTimer (.caller c.id) due).timers,
        e ∈ x.timers ∨ e = ⟨.caller c.id, wholeMillis due⟩ := by
      intro e he
      rcases List.mem_append.1 he with he | he
      · exact Or.inl (List.mem_filter.1 he).1
      · exact Or.inr (List.mem_singleton.1 he)
    refine ⟨h.foreground, h.callers, h.answers, fun e he id hid => ?_,
      fun e he id i d hid hcall => ?_⟩
    · rcases hold e he with he | rfl
      · exact h.sleepers e he id hid
      · cases hid
        exact h.callers c (mem_of_callerOf? hc)
    · rcases hold e he with he | rfl
      · exact h.rests e he id i d hid hcall
      · cases hid
        have hcd : c = ⟨c.id, .drain i d⟩ := Option.some.inj (hc.symm.trans hcall)
        rw [hd i d (congrArg Caller.activity hcd)]

theorem finish (h : Seated x) {id : Nat} (hid : id < x.nextCaller) (a : Answer) :
    Seated (x.finish id a) where
  foreground := h.foreground
  callers := fun c hc => h.callers c (List.mem_filter.1 hc).1
  answers := fun p hp => by
    rcases List.mem_append.1 hp with hp | hp
    · exact h.answers p hp
    · rw [List.mem_singleton.1 hp]
      exact hid
  sleepers := fun e he => h.sleepers e (List.mem_filter.1 he).1
  rests := fun e he n i due hn hcall => by
    obtain ⟨he, hne⟩ := List.mem_filter.1 he
    have hni : n ≠ id := by
      rintro rfl
      simp [hn] at hne
    rw [callerOf?_finish_of_ne hni] at hcall
    exact h.rests e he n i due hn hcall

theorem setActivity (h : Seated x) (id : Nat) (a : Activity) : Seated (x.setActivity id a) where
  foreground := h.foreground
  callers := fun c hc => by
    obtain ⟨d, hd, rfl⟩ := List.mem_map.1 hc
    have hlt := h.callers d hd
    split
    · rename_i he
      exact he ▸ hlt
    · exact hlt
  answers := h.answers
  sleepers := fun e he => h.sleepers e (List.mem_filter.1 he).1
  rests := fun e he n i due hn hcall => by
    obtain ⟨he, hne⟩ := List.mem_filter.1 he
    have hni : n ≠ id := by
      rintro rfl
      simp [hn] at hne
    rw [callerOf?_setActivity_of_ne hni] at hcall
    exact h.rests e he n i due hn hcall

theorem callBehind (h : Seated x) (a : Activity) :
    Seated (x.callBehind a).1 ∧ (x.callBehind a).1.nextCaller = x.nextCaller + 1 := by
  have hy : ∃ y : Exchange, y = (x.callBehind a).1 ∧ y.foreground = x.foreground ∧
      y.nextCaller = x.nextCaller + 1 ∧ y.answers = x.answers ∧ y.timers = x.timers := by
    refine ⟨_, rfl, ?_⟩
    unfold Exchange.callBehind enroll
    rw [(stays_wake _ _).foreground, (stays_wake _ _).nextCaller, (stays_wake _ _).answers,
      (stays_wake _ _).timers]
    dsimp only
    split <;> exact ⟨rfl, rfl, rfl, rfl⟩
  obtain ⟨y, rfl, hf, hn, ha, ht⟩ := hy
  refine ⟨⟨hf.trans h.foreground, fun c hc => ?_, fun p hp => ?_, fun e he id hid => ?_,
    fun e he id i due hid hcall => ?_⟩, hn⟩
  · rw [hn]
    rw [callers_callBehind] at hc
    rcases List.mem_append.1 hc with hc | hc
    · exact Nat.lt_succ_of_lt (h.callers c hc)
    · rw [List.mem_singleton.1 hc]
      exact Nat.lt_succ_self _
  · rw [hn]
    exact Nat.lt_succ_of_lt (h.answers p (ha ▸ hp))
  · rw [hn]
    exact Nat.lt_succ_of_lt (h.sleepers e (ht ▸ he) id hid)
  · rw [ht] at he
    have hlt := h.sleepers e he id hid
    rw [callerOf?_callBehind_of_ne (Nat.ne_of_lt hlt)] at hcall
    exact h.rests e he id i due hid hcall

end Seated

theorem answerOf?_finish_of_ne {id n : Nat} (h : n ≠ id) (x : Exchange) (a : Answer) :
    (x.finish id a).answerOf? n = x.answerOf? n := by
  show List.lookup n (x.answers ++ [(id, a)]) = _
  rw [List.lookup_append]
  have hnew : List.lookup n [(id, a)] = none := by
    rw [List.lookup_cons, beq_false_of_ne h]
    rfl
  rw [hnew, Option.or_none]
  rfl

theorem sits_finish (x : Exchange) {id : Nat} (hf : front = some (.caller id)) (a : Answer) :
    Sits front x (x.finish id a) := by
  refine ⟨Nat.le_refl _, fun n _ hn => ?_, fun n _ hn => ?_⟩
  · exact callerOf?_finish_of_ne (fun e => hn (hf.trans (by rw [e]))) x a
  · exact answerOf?_finish_of_ne (fun e => hn (hf.trans (by rw [e]))) x a

theorem answers_callBehind (x : Exchange) (a : Activity) :
    (x.callBehind a).1.answers = x.answers := congrArg Prod.fst (desk_callBehind x a)

/-- Whatever works leaves those alone who are not in front, where nobody has asked a question. -/
theorem Works.seated (h : Works front x₀ ps x) (hq : ∀ id, ¬x₀.IsAsked id)
    (hf : ∀ id, front = some (.caller id) → id < x₀.nextCaller) (hx : Seated x₀) :
    Seated x ∧ Sits front x₀ x := by
  have hstay : ∀ {x y : Exchange}, Seated x ∧ Sits front x₀ x → Stays x y →
      Seated y ∧ Sits front x₀ y := fun hs hy => ⟨hs.1.stays hy, hs.2.trans hy.sits⟩
  induction h with
  | refl => exact ⟨hx, sits_refl front x₀⟩
  | opened p => exact hstay ⟨hx, sits_refl front x₀⟩ (stays_openSub x₀ p)
  | aside _ hy ih => exact hstay ih hy.stays
  | woken _ t ih => exact hstay ih (stays_wake _ t)
  | roused _ t ht ih => exact ⟨ih.1.clearTimer t, ih.2.trans (sits_of_same rfl rfl rfl)⟩
  | rested _ t due ht ih => exact ⟨ih.1.setTimer ht due, ih.2.trans (sits_of_same rfl rfl rfl)⟩
  | waited _ due hc hd ih =>
    refine ⟨ih.1.keepTimer hc hd, ih.2.trans ?_⟩
    unfold keepTimer
    split
    · exact sits_refl front _
    · exact sits_of_same rfl rfl rfl
  | eased _ i g _ _ ih => exact hstay ih (stays_modifySub _ i g)
  | retracked _ _ _ ih => exact hstay ih ((stays_setTracker _ _ _).trans (stays_wakeAll _ _))
  | added _ _ r ih => exact hstay ih (stays_setTracker _ _ _)
  | closed _ i ih => exact hstay ih (stays_close _ i)
  | @unwatched _ y _ i ih =>
    have hc := (ih.1.stays (stays_modifySub _ i fun s => { s with watching := false })).clearTimer
      (.alarm i)
    have hs := stays_endAlarm y i
    exact ⟨hc.stays hs, ih.2.trans (sits_of_same hs.callers hs.nextCaller hs.answers)⟩
  | ended _ i ih => exact hstay ih (stays_endWorker _ i)
  | left _ i ih => exact hstay ih (stays_unsubscribe _ i)
  | dropped _ i inside _ ih => exact hstay ih (stays_dropSub _ i inside)
  | finished _ id a hid ih =>
    have hfront := hid.resolve_right (hq id)
    exact ⟨ih.1.finish (Nat.lt_of_lt_of_le (hf id hfront) ih.2.grown) a,
      ih.2.trans (sits_finish _ hfront a)⟩
  | @turned _ y _ id hid a ih =>
    refine ⟨ih.1.setActivity id a, ih.2.trans ⟨Nat.le_refl _, fun n _ hn => ?_, fun _ _ _ => rfl⟩⟩
    exact callerOf?_setActivity_of_ne (fun e => hn (hid.trans (by rw [e]))) y a
  | called _ a ih =>
    obtain ⟨hs, hn⟩ := ih.1.callBehind a
    refine ⟨hs, ih.2.trans ⟨hn ▸ Nat.le_succ _, fun n hlt _ => ?_, fun n _ _ => ?_⟩⟩
    · exact callerOf?_callBehind_of_ne (Nat.ne_of_lt hlt) a
    · exact congrArg (List.lookup n) (answers_callBehind _ a)
  | adjusted _ _ ih => exact hstay ih (stays_transport _ _)
  | sent _ _ _ _ ih => exact hstay ih (stays_send _ _)
  | carried _ _ r ih => exact hstay ih (stays_carry _ _ r)
  | released _ inbox ih => exact hstay ih (stays_release _ inbox)
  | served _ _ _ _ ih => exact hstay ih (stays_transport _ _)
  | accepted _ _ _ _ ih => exact hstay ih (stays_transport _ _)

end DemandFlow.Exchange
