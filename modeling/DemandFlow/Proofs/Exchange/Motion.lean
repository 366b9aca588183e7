import DemandFlow.Proofs.Exchange.Turns

/-
  Every move but one of the clock is one of `Works`. The requests that go out by it are among
  those that become known by it, at most one of them.
-/

namespace DemandFlow.Exchange

/-- The task in whose turn a move is made, if it is made in one. -/
def Move.front : Move → Option Task
  | .turn t => some t
  | .timers => some .broker
  | _ => none

theorem Move.front_ne_broker {m : Move} (hb : m ≠ .turn .broker) (ht : m ≠ .timers) :
    m.front ≠ some .broker := by
  intro hf
  cases m with
  | turn t => exact hb (congrArg Move.turn (Option.some.inj hf))
  | timers => exact ht rfl
  | _ => cases hf

variable {front : Option Task} {x₀ x y : Exchange} {ps : List (String × PullRequest)}

/-- What goes out became known of a subscription that is there afterwards. -/
def Carries (y : Exchange) (ds : List (Nat × Deed)) (ps : List (String × PullRequest)) : Prop :=
  ps = [] ∨ ∃ i s r, y.subs[i]? = some s ∧ (i, .pulled r) ∈ ds ∧ ps = [(s.inbox, r)]

/-- Each subscription is there still, under its name. -/
def Retains (ss ss' : Array Subscription) : Prop :=
  ∀ (i : Nat) (s : Subscription), ss[i]? = some s →
    ∃ u : Subscription, ss'[i]? = some u ∧ u.inbox = s.inbox

theorem retains_refl (ss : Array Subscription) : Retains ss ss := fun _ s hs => ⟨s, hs, rfl⟩

theorem retains_of_subs (h : y.subs = x.subs) : Retains x.subs y.subs :=
  h ▸ retains_refl x.subs

theorem retains_modify (ss : Array Subscription) (i : Nat) {g : Subscription → Subscription}
    (hg : ∀ s, (g s).inbox = s.inbox) : Retains ss (ss.modify i g) := by
  intro j s hs
  rw [Array.getElem?_modify, hs]
  split
  · exact ⟨g s, rfl, hg s⟩
  · exact ⟨s, rfl, rfl⟩

theorem Retains.trans {ss ss' ss'' : Array Subscription} (h : Retains ss ss')
    (h' : Retains ss' ss'') : Retains ss ss'' := by
  intro i s hs
  obtain ⟨u, hu, hi⟩ := h i s hs
  obtain ⟨v, hv, hj⟩ := h' i u hu
  exact ⟨v, hv, hj.trans hi⟩

theorem retains_of_core (h : y.core = x.core) : Retains x.subs y.subs :=
  retains_of_subs (congrArg Core.subs h)

theorem retains_left {g : Subscription → Subscription} (i : Nat)
    (h : y.core = { x.core with subs := x.core.subs.modify i g })
    (hg : ∀ s, (g s).inbox = s.inbox) : Retains x.subs y.subs :=
  (show y.subs = x.subs.modify i g from congrArg Core.subs h) ▸ retains_modify x.subs i hg

theorem retains_release (x : Exchange) (inbox : String) : Retains x.subs (x.release inbox).subs :=
  retains_of_subs (subs_release x inbox)

theorem retains_unsubscribe (x : Exchange) (i : Nat) : Retains x.subs (x.unsubscribe i).subs := by
  obtain ⟨y, hy, _, hcase⟩ := unsubscribe_cases x i
  have hr : Retains x.subs y.subs := retains_left i hy fun _ => rfl
  rcases hcase with he | ⟨inbox, e, he⟩
  · exact he ▸ hr
  · exact he ▸ hr.trans (retains_release y inbox)

theorem retains_endWorker (x : Exchange) (i : Nat) : Retains x.subs (x.endWorker i).subs := by
  cases hs : x.subs[i]? with
  | some s =>
    have hsubs : (x.endWorker i).subs = x.subs.modify i Subscription.ended :=
      congrArg Core.subs (core_endWorker_of hs)
    rw [hsubs]
    exact retains_modify x.subs i fun _ => rfl
  | none =>
    have hnone : (x.close i).subs[i]? = none := by
      have hsubs : (x.close i).subs = shutDown i x.subs := congrArg Core.subs (core_close x i)
      rw [hsubs, shutDown, Array.getElem?_modify, if_pos rfl, hs]
      rfl
    unfold endWorker
    dsimp only
    rw [hnone]
    exact retains_left i (core_close x i) fun _ => rfl

theorem retains_push (ss : Array Subscription) (s : Subscription) : Retains ss (ss.push s) := by
  intro i u hu
  obtain ⟨hlt, _⟩ := Array.getElem?_eq_some_iff.1 hu
  exact ⟨u, by rw [Array.getElem?_push, if_neg (by omega), hu], rfl⟩

theorem retains_openSub (x : Exchange) (p : Purpose) : Retains x.subs (x.openSub p).1.subs := by
  refine openSub_keeps (P := fun y => Retains x.subs y.subs)
    (retains_of_subs (subs_subscribe x _)) fun y feed inbox hy => ?_
  rw [subs_note, subs_wake, subs_wake]
  exact hy.trans (retains_push y.subs _)

theorem retains_callBehind (x : Exchange) (a : Activity) :
    Retains x.subs (x.callBehind a).1.subs := by
  rw [show Exchange.subs _ = joined a x.nextCaller x.subs from
    congrArg Core.subs (core_callBehind x a)]
  unfold joined
  split
  · exact retains_refl x.subs
  · exact retains_modify x.subs _ fun _ => rfl

/-- Nothing that happens takes a subscription away or gives it another name. -/
theorem Works.retains (h : Works front x₀ ps x) : Retains x₀.subs x.subs := by
  induction h with
  | refl => exact retains_of_subs rfl
  | opened p => exact retains_openSub x₀ p
  | aside _ hy ih => exact ih.trans (retains_of_subs hy.subs)
  | woken _ t ih => exact ih.trans (retains_of_core (core_wake _ t))
  | roused _ t _ ih => exact ih
  | rested _ t due _ ih => exact ih
  | waited _ due _ _ ih => exact ih.trans (retains_of_core (core_keepTimer _ _ due))
  | eased _ i g hg _ ih => exact ih.trans (retains_modify _ i fun s => (hg s).inbox)
  | retracked _ _ _ ih =>
    rw [subs_retracked]
    exact ih.trans (retains_modify _ _ fun _ => rfl)
  | added _ _ r ih =>
    exact ih.trans (retains_left _ (core_setTracker _ _ _) fun s => by rfl)
  | closed _ i ih => exact ih.trans (retains_left i (core_close _ i) fun s => by rfl)
  | unwatched _ i ih =>
    refine ih.trans (retains_left i (g := fun s => { s with watching := false }) ?_ fun _ => rfl)
    unfold endAlarm
    rw [core_wakeLeavers]
    rfl
  | ended _ i ih => exact ih.trans (retains_endWorker _ i)
  | left _ i ih => exact ih.trans (retains_unsubscribe _ i)
  | dropped _ i inside _ ih =>
    exact ih.trans (retains_left i (dropSub_cases _ i inside).1 fun s => by rfl)
  | finished _ id a _ ih => exact ih
  | turned _ _ a ih => exact ih
  | @called _ z _ a ih => exact ih.trans (retains_callBehind z a)
  | adjusted _ _ ih => exact ih
  | sent _ _ _ _ ih => exact ih.trans (retains_of_subs (subs_of_affairs (skips_affairs.send _ _)))
  | carried _ _ r ih => exact ih.trans (retains_of_subs (subs_carry _ _ r))
  | released _ inbox ih => exact ih.trans (retains_release _ inbox)
  | served _ _ _ _ ih => exact ih
  | accepted _ _ _ _ ih => exact ih

namespace Works

theorem discard (h : Works front x₀ ps x) (i : Nat) (inside : Bool) :
    Works front x₀ ps (x.discard i inside) := by
  unfold Exchange.discard
  cases hu : x.isUsed i with
  | true => exact h.tend i (fun _ => ⟨rfl, rfl, rfl, rfl, rfl, rfl, fun hw => hw⟩) fun _ => rfl
  | false => exact h.dropped i inside (Or.inl hu)

theorem dropOrphans (h : Works front x₀ ps x) : Works front x₀ ps x.dropOrphans := by
  unfold Exchange.dropOrphans
  refine List.foldlRecOn _ _ h fun y hy i _ => ?_
  split
  · split
    · rename_i hu
      refine hy.dropped i true (Or.inl ?_)
      simpa using (Bool.and_eq_true_iff.1 hu).2
    · exact hy
  · exact hy

theorem letGo (h : Works front x₀ ps x) : Works front x₀ ps x.letGo := by
  unfold Exchange.letGo modifyLoopback
  refine .woken ?_ _
  split
  · rename_i l hl
    refine h.adjusted ?_
    rw [hl]
    exact ⟨rfl, rfl, rfl⟩
  · exact h

theorem fail (h : Works front x₀ ps x) (subscribe publish : Option TransportError) :
    Works front x₀ ps (x.fail subscribe publish) := by
  unfold Exchange.fail
  split
  · exact h
  · rename_i s hs
    refine h.adjusted ?_
    rw [hs]
    exact ⟨rfl, rfl⟩

theorem feedFrame (h : Works front x₀ ps x) (i : Nat) (f : Frame) :
    Works front x₀ ps (x.feedFrame i f) := by
  unfold Exchange.feedFrame
  split
  · exact h
  · split
    · exact (h.aside (beside_modifyFeed _ _ _)).wakeAll _
    · exact h

theorem drainBehind (h : Works front x₀ ps x) (i : Nat) (grace : Span) :
    Works front x₀ ps (x.drainBehind i grace) := by
  unfold Exchange.drainBehind beginDrain
  cases hs : x.subs[i]? with
  | none => exact h
  | some s =>
    dsimp only
    cases hp : s.purpose with
    | manual | fetch _ _ => exact h
    | continuous c =>
      dsimp only
      cases hd : c.drain? with
      | none => exact h
      | some d =>
        refine called (.note ?_ _) _
        exact h.tend i (fun _ => ⟨rfl, rfl, rfl, rfl, rfl, rfl, fun hw => hw⟩) fun _ => rfl

theorem fire (x : Exchange) : Works (some .broker) x [] (x.fire 0) := by
  have h : Works (some .broker) x [] x := .refl
  unfold Exchange.fire
  dsimp only
  split
  · rename_i l hl
    split
    · exact h.served rfl hl (serves_broker rfl fun _ hk => hk)
    · exact h
  · exact h

/-- A subscription is opened with a first request. -/
theorem openWith (x : Exchange) (p : Purpose) (r : PullRequest) :
    ∃ ps, Carries (x.openWith p r).1 (x.opening p r) ps ∧ Works none x ps (x.openWith p r).1 := by
  have ho : Works none x [] (x.openSub p).1 := .opened p
  unfold Exchange.openWith opening
  have hnew : ∀ i, (x.openSub p).2 = .ok i → i = x.subs.size := fun _ => eq_size_of_openSub
  generalize x.openSub p = opened at ho hnew ⊢
  obtain ⟨y, res⟩ := opened
  cases res with
  | error e => exact ⟨[], Or.inl rfl, ho⟩
  | ok i =>
    dsimp only
    obtain ⟨qs, hq, hy⟩ := ho.pull i r
    rw [List.nil_append] at hy
    have hgoes : ∀ z : Exchange, Retains y.subs z.subs → Carries z [(i, .pulled r)] qs := by
      intro z hz
      refine hq.imp_right ?_
      rintro ⟨s, hs, _, rfl⟩
      obtain ⟨u, hu, hi⟩ := hz i s hs
      exact ⟨i, u, r, hu, List.mem_cons_self, by rw [hi]⟩
    have hret : Retains y.subs (y.pull i r).1.subs := by
      obtain ⟨_, _, hw⟩ := Works.pull (.refl : Works none y [] y) i r
      exact hw.retains
    split
    · rename_i z e hz
      rw [hz] at hy hret
      refine ⟨qs, hgoes _ (hret.trans ?_), hy.dropped i true (Or.inr (Nat.le_of_eq ?_))⟩
      · exact retains_left i (dropSub_cases _ i true).1 fun _ => rfl
      · exact (hnew i rfl).symm
    · rename_i z hz
      rw [hz] at hy hret
      exact ⟨qs, hgoes _ hret, hy⟩

theorem openFetch (x : Exchange) (s : FetchOptions.Settings) :
    ∃ ps, Carries (x.openFetch s).1 (x.deeds (.fetch s)) ps ∧
      Works none x ps (x.openFetch s).1 := by
  unfold Exchange.openFetch deeds
  dsimp only
  cases s.build with
  | error e => exact ⟨[], Or.inl rfl, .refl⟩
  | ok o => exact openWith x _ _

theorem openContinuous (x : Exchange) (o : ConsumeOptions) (hd : Handler) :
    ∃ ps, Carries (x.openContinuous o hd).1 (x.deeds (.consume o hd)) ps ∧
      Works none x ps (x.openContinuous o hd).1 := by
  obtain ⟨ps, hc, hw⟩ := openWith x (.continuous (.start o hd)) o.initial
  refine ⟨ps, ?_⟩
  unfold Exchange.openContinuous
  split
  · rename_i hy
    rw [hy] at hc hw
    exact ⟨hc, hw⟩
  · rename_i hy
    rw [hy] at hc hw
    exact ⟨hc, hw.note _⟩

/-- The owner of a manual consumer asks for messages. -/
theorem pullBy (x : Exchange) (i : Nat) (w : Wish) :
    ∃ ps, Carries (x.pullBy i w) (x.deeds (.pull i w)) ps ∧ Works none x ps (x.pullBy i w) := by
  have h : Works none x [] x := .refl
  unfold Exchange.pullBy deeds
  dsimp only
  cases hs : x.subs[i]? with
  | none => exact ⟨[], Or.inl rfl, h⟩
  | some s =>
    obtain ⟨inbox, feed, tracker, closed, claimed, orphaned, watching, alarms, worker, queue,
      capacity, readers, purpose⟩ := s
    cases purpose with
    | fetch _ _ | continuous _ => exact ⟨[], Or.inl rfl, h⟩
    | manual =>
      unfold pullFor
      cases hr : w.request with
      | error e => exact ⟨[], Or.inl rfl, h⟩
      | ok r =>
        obtain ⟨qs, hq, hy⟩ := h.pull i r
        rw [List.nil_append] at hy
        refine ⟨qs, hq.imp_right ?_, hy⟩
        rintro ⟨s, hu, hc, rfl⟩
        obtain ⟨u, hv, hi⟩ := hy.retains i s hu
        cases hs.symm.trans hu
        dsimp only at hc
        subst hc
        exact ⟨i, u, r, hv, List.mem_cons_self, by rw [hi]⟩

theorem turn (x : Exchange) (t : Task) :
    ∃ ps, Carries (x.stepOf t).1 (x.turnDeeds t) ps ∧ Works (some t) x ps (x.stepOf t).1 := by
  cases t with
  | broker => exact ⟨[], Or.inl rfl, brokerStep x⟩
  | alarm i => exact ⟨[], Or.inl rfl, Works.refl.alarmStep i⟩
  | farewell i => exact ⟨[], Or.inl rfl, Works.refl.farewell i⟩
  | caller id => exact ⟨[], Or.inl rfl, callerStep x id⟩
  | worker i =>
    obtain ⟨qs, hq, hw⟩ := workerStep x i
    refine ⟨qs, hq.imp_right ?_, hw⟩
    rintro ⟨s, r, hs, hr, rfl⟩
    obtain ⟨u, hu, hi⟩ := hw.retains i s hs
    exact ⟨i, u, r, hu, List.mem_map_of_mem hr, by rw [hi]⟩

/-- What one move comes to; only the clock is another matter. -/
theorem next (x : Exchange) (m : Move) (hm : ∀ now, m ≠ .clock now) :
    ∃ ps, Carries (x.next m) (x.deeds m) ps ∧ Works m.front x ps (x.next m) := by
  have h : Works none x [] x := .refl
  cases m with
  | clock now => exact absurd rfl (hm now)
  | manual => exact ⟨[], Or.inl rfl, .opened .manual⟩
  | fetch s => exact openFetch x s
  | consume o hd => exact openContinuous x o hd
  | pull i w => exact pullBy x i w
  | read i timeout => exact ⟨[], Or.inl rfl, h.called _⟩
  | readAll i timeout => exact ⟨[], Or.inl rfl, h.called _⟩
  | collect i mode => exact ⟨[], Or.inl rfl, h.called _⟩
  | drain i grace => exact ⟨[], Or.inl rfl, h.drainBehind i grace⟩
  | stop i => exact ⟨[], Or.inl rfl, ((h.closeContinuous i).left i).called _⟩
  | unsubscribe i => exact ⟨[], Or.inl rfl, (h.left i).called _⟩
  | discard i inside => exact ⟨[], Or.inl rfl, h.discard i inside⟩
  | dropOrphans => exact ⟨[], Or.inl rfl, h.dropOrphans⟩
  | publish m => exact ⟨[], Or.inl rfl, h.publish m⟩
  | letGo => exact ⟨[], Or.inl rfl, h.letGo⟩
  | slip inbox f => exact ⟨[], Or.inl rfl, h.sent (c := .inject inbox f) rfl rfl rfl⟩
  | feed i f => exact ⟨[], Or.inl rfl, h.feedFrame i f⟩
  | closeFeed inbox => exact ⟨[], Or.inl rfl, h.closeFeed inbox⟩
  | fail subscribe publish => exact ⟨[], Or.inl rfl, h.fail subscribe publish⟩
  | timers => exact ⟨[], Or.inl rfl, fire x⟩
  | turn t => exact turn x t

end Works

end DemandFlow.Exchange
