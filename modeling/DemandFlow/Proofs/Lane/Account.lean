import DemandFlow.Proofs.Lane.Calls

/-
  Every move of an exchange keeps the account of its lanes: after any run from a start, each lane
  has made a run of its own, and what it did is what became known of it.
-/

namespace DemandFlow.Exchange

variable {calm : Bool} {x₀ x y : Exchange} {past : List (Nat × Deed)}

namespace Since

/-! ## Openings -/

theorem openManual (h : Since calm x₀ past x) : Since calm x₀ past x.openManual.1 := by
  refine h.openSub fun c hc => ?_
  cases hc

/-- A subscription is opened with a first request that it wants. -/
theorem openWith (h : Since calm x₀ past x) {p : Purpose} (hp : Purpose.MayStart calm p)
    {r : PullRequest} (hr : calm = true → r.Fits)
    (hw : ∀ inbox feed now capacity, (Subscription.start inbox feed now capacity p).Wants r) :
    Since calm x₀ (past ++ x.opening p r) (x.openWith p r).1 := by
  have hy := h.openSub hp
  unfold Exchange.openWith opening
  rcases openSub_cases h.toTame p with ⟨hok, ho⟩ | ⟨⟨e, he⟩, _, _, _⟩
  · obtain ⟨now, capacity, room, hsubs, _⟩ := ho.added
    have hsub : (x.openSub p).1.subs[x.subs.size]? = some (.start
        (x.transport.inboxName (x.subs.size + 1)) x.subs.size now capacity p) := by
      rw [hsubs, Array.getElem?_push, if_pos rfl]
    generalize x.openSub p = opened at hy hok hsub ⊢
    obtain ⟨y, res⟩ := opened
    dsimp only at hok hy hsub
    subst hok
    have hpull := hy.pull hsub rfl (hw _ _ _ _) hr
    dsimp only
    split
    · rename_i hz
      rw [hz] at hpull
      exact hpull.dropSub _ _
    · rename_i hz
      rw [hz] at hpull
      exact hpull
  · generalize x.openSub p = opened at hy he ⊢
    obtain ⟨y, res⟩ := opened
    dsimp only at he
    subst he
    dsimp only
    rw [List.append_nil]
    exact hy

theorem openFetch (h : Since calm x₀ past x) (s : FetchOptions.Settings)
    (hs : calm = true → ∀ o, s.build = .ok o → o.request.Fits) :
    Since calm x₀ (past ++ x.deeds (.fetch s)) (x.openFetch s).1 := by
  unfold Exchange.openFetch deeds
  dsimp only
  cases hb : s.build with
  | error e =>
    dsimp only
    rw [List.append_nil]
    exact h
  | ok o =>
    refine h.openWith (fun c hc => ?_) (fun hcalm => hs hcalm o hb) fun _ _ _ _ => trivial
    cases hc

theorem openContinuous (h : Since calm x₀ past x) (o : ConsumeOptions) (hd : Handler)
    (ho : calm = true → o.Fits) :
    Since calm x₀ (past ++ x.deeds (.consume o hd)) (x.openContinuous o hd).1 := by
  have hw := h.openWith (p := .continuous (.start o hd)) (r := o.initial)
    (fun c hc => ⟨o, hd, (Purpose.continuous.inj hc).symm, ho⟩)
    (fun hc => (RefillPlan.issues_initial (ho hc)).fits) fun _ _ _ _ => rfl
  unfold Exchange.openContinuous
  split
  · rename_i hy
    rw [hy] at hw
    exact hw
  · rename_i hy
    rw [hy] at hw
    exact hw.note _

/-! ## Calls -/

theorem pullBy (h : Since calm x₀ past x) (i : Nat) (w : Wish)
    (hw : calm = true → ∀ r, w.request = .ok r → r.Fits) :
    Since calm x₀ (past ++ x.deeds (.pull i w)) (x.pullBy i w) := by
  unfold Exchange.pullBy deeds
  dsimp only
  cases hs : x.subs[i]? with
  | none =>
    dsimp only
    rw [List.append_nil]
    exact h
  | some s =>
    obtain ⟨inbox, feed, tracker, closed, claimed, orphaned, watching, alarms, worker, queue,
      capacity, readers, purpose⟩ := s
    cases purpose with
    | fetch _ _ | continuous _ =>
      dsimp only
      split
      · rename_i hq _
        cases hq
      · rw [List.append_nil]
        exact h
    | manual =>
      unfold pullFor
      cases hr : w.request with
      | error e =>
        dsimp only
        split
        · rename_i hq
          cases hq
        · rw [List.append_nil]
          exact h
      | ok r =>
        dsimp only
        cases closed with
        | false => exact h.pull hs rfl trivial fun hcalm => hw hcalm r hr
        | true =>
          have hkept : (x.pull i r).1 = x := by
            unfold Exchange.pull
            rw [hs]
            rfl
          dsimp only
          rw [hkept, List.append_nil]
          exact h

/-- A call stands in line. -/
theorem callBehind (h : Since calm x₀ past x) {a : Activity} (ha : MayWait x a) :
    Since calm x₀ past (x.callBehind a).1 := by
  have hadd : Since calm x₀ past { x with
      callers := x.callers ++ [Caller.mk x.nextCaller a], nextCaller := x.nextCaller + 1 } := by
    refine h.callers rfl rfl fun c hc k hk => ?_
    rcases List.mem_append.1 hc with hc | hc
    · exact Or.inr ⟨c, hc, rfl⟩
    · rw [List.mem_singleton.1 hc] at hk
      exact Or.inl (ha k hk)
  unfold Exchange.callBehind enroll
  refine Since.wake ?_ _
  dsimp only
  split
  · exact hadd
  · exact hadd.joinLine _ _

/-- A drain begins, or is over at once. -/
theorem drainBehind (h : Since calm x₀ past x) (i : Nat) (grace : Span) :
    Since calm x₀ (past ++ x.deeds (.drain i grace)) (x.drainBehind i grace) := by
  unfold Exchange.drainBehind deeds beginDrain
  dsimp only
  cases hs : x.subs[i]? with
  | none =>
    dsimp only
    rw [List.append_nil]
    exact h
  | some s =>
    obtain ⟨hlt, _⟩ := Array.getElem?_eq_some_iff.1 hs
    have hno : Since calm x₀ (past ++ [(i, .drained false)]) x :=
      h.mark (isSilent_drained false) hlt fun L _ => .drained L false fun hb => by cases hb
    dsimp only
    cases hp : s.purpose with
    | manual | fetch _ _ => exact hno
    | continuous c =>
      dsimp only
      cases hd : c.drain? with
      | none =>
        refine h.mark (isSilent_drained _) hlt fun L hL => .drained L _ fun hb => ?_
        cases hs.symm.trans (lane_eq_some.1 hL).1
        exact ⟨hb, Or.inr ⟨c, hp, Continuous.drain?_eq_none_iff.1 hd⟩⟩
      | some d =>
        dsimp only
        rw [List.append_nil]
        refine Since.callBehind (.note ?_ _) (mayWait_of_ne fun k hk => by cases hk)
        refine h.modifySub fun L hL => ?_
        cases hs.symm.trans (lane_eq_some.1 hL).1
        exact .drain L c d hp hd

/-! ## Frames from elsewhere -/

theorem feedFrame (h : Since calm x₀ past x) (i : Nat) (f : Frame) (hloose : calm = false) :
    Since calm x₀ (past ++ x.deeds (.feed i f)) (x.feedFrame i f) := by
  unfold Exchange.feedFrame deeds
  dsimp only
  cases hf : x.feeds[i]? with
  | none =>
    dsimp only
    rw [List.append_nil]
    exact h
  | some feed =>
    obtain ⟨s, hs, _⟩ := h.sub_of_feed hf
    obtain ⟨hlt, _⟩ := Array.getElem?_eq_some_iff.1 hs
    dsimp only
    split
    · rename_i hopen
      have hread : feed.reading = true := (Bool.and_eq_true_iff.1 hopen).1
      refine Since.wakeAll ?_ _
      refine h.modifyFeed [.injected f] (fun L hL => ?_) ?_ fun _ => hlt
      · cases hf.symm.trans (lane_eq_some.1 hL).2.1
        exact .inject L f hloose hread
      · intro d hd
        rw [List.mem_singleton.1 hd]
        exact isSilent_injected f
    · rw [List.append_nil]
      exact h

/-! ## The clock -/

theorem ring (h : Since calm x₀ past x) (now : Nat) : Since calm x₀ past (x.ring now) := by
  unfold Exchange.ring
  refine Since.wakeAll ?_ _
  exact h.act_quiet
    { subsSize := rfl
      feedsSize := rfl
      names := rfl
      tame := h.transport
      run := fun i L hL => ⟨L, hL, .nil L⟩
      born := fun p hp => by cases hp
      callers := fun c hc _ _ => Or.inr ⟨c, hc, rfl⟩
      keeps := rfl
      notices := notices_of_heard rfl
      handled := (List.append_nil _).symm }

theorem fire (h : Since calm x₀ past x) : Since calm x₀ past (x.fire 0) := by
  unfold Exchange.fire
  dsimp only
  split
  · rename_i l hl
    split
    · exact h.fireTimers hl x.now
    · exact h
  · exact h

/-! ## Moves -/

theorem next (h : Since calm x₀ past x) (m : Move) (hm : calm = true → m.Calm) :
    Since calm x₀ (past ++ x.deeds m) (x.next m) := by
  cases m with
  | fetch s => exact h.openFetch s hm
  | consume o hd => exact h.openContinuous o hd hm
  | pull i w => exact h.pullBy i w hm
  | drain i grace => exact h.drainBehind i grace
  | feed i f => exact h.feedFrame i f (Bool.eq_false_iff.2 fun hc => hm hc)
  | turn t => exact h.turn t
  | manual => exact (List.append_nil past).symm ▸ h.openManual
  | read | readAll | collect =>
    refine (List.append_nil past).symm ▸ h.callBehind (mayWait_of_ne fun k hk => ?_)
    cases hk
  | stop i =>
    refine (List.append_nil past).symm ▸ (h.stop i).callBehind (mayWait_of_ne fun k hk => ?_)
    cases hk
  | unsubscribe i =>
    refine (List.append_nil past).symm ▸
      (h.unsubscribe i).callBehind (mayWait_of_ne fun k hk => ?_)
    cases hk
  | discard i inside => exact (List.append_nil past).symm ▸ h.discard i inside
  | dropOrphans => exact (List.append_nil past).symm ▸ h.dropOrphans
  | publish m => exact (List.append_nil past).symm ▸ h.publish m
  | letGo => exact (List.append_nil past).symm ▸ h.letGo
  | slip inbox f =>
    exact (List.append_nil past).symm ▸ h.send (fun hc => (hm hc).elim) fun _ => rfl
  | closeFeed inbox => exact (List.append_nil past).symm ▸ h.closeFeed inbox
  | fail subscribe publish => exact (List.append_nil past).symm ▸ h.fail subscribe publish
  | clock now => exact (List.append_nil past).symm ▸ h.ring now
  | timers => exact (List.append_nil past).symm ▸ h.fire

theorem after (h : Since calm x₀ past x) (ms : List Move) (hms : calm = true → ∀ m ∈ ms, m.Calm) :
    Since calm x₀ (past ++ x.record ms) (x.after ms) := by
  induction ms generalizing x past with
  | nil =>
    refine (List.append_nil past).symm ▸ ?_
    exact h
  | cons m ms ih =>
    have hnext := h.next m fun hc => hms hc m List.mem_cons_self
    have hrest := ih hnext fun hc n hn => hms hc n (List.mem_cons_of_mem m hn)
    rw [List.append_assoc] at hrest
    exact hrest

end Since

/-- A lane that was there goes on. -/
theorem Since.run_of_lane (h : Since calm x₀ past x) {i : Nat} {L : Lane}
    (hL : x₀.lane i = some L) :
    ∃ L', x.lane i = some L' ∧ Lane.Run calm L (deedsOf i past) L' := by
  obtain ⟨hlt, _⟩ := Array.getElem?_eq_some_iff.1 (lane_eq_some.1 hL).1
  have hi : i < x.subs.size := Nat.lt_of_lt_of_le hlt h.grown
  obtain ⟨f, _, hL'⟩ := h.lane_of_sub (Array.getElem?_eq_getElem hi)
  obtain ⟨L₀, hL₀ | ⟨hle, _⟩, hrun⟩ := h.lanes i _ hL'
  · cases hL.symm.trans hL₀
    exact ⟨_, hL', hrun⟩
  · omega

/-! ## Starts -/

/-- A broker, alive or gone already, or a script, that nobody has used yet. -/
inductive IsNew : Transport → Prop where
  | loopback (l : Broker.Limits) (alive : Bool) : IsNew (.loopback (.start l alive))
  | scripted : IsNew (.scripted .start)

theorem tame_start {t : Transport} (h : IsNew t) (keeps : Bool) (capacity : Nat) :
    Tame calm (.start t keeps capacity) where
  sizes := rfl
  subs := fun i s hs => by cases hs
  feeds := fun i f hf => by cases hf
  transport := by
    cases h with
    | loopback l alive =>
      exact ⟨fun _ => rfl, fun _ =>
        { sound := Broker.State.sound_start l
          plain := fun c hc => by cases hc
          fresh := fun _ _ => rfl }⟩
    | scripted => exact rfl
  sized := fun _ i s hs => by cases hs
  leaving := fun c hc => by cases hc

/-- The account of a run from a start. -/
theorem since_start (calm : Bool) {t : Transport} (h : IsNew t) (keeps : Bool) (capacity : Nat)
    (ms : List Move) (hms : calm = true → ∀ m ∈ ms, m.Calm) :
    Since calm (.start t keeps capacity) ((start t keeps capacity).record ms)
      ((start t keeps capacity).after ms) :=
  (Since.refl (tame_start h keeps capacity)).after ms hms

/-- Since a start, each lane has made a run from where it was opened. -/
theorem Since.fresh_run {t : Transport} {keeps : Bool} {capacity i : Nat} {L : Lane}
    (h : Since calm (.start t keeps capacity) past x) (hL : x.lane i = some L) :
    ∃ L₀ : Lane, L₀.IsFresh calm ∧ Lane.Run calm L₀ (deedsOf i past) L := by
  obtain ⟨L₀, hL₀, hrun⟩ := h.lanes i L hL
  rcases hL₀ with hL₀ | ⟨_, hfresh⟩
  · cases (lane_eq_some.1 hL₀).1
  · exact ⟨L₀, hfresh, hrun⟩

end DemandFlow.Exchange
