import DemandFlow.Proofs.Exchange.Reached
import DemandFlow.Proofs.Lane.Work

/-
  Callers, as acts of lanes: they take deliveries out of queues, end fetches, close consumers and
  say when a drain is over. A caller that is to answer that a drain succeeded waits for a
  subscription that is settled, and settled subscriptions stay settled.
-/

namespace DemandFlow.Exchange

variable {calm : Bool} {x₀ x y : Exchange} {past : List (Nat × Deed)}

/-! ## Readers -/

namespace Since

theorem leaveLine (h : Since calm x₀ past x) (id i : Nat) :
    Since calm x₀ past (x.leaveLine id i) := by
  unfold Exchange.leaveLine
  split
  · exact h
  · refine Since.wakeAll ?_ _
    exact h.modifySub fun L _ => .line L _ L.sub.orphaned

theorem joinLine (h : Since calm x₀ past x) (id i : Nat) :
    Since calm x₀ past (x.joinLine id i) :=
  h.modifySub fun L _ => .line L _ L.sub.orphaned

theorem waitUntil (h : Since calm x₀ past x) (id : Nat) (due : Option Nat) :
    Since calm x₀ past (x.waitUntil id due) := by
  unfold Exchange.waitUntil
  split
  · exact h
  · exact h.keepTimer _ _

/-- A read that comes to an end without a delivery. -/
theorem miss (h : Since calm x₀ past x) {i : Nat} (hi : i < x.subs.size) :
    Since calm x₀ (past ++ [(i, .read none)]) x :=
  h.mark (isSilent_read none) hi fun L _ => .miss L

/-- A look at the queue of a subscription. -/
theorem look (h : Since calm x₀ past x) {i : Nat} {s : Subscription} (hs : x.subs[i]? = some s)
    (id : Nat) (due : Option Nat) :
    Since calm x₀ (past ++ (x.look id i s due).2.deeds.map (i, ·)) (x.look id i s due).1 := by
  obtain ⟨hlt, _⟩ := Array.getElem?_eq_some_iff.1 hs
  rcases look_cases x id i s due with ⟨d, rest, hp, he⟩ | ⟨l, hl, he⟩ | he
  · rw [he]
    refine Since.leaveLine (.wake ?_ _) id i
    refine h.modifySub_of (g := fun s => { s with queue := rest }) [.read (some d)] rfl rfl
      (fun L hL => .single ?_) ?_ fun _ => hlt
    · obtain ⟨hsub, _, _⟩ := lane_eq_some.1 hL
      cases hs.symm.trans hsub
      exact .read L d rest hp
    · intro e he
      rw [List.mem_singleton.1 he]
      exact isSilent_read _
  · rw [he]
    rcases hl with rfl | rfl
    · exact (h.miss hlt).leaveLine id i
    · exact (h.miss hlt).leaveLine id i
  · rw [he]
    exact (List.append_nil past).symm ▸ h

/-- A caller that waits for something else than the end of a drain. -/
theorem mayWait_of_ne {a : Activity} (h : ∀ k, a ≠ .leave k (.flag true)) : MayWait x a :=
  fun k hk => absurd hk (h k)

theorem readStepOf (h : Since calm x₀ past x) {i : Nat} {s : Subscription}
    (hs : x.subs[i]? = some s) (id : Nat) (due : Option Nat) :
    Since calm x₀ (past ++ (x.look id i s due).2.deeds.map (i, ·)) (x.readStepOf id i due).1 := by
  have hl := h.look hs id due
  unfold Exchange.readStepOf
  rw [hs]
  dsimp only
  split
  · exact hl.finish _ _
  · exact hl.waitUntil _ _

theorem readAllStep (h : Since calm x₀ past x) {i : Nat} {s : Subscription}
    (hs : x.subs[i]? = some s) (id : Nat) (timeout : Span) (due : Option Nat)
    (got : List Message) :
    Since calm x₀ (past ++ (x.look id i s due).2.deeds.map (i, ·))
      (x.readAllStep id i timeout due got).1 := by
  have hl := h.look hs id due
  unfold Exchange.readAllStep
  rw [hs]
  dsimp only
  split
  · refine Since.joinLine (hl.setActivity _ (mayWait_of_ne ?_)) id i
    intro k hk
    cases hk
  · exact hl.finish _ _
  · exact hl.waitUntil _ _

/-! ## Fetches -/

theorem endFetch (h : Since calm x₀ past x) {i : Nat} {f : Fetch} {due : Nat}
    (hp : ∀ s, x.subs[i]? = some s → s.purpose = .fetch f due) (id : Nat) (reason : String)
    {answer : Answer} (ha : answer ≠ .flag true) :
    Since calm x₀ past (x.endFetch id i f due reason answer) := by
  unfold Exchange.endFetch
  refine Since.setActivity (.unsubscribe (.note ?_ _) i) id (mayWait_of_ne ?_)
  · exact h.modifySub fun L hL => .fetch L f f.finish due due (hp L.sub (lane_eq_some.1 hL).1)
  · intro k hk
    cases hk
    exact ha rfl

theorem gotMessage (h : Since calm x₀ past x) (id i : Nat) (mode : FetchMode) (m : Message) :
    Since calm x₀ past (x.gotMessage id i mode m).1 := by
  unfold Exchange.gotMessage
  split
  · exact h.finish _ _
  · refine Since.joinLine (h.setActivity _ (mayWait_of_ne ?_)) id i
    intro k hk
    cases hk
  · refine Since.joinLine (h.setActivity _ (mayWait_of_ne ?_)) id i
    intro k hk
    cases hk

end Since

/-- No fetch answers with a flag. -/
theorem last_ne_flag (mode : FetchMode) (r : Reading) (b : Bool) : mode.last r ≠ .flag b := by
  cases mode <;> cases r <;> simp [FetchMode.last]

/-- A change of the readers in line leaves the rest of a subscription. -/
theorem sub_leaveLine {id i j : Nat} {u : Subscription} (h : (x.leaveLine id i).subs[j]? = some u) :
    ∃ s : Subscription, x.subs[j]? = some s ∧ u.purpose = s.purpose := by
  unfold leaveLine at h
  split at h
  · exact ⟨u, h, rfl⟩
  · rw [subs_wakeAll] at h
    unfold modifySub at h
    dsimp only at h
    rcases getElem?_modify_eq_some h with ⟨s, _, hs, rfl⟩ | ⟨_, hs⟩
    · exact ⟨s, hs, rfl⟩
    · exact ⟨u, hs, rfl⟩

/-- A look leaves the purpose of the subscription. -/
theorem purpose_look {id i : Nat} {s u : Subscription} {due : Option Nat}
    (hs : x.subs[i]? = some s) (h : (x.look id i s due).1.subs[i]? = some u) :
    u.purpose = s.purpose := by
  rcases look_cases x id i s due with ⟨d, rest, _, he⟩ | ⟨l, _, he⟩ | he
  · rw [he] at h
    obtain ⟨w, hw, he⟩ := sub_leaveLine h
    rw [subs_wake] at hw
    unfold modifySub at hw
    dsimp only at hw
    rw [Array.getElem?_modify, if_pos rfl, hs] at hw
    cases hw
    exact he
  · rw [he] at h
    obtain ⟨w, hw, he⟩ := sub_leaveLine h
    cases hs.symm.trans hw
    exact he
  · rw [he] at h
    cases hs.symm.trans h
    rfl

/-- What becomes known when a fetch reads. -/
theorem Since.fetchStep (h : Since calm x₀ past x) {i : Nat} {s : Subscription}
    (hs : x.subs[i]? = some s) {f : Fetch} {due : Nat} (hp : s.purpose = .fetch f due) (id : Nat)
    (mode : FetchMode) :
    Since calm x₀ (past ++ (if f.finished || f.isFull then [] else
      (x.look id i s (some due)).2.deeds.map (i, ·))) (x.fetchStep id i mode).1 := by
  have hpurpose : ∀ u, x.subs[i]? = some u → u.purpose = .fetch f due := by
    intro u hu
    cases hs.symm.trans hu
    exact hp
  have hl := h.look hs id (some due)
  have hlook : ∀ u, (x.look id i s (some due)).1.subs[i]? = some u → u.purpose = .fetch f due :=
    fun u hu => (purpose_look hs hu).trans hp
  unfold Exchange.fetchStep
  rw [hs]
  dsimp only
  rw [hp]
  dsimp only
  cases hfin : f.finished with
  | true =>
    rw [if_pos rfl, if_pos (by simp), List.append_nil]
    exact (h.leaveLine id i).finish _ _
  | false =>
    rw [if_neg Bool.false_ne_true]
    cases hfull : f.isFull with
    | true =>
      rw [if_pos rfl, if_pos (by simp), List.append_nil]
      refine (h.leaveLine id i).endFetch (fun u hu => ?_) id _ (last_ne_flag _ _ _)
      obtain ⟨v, hv, he⟩ := sub_leaveLine hu
      exact he.trans (hpurpose v hv)
    | false =>
      rw [if_neg Bool.false_ne_true, if_neg (by simp)]
      generalize x.look id i s (some due) = looked at hl hlook ⊢
      obtain ⟨y, l⟩ := looked
      cases l with
      | waiting => exact hl.waitUntil id (some due)
      | late => exact hl.endFetch hlook id _ (last_ne_flag _ _ _)
      | taken d =>
        dsimp only
        split
        · rename_i m
          refine Since.gotMessage ?_ id i mode m
          exact hl.modifySub fun L hL =>
            .fetch L f (f.receive m) due due (hlook L.sub (lane_eq_some.1 hL).1)
        · exact hl.endFetch hlook id _ (last_ne_flag _ _ _)
        · exact hl

/-! ## Drains -/

/-- What a subscription is once its consumer was closed and its owner has left. -/
theorem sub_stop {i : Nat} {s : Subscription} (hs : x.subs[i]? = some s) :
    ((x.closeContinuous i).unsubscribe i).subs[i]? = some s.stopped.left := by
  have hclose : (x.closeContinuous i).subs[i]? = some s.stopped := by
    unfold closeContinuous modifySub
    dsimp only
    rw [Array.getElem?_modify, if_pos rfl, hs]
    rfl
  obtain ⟨y, hy, _, hcase⟩ := unsubscribe_cases (x.closeContinuous i) i
  have hsub : y.subs[i]? = some s.stopped.left := by
    rw [show y.subs = leaves i (x.closeContinuous i).subs from congrArg Core.subs hy, leaves,
      Array.getElem?_modify, if_pos rfl, hclose]
    rfl
  rcases hcase with he | ⟨inbox, e, he⟩
  · rw [he]
    exact hsub
  · rw [he, subs_note, subs_release]
    exact hsub

namespace Since

theorem stopWith (h : Since calm x₀ past x) {i : Nat} {s : Subscription}
    (hs : x.subs[i]? = some s) (id : Nat) {answer : Answer}
    (ha : answer = .flag true → s.tracker.isExhausted = true) :
    Since calm x₀ past (x.stopWith id i answer) := by
  refine (h.stop i).setActivity id ?_
  intro k hk
  cases hk
  refine ⟨_, sub_stop hs, ?_, Or.inl rfl⟩
  show s.stopped.tracker.demand.isExhausted = true
  rw [Subscription.tracker_stopped]
  exact ha rfl

theorem drainStep (h : Since calm x₀ past x) (id i due : Nat) :
    Since calm x₀ past (x.drainStep id i due).1 := by
  unfold Exchange.drainStep
  split
  · exact h.finish _ _
  · rename_i s hs
    split
    · rename_i he
      exact h.stopWith hs id fun _ => he
    · split
      · refine (h.note _).stopWith hs id fun hf => ?_
        cases hf
      · exact h.keepTimer _ _

/-- A call that waits for the tasks of a subscription to end. -/
theorem leaveStep (h : Since calm x₀ past x) (id i : Nat) (answer : Answer) :
    Since calm x₀ past (x.leaveStep id i answer).1 := by
  unfold Exchange.leaveStep
  split
  · exact h.finish _ _
  · split
    · exact h.finish _ _
    · exact h

/-- A call that waits to say how a drain went. -/
theorem leaveStep_flag (h : Since calm x₀ past x) {i : Nat} {s : Subscription}
    (hs : x.subs[i]? = some s) (id : Nat) {b : Bool}
    (hc : b = true → ∃ c ∈ x.callers, c.activity = .leave i (.flag true)) :
    Since calm x₀ (past ++ if s.isOver then [(i, .drained b)] else [])
      (x.leaveStep id i (.flag b)).1 := by
  obtain ⟨hlt, _⟩ := Array.getElem?_eq_some_iff.1 hs
  unfold Exchange.leaveStep
  rw [hs]
  dsimp only
  split
  · refine Since.finish (h.mark (isSilent_drained b) hlt fun L hL => ?_) _ _
    refine .drained L b fun hb => ?_
    obtain ⟨c, hcx, hact⟩ := hc hb
    obtain ⟨u, hu, hsettled⟩ := h.leaving c hcx i hact
    rw [Option.some.inj ((lane_eq_some.1 hL).1.symm.trans hu)]
    exact hsettled
  · rw [List.append_nil]
    exact h

theorem watchStep (h : Since calm x₀ past x) (id : Nat) (i : Option Nat) (handled due : Nat) :
    Since calm x₀ past (x.watchStep id i handled due).1 := by
  unfold Exchange.watchStep
  split
  · exact h.finish _ _
  · split
    · exact h.finish _ _
    · exact h.keepTimer _ _

/-! ## Turns of callers -/

theorem callerStep (h : Since calm x₀ past x) (id : Nat) :
    Since calm x₀ (past ++ x.callerDeeds id) (x.callerStep id).1 := by
  unfold Exchange.callerStep callerDeeds
  cases hc : x.callers.find? fun c => c.id = id with
  | none =>
    dsimp only [Option.map_none]
    rw [List.append_nil]
    exact h
  | some c =>
    have hmem : c ∈ x.callers := List.mem_of_find?_eq_some hc
    dsimp only [Option.map_some]
    cases ha : c.activity with
    | sleep due =>
      dsimp only
      rw [List.append_nil]
      split
      · exact h.finish _ _
      · exact h.keepTimer _ _
    | read i due =>
      dsimp only
      cases hs : x.subs[i]? with
      | none =>
        dsimp only
        rw [List.append_nil]
        unfold Exchange.readStepOf
        rw [hs]
        exact h.finish _ _
      | some s => exact h.readStepOf hs id due
    | readAll i timeout due got =>
      dsimp only
      cases hs : x.subs[i]? with
      | none =>
        dsimp only
        rw [List.append_nil]
        unfold Exchange.readAllStep
        rw [hs]
        exact h.finish _ _
      | some s => exact h.readAllStep hs id timeout due got
    | fetch i mode =>
      dsimp only
      cases hs : x.subs[i]? with
      | none =>
        dsimp only
        rw [List.append_nil]
        unfold Exchange.fetchStep
        rw [hs]
        exact h.finish _ _
      | some s =>
        cases hp : s.purpose with
        | fetch f due =>
          have hstep := h.fetchStep hs hp id mode
          cases s
          dsimp only at hp
          subst hp
          exact hstep
        | manual | continuous _ =>
          have hfin : Since calm x₀ past (x.fetchStep id i mode).1 := by
            unfold Exchange.fetchStep
            rw [hs]
            dsimp only
            rw [hp]
            exact h.finish _ _
          cases s
          dsimp only at hp
          subst hp
          dsimp only
          rw [List.append_nil]
          exact hfin
    | drain i due =>
      dsimp only
      rw [List.append_nil]
      exact h.drainStep id i due
    | leave i answer =>
      dsimp only
      cases answer with
      | flag b =>
        dsimp only
        cases hs : x.subs[i]? with
        | none =>
          dsimp only
          rw [List.append_nil]
          exact h.leaveStep id i _
        | some s => exact h.leaveStep_flag hs id fun hb => ⟨c, hmem, by rw [ha, hb]⟩
      | _ =>
        dsimp only
        rw [List.append_nil]
        exact h.leaveStep id i _
    | watch i handled due =>
      dsimp only
      rw [List.append_nil]
      exact h.watchStep id i handled due
    | ask =>
      dsimp only
      rw [List.append_nil]
      exact h

/-- A task makes one step. -/
theorem turn (h : Since calm x₀ past x) (t : Task) :
    Since calm x₀ (past ++ x.turnDeeds t) (x.stepOf t).1 := by
  cases t with
  | broker => exact h.brokerStep
  | worker i => exact h.workerStep i
  | caller id => exact h.callerStep id
  | alarm i =>
    refine (List.append_nil past).symm ▸ ?_
    exact h.alarmStep i
  | farewell i =>
    refine (List.append_nil past).symm ▸ ?_
    exact h.farewell i

end Since

end DemandFlow.Exchange
