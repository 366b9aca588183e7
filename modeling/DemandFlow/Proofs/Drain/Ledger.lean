import DemandFlow.Proofs.Consume.Budget
import DemandFlow.Proofs.Lane.Run

/-
  The ledger of a continuous consumer without a byte budget, whatever limits its broker has: what
  is owed to it, what its feed carries and what was dropped on the way is covered by its demand;
  and as long as it reads, or nothing is outstanding, the messages that were sent are those that
  the handler was called with and then those in the feed.
-/

namespace DemandFlow

open Broker (carried)

namespace Demand

theorem messages_withdraw (d : Demand) (r : PullRequest) :
    (d.withdraw r).messages = d.messages - r.batch := by
  unfold withdraw
  dsimp only
  rw [messages_closeIf]
  split
  · rename_i h
    exact (eq_of_beq h).symm
  · rfl

theorem isUntracked_withdraw {d : Demand} {r : PullRequest} (h : d.IsUntracked) :
    (d.withdraw r).IsUntracked := by
  unfold withdraw closeIf
  dsimp only
  split
  · exact isUntracked_none
  · refine ⟨?_, ?_⟩
    · show d.bytes - r.maxBytes = 0
      rw [h.1, Nat.zero_sub]
    · show (d.tracking && _) = false
      rw [h.2, Bool.false_and]

theorem messages_of_isExhausted {d : Demand} (h : d.isExhausted = true) : d.messages = 0 := by
  unfold isExhausted at h
  exact eq_of_beq (Bool.and_eq_true_iff.1 h).1

end Demand

/-! ## What deeds say -/

namespace Deed

/-- The frame that a broker sent. -/
def sent? : Deed → Option Frame
  | .sent f => some f
  | _ => none

/-- The frame that a broker dropped. -/
def lost? : Deed → Option Frame
  | .lost f => some f
  | _ => none

/-- The message with which a handler was called. -/
def called? : Deed → Option Message
  | .called m _ => some m
  | _ => none

end Deed

/-- The messages that a broker sent. -/
def messagesSent (past : List Deed) : List Message := messagesOf (past.filterMap Deed.sent?)

/-- The messages with which a handler was called. -/
def messagesCalled (past : List Deed) : List Message := past.filterMap Deed.called?

theorem messagesSent_append (past new : List Deed) :
    messagesSent (past ++ new) = messagesSent past ++ messagesSent new := by
  unfold messagesSent
  rw [List.filterMap_append, messagesOf_append]

theorem messagesCalled_append (past new : List Deed) :
    messagesCalled (past ++ new) = messagesCalled past ++ messagesCalled new :=
  List.filterMap_append

namespace Lane

variable {o : ConsumeOptions} {calm : Bool} {L₀ L L' : Lane} {past new : List Deed}

/-! ## Consumers that are closed -/

/-- A consumer that is closed has been left by its owner. -/
def ShutWhenClosed (L : Lane) : Prop :=
  ∀ c, L.sub.purpose = .continuous c → c.mode = .closed → L.sub.closed = true

theorem shutWhenClosed_step (step : Step calm L new L') (h : L.ShutWhenClosed) :
    L'.ShutWhenClosed := by
  cases step with
  | count c n purpose =>
    intro d hd hm
    cases hd
    exact h c purpose hm
  | fetch f g due due' purpose =>
    intro d hd
    cases hd
  | drain c d purpose drains =>
    intro e he hm
    cases he
    obtain ⟨_, rfl⟩ := Continuous.drain?_eq_some drains
    cases hm
  | finish may => exact fun _ _ _ => rfl
  | leave => exact fun _ _ _ => rfl
  | stop => exact fun _ _ _ => rfl
  | _ => exact h

/-! ## What demand covers -/

/-- The demand of a consumer covers what is owed to it, carried to it and dropped on the way. -/
structure Covered (o : ConsumeOptions) (lost : List Frame) (L : Lane) : Prop where
  terms : ∃ c, L.sub.purpose = .continuous c ∧ c.options = o ∧ c.plan = .ofOptions o
  untracked : L.sub.demand.IsUntracked
  bounded : L.sub.demand.messages ≤ o.batchSize
  honest : ∀ f ∈ L.feed.frames.toList, f.Honest
  enough : L.due.owed + carried L.feed.frames.toList + carried lost ≤ L.sub.demand.messages

theorem terms_step (step : Step calm L new L')
    (h : ∃ c, L.sub.purpose = .continuous c ∧ c.options = o ∧ c.plan = .ofOptions o) :
    ∃ c, L'.sub.purpose = .continuous c ∧ c.options = o ∧ c.plan = .ofOptions o := by
  obtain ⟨c, hp, ho, hplan⟩ := h
  have halike := step.alike
  rw [hp] at halike
  cases hp' : L'.sub.purpose with
  | continuous d =>
    rw [hp'] at halike
    exact ⟨d, rfl, halike.1.trans ho, halike.2.1.trans hplan⟩
  | manual | fetch _ _ =>
    rw [hp'] at halike
    exact halike.elim

/-- A request of the plan is added in full. -/
theorem added_of_wants (ho : o.Fits) (hz : o.batchBytes = 0) {lost : List Frame}
    (h : Covered o lost L) {r : PullRequest} (hw : L.sub.Wants r) :
    (L.sub.demand.add r).IsUntracked ∧
      (L.sub.demand.add r).messages = L.sub.demand.messages + r.batch ∧
        (L.sub.demand.add r).messages ≤ o.batchSize := by
  obtain ⟨c, hp, _, hplan⟩ := h.terms
  unfold Subscription.Wants at hw
  rw [hp] at hw
  have hnext : (RefillPlan.ofOptions o).next? L.sub.demand = some r := by
    unfold Continuous.refill? at hw
    dsimp only at hw
    split at hw
    · rwa [hplan] at hw
    · cases hw
    · cases hw
  have hplus := Flow.plus_next ho hz h.untracked h.bounded
  rw [hnext] at hplus
  exact ⟨hplus.1, hplus.2.1, hplus.2.2.2⟩

/-- What a worker does with a frame drops none. -/
theorem lost_hears (s : Subscription) (f : Frame) :
    (Deed.took f :: s.hears f).filterMap Deed.lost? = [] := by
  refine List.filterMap_eq_nil_iff.2 fun d hd => ?_
  rcases List.mem_cons.1 hd with rfl | hd
  · rfl
  · rcases Subscription.told_or_called_of_hears hd with
        ⟨st, rfl | rfl⟩ | ⟨m, kept, _, rfl, _⟩ <;> rfl

theorem covered_of_same {lost : List Frame} (h : Covered o lost L)
    (hterms : ∃ c, L'.sub.purpose = .continuous c ∧ c.options = o ∧ c.plan = .ofOptions o)
    (hd : L'.sub.demand = L.sub.demand) (hf : L'.feed.frames = L.feed.frames)
    (hdue : L'.due = L.due) : Covered o lost L' :=
  ⟨hterms, hd ▸ h.untracked, hd ▸ h.bounded, hf ▸ h.honest, by rw [hd, hf, hdue]; exact h.enough⟩

theorem covered_step (ho : o.Fits) (hz : o.batchBytes = 0) (step : Step true L new L')
    (h : Covered o (past.filterMap Deed.lost?) L) :
    Covered o ((past ++ new).filterMap Deed.lost?) L' := by
  have hterms := terms_step step h.terms
  have henough := h.enough
  rw [List.filterMap_append]
  cases step with
  | send f due reading fair requests =>
    obtain ⟨hf, hle⟩ := fair rfl
    refine ⟨hterms, h.untracked, h.bounded, ?_, ?_⟩
    · intro g hg
      rcases Fifo.mem_push.1 hg with hg | rfl
      · exact h.honest g hg
      · exact hf
    · rw [Feed.toList_push, Broker.carried_append, Broker.carried_append]
      show _ + (_ + (f.weight + 0)) + (_ + 0) ≤ _
      dsimp only
      omega
  | lose f due fair requests =>
    obtain ⟨_, hle⟩ := fair rfl
    refine ⟨hterms, h.untracked, h.bounded, h.honest, ?_⟩
    rw [Broker.carried_append]
    show _ + _ + (_ + (f.weight + 0)) ≤ _
    dsimp only
    omega
  | inject f loose reading => cases loose
  | ease due eases =>
    have hle := eases.owed rfl
    refine ⟨hterms, h.untracked, h.bounded, h.honest, ?_⟩
    rw [List.filterMap_nil, List.append_nil]
    dsimp only
    omega
  | take f rest now opened worker next =>
    have hl := Fifo.toList_of_pop? next
    have hf : f.Honest := h.honest f (by rw [hl]; exact List.mem_cons_self)
    have hdemand : (L.sub.takes now f).demand = L.sub.demand.take f :=
      Demand.demand_account now f L.sub.tracker
    have hmessages := Demand.messages_take_untracked h.untracked hf
    rw [hl, Broker.carried_cons] at henough
    refine ⟨hterms, ?_, ?_, ?_, ?_⟩
    · rw [hdemand]
      exact Demand.isUntracked_take h.untracked f
    · rw [hdemand, hmessages]
      exact Nat.le_trans (Nat.sub_le _ _) h.bounded
    · intro g hg
      exact h.honest g (by rw [hl]; exact List.mem_cons_of_mem _ hg)
    · rw [lost_hears, List.append_nil, hdemand, hmessages]
      dsimp only
      omega
  | pull r t due opened wants goes =>
    obtain ⟨hu, hm, hle⟩ := added_of_wants ho hz h wants
    rw [show [Deed.pulled r].filterMap Deed.lost? = [] from rfl, List.append_nil]
    rcases goes with ⟨hd, howed⟩ | ⟨hd, howed⟩
    · have hdue := howed rfl
      refine ⟨hterms, ?_, ?_, h.honest, ?_⟩
      · show t.demand.IsUntracked
        rw [hd]
        exact hu
      · show t.demand.messages ≤ _
        rw [hd]
        exact hle
      · show due.owed + _ + _ ≤ t.demand.messages
        rw [hd, hm]
        dsimp only
        omega
    · have hdue := howed rfl
      have hback : ((L.sub.demand.add r).withdraw r).messages = L.sub.demand.messages := by
        rw [Demand.messages_withdraw, hm, Nat.add_sub_cancel]
      refine ⟨hterms, ?_, ?_, h.honest, ?_⟩
      · show t.demand.IsUntracked
        rw [hd]
        exact Demand.isUntracked_withdraw hu
      · show t.demand.messages ≤ _
        rw [hd, hback]
        exact h.bounded
      · show due.owed + _ + _ ≤ t.demand.messages
        rw [hd, hback]
        dsimp only
        omega
  | finish may =>
    refine ⟨hterms, h.untracked, h.bounded, fun g hg => (by cases hg), ?_⟩
    rw [List.filterMap_nil, List.append_nil]
    show L.due.owed + 0 + _ ≤ L.sub.demand.messages
    omega
  | stop =>
    rw [List.filterMap_nil, List.append_nil]
    refine covered_of_same h hterms ?_ rfl rfl
    show L.sub.stopped.tracker.demand = L.sub.demand
    rw [Subscription.tracker_stopped]
    rfl
  | _ =>
    refine covered_of_same (L := L) ?_ hterms rfl rfl rfl
    show Covered o (past.filterMap Deed.lost? ++ []) L
    rw [List.append_nil]
    exact h

/-! ## What the handler was called with -/

/-- As long as the worker reads, or nothing is outstanding, the messages that were sent are those
that the handler was called with and those in the feed. -/
def Whole (past : List Deed) (L : Lane) : Prop :=
  L.sub.closed = false ∨ L.sub.demand.messages = 0 →
    messagesSent past = messagesCalled past ++ messagesOf L.feed.frames.toList

theorem whole_of_same (h : L.Whole past)
    (hc : L'.sub.closed = false ∨ L'.sub.demand.messages = 0 →
      L.sub.closed = false ∨ L.sub.demand.messages = 0)
    (hf : L'.feed.frames = L.feed.frames) (hsent : messagesSent new = [])
    (hcalled : messagesCalled new = []) : L'.Whole (past ++ new) := by
  intro hopen
  rw [messagesSent_append, messagesCalled_append, hsent, hcalled, hf, List.append_nil,
    List.append_nil]
  exact h (hc hopen)

/-- Nothing is sent while a worker takes in a frame. -/
theorem messagesSent_took (s : Subscription) (f : Frame) :
    messagesSent (.took f :: s.hears f) = [] := by
  unfold messagesSent
  rw [List.filterMap_eq_nil_iff.2 fun d hd => ?_]
  · rfl
  · rcases List.mem_cons.1 hd with rfl | hd
    · rfl
    · rcases Subscription.told_or_called_of_hears hd with
        ⟨st, rfl | rfl⟩ | ⟨m, kept, _, rfl, _⟩ <;> rfl

/-- The handler of a consumer that is not closed is called with every message. -/
theorem messagesCalled_took {s : Subscription} {c : Continuous} (hp : s.purpose = .continuous c)
    (hm : c.mode ≠ .closed) (f : Frame) :
    messagesCalled (.took f :: s.hears f) = messagesOf [f] := by
  cases f with
  | message m =>
    have hears : s.hears (.message m) = [.called m (c.handler.fails m).isNone] := by
      unfold Subscription.hears
      rw [show Intake.ofFrame (.message m) = .message m from rfl, hp]
      exact if_neg hm
    rw [hears]
    rfl
  | status st =>
    refine List.filterMap_eq_nil_iff.2 fun d hd => ?_
    rcases List.mem_cons.1 hd with rfl | hd
    · rfl
    · rcases Subscription.told_or_called_of_hears hd with
        ⟨st, rfl | rfl⟩ | ⟨m, kept, _, _, hf, _⟩
      · rfl
      · rfl
      · cases hf

theorem messagesOf_eq_nil {fs : List Frame} (h : carried fs = 0) : messagesOf fs = [] := by
  cases hm : messagesOf fs with
  | nil => rfl
  | cons m ms =>
    have hpos := Flow.carried_pos (by rw [hm]; exact List.cons_ne_nil m ms)
    omega

theorem whole_step (hc : Covered o (past.filterMap Deed.lost?) L) (hs : L.ShutWhenClosed)
    (step : Step true L new L') (h : L.Whole past) : L'.Whole (past ++ new) := by
  cases step with
  | send f due reading fair requests =>
    intro hopen
    rw [messagesSent_append, messagesCalled_append, Feed.toList_push, messagesOf_append,
      h hopen, show messagesCalled [.sent f] = [] from rfl, List.append_nil, List.append_assoc]
    rfl
  | inject f loose reading => cases loose
  | take f rest now opened worker next =>
    intro _
    obtain ⟨c, hp, _⟩ := hc.terms
    have hm : c.mode ≠ .closed := by
      intro hm
      rw [hs c hp hm] at opened
      cases opened
    have hwhole := h (Or.inl opened)
    rw [Fifo.toList_of_pop? next] at hwhole
    rw [messagesSent_append, messagesCalled_append, messagesSent_took, messagesCalled_took hp hm,
      List.append_nil, List.append_assoc, ← messagesOf_append]
    exact hwhole
  | pull r t due opened wants goes => exact whole_of_same h (fun _ => Or.inl opened) rfl rfl rfl
  | finish may =>
    intro hopen
    have hzero : L.sub.demand.messages = 0 := by
      rcases hopen with hopen | hopen
      · cases hopen
      · exact hopen
    have henough := hc.enough
    have hnone : messagesOf L.feed.frames.toList = [] := messagesOf_eq_nil (by omega)
    have hwhole := h (Or.inr hzero)
    rw [hnone] at hwhole
    rw [List.append_nil]
    exact hwhole
  | leave =>
    refine whole_of_same h (fun hopen => ?_) rfl rfl rfl
    rcases hopen with hopen | hopen
    · cases hopen
    · exact Or.inr hopen
  | stop =>
    refine whole_of_same h (fun hopen => ?_) rfl rfl rfl
    rcases hopen with hopen | hopen
    · cases hopen
    · refine Or.inr (Eq.trans ?_ hopen)
      show L.sub.tracker.demand.messages = L.sub.stopped.tracker.demand.messages
      rw [Subscription.tracker_stopped]
  | _ => exact whole_of_same (L := L) h (fun hopen => hopen) rfl rfl rfl

end Lane

end DemandFlow
