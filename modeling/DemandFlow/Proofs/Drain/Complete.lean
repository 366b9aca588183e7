import DemandFlow.Proofs.Drain.Ledger
import DemandFlow.Proofs.Lane.Account

/-
  A drain that reports success lost nothing: once a call that drains a consumer without a byte
  budget has answered that nothing is outstanding, the handler was called with every message that
  was sent, none was dropped, none is in the feed or on its way, and no request is left that
  could bring one. What demand covers, which a ledger keeps step by step, is nothing by then.
-/

namespace DemandFlow

open Broker (carried asked held posted)

namespace Lane

variable {o : ConsumeOptions} {calm : Bool} {L₀ L L' : Lane} {past new : List Deed}

/-! ## The ledger of a run -/

/-- All that a consumer without a byte budget keeps. -/
structure Kept (o : ConsumeOptions) (past : List Deed) (L : Lane) : Prop where
  covered : Covered o (past.filterMap Deed.lost?) L
  shut : L.ShutWhenClosed
  whole : L.Whole past

theorem kept_step (ho : o.Fits) (hz : o.batchBytes = 0) (step : Step true L new L')
    (h : Kept o past L) : Kept o (past ++ new) L' :=
  ⟨covered_step ho hz step h.covered, shutWhenClosed_step step h.shut,
    whole_step h.covered h.shut step h.whole⟩

theorem kept_run (ho : o.Fits) (hz : o.batchBytes = 0) (h : Kept o past L)
    (run : Run true L new L') : Kept o (past ++ new) L' := by
  induction run with
  | nil =>
    rw [List.append_nil]
    exact h
  | snoc _ step ih =>
    rw [← List.append_assoc]
    exact kept_step ho hz step ih

/-- A lane that consumes without a byte budget does so from its start. -/
theorem kept_fresh {c : Continuous} (fresh : L₀.IsFresh true)
    (halike : Alike L₀.sub.purpose (.continuous c)) :
    c.plan = .ofOptions c.options ∧ Kept c.options [] L₀ := by
  obtain ⟨hplan, inbox, feed, now, capacity, hsub⟩ := start_of_fresh fresh halike
  obtain ⟨name, room, reader, hfeed⟩ := fresh.feed
  have hp : L₀.sub.purpose = .continuous (.start c.options c.handler) := by rw [hsub]; rfl
  have hdemand : L₀.sub.demand = .none := by rw [hsub]; rfl
  have hframes : L₀.feed.frames.toList = [] := by rw [hfeed]; rfl
  refine ⟨hplan, ⟨⟨_, hp, rfl, rfl⟩, ?_, ?_, ?_, ?_⟩, ?_, ?_⟩
  · rw [hdemand]
    exact Demand.isUntracked_none
  · rw [hdemand]
    exact Nat.zero_le _
  · rw [hframes]
    exact fun f hf => by cases hf
  · rw [hframes, fresh.owed rfl]
    exact Nat.zero_le _
  · intro e he hm
    rw [hp] at he
    cases he
    cases hm
  · intro _
    rw [hframes]
    rfl

/-- The requests of a plan that fit are those of options that fit. -/
theorem fits_of_sized {s : Subscription} (h : s.Sized) {c : Continuous}
    (hp : s.purpose = .continuous c) (hplan : c.plan = .ofOptions c.options) : c.options.Fits := by
  obtain ⟨hi, _⟩ := h c hp
  rw [hplan] at hi
  exact ⟨hi.batch, hi.maxBytes⟩

/-! ## Drains that are over -/

theorem settled_of_drained_step (step : Step calm L new L') (h : .drained true ∈ new) :
    L'.sub.IsSettled := by
  cases step with
  | drained b settled =>
    cases List.mem_singleton.1 h
    exact settled rfl
  | take f rest now opened worker next =>
    rcases List.mem_cons.1 h with h | h
    · cases h
    · rcases Subscription.told_or_called_of_hears h with
        ⟨st, hn | hn⟩ | ⟨m, kept, _, hn, _⟩ <;> cases hn
  | send | lose | inject | pull | alarm | read | miss => cases List.mem_singleton.1 h
  | _ => cases h

theorem settled_of_drained (run : Run calm L₀ past L) (h : .drained true ∈ past) :
    L.sub.IsSettled := by
  induction run with
  | nil => cases h
  | snoc _ step ih =>
    rcases List.mem_append.1 h with h | h
    · exact step.settled (ih h)
    · exact settled_of_drained_step step h

end Lane

namespace Broker

variable {inbox : String}

/-- Where nothing is posted to an inbox, no message is. -/
theorem post_not_mem {cs : List Chore} (h : posted inbox cs = 0) (m : Message) :
    .post inbox (.message m) ∉ cs := by
  intro hm
  have hzero : (Chore.post inbox (.message m)).brings inbox = 0 :=
    List.sum_eq_zero_iff_forall_eq_nat.1 h _ (List.mem_map_of_mem hm)
  have hone : (Chore.post inbox (.message m)).brings inbox = 1 := if_pos rfl
  omega

/-- Where nothing is held for an inbox, none of its pulls wait. -/
theorem inbox_ne_of_held {ps : List WaitingPull} (hf : ∀ p ∈ ps, p.Fits)
    (h : held inbox ps = 0) : ∀ p ∈ ps, p.inbox ≠ inbox := by
  intro p hp hi
  have hzero : p.heldFor inbox = 0 :=
    List.sum_eq_zero_iff_forall_eq_nat.1 h _ (List.mem_map_of_mem hp)
  have hone : p.heldFor inbox = p.messages := if_pos hi
  have hpos := (hf p hp).pos
  omega

/-- Where nothing is asked for an inbox, there is no request for it. -/
theorem pull_not_mem {cs : List Command} (h : asked inbox cs = 0) (r : PullRequest) :
    .pull inbox r ∉ cs := by
  intro hr
  have hzero : (Command.pull inbox r).asks inbox = 0 :=
    List.sum_eq_zero_iff_forall_eq_nat.1 h _ (List.mem_map_of_mem hr)
  have hone : (Command.pull inbox r).asks inbox = r.batch := if_pos rfl
  have hpos := r.batch_pos
  omega

end Broker

namespace Exchange

variable {x : Exchange} {past : List (Nat × Deed)} {i : Nat} {s : Subscription} {c : Continuous}

/-- A subscription on a broker was given all that was sent to it, and nothing more is to come. -/
structure HasAll (x : Exchange) (i : Nat) (inbox : String) (past : List Deed) : Prop where
  given : messagesCalled past = messagesSent past
  kept : ∀ m, .lost (.message m) ∉ past
  feed : ∀ f : Feed, x.feeds[i]? = some f → ∀ m, .message m ∉ f.frames.toList
  commands : ∀ l, x.transport = .loopback l → ∀ r, .pull inbox r ∉ l.commands.toList
  waiting : ∀ l, x.transport = .loopback l → ∀ p ∈ l.broker.waiting, p.inbox ≠ inbox
  agenda : ∀ l, x.transport = .loopback l → ∀ m, .post inbox (.message m) ∉ l.broker.agenda

/-- Where nothing is outstanding, everything has come. -/
theorem hasAll_of_exhausted (ht : Tame true x) {L : Lane} (hL : x.lane i = some L)
    {o : ConsumeOptions} {past : List Deed} (h : Lane.Kept o past L)
    (he : L.sub.demand.messages = 0) : x.HasAll i L.sub.inbox past := by
  obtain ⟨_, hfeed, hdue⟩ := lane_eq_some.1 hL
  have henough := h.covered.enough
  have hnone : messagesOf L.feed.frames.toList = [] := Lane.messagesOf_eq_nil (by omega)
  have howes : ∀ l, x.transport = .loopback l → asked L.sub.inbox l.commands.toList = 0 ∧
      held L.sub.inbox l.broker.waiting = 0 ∧ posted L.sub.inbox l.broker.agenda = 0 := by
    intro l hl
    have hzero : (x.transport.due L.sub.inbox).owed = 0 := by
      rw [← hdue]
      omega
    rw [hl] at hzero
    have hsum : asked L.sub.inbox l.commands.toList +
      (held L.sub.inbox l.broker.waiting + posted L.sub.inbox l.broker.agenda) = 0 := hzero
    omega
  refine ⟨?_, ?_, ?_, ?_, ?_, ?_⟩
  · have hwhole := h.whole (Or.inr he)
    rw [hnone, List.append_nil] at hwhole
    exact hwhole.symm
  · intro m hm
    have hlost : .message m ∈ past.filterMap Deed.lost? := List.mem_filterMap.2 ⟨_, hm, rfl⟩
    have hmessages : m ∈ messagesOf (past.filterMap Deed.lost?) :=
      List.mem_filterMap.2 ⟨_, hlost, rfl⟩
    rw [Lane.messagesOf_eq_nil (by omega)] at hmessages
    cases hmessages
  · intro f hf m hm
    cases hfeed.symm.trans hf
    have hmessages : m ∈ messagesOf L.feed.frames.toList := List.mem_filterMap.2 ⟨_, hm, rfl⟩
    rw [hnone] at hmessages
    cases hmessages
  · intro l hl r
    exact Broker.pull_not_mem (howes l hl).1 r
  · intro l hl
    have htame := ht.transport
    rw [hl] at htame
    exact Broker.inbox_ne_of_held (htame.2 rfl).sound.waiting (howes l hl).2.1
  · intro l hl m
    exact Broker.post_not_mem (howes l hl).2.2 m

/-- A drain that reports success lost nothing. -/
theorem hasAll_of_drained (l : Broker.Limits) (alive keeps : Bool) (capacity : Nat)
    (ms : List Move) (hms : ∀ m ∈ ms, m.Calm) (i : Nat) (s : Subscription) (c : Continuous) :
    let x₀ := start (.loopback (.start l alive)) keeps capacity
    (x₀.after ms).subs[i]? = some s → s.purpose = .continuous c → c.options.batchBytes = 0 →
      (i, .drained true) ∈ x₀.record ms →
        (x₀.after ms).HasAll i s.inbox (deedsOf i (x₀.record ms)) := by
  intro x₀ hs hp hz hd
  have hsince := since_start true (.loopback l alive) keeps capacity ms fun _ => hms
  obtain ⟨f, _, hL⟩ := hsince.lane_of_sub hs
  obtain ⟨L₀, hfresh, hrun⟩ := hsince.fresh_run hL
  have halike : Lane.Alike L₀.sub.purpose s.purpose := hrun.alike
  rw [hp] at halike
  obtain ⟨hplan, hkept⟩ := Lane.kept_fresh hfresh halike
  have hfits := Lane.fits_of_sized (hsince.sized rfl i s hs) hp hplan
  have hdrained : .drained true ∈ deedsOf i (x₀.record ms) := by
    refine List.mem_map.2 ⟨_, List.mem_filter.2 ⟨hd, ?_⟩, rfl⟩
    simp
  have hsettled := Lane.settled_of_drained hrun hdrained
  exact hasAll_of_exhausted hsince.toTame hL (Lane.kept_run hfits hz hkept hrun)
    (Demand.messages_of_isExhausted hsettled.1)

/-- One message at a time, without a byte budget. -/
def single : ConsumeOptions :=
  { ConsumeOptions.default with batchSize := 1, batchSize_pos := Nat.one_pos }

/-- A message of one byte. -/
def hello : Message := ⟨"a", ⟨#[1]⟩, none, none⟩

/-- A drain that waits for the message that was asked for. -/
def drainForOne : List Move :=
  [Move.consume single .plain, .drain 0 .zero, .publish hello] ++
    List.replicate 6 (Move.turn .broker) ++
    [Move.turn (.worker 0), .turn (.caller 0), .turn (.worker 0), .turn (.alarm 0),
      .turn (.caller 0)]

theorem calm_drainForOne : ∀ m ∈ drainForOne, m.Calm := by
  have hfits : single.Fits := ⟨by decide, by decide⟩
  simp [drainForOne, Move.Calm, hfits]

theorem hasAll_drainForOne :
    let x₀ := start (.loopback (.start .default true)) true 4
    ∃ s c, (x₀.after drainForOne).subs[0]? = some s ∧ s.purpose = .continuous c ∧
      c.options.batchBytes = 0 ∧ (0, .drained true) ∈ x₀.record drainForOne ∧
        (x₀.after drainForOne).HasAll 0 s.inbox (deedsOf 0 (x₀.record drainForOne)) := by
  intro x₀
  have hbytes : ((x₀.after drainForOne).subs[0]?).bind
      (fun s => s.purpose.continuous?.map (·.options.batchBytes)) = some 0 := by decide +kernel
  have hd : (0, .drained true) ∈ x₀.record drainForOne := by decide +kernel
  obtain ⟨s, hs, hc⟩ := Option.bind_eq_some_iff.1 hbytes
  obtain ⟨c, hp, hz⟩ := Option.map_eq_some_iff.1 hc
  rw [Purpose.continuous?_eq_some] at hp
  exact ⟨s, c, hs, hp, hz, hd, hasAll_of_drained .default true true 4 drainForOne
    calm_drainForOne 0 s c hs hp hz hd⟩

end Exchange

end DemandFlow
