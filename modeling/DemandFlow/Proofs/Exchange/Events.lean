import DemandFlow.Proofs.Broker.Shape
import DemandFlow.Proofs.Exchange.Queued

/-
  Exchanges run their broker through events. Whatever a move does to feeds, callers and the log,
  the broker itself reacts to at most one event (`broker_next`). So the broker of a run is the
  broker of a history (`broker_after`), and what holds of all histories of a broker holds of the
  brokers in exchanges; its shape, for one (`shaped_after`).
-/

namespace DemandFlow.Exchange

open Broker (Command Event History)

variable {x : Exchange} {l : Loopback}

/-- A command that is taken in changes the broker and the line of commands, whoever gets an
answer. -/
theorem transport_takeCommand (h : x.transport = .loopback l) (c : Command)
    (rest : Fifo Command) : (x.takeCommand c rest).transport =
      .loopback { l with commands := rest, broker := l.broker.accept x.now c } := by
  have hy : ((x.noteCommand c).modifyLoopback fun l =>
      { l with commands := rest, broker := l.broker.accept (x.noteCommand c).now c }).transport =
        .loopback { l with commands := rest, broker := l.broker.accept x.now c } :=
    congrArg Core.transport (core_accepted h c rest)
  unfold takeCommand commandEffect
  dsimp only
  rw [hy]
  cases c with
  | unsubscribe inbox => exact (congrArg Core.transport (core_closeFeed _ inbox)).trans hy
  | stats asker => exact (transport_wake _ _).trans hy
  | pullLog asker => exact (transport_wake _ _).trans hy
  | publish m => exact hy
  | register inbox => exact hy
  | pull inbox r => exact hy
  | inject inbox f => exact hy

/-- A frame is handed over, and if its feed is gone the broker forgets the inbox; or it stands as
long as the feed is full. -/
theorem transport_post (x : Exchange) (l : Loopback) (b : Broker.State) (inbox : String)
    (f : Frame) : (x.post l b inbox f).1.transport = x.transport ∨
      ∃ gone, (x.post l b inbox f).1.transport =
        .loopback { l with broker := b.told inbox gone } := by
  have htold : b.told inbox false = b := rfl
  rcases core_post x l b inbox f with ⟨hc, _⟩ | ⟨hc, _⟩ | ⟨i, feed, _, _, _, _, _, hc⟩ |
    ⟨i, feed, hk, _, _, _, hc⟩
  · exact Or.inr ⟨false, by rw [htold]; exact congrArg Core.transport hc⟩
  · exact Or.inl (congrArg Core.transport hc)
  · exact Or.inr ⟨false, by rw [htold]; exact congrArg Core.transport hc⟩
  · refine Or.inr ⟨true, ?_⟩
    have hforget : b.told inbox true = b.forget inbox := by
      unfold Broker.State.told
      rw [hk]
      rfl
    rw [hforget]
    exact congrArg Core.transport hc

theorem transport_endBroker (x : Exchange) (l : Loopback) :
    (x.endBroker l).transport = .loopback { l with alive := false } := by
  obtain ⟨_, h⟩ := core_endBroker x l
  exact congrArg Core.transport h

/-- One step of the broker's task is at most one event. -/
theorem broker_brokerStep (h : x.transport = .loopback l) :
    ∃ l', x.brokerStep.1.transport = .loopback l' ∧
      (l'.broker = l.broker ∨ ∃ e : Event, l'.broker = l.broker.react e) := by
  unfold brokerStep
  rw [h]
  dsimp only
  split
  · split
    · rename_i c cs ha
      split
      · rename_i b inbox f hw
        rcases transport_post x l b inbox f with ht | ⟨gone, ht⟩
        · exact ⟨l, ht.trans h, Or.inl rfl⟩
        · refine ⟨_, ht, Or.inr ⟨.chore x.now gone, ?_⟩⟩
          unfold Broker.State.react
          dsimp only
          rw [hw]
      · rename_i b hw
        refine ⟨_, rfl, Or.inr ⟨.chore x.now false, ?_⟩⟩
        unfold Broker.State.react
        dsimp only
        rw [hw]
    · rename_i ha
      split
      · rename_i c rest hp
        refine ⟨_, transport_takeCommand h c rest, Or.inr ⟨.command x.now c, ?_⟩⟩
        unfold Broker.State.react
        dsimp only
        rw [ha, if_pos List.isEmpty_nil]
      · unfold idle
        split
        · split
          · refine ⟨_, rfl, Or.inr ⟨.timers x.now, ?_⟩⟩
            unfold Broker.State.react
            dsimp only
            rw [ha, if_pos List.isEmpty_nil]
          · split
            · exact ⟨l, h, Or.inl rfl⟩
            · exact ⟨_, transport_endBroker x l, Or.inl rfl⟩
        · split
          · exact ⟨l, h, Or.inl rfl⟩
          · exact ⟨_, transport_endBroker x l, Or.inl rfl⟩
  · exact ⟨l, h, Or.inl rfl⟩

/-! ## Runs -/

/-- A move is at most one event for the broker. -/
theorem broker_next (h : x.transport = .loopback l) (m : Move) :
    ∃ l', (x.next m).transport = .loopback l' ∧
      (l'.broker = l.broker ∨ ∃ e : Event, l'.broker = l.broker.react e) := by
  by_cases hm : m = .turn .broker
  · subst hm
    exact broker_brokerStep h
  · by_cases ht : m = .timers
    · subst ht
      rcases core_fire h 0 with hc | ⟨ha, hc⟩
      · exact ⟨l, (congrArg Core.transport hc).trans h, Or.inl rfl⟩
      · refine ⟨_, congrArg Core.transport hc, Or.inr ⟨.timers x.now, ?_⟩⟩
        unfold Broker.State.react
        dsimp only
        rw [ha, if_pos List.isEmpty_nil]
        rfl
    · have hq := queues_next x (Move.front_ne_broker hm ht)
      rw [h] at hq
      cases hy : (x.next m).transport with
      | scripted s =>
        rw [hy] at hq
        exact hq.elim
      | loopback l' =>
        rw [hy] at hq
        exact ⟨l', rfl, Or.inl hq.1⟩

theorem broker_foldl (h : x.transport = .loopback l) (ms : List Move) :
    ∃ l', (x.after ms).transport = .loopback l' ∧
      ∃ es : List Event, l'.broker = es.foldl Broker.State.react l.broker := by
  induction ms generalizing x l with
  | nil => exact ⟨l, h, [], rfl⟩
  | cons m ms ih =>
    obtain ⟨l', hl', hb⟩ := broker_next h m
    obtain ⟨l'', hl'', es, hes⟩ := ih hl'
    refine ⟨l'', hl'', ?_⟩
    rcases hb with hb | ⟨e, hb⟩ <;> rw [hb] at hes
    · exact ⟨es, hes⟩
    · exact ⟨e :: es, hes⟩

variable {limits : Broker.Limits} {alive keepsNotices : Bool} {queueCapacity : Nat}

/-- The broker of a run is the broker of a history. -/
theorem broker_after (ms : List Move) : ∃ l,
    ((start (.loopback (.start limits alive)) keepsNotices queueCapacity).after ms).transport =
      .loopback l ∧ ∃ es, l.broker = (History.after limits es).broker := by
  obtain ⟨l, hl, es, hes⟩ := broker_foldl
    (x := start (.loopback (.start limits alive)) keepsNotices queueCapacity) rfl ms
  exact ⟨l, hl, es, hes.trans (History.broker_foldl (.start limits) es).symm⟩

/-- In every run the broker keeps its shape. -/
theorem shaped_after (ms : List Move) (hl :
    ((start (.loopback (.start limits alive)) keepsNotices queueCapacity).after ms).transport =
      .loopback l) : l.broker.Shaped := by
  obtain ⟨l', hl', es, hes⟩ := broker_after ms
  cases hl.symm.trans hl'
  rw [hes, History.after, History.broker_foldl]
  exact Broker.State.shaped_run limits es

end DemandFlow.Exchange
