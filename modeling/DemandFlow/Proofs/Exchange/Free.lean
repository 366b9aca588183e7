import DemandFlow.Proofs.Accounts.Queue
import DemandFlow.Proofs.Broker.Portion
import DemandFlow.Proofs.Consume.Flow

/-
  Brokers for which nobody waits: whatever was published is on the stream or in line, and stays
  unread however long the broker works. This is where a consumer or a fetch that is opened later
  finds its messages.
-/

namespace DemandFlow

open Broker (Chore Command inboxName publishedBy)

/-- Messages that were published and have not been handed out. -/
def Loopback.offered (l : Loopback) : List Message :=
  l.broker.stream.toList.drop l.broker.cursor ++ publishedBy l.commands.toList

/-- A broker without limits; nobody waits for messages, and the commands in line only publish. -/
structure Loopback.IsFree (l : Loopback) : Prop where
  alive : l.alive = true
  held : l.held = true
  limits : l.broker.limits.Unlimited
  cursor : l.broker.cursor ≤ l.broker.stream.size
  waiting : l.broker.waiting = []
  /-- The broker may be about to look at the stream. -/
  agenda : l.broker.agenda = [] ∨ l.broker.agenda = [.handOut]
  commands : ∀ c ∈ l.commands.toList, ∃ m, c = .publish m
  /-- Stored messages have a size, since they have a subject for their acknowledgement. -/
  sizes : ∀ m ∈ l.offered, 0 < m.size
  /-- Inboxes are numbered in order. -/
  inboxes : ∀ i ∈ l.broker.inboxes, ∃ k < l.nextInbox, i = inboxName k

namespace Loopback.IsFree

variable {l : Loopback}

theorem start {limits : Broker.Limits} (hu : limits.Unlimited) :
    (Loopback.start limits true).IsFree where
  alive := rfl
  held := rfl
  limits := hu
  cursor := Nat.le_refl 0
  waiting := rfl
  agenda := Or.inl rfl
  commands := fun c hc => by cases hc
  sizes := fun m hm => by cases hm
  inboxes := fun i hi => by cases hi

theorem publish (h : l.IsFree) (m : Message) (k : Nat) :
    { l with
      nextSequence := k
      commands := l.commands.push
        (.publish (m.withReply (Exchange.ackSubject l.nextSequence))) }.IsFree := by
  refine { h with commands := fun c hc => ?_, sizes := fun n hn => ?_ }
  · dsimp only at hc
    exact (Fifo.mem_push.1 hc).elim (h.commands c) fun he => ⟨_, he⟩
  · unfold Loopback.offered at hn
    dsimp only at hn
    rw [Fifo.toList_push, Broker.publishedBy_append, ← List.append_assoc] at hn
    rcases List.mem_append.1 hn with hn | hn
    · exact h.sizes n hn
    · rw [List.mem_singleton.1 hn]
      exact Exchange.size_withReply_pos m _

/-- The only work of a broker for which nobody waits is to look at the stream. -/
theorem work (h : l.IsFree) (hag : l.broker.agenda ≠ []) (now : Nat) :
    l.broker.work now = ({ l.broker with agenda := [] }, none) := by
  unfold Broker.State.work
  rw [h.agenda.resolve_left hag]
  dsimp only
  unfold Broker.State.handOut
  dsimp only
  rw [h.waiting]
  cases l.broker.stream[l.broker.cursor]? <;> rfl

theorem accept (h : l.IsFree) (hag : l.broker.agenda = []) {c : Command} {rest : Fifo Command}
    (hp : l.commands.pop? = some (c, rest)) (now : Nat) : ∃ m, c = .publish m ∧
      { l with commands := rest, broker := l.broker.accept now c }.IsFree := by
  have hnext : l.commands.toList = c :: rest.toList := Fifo.toList_of_pop? hp
  obtain ⟨m, rfl⟩ := h.commands c (by rw [hnext]; exact List.mem_cons_self)
  refine ⟨m, rfl, { h with
    cursor := ?_
    agenda := Or.inr ?_
    commands := fun d hd => h.commands d (by rw [hnext]; exact List.mem_cons_of_mem _ hd)
    sizes := fun n hn => h.sizes n ?_ }⟩
  · show l.broker.cursor ≤ (l.broker.stream.push m).size
    rw [Array.size_push]
    exact Nat.le_succ_of_le h.cursor
  · show [Chore.handOut] ++ l.broker.agenda = _
    rw [hag]
    rfl
  · have hsame : { l with commands := rest, broker := l.broker.accept now (.publish m) }.offered =
        l.offered := by
      show (l.broker.stream.push m).toList.drop l.broker.cursor ++ publishedBy rest.toList =
        l.broker.stream.toList.drop l.broker.cursor ++ publishedBy l.commands.toList
      rw [hnext, Array.toList_push,
        List.drop_append_of_le_length (by rw [Array.length_toList]; exact h.cursor),
        List.append_assoc]
      rfl
    rw [← hsame]
    exact hn

theorem fireTimers (h : l.IsFree) (now : Nat) : l.broker.fireTimers now = l.broker := by
  unfold Broker.State.fireTimers Broker.State.first
  rw [h.waiting]
  dsimp only [List.filterMap_nil, List.nil_append]
  rw [← h.waiting]

end Loopback.IsFree

end DemandFlow
