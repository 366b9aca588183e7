import DemandFlow.Exchange.Transport
import DemandFlow.Proofs.Broker.Settlement
import DemandFlow.Proofs.Broker.Shape

/-
  The messages that one request may bring: so many at most, and within its byte budget if it has
  one. Of all that is on offer it is due the longest prefix that it admits. A prefix is the
  longest as soon as it cannot go on (`longest_of_stuck`), since every stored message has a size:
  a message without one would still go into a budget that is spent.
-/

namespace DemandFlow

/-! ## Weights and prefixes -/

namespace Broker

theorem weigh_mono {ms ns : List Message} (h : ms <+: ns) : weigh ms ≤ weigh ns := by
  obtain ⟨rest, rfl⟩ := h
  unfold weigh
  rw [List.map_append, List.sum_append]
  exact Nat.le_add_right _ _

/-- A list that leads the offer and is not within another one goes on behind it. -/
theorem exists_snoc {offered ms ns : List Message} (hm : ms <+: offered) (hn : ns <+: offered)
    (h : ¬ns <+: ms) : ∃ m, ms ++ [m] <+: ns := by
  rcases List.prefix_or_prefix_of_prefix hm hn with ⟨rest, hrest⟩ | hle
  · cases rest with
    | nil =>
      rw [List.append_nil] at hrest
      exact absurd (hrest ▸ List.prefix_refl _) h
    | cons m rest => exact ⟨m, rest, by rw [← hrest, List.append_assoc]; rfl⟩
  · exact absurd hle h

end Broker

open Broker (weigh weigh_snoc weigh_mono exists_snoc)

/-! ## What a request may bring -/

namespace PullRequest

/-- At most so many messages, and within the byte budget if there is one. -/
def Admits (r : PullRequest) (ms : List Message) : Prop :=
  ms.length ≤ r.batch ∧ (0 < r.maxBytes → weigh ms ≤ r.maxBytes)

/-- The longest prefix of the messages on offer that is admitted. -/
structure Longest (r : PullRequest) (offered ms : List Message) : Prop where
  leads : ms <+: offered
  admits : r.Admits ms
  longest : ∀ ns, ns <+: offered → r.Admits ns → ns <+: ms

/-- The batch is filled, or the budget is spent, or the next message on offer passes it. -/
def Stuck (r : PullRequest) (offered ms : List Message) : Prop :=
  (r.batch ≤ ms.length ∨ 0 < r.maxBytes ∧ r.maxBytes ≤ weigh ms) ∨
    ∃ m, ms ++ [m] <+: offered ∧ 0 < r.maxBytes ∧ r.maxBytes < weigh ms + m.size

variable {r : PullRequest} {offered ms : List Message}

/-- What is all there is, or cannot go on, is the longest that is admitted. -/
theorem longest_of_stuck (hl : ms <+: offered) (ha : r.Admits ms)
    (hs : ∀ m ∈ offered, 0 < m.size) (h : r.Stuck offered ms ∨ ms = offered) :
    r.Longest offered ms := by
  refine ⟨hl, ha, fun ns hn hadm => ?_⟩
  by_contra hnot
  obtain ⟨m, hm⟩ := exists_snoc hl hn hnot
  have hlen := hm.length_le
  have hweigh := weigh_mono hm
  rw [List.length_append, List.length_singleton] at hlen
  rw [weigh_snoc] at hweigh
  rcases h with ((hfull | ⟨hb, hfull⟩) | ⟨m', hm', hb, hbig⟩) | rfl
  · exact absurd hadm.1 (by omega)
  · have := hs m ((hm.trans hn).subset (List.mem_append_right _ List.mem_cons_self))
    exact absurd (hadm.2 hb) (by omega)
  · have hsame : ms ++ [m] = ms ++ [m'] :=
      (List.prefix_of_prefix_length_le (hm.trans hn) hm' (by simp)).eq_of_length (by simp)
    obtain rfl : m = m' := by simpa using hsame
    exact absurd (hadm.2 hb) (by omega)
  · exact absurd hn.length_le (by omega)

end PullRequest

/-! ## Stored messages -/

/-- A stored message has a size, since it has a subject for its acknowledgement. -/
theorem Exchange.size_withReply_pos (m : Message) (n : Nat) :
    0 < (m.withReply (ackSubject n)).size := by
  have hreply : 0 < (ackSubject n).utf8ByteSize := by
    have happ : ackSubject n = "$JS.ACK.loopback." ++ toString n := by
      unfold ackSubject
      rfl
    rw [happ, String.utf8ByteSize_append]
    exact Nat.lt_of_lt_of_le (by decide) (Nat.le_add_right _ _)
  have hsize : (m.withReply (ackSubject n)).size =
      m.subject.utf8ByteSize + (m.headers.map Headers.wireLength).getD 0 + m.payload.size +
        (ackSubject n).utf8ByteSize := rfl
  omega

namespace Broker

/-- Whoever publishes a message adds the subject under which it is acknowledged. -/
def Event.Addressed : Event → Prop
  | .command _ (.publish m) => ∃ (m' : Message) (n : Nat), m = m'.withReply (Exchange.ackSubject n)
  | .command _ (.register _) | .command _ (.pull _ _) | .command _ (.unsubscribe _)
  | .command _ (.inject _ _) | .command _ (.stats _) | .command _ (.pullLog _)
  | .timers _ | .chore _ _ => True

namespace State

/-- Every message of the stream has a size. -/
def Sized (b : State) : Prop := ∀ m ∈ b.stream.toList, 0 < m.size

theorem Sized.react {b : State} (h : b.Sized) {e : Event} (he : e.Addressed) :
    (b.react e).Sized := by
  unfold Sized
  rcases (stock_react b e).2 with hs | ⟨now, m, rfl, hs⟩ <;> rw [hs]
  · exact h
  · obtain ⟨m', n, rfl⟩ := he
    intro k hk
    rw [Array.toList_push, List.mem_append, List.mem_singleton] at hk
    rcases hk with hk | rfl
    · exact h k hk
    · exact Exchange.size_withReply_pos m' n

theorem sized_run (l : Limits) {es : List Event} (hes : ∀ e ∈ es, e.Addressed) :
    (es.foldl State.react (start l)).Sized := by
  suffices h : ∀ b : State, b.Sized → (es.foldl State.react b).Sized from
    h _ fun _ hm => absurd hm List.not_mem_nil
  induction es with
  | nil => exact fun _ h => h
  | cons e es ih =>
    obtain ⟨he, hes⟩ := List.forall_mem_cons.1 hes
    exact fun b h => ih hes (b.react e) (h.react he)

end State

end Broker

end DemandFlow
