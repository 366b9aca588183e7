import DemandFlow.Proofs.Collect.Gathering
import DemandFlow.Proofs.Wake.Callers

/-
  The turns of the only reader of a fetch. It goes on with one message more, or has come to what
  the deliveries yield and ends the fetch, or waits for more to come in (`Turn`). What it has got
  is given in the end as a batch or as a stream.
-/

namespace DemandFlow.Exchange

variable {x : Exchange} {id i due : Nat} {s : Subscription} {o : FetchOptions}
  {got : List Message}

/-! ## How messages are asked for -/

/-- The messages of a fetch are asked for as one batch or as a stream. -/
inductive Manner where
  | batch
  | stream

namespace Manner

/-- A call that has got these messages. -/
def mode : Manner → List Message → FetchMode
  | .batch, got => .batch got.reverse
  | .stream, got => .stream (got.reverse.map .ok)

/-- What is given in the end: the batch, or the error in its place; the stream, with the error as
its last item. -/
def answer : Manner → List Message → Option ConsumerError → Answer
  | .batch, ms, none => .batch ms
  | .batch, _, some e => .reading (.error e)
  | .stream, ms, e => .stream (ms.map .ok ++ (e.map .error).toList)

theorem last_mode (k : Manner) (ms : List Message) :
    (k.mode ms).last (.ok none) = k.answer ms none := by
  cases k <;> simp [mode, answer, FetchMode.last]

theorem last_mode_error (k : Manner) (ms : List Message) (e : ConsumerError) :
    (k.mode ms).last (.error e) = k.answer ms (some e) := by
  cases k <;> simp [mode, answer, FetchMode.last]

/-- A delivery that is no message ends the call with its error, if it is one. -/
theorem last_reading (k : Manner) (ms : List Message) {d : Delivery} (h : d.brings = none) :
    (k.mode ms).last (Delivery.reading (some d)) = k.answer ms d.fault? := by
  rw [Delivery.reading_of_fault h]
  cases d.fault? with
  | none => exact k.last_mode ms
  | some e => exact k.last_mode_error ms e

theorem gotMessage_mode (k : Manner) (x : Exchange) (id i : Nat) (m : Message) :
    x.gotMessage id i (k.mode got) m =
      ((x.setActivity id (.fetch i (k.mode (got ++ [m])))).joinLine id i, true) := by
  cases k <;> simp [mode, gotMessage]

end Manner

/-! ## The turn of the only reader -/

/-- Who leaves the line of readers wakes the next. -/
theorem leaveLine_of (hs : x.subs[i]? = some s) (id : Nat) : Stays x (x.leaveLine id i) ∧
    (x.leaveLine id i).subs[i]? = some { s with readers := s.readers.filter (· ≠ id) } := by
  unfold leaveLine
  rw [hs]
  dsimp only
  refine ⟨(stays_modifySub x i _).trans (stays_wakeAll _ _), ?_⟩
  rw [subs_wakeAll]
  show (x.subs.modify i _)[i]? = _
  rw [Array.getElem?_modify, if_pos rfl, hs]
  rfl

/-- The only reader of a queue takes the next delivery; when there is none, the end has come or its
time is over, or it waits. -/
theorem look_of_only (hs : x.subs[i]? = some s) (hr : s.readers = [id]) (due : Nat) :
    (∃ y d rest, x.look id i s (some due) = (y, .taken (some d)) ∧ Stays x y ∧
      y.subs[i]? = some { s with queue := rest, readers := [] } ∧
      s.queue.toList = d :: rest.toList) ∨
    s.queue.toList = [] ∧ ((∃ y l, x.look id i s (some due) = (y, l) ∧ Stays x y ∧
        y.subs[i]? = some { s with readers := [] } ∧ (l = .taken none ∨ l = .late)) ∨
      s.worker ≠ .ended ∧ x.look id i s (some due) = (x, .waiting)) := by
  have hnone : s.readers.filter (fun c => decide (c ≠ id)) = [] := by
    rw [hr]
    simp
  have hleave : ∃ y, x.leaveLine id i = y ∧ Stays x y ∧
      y.subs[i]? = some { s with readers := [] } := by
    obtain ⟨hstays, hleft⟩ := leaveLine_of hs id
    rw [hnone] at hleft
    exact ⟨_, rfl, hstays, hleft⟩
  unfold look
  dsimp only
  rw [if_pos (show s.readers.head? = some id by rw [hr]; rfl)]
  cases hp : s.queue.pop? with
  | some q =>
    have hsub : ((x.modifySub i fun s => { s with queue := q.2 }).wake (.worker i)).subs[i]? =
        some { s with queue := q.2 } := by
      rw [subs_wake]
      show (x.subs.modify i _)[i]? = _
      rw [Array.getElem?_modify, if_pos rfl, hs]
      rfl
    obtain ⟨hstays, hleft⟩ := leaveLine_of hsub id
    dsimp only at hleft
    rw [hnone] at hleft
    refine Or.inl ⟨_, q.1, q.2, rfl, ?_, hleft, Fifo.toList_of_pop? hp⟩
    exact ((stays_modifySub x i _).trans (stays_wake _ _)).trans hstays
  | none =>
    refine Or.inr ⟨Fifo.pop?_eq_none_iff.1 hp, ?_⟩
    obtain ⟨y, hy, hstays, hleft⟩ := hleave
    dsimp only
    rw [hy]
    by_cases hw : s.worker = .ended
    · rw [if_pos hw]
      exact Or.inl ⟨y, _, rfl, hstays, hleft, Or.inl rfl⟩
    rw [if_neg hw]
    by_cases hlate : ((some due).filter (· ≤ x.now)).isSome = true
    · rw [if_pos hlate]
      exact Or.inl ⟨y, _, rfl, hstays, hleft, Or.inr rfl⟩
    · rw [if_neg hlate]
      exact Or.inr ⟨hw, rfl⟩

/-- The state of a fetch is put in its place. -/
def setFetch (x : Exchange) (i : Nat) (f : Fetch) (due : Nat) : Exchange :=
  x.modifySub i fun s => { s with purpose := .fetch f due }

/-- What the only reader of a fetch does in its turn when it has got some messages: it goes on with
one more, or has come to what the deliveries yield and ends the fetch, or waits for more. -/
inductive Turn (k : Manner) (id i due : Nat) (o : FetchOptions) (got : List Message)
    (s : Subscription) (x : Exchange) : Exchange × Bool → Prop
  | more {y : Exchange} {m : Message} {rest : Fifo Delivery} (stays : Stays x y)
    (sub : y.subs[i]? = some { s with queue := rest, readers := [] })
    (queue : s.queue.toList = .message m :: rest.toList) (below : ¬o.Full got) :
    Turn k id i due o got s x (((y.setFetch i (.having o (got ++ [m])) due).setActivity id
      (.fetch i (k.mode (got ++ [m])))).joinLine id i, true)
  | done {y : Exchange} {u : Subscription} {e : Option ConsumerError} (reason : String)
    (stays : Stays x y) (sub : y.subs[i]? = some u)
    (yields : o.Yields (got.map .message ++ s.queue.toList) got e) :
    Turn k id i due o got s x (y.endFetch id i (.having o got) due reason (k.answer got e), true)
  | waits (queue : s.queue.toList = []) (worker : s.worker ≠ .ended) (below : ¬o.Full got) :
    Turn k id i due o got s x (x.waitUntil id (some due), false)

theorem turn_fetchStep (hs : x.subs[i]? = some s) (hr : s.readers = [id])
    (hp : s.purpose = .fetch (.having o got) due) (hb : o.maxBytes ≤ Count.top)
    (hl : o.Leads (got.map .message ++ s.queue.toList) got) (k : Manner) :
    Turn k id i due o got s x (x.fetchStep id i (k.mode got)) := by
  have hopen : (Fetch.having o got).finished = false := by rw [Fetch.having_eq]
  unfold fetchStep
  rw [hs]
  dsimp only
  rw [hp]
  dsimp only
  rw [if_neg (ne_true_of_eq_false hopen)]
  by_cases hf : o.Full got
  · rw [if_pos ((Fetch.isFull_having hb got).2 hf), Manner.last_mode]
    obtain ⟨hstays, hleft⟩ := leaveLine_of hs id
    exact .done _ hstays hleft (hl.yields_of_full hf)
  rw [if_neg fun he => hf ((Fetch.isFull_having hb got).1 he)]
  rcases look_of_only hs hr due with ⟨y, d, rest, hlook, hstays, hsub, hqueue⟩ |
    ⟨hqueue, ⟨y, l, hlook, hstays, hsub, hlast⟩ | ⟨hw, hlook⟩⟩
  · rw [hlook]
    cases hd : d.brings with
    | some m =>
      obtain rfl : d = .message m := by
        cases d <;> cases hd
        rfl
      dsimp only
      rw [Manner.gotMessage_mode, ← Fetch.having_snoc]
      exact .more hstays hsub hqueue hf
    | none =>
      rw [hqueue] at hl
      have hyields := hl.yields_of_brings hf hd
      rw [← hqueue] at hyields
      cases d with
      | message m => cases hd
      | terminus _ | error _ | liveness _ =>
        dsimp only [Fetch.endReason?]
        rw [k.last_reading got hd]
        exact .done _ hstays hsub hyields
  · rw [hqueue] at hl
    have hyields := hl.yields_of_all
    rw [← hqueue] at hyields
    rw [hlook]
    rcases hlast with rfl | rfl
    · show Turn k id i due o got s x
        (y.endFetch id i _ due _ ((k.mode got).last (.ok none)), true)
      rw [Manner.last_mode]
      exact .done _ hstays hsub hyields
    · dsimp only
      rw [Manner.last_mode]
      exact .done _ hstays hsub hyields
  · rw [hlook]
    exact .waits hqueue hw hf

end DemandFlow.Exchange
