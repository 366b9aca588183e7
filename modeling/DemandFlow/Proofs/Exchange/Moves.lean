import DemandFlow.Proofs.Exchange.Core

/-
  Two moves that are parts of a task's step. `manage` is what the worker of a subscription does
  first with a frame: it takes the frame off the feed and enters it into the accounts. `fire` is
  the broker looking at its timers at a later instant, whether or not commands wait.
-/

namespace DemandFlow.Exchange

variable {x : Exchange} {l : Loopback}

/-- A feed without the frames before `rest`. -/
def popped (x : Exchange) (i : Nat) (rest : Fifo Frame) : Exchange :=
  (x.modifyFeed i fun feed => { feed with frames := rest }).wakeHeldUp

/-- The next frame of a subscription is entered into its accounts. -/
def manage (x : Exchange) (i : Nat) : Exchange :=
  match x.subs[i]? with
  | none => x
  | some s =>
    match (x.feeds[s.feed]?).bind fun feed => feed.frames.pop? with
    | none => x
    | some (f, rest) => (x.popped s.feed rest).account i s f

/-- The clock moves on, and a broker that is between two commands settles what is due. -/
def fire (x : Exchange) (later : Nat) : Exchange :=
  let x := { x with now := x.now + later }
  match x.transport with
  | .loopback l =>
    if l.broker.agenda.isEmpty then x.setBroker l (l.broker.fireTimers x.now) else x
  | .scripted _ => x

/-- A worker that reads a frame first manages it, and then hands it on. -/
theorem readStep_of_frame {i : Nat} {s : Subscription} {feed : Feed} {f : Frame}
    {rest : Fifo Frame} (hs : x.subs[i]? = some s) (hf : x.feeds[s.feed]? = some feed)
    (hp : feed.frames.pop? = some (f, rest)) :
    x.manage i = (x.popped s.feed rest).account i s f ∧
      x.readStep i s = (x.popped s.feed rest).takeFrame i s f := by
  refine ⟨?_, ?_⟩
  · unfold manage
    rw [hs]
    dsimp only
    rw [hf, Option.bind_some, hp]
  · unfold readStep
    rw [hf]
    dsimp only
    rw [hp]
    rfl

theorem core_popped (x : Exchange) (i : Nat) (rest : Fifo Frame) :
    (x.popped i rest).core = { x.core with
      feeds := x.core.feeds.modify i fun feed => { feed with frames := rest } } := by
  unfold popped
  rw [core_wakeHeldUp, core_modifyFeed]

/-- To manage a frame changes the feed and the tracker of one subscription. -/
theorem core_manage (x : Exchange) (i : Nat) :
    (x.manage i).core = x.core ∨
    ∃ s feed f rest, x.core.subs[i]? = some s ∧ x.core.feeds[s.feed]? = some feed ∧
      feed.frames.toList = f :: rest.toList ∧
      (x.manage i).core = { x.core with
        feeds := x.core.feeds.modify s.feed fun feed => { feed with frames := rest }
        subs := x.core.subs.modify i fun u =>
          { u with tracker := s.tracker.account x.core.now f } } := by
  unfold manage
  cases hs : x.subs[i]? with
  | none => exact Or.inl rfl
  | some s =>
    dsimp only
    cases hf : x.feeds[s.feed]? with
    | none => exact Or.inl rfl
    | some feed =>
      rw [Option.bind_some]
      cases hp : feed.frames.pop? with
      | none => exact Or.inl rfl
      | some q =>
        refine Or.inr ⟨s, feed, q.1, q.2, hs, hf, Fifo.toList_of_pop? hp, ?_⟩
        dsimp only
        rw [core_account, core_popped]

theorem core_fire (h : x.core.transport = .loopback l) (later : Nat) :
    (x.fire later).core = { x.core with now := x.core.now + later } ∨
      l.broker.agenda = [] ∧ (x.fire later).core = { x.core with
        now := x.core.now + later
        transport := .loopback { l with
          broker := l.broker.fireTimers (x.core.now + later) } } := by
  have ht : x.transport = .loopback l := h
  unfold fire
  dsimp only
  rw [ht]
  dsimp only
  split
  · rename_i he
    exact Or.inr ⟨List.isEmpty_iff.1 he, rfl⟩
  · refine Or.inl ?_
    rw [← ht]
    rfl

end DemandFlow.Exchange
