import DemandFlow.Proofs.Collect.Reserved

/-
  What comes to the reader of a fetch. In its turn the worker passes on what it holds, if the queue
  has room and the subscription is not shut down, and the first reader in line is woken; so it is
  when the worker ends. Nobody else adds to the queue, so that `arrived` is all that came in a run.
-/

namespace DemandFlow

/-- What the worker passes to the queue in its turn. -/
def Subscription.passes (s : Subscription) : List Delivery :=
  match s.worker with
  | .holding d => if s.closed || !s.hasRoom then [] else [d]
  | .reading | .ended => []

theorem Subscription.passes_of_closed {s : Subscription} (h : s.closed = true) :
    s.passes = [] := by
  unfold passes
  rw [h]
  cases s.worker with
  | holding d => rfl
  | reading | ended => rfl

namespace Exchange

variable {x : Exchange} {i : Nat} {s : Subscription}

/-- What comes into the queue of a subscription by a move. -/
def arriving (x : Exchange) (i : Nat) : Move → List Delivery
  | .turn (.worker j) => if j = i then ((x.subs[i]?).map Subscription.passes).getD [] else []
  | _ => []

/-- What comes into the queue of a subscription in a run. -/
def arrived (x : Exchange) (i : Nat) : List Move → List Delivery
  | [] => []
  | m :: ms => x.arriving i m ++ (x.follow m).arrived i ms

theorem arriving_worker (hs : x.subs[i]? = some s) :
    x.arriving i (.turn (.worker i)) = s.passes := by
  show (if i = i then _ else _) = _
  rw [if_pos rfl, hs]
  rfl

theorem arriving_of_ne {m : Move} (h : m ≠ .turn (.worker i)) : x.arriving i m = [] := by
  cases m with
  | turn t =>
    cases t with
    | worker j => exact if_neg fun he => h (by rw [he])
    | _ => rfl
  | _ => rfl

theorem arriving_of_closed (hs : x.subs[i]? = some s) (hc : s.closed = true) (m : Move) :
    x.arriving i m = [] := by
  by_cases hm : m = .turn (.worker i)
  · rw [hm, arriving_worker hs, Subscription.passes_of_closed hc]
  · exact arriving_of_ne hm

/-! ## The turn of the worker -/

/-- From `x` to `y` the worker of a subscription passed on what it could, and left readers and
purpose alone. If it brought something or ended, the first reader was woken. -/
structure PassesOn (x : Exchange) (i : Nat) (s : Subscription) (y : Exchange) (u : Subscription) :
    Prop where
  sub : y.subs[i]? = some u
  readers : u.readers = s.readers
  purpose : u.purpose = s.purpose
  queue : u.queue.toList = s.queue.toList ++ s.passes
  wakes : y = x ∨ s.passes = [] ∧ u.worker ≠ .ended ∨ ∀ t ∈ readerAt s, t ∈ y.ready

theorem passesOn_same (hs : x.subs[i]? = some s) (hnone : s.passes = []) :
    PassesOn x i s x s :=
  ⟨hs, rfl, rfl, hnone ▸ (List.append_nil _).symm, Or.inl rfl⟩

/-- A worker that ends wakes the first reader. -/
theorem passesOn_endWorker (hf : x.foreground = none) (hs : x.subs[i]? = some s)
    (hnone : s.passes = []) (x₀ : Exchange) : PassesOn x₀ i s (x.endWorker i) s.ended := by
  refine ⟨?_, rfl, rfl, hnone ▸ (List.append_nil _).symm, Or.inr (Or.inr fun t ht => ?_)⟩
  · rw [subs_endWorker, Array.getElem?_modify, if_pos rfl, hs]
    rfl
  · have hsub : (x.close i).subs[i]? = some s.shut := by
      rw [subs_close, Array.getElem?_modify, if_pos rfl, hs]
      rfl
    unfold endWorker
    dsimp only
    rw [hsub]
    dsimp only
    refine (stays_wake _ _).ready _ ((stays_wakeAll _ _).ready _ (mem_wakeAll ?_ ht))
    unfold abandonFeed
    exact ((stays_modifyFeed _ _ _).trans (stays_wakeIf _ _ _)).foreground.trans
      ((stays_close x i).foreground.trans hf)

/-- A worker that holds a delivery waits until there is room for it. -/
theorem passesOn_holdStep (hf : x.foreground = none) (hs : x.subs[i]? = some s) {d : Delivery}
    (hw : s.worker = .holding d) (hc : s.closed = false) :
    ∃ u, PassesOn x i s (x.holdStep i s d).1 u := by
  unfold holdStep
  cases hroom : s.hasRoom with
  | true =>
    have hpass : s.passes = [d] := by
      unfold Subscription.passes
      rw [hw, hc, hroom]
      rfl
    have hf' : (x.modifySub i (·.enqueue d)).foreground = none := hf
    refine ⟨s.enqueue d, ?_, rfl, rfl, ?_, Or.inr (Or.inr fun t ht => mem_wakeAll hf' ht)⟩
    · rw [if_pos rfl, subs_wakeAll]
      show (x.subs.modify i _)[i]? = _
      rw [Array.getElem?_modify, if_pos rfl, hs]
      rfl
    · rw [hpass]
      exact Fifo.toList_push s.queue d
  | false =>
    refine ⟨s, passesOn_same hs ?_⟩
    unfold Subscription.passes
    rw [hw, hc, hroom]
    rfl

/-- A worker that reads may come to hold something, and ends with its feed. -/
theorem passesOn_readStep (hf : x.foreground = none) (hs : x.subs[i]? = some s) {f : Fetch}
    {due : Nat} (hp : s.purpose = .fetch f due) (hw : s.worker = .reading) :
    ∃ u, PassesOn x i s (x.readStep i s).1 u := by
  have hnone : s.passes = [] := by
    unfold Subscription.passes
    rw [hw]
  by_cases hend : ∃ feed, x.feeds[s.feed]? = some feed ∧ feed.frames.pop? = none ∧
      feed.writing = false
  · obtain ⟨feed, hfeed, hpop, hwriting⟩ := hend
    rw [readStep_of_ended hfeed hpop hwriting]
    have hf' : (x.note (Journal.feedEnded s.inbox)).foreground = none := hf
    exact ⟨s.ended, passesOn_endWorker hf' hs hnone x⟩
  · let P : Shelf → Prop := fun h => h.queue = s.queue ∧ h.readers = s.readers ∧
      h.purpose = s.purpose ∧ h.worker ≠ .ended
    have hbefore : Reserved P (fun _ => True) i x :=
      ⟨⟨s, hs, rfl, rfl, rfl, fun he => by cases hw.symm.trans he⟩, fun _ _ _ => trivial⟩
    have hholds : Shelf.Holds P := fun _ _ hne h => ⟨h.1, h.2.1, h.2.2.1, hne⟩
    have hafter : Reserved P (fun _ => True) i (x.readStep i s).1 :=
      hbefore.readStep_open (fun _ => ⟨hholds, f, due, hp⟩) fun feed hfeed hpop =>
        eq_true_of_ne_false fun hno => hend ⟨feed, hfeed, hpop, hno⟩
    obtain ⟨u, hu, hq, hr, hpu, hne⟩ := hafter.shelf
    refine ⟨u, hu, hr, hpu, ?_, Or.inr (Or.inl ⟨hnone, hne⟩)⟩
    rw [hnone, List.append_nil]
    exact congrArg Fifo.toList hq

theorem passesOn_workerStep (hf : x.foreground = none) (hs : x.subs[i]? = some s) {f : Fetch}
    {due : Nat} (hp : s.purpose = .fetch f due) : ∃ u, PassesOn x i s (x.workerStep i).1 u := by
  unfold workerStep
  rw [hs]
  dsimp only
  cases hw : s.worker with
  | ended =>
    refine ⟨s, passesOn_same hs ?_⟩
    unfold Subscription.passes
    rw [hw]
  | holding d =>
    cases hc : s.closed with
    | true => exact ⟨_, passesOn_endWorker hf hs (Subscription.passes_of_closed hc) x⟩
    | false => exact passesOn_holdStep hf hs hw hc
  | reading =>
    cases hc : s.closed with
    | true => exact ⟨_, passesOn_endWorker hf hs (Subscription.passes_of_closed hc) x⟩
    | false => exact passesOn_readStep hf hs hp hw

end Exchange

end DemandFlow
