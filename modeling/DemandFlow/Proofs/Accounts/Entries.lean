import DemandFlow.Proofs.Accounts.Steps

/-
  What a move enters into the accounts of a subscription: a request that is added, or a frame
  that is taken in; most moves enter nothing. A law about demand beside what is on its way holds
  in all runs when it bears these entries (`keeps_next`).
-/

namespace DemandFlow

namespace Exchange

/-- The frame that a subscription manages next. -/
def nextFrame? (x : Exchange) (i : Nat) : Option Frame :=
  (x.subs[i]?).bind fun s =>
    (x.feeds[s.feed]?).bind fun feed => feed.frames.pop?.map Prod.fst

theorem manage_of_none {x : Exchange} {i : Nat} (h : x.nextFrame? i = none) : x.manage i = x := by
  unfold nextFrame? at h
  unfold manage
  cases hs : x.subs[i]? with
  | none => rfl
  | some s =>
    rw [hs, Option.bind_some] at h
    dsimp only
    cases hf : x.feeds[s.feed]? with
    | none => rfl
    | some feed =>
      rw [hf, Option.bind_some, Option.map_eq_none_iff] at h
      rw [Option.bind_some, h]

theorem manage_of_some {x : Exchange} {i : Nat} {f : Frame} (h : x.nextFrame? i = some f) :
    ∃ s feed rest, x.core.subs[i]? = some s ∧ x.core.feeds[s.feed]? = some feed ∧
      feed.frames.toList = f :: rest.toList ∧
      (x.manage i).core = { x.core with
        feeds := x.core.feeds.modify s.feed fun feed => { feed with frames := rest }
        subs := x.core.subs.modify i fun u =>
          { u with tracker := s.tracker.account x.core.now f } } := by
  unfold nextFrame? at h
  cases hs : x.subs[i]? with
  | none =>
    rw [hs] at h
    cases h
  | some s =>
    rw [hs, Option.bind_some] at h
    cases hf : x.feeds[s.feed]? with
    | none =>
      rw [hf] at h
      cases h
    | some feed =>
      rw [hf, Option.bind_some] at h
      obtain ⟨⟨g, rest⟩, hp, rfl⟩ := Option.map_eq_some_iff.1 h
      refine ⟨s, feed, rest, hs, hf, Fifo.toList_of_pop? hp, ?_⟩
      unfold manage
      rw [hs]
      dsimp only
      rw [hf, Option.bind_some, hp]
      dsimp only
      rw [core_account, core_popped]

end Exchange

namespace Accounts

open Broker (Command inboxName)
open Exchange (Core)

/-- The counts of a move fit. -/
def Move.Fits : Move → Prop
  | .pull _ r => r.Fits
  | .opened _ | .publish _ | .broker | .timers _ | .manage _ | .unsubscribe _ | .leave _ => True

/-- What is entered into the accounts of a subscription. -/
inductive Entry where
  | added (r : PullRequest)
  | took (f : Frame)

/-- What a move enters, with the number of the subscription. -/
def Run.entry? (w : Run) : Move → Option (Nat × Entry)
  | .pull i r => if isOpen w.exchange i then some (i, .added r) else none
  | .manage i => (w.exchange.nextFrame? i).map fun f => (i, .took f)
  | .opened _ | .publish _ | .broker | .timers _ | .unsubscribe _ | .leave _ => none

/-- A law `P` before an entry leads to a law `P'` after it. A request that is added and goes out
is on its way; a frame that is taken in is so no more. -/
structure Bears (P P' : Nat → Demand → Nat → Prop) (entry : Option (Nat × Entry)) : Prop where
  still : ∀ i d n, (∀ e, entry ≠ some (i, e)) → P i d n → P' i d n
  added : ∀ i r d n, entry = some (i, .added r) → P i d n →
    P' i (d.add r) (n + if r.GoesOut then r.batch else 0)
  took : ∀ i f d n, entry = some (i, .took f) → f.Honest → P i d (f.weight + n) →
    P' i (d.take f) n

theorem issue_eq_none_iff {now : Nat} {r : PullRequest} {t : Tracker} :
    t.issue now r = none ↔ ¬r.GoesOut := by
  unfold Tracker.issue Monitor.configure PullRequest.GoesOut
  rw [Option.map_eq_none_iff, Option.map_eq_none_iff, Decidable.not_not]

section Keeps

variable {P P' : Nat → Demand → Nat → Prop} {l : Loopback}

theorem keeps_of_still {c : Core} (h : Keeps P c l) (hP : Bears P P' none) : Keeps P' c l :=
  ⟨h.toWired, fun i hi => hP.still i _ _ (fun _ => by simp) (h.fresh i hi),
    fun i s f hs hf hl hr => hP.still i _ _ (fun _ => by simp) (h.kept i s f hs hf hl hr)⟩

theorem keeps_start (hP : ∀ i, P i .none 0) (l : Broker.Limits) (keepsNotices : Bool)
    (queueCapacity : Nat) :
    Keeps P (Run.start l keepsNotices queueCapacity).exchange.core (.start l true) := by
  refine ⟨⟨rfl, rfl, rfl, rfl, rfl, ?_, ?_, Broker.lined_start l, Broker.State.sound_start l⟩,
    fun i _ => hP i, ?_⟩
  · intro i f hf
    cases hf
  · intro i s hs
    cases hs
  · intro i s f hs
    cases hs

theorem keeps_brokerStep {x : Exchange} (h : Keeps P x.core l) :
    ∃ l', Keeps P x.brokerStep.1.core l' := by
  rcases Exchange.brokerStep_cases h.transport h.alive with ⟨b, _, hw, he⟩ |
    ⟨b, inbox, a, hw, he⟩ | ⟨d, rest, _, hp, he⟩ | ⟨_, _, he⟩
  · rw [he]
    exact ⟨_, keeps_chore h hw⟩
  · rw [he]
    rcases Exchange.core_post x l b inbox a with ⟨hc, hn⟩ | ⟨hc, _⟩ |
      ⟨j, f, _, hj, _, _, _, hc⟩ | ⟨j, f, hk, _, _, _, hc⟩
    · rw [hc]
      exact ⟨_, keeps_dropped h hw hn⟩
    · rw [hc]
      exact ⟨l, h⟩
    · rw [hc]
      exact ⟨_, keeps_posted h hw hj⟩
    · rw [hc]
      exact ⟨_, keeps_refused h hw hk⟩
  · have hd := Fifo.toList_of_pop? hp
    have hplain := h.lined.plain d (by rw [hd]; exact List.mem_cons_self)
    rw [he]
    dsimp only
    rw [Exchange.core_takeCommand h.transport (fun asker e => by rw [e] at hplain; exact hplain)
      (fun asker e => by rw [e] at hplain; exact hplain) rest]
    exact ⟨_, keeps_take h hd⟩
  · rw [he]
    rcases Exchange.idle_cases x h.held with hi | ⟨due, hi⟩ | hi
    · rw [hi]
      exact ⟨_, keeps_fireTimers h x.core.now⟩
    · rw [hi]
      exact ⟨l, h⟩
    · rw [hi]
      exact ⟨l, h⟩

theorem keeps_pull {w : Run} (h : Keeps P w.exchange.core l) {i : Nat} {r : PullRequest}
    (hr : r.Fits) (hP : Bears P P' (w.entry? (.pull i r))) :
    ∃ l', Keeps P' (w.exchange.pull i r).1.core l' := by
  unfold Run.entry? isOpen at hP
  dsimp only at hP
  cases hs : w.exchange.core.subs[i]? with
  | none =>
    have hs' : w.exchange.subs[i]? = none := hs
    rw [hs'] at hP
    rw [Exchange.core_pull_closed (fun s hs' => by rw [hs] at hs'; cases hs') r]
    exact ⟨l, keeps_of_still h hP⟩
  | some s =>
    have hs' : w.exchange.subs[i]? = some s := hs
    rw [hs', Option.any_some] at hP
    cases hc : s.closed with
    | true =>
      rw [hc] at hP
      rw [Exchange.core_pull_closed (fun s' hs' => by rw [hs] at hs'; cases hs'; exact hc) r]
      exact ⟨l, keeps_of_still h hP⟩
    | false =>
      rw [hc] at hP
      have hstill : ∀ j d n, j ≠ i → P j d n → P' j d n := fun j d n hj =>
        hP.still j d n fun e he => hj (Prod.mk.inj (Option.some.inj he)).1.symm
      have hadd := fun d n => hP.added i r d n rfl
      cases ht : s.tracker.issue w.exchange.core.now r with
      | none =>
        rw [Exchange.core_pull_overflow hs hc ht]
        rw [if_neg (issue_eq_none_iff.1 ht)] at hadd
        exact ⟨_, keeps_strand h hs rfl hadd hstill⟩
      | some t =>
        have hg : r.GoesOut := by
          refine Decidable.not_not.1 fun hn => ?_
          rw [issue_eq_none_iff.2 hn] at ht
          cases ht
        rw [if_pos hg] at hadd
        rw [(Exchange.core_pull h.transport h.alive hs hc ht).2]
        exact ⟨_, keeps_issue (r := r) h hs ⟨hr.batch, hr.maxBytes⟩ rfl (Tracker.demand_issue ht)
          hadd hstill⟩

theorem keeps_manage_next {w : Run} (h : Keeps P w.exchange.core l) {i : Nat}
    (hP : Bears P P' (w.entry? (.manage i))) : Keeps P' (w.exchange.manage i).core l := by
  unfold Run.entry? at hP
  dsimp only at hP
  cases hn : w.exchange.nextFrame? i with
  | none =>
    rw [hn] at hP
    rw [Exchange.manage_of_none hn]
    exact keeps_of_still h hP
  | some f =>
    rw [hn] at hP
    obtain ⟨s, feed, rest, hs, hf, ha, hc⟩ := Exchange.manage_of_some hn
    rw [hc]
    refine keeps_manage h hs hf ha (fun d n => hP.took i f d n rfl) fun j d n hj => ?_
    exact hP.still j d n fun e he => hj (Prod.mk.inj (Option.some.inj he)).1.symm

/-- A law that bears what a move enters is kept by the move. -/
theorem keeps_next {w : Run} (h : Keeps P w.exchange.core l) {m : Move} (hm : m.Fits)
    (hP : Bears P P' (w.entry? m)) : ∃ l', Keeps P' (w.next m).exchange.core l' := by
  cases m with
  | pull i r => exact keeps_pull h hm hP
  | manage i => exact ⟨l, keeps_manage_next h hP⟩
  | opened p =>
    show ∃ l', Keeps P' (w.exchange.openSub p).1.core l'
    rw [(Exchange.core_openSub h.transport h.alive p).2]
    exact ⟨_, keeps_opened _ _ p (keeps_of_still h hP)⟩
  | publish m =>
    show ∃ l', Keeps P' (w.exchange.publish m).1.core l'
    rw [(Exchange.core_publish h.transport h.alive m).2]
    exact ⟨_, keeps_send (keeps_of_still h hP) (d := .publish _) trivial (fun _ => by simp)
      (fun _ _ => by simp [Command.dest?]) (fun _ => rfl) _⟩
  | broker => exact keeps_brokerStep (keeps_of_still h hP)
  | timers later =>
    show ∃ l', Keeps P' (w.exchange.fire later).core l'
    rcases Exchange.core_fire h.transport later with hc | ⟨_, hc⟩
    · rw [hc]
      exact ⟨l, keeps_now (keeps_of_still h hP) _⟩
    · rw [hc]
      exact ⟨_, keeps_fireTimers (keeps_of_still h hP) _⟩
  | unsubscribe i =>
    show ∃ l', Keeps P' (w.exchange.unsubscribe i).core l'
    rcases Exchange.core_unsubscribe h.transport h.alive i with hc | ⟨s, hs, hc⟩
    · rw [hc]
      exact ⟨l, keeps_alike (keeps_of_still h hP) (alike_shutDown _ _)⟩
    · rw [hc]
      have hsend := keeps_send (keeps_of_still h hP) (d := .unsubscribe s.inbox) trivial
        (fun _ => by simp) (fun k hk he => inbox_lt h.toWired hs k hk (Option.some.inj he))
        (fun _ => rfl) l.nextSequence
      exact ⟨_, keeps_alike hsend
        (alike_modify (alike_shutDown _ _) _ fun _ => ⟨rfl, rfl, rfl⟩)⟩
  | leave i =>
    show ∃ l', Keeps P' (w.exchange.endWorker i).core l'
    rcases Exchange.core_endWorker w.exchange i with hc | ⟨s, _, hc⟩
    · rw [hc]
      exact ⟨l, keeps_alike (keeps_of_still h hP) (alike_shutDown _ _)⟩
    · rw [hc]
      exact ⟨l, keeps_alike (keeps_abandon (keeps_of_still h hP) s.feed)
        (alike_modify (alike_shutDown _ _) _ fun _ => ⟨rfl, rfl, rfl⟩)⟩

end Keeps

end Accounts

end DemandFlow
