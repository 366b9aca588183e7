import DemandFlow.Proofs.Broker.Shape
import DemandFlow.Proofs.Drain.Ledger
import DemandFlow.Proofs.Pace.Bound
import DemandFlow.Proofs.Pace.Toll

/-
  At one instant the traffic between a broker and its consumer comes to an end. What the broker
  sends is paid for by what it had to do when the clock stopped, and by the requests that come in
  since; each of these answers a frame that was taken in, and so sent before. Then the law of the
  number of requests, at any moment of any run, together with this.
-/

namespace DemandFlow

open Broker (Command State inboxName)

def Broker.Command.isPublish : Command → Bool
  | .publish _ => true
  | .register _ | .pull _ _ | .unsubscribe _ | .inject _ _ | .stats _ | .pullLog _ => false

namespace Loopback

/-- The messages that a broker has, and those that wait for it. -/
def published (l : Loopback) : Nat :=
  l.broker.stream.size + l.commands.toList.countP Command.isPublish

/-- What a broker can still come to at one instant, its commands included. -/
def toll (n now : Nat) (l : Loopback) : Nat :=
  l.broker.toll n now + 2 * (l.commands.toList.filterMap Command.request?).length

end Loopback

/-- How many messages are published; a script takes none. -/
def Transport.published : Transport → Nat
  | .loopback l => l.published
  | .scripted _ => 0

def tolls (fs : List Frame) : Nat := (fs.map Frame.toll).sum

theorem tolls_eq (fs : List Frame) : tolls fs = fs.length + 3 * reactions fs := by
  induction fs with
  | nil => rfl
  | cons f fs ih =>
    have ht : tolls (f :: fs) = f.toll + tolls fs := List.sum_cons
    have hr : reactions (f :: fs) = reactions fs + if f.reacts then 1 else 0 := List.countP_cons
    rw [ht, hr, ih, List.length_cons]
    unfold Frame.toll
    cases f.reacts <;> simp only [if_true, Bool.false_eq_true, if_false] <;> omega

theorem tolls_append (fs gs : List Frame) : tolls (fs ++ gs) = tolls fs + tolls gs := by
  unfold tolls
  rw [List.map_append, List.sum_append]

theorem tolls_mono {fs gs : List Frame} (h : fs.Sublist gs) : tolls fs ≤ tolls gs := by
  rw [tolls_eq, tolls_eq]
  exact Nat.add_le_add h.length_le (Nat.mul_le_mul_left 3 h.countP_le)

/-! ## Traffic -/

/-- Whether something passes between a broker and a consumer: a frame that goes out or is taken
in, or a request. -/
def Deed.isTraffic : Deed → Bool
  | .sent _ | .lost _ | .took _ | .pulled _ => true
  | .injected _ | .told _ | .called _ _ | .read _ | .drained _ => false

def traffic (past : List Deed) : List Deed := past.filter Deed.isTraffic

theorem traffic_cons (d : Deed) (past : List Deed) :
    traffic (d :: past) = (if d.isTraffic then [d] else []) ++ traffic past := by
  unfold traffic
  rw [List.filter_cons]
  cases d.isTraffic <;> rfl

theorem length_traffic (past : List Deed) :
    (traffic past).length =
      (framesOut past).length + (framesTook past).length + (requestsMade past).length := by
  induction past with
  | nil => rfl
  | cons d past ih =>
    rw [traffic_cons, List.length_append, ih]
    unfold framesOut framesTook requestsMade
    rw [List.filterMap_cons, List.filterMap_cons, List.filterMap_cons]
    cases d <;> simp only [Deed.isTraffic, Deed.out?, Deed.took?, Deed.pulled?, if_true,
      Bool.false_eq_true, if_false, List.length_cons, List.length_nil] <;> omega

theorem framesSent_sublist (past : List Deed) : (framesSent past).Sublist (framesOut past) := by
  induction past with
  | nil => exact List.nil_sublist _
  | cons d past ih =>
    unfold framesSent framesOut
    rw [List.filterMap_cons, List.filterMap_cons]
    cases d with
    | sent f => exact ih.cons_cons f
    | lost f => exact ih.cons f
    | _ => exact ih

/-! ## One move -/

namespace Loopback

variable {l l' : Loopback} {now n : Nat} {ds : List (Nat × Deed)}

/-- What is published stays so. -/
theorem Goes.published_le (h : l.Goes now ds l') : l.published ≤ l'.published := by
  unfold published
  cases h with
  | queued ds l' quiet broker commands =>
    rw [broker]
    exact Nat.add_le_add_left commands.sublist.countP_le _
  | chore b work =>
    have hstream : b.stream = l.broker.stream :=
      (congrArg (·.1.stream) work).symm.trans (l.broker.stream_work now)
    exact Nat.le_of_eq (congrArg (·.size + _) hstream.symm)
  | command c rest agenda next =>
    rw [Fifo.toList_of_pop? next, List.countP_cons]
    cases c with
    | publish m =>
      show _ ≤ (l.broker.stream.push m).size + _
      rw [Array.size_push, if_pos (show Command.isPublish (.publish m) = true from rfl)]
      exact Nat.le_of_eq (Nat.add_right_comm _ _ 1)
    | pull dest r =>
      have hstream : (l.broker.accept now (.pull dest r)).stream = l.broker.stream := by
        show (l.broker.request now dest r).stream = _
        rcases State.request_cases now dest r l.broker with ⟨_, he⟩ | ⟨s, _, _, he⟩ | ⟨_, _, he⟩ <;>
          rw [he] <;> rfl
      exact Nat.le_of_eq (congrArg (·.size + _) hstream.symm)
    | _ => exact Nat.le_refl _
  | _ => exact Nat.le_refl _

/-- A move takes off the toll what goes out, and adds what is asked for. -/
theorem Goes.toll_le (h : l.Goes now ds l') (hs : l.broker.IsSteady) (hn : l'.published ≤ n) :
    l'.broker.IsSteady ∧
      l'.toll n now + (framesOut (deedsOf 0 ds)).length + tolls (framesOut (deedsOf 0 ds)) ≤
        l.toll n now + 2 * (requestsOf ds).length := by
  have hstream : l.broker.stream.size ≤ n :=
    Nat.le_trans (Nat.le_add_right _ _) (Nat.le_trans h.published_le hn)
  have hout : ∀ f : Frame, tolls [f] = f.toll := fun f => List.sum_singleton
  unfold toll
  cases h with
  | queued ds l' quiet broker commands asked =>
    have hnone : framesOut (deedsOf 0 ds) = [] := by
      refine List.filterMap_eq_nil_iff.2 fun d hd => ?_
      obtain ⟨q, hq, rfl⟩ := List.mem_map.1 hd
      exact quiet q (List.mem_filter.1 hq).1
    unfold requested at asked
    rw [broker, List.length_append, List.length_append] at asked
    rw [broker, hnone]
    refine ⟨hs, ?_⟩
    show _ + 0 + 0 ≤ _
    omega
  | chore b work =>
    obtain ⟨hb, hle⟩ := hs.work hstream work
    exact ⟨hb, Nat.add_le_add_right hle _⟩
  | sent f rest agenda =>
    obtain ⟨hb, heq⟩ := hs.post n now agenda
    refine ⟨hb, ?_⟩
    show _ + 1 + tolls [f] ≤ _ + 0
    rw [hout]
    dsimp only
    omega
  | lost f rest agenda =>
    obtain ⟨hb, heq⟩ := hs.post n now agenda
    refine ⟨hb, ?_⟩
    show _ + 1 + tolls [f] ≤ _ + 0
    rw [hout]
    dsimp only
    omega
  | shunned f rest agenda =>
    obtain ⟨hb, heq⟩ := hs.post n now agenda
    obtain ⟨hb', hle⟩ := hb.forget n now (inboxName 1)
    refine ⟨hb', ?_⟩
    show _ + 1 + tolls [f] ≤ _ + 0
    rw [hout]
    dsimp only
    omega
  | dropped dest f rest agenda =>
    obtain ⟨hb, heq⟩ := hs.post n now agenda
    refine ⟨hb, ?_⟩
    show _ + 0 + 0 ≤ _ + 0
    dsimp only
    omega
  | command c rest agenda next plain patient =>
    obtain ⟨hb, hle⟩ := hs.accept (n := n) now plain patient
    refine ⟨hb, ?_⟩
    rw [Fifo.toList_of_pop? next, List.filterMap_cons]
    show _ + 0 + 0 ≤ _ + 0
    cases hc : c.request? with
    | none =>
      rw [hc, Option.isSome_none, if_neg Bool.false_ne_true] at hle
      dsimp only
      omega
    | some r =>
      rw [hc, Option.isSome_some, if_pos rfl] at hle
      dsimp only
      rw [List.length_cons]
      omega
  | timers agenda =>
    obtain ⟨hb, hle⟩ := hs.fireTimers (n := n) now
    exact ⟨hb, Nat.add_le_add_right hle _⟩
  | ended => exact ⟨hs, Nat.le_refl _⟩

end Loopback

/-! ## Runs -/

namespace Exchange

variable {t : Transport} {keeps : Bool} {capacity : Nat} {ms ns : List Move} {l l' : Loopback}

/-- A move that does not move the clock. -/
def Move.IsPrompt (m : Move) : Prop := ∀ now, m ≠ .clock now

theorem now_after (x : Exchange) (hns : ∀ m ∈ ns, m.IsPrompt) : (x.after ns).now = x.now := by
  induction ns using List.reverseRecOn with
  | nil => rfl
  | append_singleton ns m ih =>
    rw [after_append]
    exact (now_next _ (hns m (List.mem_append_right _ List.mem_cons_self))).trans
      (ih fun n hn => hns n (List.mem_append_left _ hn))

/-- A broker in such a run, with the tidiness that it keeps. -/
theorem IsSole.goes (ht : IsNew t) {m : Move} (h : IsSole (.start t keeps capacity) (ms ++ [m]))
    (hl : ((start t keeps capacity).after (ms ++ [m])).transport = .loopback l') :
    IsSole (.start t keeps capacity) ms ∧ ∃ l,
      ((start t keeps capacity).after ms).transport = .loopback l ∧
      l.Goes ((start t keeps capacity).after ms).now (((start t keeps capacity).after ms).deeds m)
        l' := by
  have hbefore := h.before (since_start false ht keeps capacity ms fun hc => by cases hc).toTame
  rw [after_append] at hl
  obtain ⟨l, hx⟩ := loopback_before (x := (start t keeps capacity).after ms) (m := m) hl
  obtain ⟨l'', hl'', hgoes⟩ := (hbefore.alone ht hx).next (hbefore.inPace ht hx).paced m
  cases hl''.symm.trans hl
  exact ⟨hbefore, l, hx, hgoes⟩

theorem IsSole.steady (ht : IsNew t) (h : IsSole (.start t keeps capacity) ms)
    (hl : ((start t keeps capacity).after ms).transport = .loopback l) : l.broker.IsSteady := by
  induction ms using List.reverseRecOn generalizing l with
  | nil =>
    cases ht with
    | loopback limits alive =>
      cases hl
      exact Broker.State.isSteady_start limits
    | scripted => cases hl
  | append_singleton ms m ih =>
    obtain ⟨hbefore, l₀, hl₀, hgoes⟩ := h.goes ht hl
    exact (hgoes.toll_le (ih hbefore hl₀) (Nat.le_refl _)).1

/-- What goes out at one instant is paid for. -/
theorem IsSole.toll_le (ht : IsNew t) (h : IsSole (.start t keeps capacity) (ms ++ ns))
    (hns : ∀ m ∈ ns, m.IsPrompt) (hl : ((start t keeps capacity).after ms).transport = .loopback l)
    (hl' : ((start t keeps capacity).after (ms ++ ns)).transport = .loopback l') {n : Nat}
    (hn : l'.published ≤ n) :
    l'.toll n ((start t keeps capacity).after ms).now +
        (framesOut (deedsOf 0 (((start t keeps capacity).after ms).record ns))).length +
        tolls (framesOut (deedsOf 0 (((start t keeps capacity).after ms).record ns))) ≤
      l.toll n ((start t keeps capacity).after ms).now +
        2 * (requestsOf (((start t keeps capacity).after ms).record ns)).length := by
  induction ns using List.reverseRecOn generalizing l' with
  | nil =>
    rw [List.append_nil] at hl'
    cases hl.symm.trans hl'
    exact Nat.le_refl _
  | append_singleton ns m ih =>
    rw [← List.append_assoc] at h hl'
    obtain ⟨hbefore, l₀, hl₀, hgoes⟩ := h.goes ht hl'
    have hprompt : ∀ m ∈ ns, m.IsPrompt := fun m hm => hns m (List.mem_append_left _ hm)
    have hpast := ih hbefore hprompt hl₀ (Nat.le_trans hgoes.published_le hn)
    have hnow := (hgoes.toll_le (hbefore.steady ht hl₀) hn).2
    rw [after_append, now_after _ hprompt] at hnow
    rw [record_concat, deedsOf_append, framesOut_append, tolls_append, requestsOf_append,
      List.length_append, List.length_append]
    omega

/-- In one move the first subscription makes a request for each frame that it reacts to at most,
and one when it is opened. -/
theorem requestsMade_next_le {x : Exchange} (h : Tame false x)
    (hc : ∀ s, x.subs[0]? = some s → ∃ c, s.purpose = .continuous c) (m : Move) :
    (requestsMade (deedsOf 0 (x.deeds m))).length + x.subs.size ≤
      reactions (framesTook (deedsOf 0 (x.deeds m))) + (x.next m).subs.size := by
  have hone := (Since.refl h).next m fun hc => by cases hc
  have hgrown := hone.grown
  cases hs : x.subs[0]? with
  | some s =>
    obtain ⟨c, hc⟩ := hc s hs
    exact Nat.add_le_add (requestsMade_deeds_le hs hc m) hgrown
  | none =>
    have hz := Array.getElem?_eq_none_iff.1 hs
    rcases Nat.eq_zero_or_pos (x.next m).subs.size with hnone | hpos
    · have hdeeds := deedsOf_eq_nil hone.born (Nat.le_of_eq hnone)
      rw [List.nil_append] at hdeeds
      rw [hdeeds]
      show 0 + _ ≤ 0 + _
      omega
    · have hle := requestsMade_deeds_le_one h hz m
      omega

theorem IsSole.requestsMade_le (ht : IsNew t)
    (h : IsSole (.start t keeps capacity) (ms ++ ns)) :
    (requestsMade (deedsOf 0 (((start t keeps capacity).after ms).record ns))).length +
        ((start t keeps capacity).after ms).subs.size ≤
      reactions (framesTook (deedsOf 0 (((start t keeps capacity).after ms).record ns))) +
        ((start t keeps capacity).after (ms ++ ns)).subs.size := by
  induction ns using List.reverseRecOn with
  | nil =>
    rw [List.append_nil]
    exact Nat.le_refl _
  | append_singleton ns m ih =>
    rw [← List.append_assoc] at h
    have hsince := since_start false ht keeps capacity (ms ++ ns) fun hc => by cases hc
    have hbefore := h.before hsince.toTame
    have hpast := ih hbefore
    have hmove := requestsMade_next_le hsince.toTame hbefore.consumer m
    have hnext : (start t keeps capacity).after (ms ++ (ns ++ [m])) =
        ((start t keeps capacity).after (ms ++ ns)).next m := by
      rw [← List.append_assoc, after_append]
      rfl
    rw [after_append _ ms ns] at hmove hpast
    rw [hnext, after_append _ ms ns, record_concat, deedsOf_append, requestsMade_append,
      framesTook_append, reactions_append, List.length_append]
    omega

/-- What was taken in was sent before. -/
theorem IsSole.tolls_took_le (ht : IsNew t) (h : IsSole (.start t keeps capacity) ms) :
    tolls (framesTook (deedsOf 0 ((start t keeps capacity).record ms))) ≤
      tolls (framesSent (deedsOf 0 ((start t keeps capacity).record ms))) := by
  have hsince := since_start true ht keeps capacity ms fun _ => h.calm
  cases hs : ((start t keeps capacity).after ms).subs[0]? with
  | none =>
    rw [deedsOf_eq_nil hsince.born (Array.getElem?_eq_none_iff.1 hs)]
    exact Nat.le_refl _
  | some s =>
    obtain ⟨f, _, hL⟩ := hsince.lane_of_sub hs
    obtain ⟨L₀, hfresh, hrun⟩ := hsince.fresh_run hL
    have hprefix := (Lane.takesIn_run (Lane.takesIn_fresh hfresh) hrun).inOrder
    rw [Lane.framesEntered_run hrun] at hprefix
    exact tolls_mono hprefix.sublist

/-- How much can pass between a broker and its consumer at one instant. -/
theorem IsSole.length_traffic_le (ht : IsNew t)
    (h : IsSole (.start t keeps capacity) (ms ++ ns)) (hns : ∀ m ∈ ns, m.IsPrompt)
    (hl : ((start t keeps capacity).after ms).transport = .loopback l)
    (hl' : ((start t keeps capacity).after (ms ++ ns)).transport = .loopback l')
    (hn : l'.published = l.published) :
    (traffic (deedsOf 0 (((start t keeps capacity).after ms).record ns))).length ≤
      l.toll l.published ((start t keeps capacity).after ms).now +
        tolls (framesSent (deedsOf 0 ((start t keeps capacity).record ms))) + 3 := by
  have hsince := since_start true ht keeps capacity (ms ++ ns) fun _ => h.calm
  have hout := h.toll_le ht hns hl hl' (Nat.le_of_eq hn)
  have hmade := h.requestsMade_le ht
  have htook := h.tolls_took_le ht
  have hsub := tolls_mono (framesSent_sublist
    (deedsOf 0 (((start t keeps capacity).after ms).record ns)))
  have hrequests : requestsOf (((start t keeps capacity).after ms).record ns) =
      requestsMade (deedsOf 0 (((start t keeps capacity).after ms).record ns)) :=
    deedsOf_zero fun p hp => Nat.lt_of_lt_of_le (hsince.born p (by
      rw [record_append]
      exact List.mem_append_right _ hp)) h.size
  have hsize := h.size
  rw [record_append, deedsOf_append, framesTook_append, framesSent_append, tolls_append,
    tolls_append, tolls_eq (framesTook (deedsOf 0 (((start t keeps capacity).after ms).record ns)))]
    at htook
  rw [hrequests] at hout
  rw [length_traffic]
  omega

/-- At every point of a run with one consumer on a broker, the broker knows of no more requests
than one, two for each message that it sent, and one for each timeout. And once the clock stands
still and nothing more is published, no more than so much passes between the two, however long
they go on. -/
theorem no_pull_storm (limits : Broker.Limits) (alive keeps : Bool) (capacity : Nat)
    (ms : List Move) (h : IsSole (.start (.loopback (.start limits alive)) keeps capacity) ms) :
    let x₀ := start (.loopback (.start limits alive)) keeps capacity
    (∃ l, (x₀.after ms).transport = .loopback l ∧ l.broker.pullLog.length ≤
      1 + 2 * (messagesSent (deedsOf 0 (x₀.record ms))).length +
        timeouts (framesSent (deedsOf 0 (x₀.record ms)))) ∧
    ∃ n, ∀ ns, IsSole x₀ (ms ++ ns) → (∀ m ∈ ns, m.IsPrompt) →
      (x₀.after (ms ++ ns)).transport.published = (x₀.after ms).transport.published →
      (traffic (deedsOf 0 ((x₀.after ms).record ns))).length ≤ n := by
  intro x₀
  have ht : IsNew (.loopback (.start limits alive)) := .loopback limits alive
  obtain ⟨l, hl⟩ := loopback_after x₀ rfl ms
  refine ⟨⟨l, hl, h.pullLog_le ht hl⟩, l.toll l.published (x₀.after ms).now +
    tolls (framesSent (deedsOf 0 (x₀.record ms))) + 3, fun ns hns hprompt hsame => ?_⟩
  obtain ⟨l', hl'⟩ := loopback_after x₀ rfl (ms ++ ns)
  rw [hl, hl'] at hsame
  exact hns.length_traffic_le ht hprompt hl hl' hsame

/-- A consumer that asks for one message, gets it and asks again. -/
def oneHello : List Move :=
  Move.consume single .plain :: Move.publish hello :: List.replicate 6 (Move.turn .broker) ++
    Move.turn (.worker 0) :: List.replicate 2 (Move.turn .broker)

theorem oneHello_sole : IsSole (start (.loopback (.start .default true)) true 4) oneHello where
  calm := by
    intro m hm
    simp only [oneHello, List.cons_append, List.mem_cons, List.mem_append, List.mem_replicate] at hm
    rcases hm with rfl | rfl | ⟨_, rfl⟩ | rfl | ⟨_, rfl⟩
    · exact ⟨by decide, by decide⟩
    · exact trivial
    · exact trivial
    · exact trivial
    · exact trivial
  size := by decide +kernel
  consumer := by
    have hall : (((start (.loopback (.start .default true)) true 4).after oneHello).subs[0]?.all
        fun s => s.purpose.continuous?.isSome) = true := by decide +kernel
    intro s hs
    rw [hs] at hall
    obtain ⟨c, hc⟩ := Option.isSome_iff_exists.1 (show s.purpose.continuous?.isSome from hall)
    exact ⟨c, Purpose.continuous?_eq_some.1 hc⟩

/-- Two requests for one message. -/
theorem oneHello_calm :
    let x₀ := start (.loopback (.start .default true)) true 4
    IsSole x₀ oneHello ∧
    ((∃ l, (x₀.after oneHello).transport = .loopback l ∧ l.broker.pullLog.length ≤
      1 + 2 * (messagesSent (deedsOf 0 (x₀.record oneHello))).length +
        timeouts (framesSent (deedsOf 0 (x₀.record oneHello)))) ∧
    ∃ n, ∀ ns, IsSole x₀ (oneHello ++ ns) → (∀ m ∈ ns, m.IsPrompt) →
      (x₀.after (oneHello ++ ns)).transport.published =
        (x₀.after oneHello).transport.published →
      (traffic (deedsOf 0 ((x₀.after oneHello).record ns))).length ≤ n) ∧
    (requestsOf (x₀.record oneHello)).length = 2 ∧
    messagesSent (deedsOf 0 (x₀.record oneHello)) = [hello.withReply (ackSubject 1)] :=
  ⟨oneHello_sole, no_pull_storm .default true true 4 oneHello oneHello_sole, by decide +kernel,
    by decide +kernel⟩

end Exchange

end DemandFlow
