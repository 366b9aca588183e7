import DemandFlow.Proofs.Exchange.Events
import DemandFlow.Proofs.Pace.Requests

/-
  A broker with one consumer. `Goes` says all that a move can come to for such a broker, with what
  becomes known of the one subscription, so that a law about its traffic needs one case for each.
  The commands that it takes in are plain, and its requests may wait.
-/

namespace DemandFlow

open Broker (Chore Command Paced State inboxName)

/-- The frame that the broker has no longer, wherever it went. -/
def Deed.out? : Deed → Option Frame
  | .sent f | .lost f => some f
  | .injected _ | .took _ | .told _ | .called _ _ | .pulled _ | .read _ | .drained _ => none

/-- The frames that the broker is rid of. -/
def framesOut (past : List Deed) : List Frame := past.filterMap Deed.out?

theorem framesOut_append (past new : List Deed) :
    framesOut (past ++ new) = framesOut past ++ framesOut new := List.filterMap_append

/-- What a move can come to for a broker with one inbox. -/
inductive Loopback.Goes (now : Nat) (l : Loopback) : List (Nat × Deed) → Loopback → Prop where
  /-- Commands are put behind the others; who asks for more is known. -/
  | queued (ds : List (Nat × Deed)) (l' : Loopback) (quiet : ∀ q ∈ ds, q.2.out? = none)
      (broker : l'.broker = l.broker) (commands : l.commands.toList <+: l'.commands.toList)
      (asked : l'.requested.length ≤ l.requested.length + (requestsOf ds).length) :
    Goes now l ds l'
  | chore (b : State) (work : l.broker.work now = (b, none)) :
    Goes now l [] { l with broker := b }
  | sent (f : Frame) (rest : List Chore) (agenda : l.broker.agenda = .post (inboxName 1) f :: rest)
      (known : l.broker.knows (inboxName 1) = true) :
    Goes now l [(0, .sent f)] { l with broker := { l.broker with agenda := rest } }
  /-- A frame for an inbox that is not registered. -/
  | lost (f : Frame) (rest : List Chore) (agenda : l.broker.agenda = .post (inboxName 1) f :: rest)
      (unknown : l.broker.knows (inboxName 1) = false) :
    Goes now l [(0, .lost f)] { l with broker := { l.broker with agenda := rest } }
  /-- A frame for a feed that nobody reads. -/
  | shunned (f : Frame) (rest : List Chore)
      (agenda : l.broker.agenda = .post (inboxName 1) f :: rest)
      (known : l.broker.knows (inboxName 1) = true) :
    Goes now l [(0, .lost f)]
      { l with broker := State.forget { l.broker with agenda := rest } (inboxName 1) }
  /-- A frame for somebody else. -/
  | dropped (dest : String) (f : Frame) (rest : List Chore)
      (agenda : l.broker.agenda = .post dest f :: rest) (other : dest ≠ inboxName 1) :
    Goes now l [] { l with broker := { l.broker with agenda := rest } }
  | command (c : Command) (rest : Fifo Command) (agenda : l.broker.agenda = [])
      (next : l.commands.pop? = some (c, rest)) (plain : ∀ dest f, c ≠ .inject dest f)
      (patient : ∀ dest r, c = .pull dest r → r.noWait = false) :
    Goes now l [] { l with commands := rest, broker := l.broker.accept now c }
  | timers (agenda : l.broker.agenda = []) :
    Goes now l [] { l with broker := l.broker.fireTimers now }
  | ended : Goes now l [] { l with alive := false }

namespace Exchange

variable {x : Exchange} {l : Loopback}

/-! ## Moves without the broker -/

theorem out_of_frameDeeds (s : Subscription) (f : Frame) :
    ∀ d ∈ s.frameDeeds f, d.out? = none := by
  intro d hd
  unfold Subscription.frameDeeds at hd
  rcases List.mem_append.1 hd with hd | hd
  · rcases List.mem_cons.1 hd with rfl | hd
    · rfl
    · rcases Subscription.told_or_called_of_hears hd with
        ⟨st, rfl | rfl⟩ | ⟨m, kept, _, rfl, _⟩ <;> rfl
  · obtain ⟨r, _, rfl⟩ := List.mem_map.1 hd
    rfl

/-- Only the broker sends frames. -/
theorem out_of_deeds {m : Move} (hm : m ≠ .turn .broker) : ∀ q ∈ x.deeds m, q.2.out? = none := by
  intro q hq
  cases arises_of_mem hq with
  | sent | lost => exact absurd rfl hm
  | @worked j d hd =>
    rcases worker_cases x j with ⟨s, a, rest, _, hw⟩ | ⟨_, hw | ⟨s, f, _, hw, _⟩⟩
    · rw [hw] at hd
      rw [List.mem_singleton.1 hd]
      rfl
    · rw [hw] at hd
      cases hd
    · rw [hw] at hd
      exact out_of_frameDeeds s f d hd
  | _ => rfl

/-! ## One consumer -/

/-- A broker with one subscription at most, which makes requests that may wait, and with no
commands but plain ones. -/
structure Alone (x : Exchange) (l : Loopback) : Prop extends Tame true x where
  transport_eq : x.transport = .loopback l
  size : x.subs.size ≤ 1
  patient : ∀ r ∈ l.requested, r.noWait = false
  unasked : x.subs.size = 0 → l.requested = []

/-- The only feed is that of the first subscription. -/
theorem Alone.feedAt? (ha : Alone x l) {dest : String} {i : Nat} {feed : Feed}
    (h : x.feedAt? dest = some (i, feed)) : i = 0 ∧ dest = inboxName 1 := by
  obtain ⟨hf, rfl⟩ := feedAt?_eq_some h
  obtain ⟨hlt, _⟩ := Array.getElem?_eq_some_iff.1 hf
  have hsize := ha.size
  rw [ha.sizes] at hlt
  obtain rfl : i = 0 := by omega
  refine ⟨rfl, ?_⟩
  rw [ha.feeds 0 feed hf, ha.transport_eq]
  rfl

/-- A post for the inbox finds its feed. -/
theorem Alone.ne_of_feedAt? (ha : Alone x l) {k : Nat} (hp : Paced (inboxName 1) k l.broker)
    {dest : String} {f : Frame} {rest : List Chore}
    (hag : l.broker.agenda = .post dest f :: rest) (h : x.feedAt? dest = none) :
    dest ≠ inboxName 1 := by
  rintro rfl
  rcases Nat.eq_zero_or_pos x.subs.size with hz | hpos
  · have hreq := ha.unasked hz
    unfold Loopback.requested at hreq
    have hreceived : l.broker.received = [] :=
      List.reverse_eq_nil_iff.1 (List.append_eq_nil_iff.1 hreq).1
    have hpost := (hp.silent hreceived).2 (.post (inboxName 1) f) (hag ▸ List.mem_cons_self)
    cases hpost
  · have hlt : 0 < x.feeds.size := by rw [ha.sizes]; exact hpos
    have hf : x.feeds[0]? = some x.feeds[0] := Array.getElem?_eq_getElem hlt
    have hinbox : x.feeds[0].inbox = inboxName 1 := by
      rw [ha.feeds 0 _ hf, ha.transport_eq]
      rfl
    have hfound : (x.feedOf? (inboxName 1)).isSome := by
      unfold feedOf?
      rw [Array.findIdx?_isSome, Array.any_eq_true]
      exact ⟨0, hlt, beq_iff_eq.2 hinbox⟩
    obtain ⟨i, hi⟩ := Option.isSome_iff_exists.1 hfound
    obtain ⟨hi', _, _⟩ := Array.findIdx?_eq_some_iff_getElem.1 hi
    unfold Exchange.feedAt? at h
    rw [hi, Option.bind_some, Array.getElem?_eq_getElem hi'] at h
    cases h

/-! ## What a move comes to -/

theorem goes_refl (now : Nat) (l : Loopback) : l.Goes now [] l :=
  .queued [] l (fun _ h => by cases h) rfl (List.prefix_refl _) (Nat.le_refl _)

/-- A frame is posted, dropped, or held up. -/
theorem Alone.post (ha : Alone x l) {k : Nat} (hp : Paced (inboxName 1) k l.broker)
    (hl : l.alive = true) {b : State} {dest : String} {f : Frame}
    (hw : l.broker.work x.now = (b, some (dest, f))) :
    ∃ l', (x.post l b dest f).1.transport = .loopback l' ∧ l.Goes x.now x.sends l' := by
  obtain ⟨rest, hag, rfl⟩ := State.agenda_of_work hw
  rw [sends_of_post ha.transport_eq hl hw]
  unfold Exchange.post
  cases hfa : x.feedAt? dest with
  | none =>
    have hne := ha.ne_of_feedAt? hp hag hfa
    refine ⟨_, ?_, .dropped dest f rest hag hne⟩
    dsimp only
    split <;> rfl
  | some q =>
    obtain ⟨i, feed⟩ := q
    obtain ⟨rfl, rfl⟩ := ha.feedAt? hfa
    dsimp only
    cases hk : State.knows { l.broker with agenda := rest } (inboxName 1) with
    | false =>
      rw [if_neg Bool.false_ne_true, Bool.false_and, if_neg Bool.false_ne_true]
      exact ⟨_, rfl, .lost f rest hag hk⟩
    | true =>
      rw [if_pos rfl, Bool.true_and]
      cases hr : feed.reading with
      | false =>
        rw [if_neg Bool.false_ne_true, if_neg Bool.false_ne_true]
        exact ⟨_, transport_closeFeed _ _, .shunned f rest hag hk⟩
      | true =>
        rw [if_pos rfl, if_pos rfl]
        cases hfull : feed.isFull with
        | true =>
          rw [if_pos rfl, if_pos rfl]
          exact ⟨l, ha.transport_eq, goes_refl x.now l⟩
        | false =>
          rw [if_neg Bool.false_ne_true, if_neg Bool.false_ne_true]
          exact ⟨_, transport_wakeAll _ _, .sent f rest hag hk⟩

/-- The command at the head of the line is plain, and a request that may wait if it is one. -/
theorem Alone.command (ha : Alone x l) {c : Command} {rest : Fifo Command}
    (hp : l.commands.pop? = some (c, rest)) :
    (∀ dest f, c ≠ .inject dest f) ∧ ∀ dest r, c = .pull dest r → r.noWait = false := by
  have hc : c ∈ l.commands.toList := by
    rw [Fifo.toList_of_pop? hp]
    exact List.mem_cons_self
  have htame : (Transport.loopback l).Tame true x.subs.size := ha.transport_eq ▸ ha.transport
  refine ⟨fun dest f he => ?_, fun dest r he => ?_⟩
  · subst he
    exact (htame.2 rfl).plain _ hc
  · subst he
    exact ha.patient r (List.mem_append_right _ (List.mem_filterMap.2 ⟨_, hc, rfl⟩))

theorem Alone.idle (ha : Alone x l) (hag : l.broker.agenda = []) :
    ∃ l', (x.idle l).1.transport = .loopback l' ∧ l.Goes x.now [] l' := by
  unfold Exchange.idle
  split
  · split
    · exact ⟨_, rfl, .timers hag⟩
    · split
      · exact ⟨l, ha.transport_eq, goes_refl x.now l⟩
      · exact ⟨_, transport_endBroker x l, .ended⟩
  · split
    · exact ⟨l, ha.transport_eq, goes_refl x.now l⟩
    · exact ⟨_, transport_endBroker x l, .ended⟩

theorem Alone.brokerStep (ha : Alone x l) {k : Nat} (hp : Paced (inboxName 1) k l.broker) :
    ∃ l', x.brokerStep.1.transport = .loopback l' ∧ l.Goes x.now x.sends l' := by
  cases hl : l.alive with
  | false =>
    rw [sends_of_dead ha.transport_eq hl]
    refine ⟨l, ?_, goes_refl x.now l⟩
    unfold Exchange.brokerStep
    rw [ha.transport_eq]
    dsimp only
    rw [hl, if_neg Bool.false_ne_true]
    exact ha.transport_eq
  | true =>
    have hrest : l.broker.agenda = [] → x.sends = [] := fun hag =>
      sends_of_idle ha.transport_eq (by unfold State.work; rw [hag])
    rcases brokerStep_cases ha.transport_eq hl with ⟨b, _, hw, he⟩ | ⟨b, dest, f, hw, he⟩ |
      ⟨c, rest, hag, hc, he⟩ | ⟨hag, _, he⟩
    · rw [he, sends_of_idle ha.transport_eq (by rw [show x.now = x.core.now from rfl, hw])]
      exact ⟨_, rfl, .chore b hw⟩
    · rw [he]
      exact ha.post hp hl hw
    · rw [he, hrest hag]
      obtain ⟨hplain, hpatient⟩ := ha.command hc
      exact ⟨_, transport_takeCommand ha.transport_eq c rest,
        .command c rest hag hc hplain hpatient⟩
    · rw [he, hrest hag]
      exact ha.idle hag

/-- What a move comes to. -/
theorem Alone.next (ha : Alone x l) {k : Nat} (hp : Paced (inboxName 1) k l.broker) (m : Move) :
    ∃ l', (x.next m).transport = .loopback l' ∧ l.Goes x.now (x.deeds m) l' := by
  by_cases hm : m = .turn .broker
  · subst hm
    exact ha.brokerStep hp
  · by_cases ht : m = .timers
    · subst ht
      rcases core_fire ha.transport_eq 0 with hc | ⟨hag, hc⟩
      · exact ⟨l, (congrArg Core.transport hc).trans ha.transport_eq, goes_refl x.now l⟩
      · exact ⟨_, congrArg Core.transport hc, .timers hag⟩
    · have hq := queues_next x (Move.front_ne_broker hm ht)
      obtain ⟨ps, hsub, hext⟩ := extends_next x m
      rw [ha.transport_eq] at hq hext
      cases hy : (x.next m).transport with
      | scripted sc =>
        rw [hy] at hq
        exact hq.elim
      | loopback l' =>
        rw [hy] at hq hext
        obtain ⟨hb, _, cs, hcs, _⟩ := hq
        refine ⟨l', rfl, .queued _ l' (out_of_deeds hm) hb (hcs ▸ List.prefix_append _ _) ?_⟩
        have hreq : l'.requested = l.requested ++ ps.map fun p => p.2.onWire := hext
        have hlen := hsub.length_le
        rw [hreq, List.length_append, List.length_map]
        rw [List.length_map] at hlen
        exact Nat.add_le_add_left hlen _

end Exchange

end DemandFlow
