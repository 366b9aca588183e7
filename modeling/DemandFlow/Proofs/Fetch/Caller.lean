import DemandFlow.Proofs.Fetch.Turns

/-
  The turn of the caller of an errand. It takes the next delivery, leaves with its batch when a
  limit is reached, the batch is over or its time is over, and has its answer once both tasks of
  its subscription have ended.
-/

namespace DemandFlow

open Broker (Command weigh)

/-! ## What a caller does to the core -/

namespace Exchange

variable {x y : Exchange} {l : Loopback} {i id : Nat} {s : Subscription}

theorem core_leaveLine (hs : x.core.subs[i]? = some s) (id : Nat) :
    (x.leaveLine id i).core = { x.core with
      subs := x.core.subs.modify i fun _ => { s with readers := s.readers.filter (· ≠ id) } } := by
  have hs' : x.subs[i]? = some s := hs
  unfold leaveLine
  rw [hs']
  dsimp only
  rw [core_wakeAll, core_modifySub]
  refine congrArg (fun ss => { x.core with subs := ss }) (modify_congr fun u hu => ?_)
  cases hs.symm.trans hu
  rfl

/-- The only reader of a subscription finds a delivery, has run out of time, or waits. -/
theorem look_of_sole (hs : x.core.subs[i]? = some s) (hr : s.readers = [id])
    (hw : s.worker ≠ .ended) (due : Nat) :
    (∃ y d rest, s.queue.pop? = some (d, rest) ∧
      x.look id i s (some due) = (y, .taken (some d)) ∧
      y.core = { x.core with
        subs := x.core.subs.modify i fun _ => { s with queue := rest, readers := [] } } ∧
      y.desk = x.desk) ∨
    (∃ y, s.queue.toList = [] ∧ due ≤ x.core.now ∧ x.look id i s (some due) = (y, .late) ∧
      y.core = { x.core with
        subs := x.core.subs.modify i fun _ => { s with readers := [] } } ∧
      y.desk = x.desk) ∨
    (s.queue.toList = [] ∧ x.core.now < due ∧ x.look id i s (some due) = (x, .waiting)) := by
  have hnone : [id].filter (fun c => decide (c ≠ id)) = [] := by simp
  unfold look
  dsimp only
  rw [if_pos (show s.readers.head? = some id by rw [hr]; rfl)]
  cases hp : s.queue.pop? with
  | some q =>
    have hcore : ((x.modifySub i fun s => { s with queue := q.2 }).wake (.worker i)).core =
        { x.core with subs := x.core.subs.modify i fun s => { s with queue := q.2 } } := by
      rw [core_wake, core_modifySub]
    have hsub : ((x.modifySub i fun s => { s with queue := q.2 }).wake
        (.worker i)).core.subs[i]? = some { s with queue := q.2 } := by
      rw [hcore]
      dsimp only
      rw [Array.getElem?_modify, if_pos rfl, hs]
      rfl
    refine Or.inl ⟨_, q.1, q.2, rfl, rfl, ?_, ?_⟩
    · rw [core_leaveLine hsub, hcore]
      dsimp only
      rw [modify_modify, hr, hnone]
      rfl
    · rw [skips_desk.leaveLine, skips_desk.wake]
      rfl
  | none =>
    have hempty := Fifo.pop?_eq_none_iff.1 hp
    dsimp only
    rw [if_neg hw, Option.filter_some]
    by_cases hlate : due ≤ x.now
    · rw [if_pos (decide_eq_true hlate), if_pos (show (some due).isSome = true from rfl)]
      refine Or.inr (Or.inl ⟨_, hempty, hlate, rfl, ?_, skips_desk.leaveLine x id i⟩)
      rw [core_leaveLine hs, hr, hnone]
    · have hearly : ¬decide (due ≤ x.now) = true := fun hd => hlate (of_decide_eq_true hd)
      rw [if_neg hearly, if_neg (show ¬(none : Option Nat).isSome = true from Bool.false_ne_true)]
      exact Or.inr (Or.inr ⟨hempty, Nat.lt_of_not_le hlate, rfl⟩)

theorem core_unsubscribe_of (h : x.core.transport = .loopback l) (ha : l.alive = true)
    (hs : x.core.subs[i]? = some s) (hc : s.claimed = false) :
    (x.unsubscribe i).core = { x.core with
      transport := .loopback { l with commands := l.commands.push (.unsubscribe s.inbox) }
      subs := leaves i x.core.subs } := by
  have hsub : (x.close i).subs[i]? = some s.shut := by
    rw [show (x.close i).subs = shutDown i x.core.subs from congrArg Core.subs (core_close x i),
      shutDown, Array.getElem?_modify, if_pos rfl, hs]
    rfl
  have hclaim := core_close_claim x i
  unfold unsubscribe
  dsimp only
  rw [hsub]
  dsimp only
  rw [if_neg (show ¬s.shut.claimed = true from ne_true_of_eq_false hc), core_note,
    core_release (by rw [hclaim]; exact h) ha, hclaim]
  rfl

/-- Who has the only call is at its activity. -/
theorem find?_sole {a : Activity} (h : x.core.callers = [⟨id, a⟩]) :
    (x.callers.find? fun c => c.id = id) = some ⟨id, a⟩ := by
  rw [show x.callers = [⟨id, a⟩] from h]
  exact List.find?_cons_of_pos (decide_eq_true rfl)

/-- A caller that collects a batch keeps the message and stands in line again. -/
theorem core_gotMessage (x : Exchange) (id i : Nat) (got : List Message) (m : Message) :
    (x.gotMessage id i (.batch got) m).1.core = { x.core with
      subs := x.core.subs.modify i fun s => { s with readers := s.readers ++ [id] }
      callers := x.core.callers.map fun c =>
        if c.id = id then ⟨id, .fetch i (.batch (m :: got))⟩ else c } := rfl

theorem desk_gotMessage (x : Exchange) (id i : Nat) (got : List Message) (m : Message) :
    (x.gotMessage id i (.batch got) m).1.desk = x.desk := rfl

/-- A fetch that ends shuts its subscription, tells the broker and makes its caller wait. -/
theorem core_endFetch (h : x.core.transport = .loopback l) (ha : l.alive = true)
    (hs : x.core.subs[i]? = some s) (hc : s.claimed = false) (id : Nat) (f : Fetch) (due : Nat)
    (reason : String) (answer : Answer) :
    (x.endFetch id i f due reason answer).core = { x.core with
      transport := .loopback { l with commands := l.commands.push (.unsubscribe s.inbox) }
      subs := x.core.subs.modify i fun s =>
        { s with purpose := Purpose.fetch f.finish due }.left
      callers := x.core.callers.map fun c =>
        if c.id = id then ⟨id, .leave i answer⟩ else c } := by
  have hsub : (x.core.subs.modify i fun s => { s with purpose := Purpose.fetch f.finish due })[i]? =
      some { s with purpose := Purpose.fetch f.finish due } := by
    rw [Array.getElem?_modify, if_pos rfl, hs]
    rfl
  have hcore : ∀ e : Log.Entry, (((x.modifySub i fun s => { s with
      purpose := Purpose.fetch f.finish due }).note e).unsubscribe i).core = { x.core with
        transport := .loopback { l with commands := l.commands.push (.unsubscribe s.inbox) }
        subs := x.core.subs.modify i fun s =>
          { s with purpose := Purpose.fetch f.finish due }.left } := by
    intro e
    refine (core_unsubscribe_of (x := (x.modifySub i fun s => { s with
      purpose := Purpose.fetch f.finish due }).note e) h ha hsub hc).trans ?_
    unfold leaves
    rw [core_note, core_modifySub]
    dsimp only
    rw [modify_modify]
    rfl
  unfold endFetch setActivity
  dsimp only
  exact congrArg (fun c : Core => { c with callers := c.callers.map fun c : Caller =>
    if c.id = id then ⟨id, .leave i answer⟩ else c }) (hcore _)

theorem desk_endFetch (x : Exchange) (id i : Nat) (f : Fetch) (due : Nat) (reason : String)
    (answer : Answer) : (x.endFetch id i f due reason answer).desk = x.desk := by
  have hset : ∀ y : Exchange, (y.setActivity id (.leave i answer)).desk = y.desk :=
    fun _ => rfl
  unfold endFetch
  dsimp only
  rw [hset]
  exact skips_desk.unsubscribe _ i

end Exchange

namespace Errand

variable {T : Terms} {P : Place} {n : Nat} {a b : Errand} {x y : Exchange} {l : Loopback}
  {feed : Feed} {s : Subscription}

/-! ## The end of a batch -/

theorem Hosts.callers_of_reading (h : Hosts T P n a x.core l feed s) (hst : a.stage = .reading) :
    x.core.callers = [⟨P.caller, .fetch P.sub (.batch a.got.reverse)⟩] := by
  rw [h.callers]
  unfold Place.callersAt
  rw [hst]

theorem Hosts.callers_of_leaving (h : Hosts T P n a x.core l feed s) (hst : a.stage = .leaving) :
    x.core.callers = [⟨P.caller, .leave P.sub (.batch a.got)⟩] := by
  rw [h.callers]
  unfold Place.callersAt
  rw [hst]

/-- The fetch ends, whatever is left in the queue. -/
theorem hosted_endFetch (h : Hosts T P n a x.core l feed s) (ha : x.desk = P.deskAt a)
    (hst : a.stage = .reading) {q : Fifo Delivery} {rs : List Nat}
    (hc : y.core = { x.core with
      subs := x.core.subs.modify P.sub fun _ => { s with queue := q, readers := rs } })
    (hy : y.desk = x.desk) {f : Fetch} {o : Bool} (hf : Fetch.Counts T.options a.got o f)
    (reason : String) :
    Hosted T P n ({ a with deliveries := q.toList }.leave T)
      (y.endFetch P.caller P.sub f T.due reason (.batch a.got)) := by
  have hsub : y.core.subs[P.sub]? = some { s with queue := q, readers := rs } := by
    rw [hc]
    dsimp only
    rw [Array.getElem?_modify, if_pos rfl, h.subAt]
    rfl
  have hclaimed : s.claimed = false := by
    rw [h.attended.claimed, hst]
    rfl
  have htransport : y.core.transport = .loopback l := by
    rw [hc]
    exact h.transport
  have hcore := Exchange.core_endFetch htransport h.served.alive hsub hclaimed P.caller f T.due
    reason (.batch a.got)
  rw [hc] at hcore
  dsimp only at hcore
  rw [Exchange.modify_modify] at hcore
  have hcallers := h.callers_of_reading hst
  have hdesk : (y.endFetch P.caller P.sub f T.due reason (.batch a.got)).desk =
      (P.answers, P.caller + 1) := by
    rw [Exchange.desk_endFetch, hy, ha]
    unfold Place.deskAt Place.answersAt
    rw [hst]
  let u : Subscription :=
    { s with queue := q, readers := rs, purpose := Purpose.fetch f.finish T.due }
  refine ⟨⟨{ l with commands := l.commands.push (.unsubscribe s.inbox) }, feed, u.left, ?_⟩, hdesk⟩
  rw [hcore]
  refine h.attend (b := { a with deliveries := q.toList }.leave T) (g := fun _ => u.left) rfl
    ?_ ?_ ?_ ?_
  · exact { h.served with
      commands := by
        show (l.commands.push _).toList = a.queue ++ [.unsubscribe T.inbox]
        rw [Fifo.toList_push, h.served.commands, h.attended.inbox] }
  · exact { h.fed with writing := fun hr => by cases hr }
  · exact { h.attended with
      closed := rfl
      claimed := rfl
      queue := rfl
      readers := fun hr => by cases hr
      purpose := ⟨f.finish, rfl, hf.finish⟩
      shut := rfl }
  · rw [hcallers, List.map_singleton, if_pos rfl]
    rfl

/-! ## The turn of the caller -/

/-- The bytes of a message that comes to the caller are counted exactly, for the broker does not
pass the byte budget. -/
theorem Sound.weigh_read (ho : T.options.Timed) (hs : Sound T a) (hst : a.stage = .reading)
    {m : Message} {rest : List Delivery} (next : a.deliveries = .message m :: rest)
    (hb : 0 < T.options.maxBytes) : weigh a.got + m.size ≤ Count.top := by
  obtain ⟨stop, hr⟩ := hs.reads hst
  have hmsgs := hr.messages
  have hlead : a.got ++ [m] <+: a.given := by
    unfold arriving at hmsgs
    rw [next] at hmsgs
    exact ⟨_, (List.append_assoc _ _ _).trans hmsgs⟩
  have hle := Broker.weigh_mono hlead
  have hadmits := hs.admits.2 hb
  have htop := ho.maxBytes_le
  rw [Broker.weigh_snoc] at hle
  omega

/-- The caller gets a message and stands in line again. -/
theorem turned_read (ho : T.options.Timed) (h : Hosts T P n a x.core l feed s)
    (ha : x.desk = P.deskAt a) (hs : Sound T a) (hst : a.stage = .reading)
    (hfull : ¬T.options.Full a.got) {m : Message} {rest : Fifo Delivery}
    (hp : s.queue.pop? = some (.message m, rest)) (hc : y.core = { x.core with
      subs := x.core.subs.modify P.sub fun _ => { s with queue := rest, readers := [] } })
    (hy : y.desk = x.desk) {f : Fetch}
    (hf : Fetch.Counts T.options a.got (decide (a.stage ≠ .reading)) f) :
    Turned T P n a (CallerIdle T a) x
      ((y.modifySub P.sub fun s => { s with purpose := .fetch (f.receive m) T.due }).gotMessage
        P.caller P.sub (.batch a.got.reverse) m).1 := by
  have hnext : a.deliveries = .message m :: rest.toList :=
    h.attended.queue.symm.trans (Fifo.toList_of_pop? hp)
  have hcallers := h.callers_of_reading hst
  let u : Subscription := { s with
    queue := rest
    readers := [P.caller]
    purpose := .fetch (f.receive m) T.due }
  have hcore : ((y.modifySub P.sub fun s => { s with
      purpose := .fetch (f.receive m) T.due }).gotMessage P.caller P.sub
        (.batch a.got.reverse) m).1.core = { x.core with
          transport := .loopback l
          subs := x.core.subs.modify P.sub fun _ => u
          callers := [⟨P.caller, .fetch P.sub (.batch (a.got ++ [m]).reverse)⟩] } := by
    rw [Exchange.core_gotMessage, Exchange.core_modifySub, hc]
    dsimp only
    rw [Exchange.modify_modify, Exchange.modify_modify, hcallers, List.map_singleton, if_pos rfl,
      List.reverse_concat, ← h.transport]
    rfl
  refine .step _ (.read a m rest.toList hst hfull hnext) ⟨⟨l, feed, u, ?_⟩, ?_⟩
  · rw [hcore]
    refine h.attend (b := { a with deliveries := rest.toList, got := a.got ++ [m] })
      (g := fun _ => u) rfl { h.served with } { h.fed with } ?_ ?_
    · exact { h.attended with
        queue := rfl
        readers := fun _ => rfl
        purpose := ⟨f.receive m, rfl, hf.receive (hs.weigh_read ho hst hnext)⟩ }
    · unfold Place.callersAt
      rw [hst]
  · rw [Exchange.desk_gotMessage]
    refine (hy.trans ha).trans ?_
    unfold Place.deskAt Place.answersAt
    rw [hst]

/-- A caller that reads makes a step of its fetch. -/
theorem turned_fetch (ho : T.options.Timed) (h : Hosts T P n a x.core l feed s)
    (ha : x.desk = P.deskAt a) (hs : Sound T a) (hst : a.stage = .reading) :
    Turned T P n a (CallerIdle T a) x
      (x.fetchStep P.caller P.sub (.batch a.got.reverse)).1 := by
  have hsub : x.subs[P.sub]? = some s := h.subAt
  have hnow : x.core.now = a.now := h.now
  have hreaders := h.attended.readers hst
  have hworker : s.worker ≠ .ended := by
    rw [h.attended.worker]
    obtain ⟨stop, hr⟩ := hs.reads hst
    exact hr.worker
  have hlast : (FetchMode.batch a.got.reverse).last (.ok none) = .batch a.got :=
    congrArg Answer.batch (List.reverse_reverse a.got)
  obtain ⟨f, hp, hf⟩ := h.attended.purpose
  have hopen : f.finished = false := by
    rw [hf.finished, hst]
    rfl
  unfold Exchange.fetchStep
  rw [hsub]
  dsimp only
  rw [hp]
  dsimp only
  rw [if_neg (ne_true_of_eq_false hopen), hlast]
  by_cases hfull : T.options.Full a.got
  · rw [if_pos (hf.isFull_iff.2 hfull)]
    refine .step _ (.full a hst hfull) ?_
    have hended := hosted_endFetch (y := x.leaveLine P.caller P.sub) h ha hst
      (Exchange.core_leaveLine h.subAt P.caller) (Exchange.skips_desk.leaveLine x _ _) hf
      Fetch.fullReason
    rwa [h.attended.queue] at hended
  · rw [if_neg (hf.isFull_iff.not.2 hfull)]
    rcases Exchange.look_of_sole h.subAt hreaders hworker T.due with
      ⟨y, d, rest, hpop, hlook, hc, hy⟩ | ⟨y, hempty, hlate, hlook, hc, hy⟩ |
      ⟨hempty, hearly, hlook⟩
    · rw [hlook]
      dsimp only
      have hnext : a.deliveries = d :: rest.toList :=
        h.attended.queue.symm.trans (Fifo.toList_of_pop? hpop)
      have hfair : d.IsFair := by
        obtain ⟨stop, hr⟩ := hs.reads hst
        refine hr.fair d ?_
        unfold arriving
        rw [hnext]
        exact List.mem_append_left _ (List.mem_append_left _ List.mem_cons_self)
      cases d with
      | message m => exact turned_read ho h ha hs hst hfull hpop hc hy hf
      | terminus st =>
        refine .step _ (.ended a st rest.toList hst hfull hnext) ?_
        dsimp only [Fetch.endReason?, Delivery.reading]
        rw [hlast]
        exact hosted_endFetch h ha hst hc hy hf _
      | error e => exact hfair.elim
      | liveness e => exact hfair.elim
    · rw [hlook]
      dsimp only
      rw [h.attended.queue] at hempty
      rw [hnow] at hlate
      refine .step _ (.expire a hst hempty hlate) ?_
      have hended := hosted_endFetch h ha hst (q := s.queue) hc hy hf Fetch.lateReason
      rwa [h.attended.queue] at hended
    · rw [hlook]
      rw [h.attended.queue] at hempty
      rw [hnow] at hearly
      exact .same (Prod.ext (Exchange.core_keepTimer x _ _) (Exchange.skips_desk.keepTimer x _ _))
        (Or.inr (Or.inl ⟨hst, hempty, hfull, hearly⟩))

/-- A caller that leaves is answered once both tasks of its subscription have ended. -/
theorem turned_leave (h : Hosts T P n a x.core l feed s) (ha : x.desk = P.deskAt a)
    (hst : a.stage = .leaving) :
    Turned T P n a (CallerIdle T a) x (x.leaveStep P.caller P.sub (.batch a.got)).1 := by
  have hsub : x.subs[P.sub]? = some s := h.subAt
  have hover : s.isOver = true ↔ a.worker = .ended ∧ a.watching = false := by
    unfold Subscription.isOver
    rw [h.attended.worker, h.attended.watching, Bool.and_eq_true, decide_eq_true_eq,
      Bool.not_eq_true']
    exact and_comm
  unfold Exchange.leaveStep
  rw [hsub]
  dsimp only
  by_cases hdone : a.worker = .ended ∧ a.watching = false
  · rw [if_pos (hover.2 hdone)]
    have hnone : x.core.callers.filter (fun c => decide (c.id ≠ P.caller)) = [] := by
      rw [h.callers_of_leaving hst]
      simp
    have hgone : decide (a.stage ≠ .reading) = true := by
      rw [hst]
      rfl
    obtain ⟨f, hp, hf⟩ := h.attended.purpose
    rw [hgone] at hf
    refine .step _ (.answer a hst hdone.1 hdone.2) ⟨⟨l, feed, s, ?_⟩, ?_⟩
    · exact { h with
        callers := hnone
        served := { h.served with }
        fed := { h.fed with writing := fun hr => by cases hr }
        attended := { h.attended with
          closed := h.attended.closed.trans hgone
          claimed := h.attended.claimed.trans hgone
          readers := fun hr => by cases hr
          purpose := ⟨f, hp, hf⟩
          shut := h.attended.shut.trans hgone } }
    · show (x.desk.1 ++ [(P.caller, .batch a.got)], x.desk.2) = _
      rw [ha]
      unfold Place.deskAt Place.answersAt
      rw [hst]
  · rw [if_neg (hover.not.2 hdone)]
    refine .same rfl (Or.inr (Or.inr ⟨hst, ?_⟩))
    by_contra hnot
    rw [not_or, not_not, Bool.not_eq_true] at hnot
    exact hdone hnot

/-- The turn of the caller. -/
theorem turned_caller (ho : T.options.Timed) (h : Hosts T P n a x.core l feed s)
    (ha : x.desk = P.deskAt a) (hs : Sound T a) :
    Turned T P n a (CallerIdle T a) x (x.callerStep P.caller).1 := by
  cases hst : a.stage with
  | reading =>
    rw [Exchange.callerStep_of_fetch (Exchange.find?_sole (h.callers_of_reading hst))]
    exact turned_fetch ho h ha hs hst
  | leaving =>
    rw [Exchange.callerStep_of_leave (Exchange.find?_sole (h.callers_of_leaving hst))]
    exact turned_leave h ha hst
  | answered =>
    have hcallers : x.callers = [] := by
      rw [show x.callers = P.callersAt a from h.callers]
      unfold Place.callersAt
      rw [hst]
    rw [Exchange.callerStep_of_nobody hcallers]
    exact .same rfl (Or.inl hst)

end Errand

end DemandFlow
