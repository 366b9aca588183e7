import DemandFlow.Proofs.Accounts.Agreement
import DemandFlow.Proofs.Consume.Turns

/-
  The turn of the worker of one continuous consumer. A frame is heeded first; then, if it is one
  to react to, the request that is due is sent. Together they are the step of the flow in which
  the consumer takes in a frame.
-/

namespace DemandFlow

open Broker (Command inboxName)
open Exchange (Core Stirred)

/-! ## Flows -/

/-- A flow whose consumer took in a frame and did not yet look at its demand. -/
def Flow.heeded (a : Flow) (f : Frame) (rest : List Frame) (ms : List Message) : Flow :=
  { a with
    frames := rest
    demand := a.demand.take f
    queue := a.queue ++ ms.map Command.publish
    stored := a.stored ++ ms
    taken := a.taken ++ [f] }

/-- A flow whose consumer sent a request, if there is one. -/
def Flow.asking (a : Flow) (inbox : String) (r : Option PullRequest) : Flow :=
  { a with
    demand := Flow.plus a.demand r
    queue := a.queue ++ Flow.sent inbox r }

theorem Flow.manage_eq (a : Flow) (inbox : String) (plan : RefillPlan) (f : Frame)
    (rest : List Frame) (ms : List Message) : a.manage inbox plan f rest ms =
      (a.heeded f rest ms).asking inbox (plan.after (a.demand.take f) f) := by
  unfold Flow.manage Flow.asking Flow.heeded
  dsimp only
  rw [List.append_assoc]

/-- A flow with more commands in line that is the same to its broker otherwise. -/
structure Flow.Queued (a b : Flow) (cs : List Command) : Prop where
  given : b.given = a.given
  unread : b.unread = a.unread
  waiting : b.waiting = a.waiting
  out : b.out = a.out
  handing : b.handing = a.handing
  queue : b.queue = a.queue ++ cs

theorem Flow.queued_heeded (a : Flow) (f : Frame) (rest : List Frame) (ms : List Message) :
    a.Queued (a.heeded f rest ms) (ms.map Command.publish) := ⟨rfl, rfl, rfl, rfl, rfl, rfl⟩

theorem Flow.queued_asking (a : Flow) (inbox : String) (r : Option PullRequest) :
    a.Queued (a.asking inbox r) (Flow.sent inbox r) := ⟨rfl, rfl, rfl, rfl, rfl, rfl⟩

/-! ## Replies of the handler -/

/-- The messages that a reply comes to, as they are stored. -/
def Loopback.replied (l : Loopback) (m : Option Message) : List Message :=
  (m.map fun m => m.withReply (Exchange.ackSubject l.nextSequence)).toList

theorem commands_answered (l : Loopback) (m : Option Message) : (l.answered m).commands.toList =
    l.commands.toList ++ (l.replied m).map Command.publish := by
  cases m with
  | none => exact (List.append_nil _).symm
  | some m => exact Fifo.toList_push _ _

theorem broker_answered (l : Loopback) (m : Option Message) :
    (l.answered m).broker = l.broker ∧ (l.answered m).alive = l.alive ∧
      (l.answered m).held = l.held := by
  cases m with
  | none => exact ⟨rfl, rfl, rfl⟩
  | some m => exact ⟨rfl, rfl, rfl⟩

/-- What a handler took in once it got one more frame. -/
theorem heard_snoc (h : Handler) (fs : List Frame) (f : Frame) :
    ((messagesOf (fs ++ [f])).filter fun m => (h.fails m).isNone) =
      ((messagesOf fs).filter fun m => (h.fails m).isNone) ++ (h.heard f).toList := by
  rw [messagesOf_append, List.filter_append]
  congr 1
  cases f with
  | status st => rfl
  | message m =>
    show [m].filter _ = _
    cases hf : h.fails m with
    | none =>
      rw [Handler.heard_of_takes hf]
      exact List.filter_cons_of_pos (by rw [hf]; rfl)
    | some cause =>
      rw [Handler.heard_of_fails hf]
      exact List.filter_cons_of_neg (by rw [hf]; exact Bool.false_ne_true)

section

variable {o : ConsumeOptions} {h : Handler} {x : Exchange} {a : Flow} {l : Loopback}
  {feed : Feed} {s : Subscription}

/-! ## Heeding and asking -/

theorem linked_queued {b : Flow} {cs : List Command} (hl : Linked l a) (hq : a.Queued b cs)
    {l' : Loopback} (hb : l'.broker = l.broker)
    (hc : l'.commands.toList = l.commands.toList ++ cs) : Linked l' b := by
  refine ⟨?_, ?_, ?_, ?_, ?_, ?_⟩
  · rcases hl.registered with ⟨hin, hcmd⟩ | hr
    · exact Or.inl ⟨by rw [hb]; exact hin, by rw [hc, hcmd, hq.queue]⟩
    · obtain ⟨ms, rest, hqueue, hline⟩ := hr.commands
      refine Or.inr ⟨by rw [hb]; exact hr.inboxes, hq.waiting.trans hr.waiting,
        hq.out.trans hr.out, ms, rest ++ cs, ?_, ?_⟩
      · rw [hq.queue, hqueue, List.append_assoc]
      · rw [hc, hline, List.append_assoc]
        rfl
  · rw [hb, hq.given, hq.unread]
    exact hl.stream
  · rw [hb, hq.given]
    exact hl.cursor
  · rw [hb, hq.waiting]
    exact hl.waiting
  · rw [hb, hq.out, hq.handing]
    exact hl.agenda
  · rw [hb]
    exact hl.limits

/-- The requests of a plan whose heartbeat can be watched go out. -/
theorem goesOut_next (ho : o.Beats) {d : Demand} {r : PullRequest}
    (hr : (RefillPlan.ofOptions o).next? d = some r) : r.GoesOut := by
  have htimed : ∀ {batch bytes : Nat} (hb : 0 < batch),
      (PullRequest.timed batch bytes o.expires o.heartbeat hb).GoesOut := by
    intro batch bytes hb
    have hbeat : (PullRequest.timed batch bytes o.expires o.heartbeat hb).heartbeat =
        PullRequest.nonzero? (some o.heartbeat) := rfl
    obtain ⟨p, hp⟩ := Option.isSome_iff_exists.1 ho
    unfold PullRequest.GoesOut
    rw [hbeat]
    unfold PullRequest.nonzero?
    split
    · exact Option.some_ne_none _
    · unfold Monitor.periodFor?
      dsimp only
      rw [hp]
      exact Option.some_ne_none _
  unfold RefillPlan.next? at hr
  split at hr
  · cases hr
    exact htimed _
  · split at hr
    · cases hr
      exact htimed _
    · cases hr

theorem solo_heed (hs : Solo o h x.core a l feed s) {n : Nat}
    (hp : s.purpose = .continuous { Continuous.start o h with handled := n }) (f : Frame)
    (rest : Fifo Frame) : ∃ s', Solo o h
      ((x.popped 0 rest).heed 0 s { Continuous.start o h with handled := n } f).core
      (a.heeded f rest.toList (l.replied (h.reply f))) (l.answered (h.reply f))
      { feed with frames := rest } s' := by
  obtain ⟨hbroker, halive, hheld⟩ := broker_answered l (h.reply f)
  have hcore := Exchange.core_heed (x := x.popped 0 rest) (i := 0) (s := s)
    (c := { Continuous.start o h with handled := n }) (f := f)
    (by rw [Exchange.core_popped]; exact hs.transport) hs.alive
  rw [Exchange.core_popped] at hcore
  rw [hcore]
  have hd : (s.tracker.account x.core.now f).demand = s.demand.take f :=
    Demand.demand_account _ f s.tracker
  obtain ⟨v, hsubs, hin, hfeed, hclosed, hwork, hpurp, hdem⟩ : ∃ v : Subscription,
      ((h.heard f).elim
        (x.core.subs.modify 0 fun u => { u with tracker := s.tracker.account x.core.now f })
        fun _ => (x.core.subs.modify 0 fun u =>
          { u with tracker := s.tracker.account x.core.now f }).modify 0 fun u =>
            { u with purpose := .continuous { Continuous.start o h with handled := n + 1 } }) =
        #[v] ∧ v.inbox = s.inbox ∧ v.feed = s.feed ∧ v.closed = s.closed ∧ v.worker = s.worker ∧
      (∃ k, v.purpose = .continuous { Continuous.start o h with handled := k }) ∧
      v.demand = s.demand.take f := by
    rw [hs.subs]
    cases h.heard f with
    | none => exact ⟨_, rfl, rfl, rfl, rfl, rfl, ⟨n, hp⟩, hd⟩
    | some m => exact ⟨_, rfl, rfl, rfl, rfl, rfl, ⟨n + 1, rfl⟩, hd⟩
  refine ⟨v, {
    transport := rfl
    feeds := ?_
    subs := hsubs
    callers := hs.callers
    alive := halive.trans hs.alive
    held := hheld.trans hs.held
    linked := linked_queued hs.linked (a.queued_heeded f _ _) hbroker
      (commands_answered l (h.reply f))
    feedInbox := hs.feedInbox
    reading := hs.reading
    writing := hs.writing
    reader := hs.reader
    capacity := hs.capacity
    frames := rfl
    inbox := hin.trans hs.inbox
    feed := hfeed.trans hs.feed
    opened := hclosed.trans hs.opened
    worker := hwork.trans hs.worker
    purpose := hpurp
    demand := ?_
    handled := ?_ }⟩
  · dsimp only
    rw [hs.feeds]
    rfl
  · rw [hdem, hs.demand]
    rfl
  · show ((h.heard f).elim x.core.handled fun m => x.core.handled.push (0, m)).toList =
      ((messagesOf (a.taken ++ [f])).filter _).map _
    rw [heard_snoc, List.map_append, ← hs.handled]
    cases h.heard f with
    | none => exact (List.append_nil _).symm
    | some m => exact Array.toList_push

theorem solo_asking_none {c : Core} (hs : Solo o h c a l feed s) :
    Solo o h c (a.asking (inboxName 1) none) l feed s :=
  { hs with
    linked := linked_queued hs.linked (a.queued_asking _ none) rfl (List.append_nil _).symm }

/-- The consumer looks at its demand and sends the request that is due, if there is one. -/
theorem solo_refill (ho : o.Beats) (hs : Solo o h x.core a l feed s) (n : Nat) :
    ∃ l' s', Solo o h (x.refill 0 { Continuous.start o h with handled := n }).core
        (a.asking (inboxName 1) ((RefillPlan.ofOptions o).next? a.demand)) l' feed s' ∧
      l'.broker = l.broker ∧
      l'.commands.toList = l.commands.toList ++
        Flow.sent (inboxName 1) ((RefillPlan.ofOptions o).next? a.demand) ∧
      Stirred x (x.refill 0 { Continuous.start o h with handled := n }) ∧
      ((RefillPlan.ofOptions o).next? a.demand ≠ none →
        .broker ∈ (x.refill 0 { Continuous.start o h with handled := n }).ready) := by
  have hsub := sub_of_solo hs
  have hg : ∀ r, (RefillPlan.ofOptions o).next? s.demand = some r →
      (s.tracker.issue x.core.now r).isSome := by
    intro r hr
    refine Option.isSome_iff_ne_none.2 fun hn => ?_
    exact Accounts.issue_eq_none_iff.1 hn (goesOut_next ho hr)
  obtain ⟨hst, hready⟩ := Exchange.stirred_refill
    (c := { Continuous.start o h with handled := n }) hs.transport hs.alive hs.callers hsub
    hs.opened hg
  rw [← hs.demand]
  rcases Exchange.core_refill (c := { Continuous.start o h with handled := n }) hs.transport
    hs.alive hsub hs.opened hg with ⟨hr, he⟩ | ⟨r, t, hr, ht, hd, hcore, _⟩
  · have hr' : (RefillPlan.ofOptions o).next? s.demand = none := hr
    refine ⟨l, s, ?_, rfl, ?_, hst, hready⟩
    · rw [he, hr']
      exact solo_asking_none hs
    · rw [hr']
      exact (List.append_nil _).symm
  · have hr' : (RefillPlan.ofOptions o).next? s.demand = some r := hr
    have hpush := Fifo.toList_push l.commands (.pull (inboxName 1) r.onWire)
    have hsubs : x.core.subs.modify 0 (fun u => { u with tracker := t }) =
        #[{ s with tracker := t }] := by
      rw [hs.subs]
      rfl
    have hdem : t.demand = a.demand.add r := by rw [hd, hs.demand]
    refine ⟨{ l with commands := l.commands.push (.pull (inboxName 1) r.onWire) },
      { s with tracker := t }, ?_, rfl, ?_, hst, hready⟩
    · rw [hs.inbox] at hcore
      rw [hcore, hr']
      exact { hs with
        transport := rfl
        subs := hsubs
        linked := linked_queued hs.linked (a.queued_asking _ (some r)) rfl hpush
        demand := hdem }
    · rw [hr']
      exact hpush

/-- Only some frames make the consumer look at its demand. -/
theorem solo_react (ho : o.Beats) (hs : Solo o h x.core a l feed s) (n : Nat) (f : Frame) :
    ∃ y, y = (if f.reacts then x.refill 0 { Continuous.start o h with handled := n } else x) ∧
      ∃ l' s', Solo o h y.core
          (a.asking (inboxName 1) ((RefillPlan.ofOptions o).after a.demand f)) l' feed s' ∧
        l'.broker = l.broker ∧
        l'.commands.toList = l.commands.toList ++
          Flow.sent (inboxName 1) ((RefillPlan.ofOptions o).after a.demand f) ∧
        Stirred x y ∧
        ((RefillPlan.ofOptions o).after a.demand f ≠ none → .broker ∈ y.ready) := by
  refine ⟨_, rfl, ?_⟩
  unfold RefillPlan.after
  cases f.reacts with
  | true =>
    rw [if_pos rfl, if_pos rfl]
    exact solo_refill ho hs n
  | false =>
    rw [if_neg Bool.false_ne_true, if_neg Bool.false_ne_true]
    exact ⟨l, s, solo_asking_none hs, rfl, (List.append_nil _).symm, Stirred.refl x,
      fun hn => absurd rfl hn⟩

/-! ## The turn -/

theorem feed_of_solo {c : Core} (hs : Solo o h c a l feed s) : c.feeds[s.feed]? = some feed := by
  rw [hs.feeds, hs.feed]
  rfl

theorem reads?_of_solo (hs : Solo o h x.core a l feed s) :
    x.reads? (.worker 0) = feed.frames.pop?.map Prod.fst := by
  have hsub : x.subs[0]? = some s := sub_of_solo hs
  have hfeed : x.feeds[s.feed]? = some feed := feed_of_solo hs
  unfold Exchange.reads?
  dsimp only
  rw [hsub]
  dsimp only
  rw [if_pos ⟨hs.opened, hs.worker⟩, hfeed, Option.bind_some]

theorem workerStep_of_solo (hs : Solo o h x.core a l feed s) :
    x.workerStep 0 = x.readStep 0 s := by
  have hsub : x.subs[0]? = some s := sub_of_solo hs
  unfold Exchange.workerStep
  rw [hsub]
  dsimp only
  rw [hs.worker]
  dsimp only
  rw [if_neg (ne_true_of_eq_false hs.opened)]

/-- Only a message is replied to. -/
theorem replied_of_message? {f : Frame} (hm : f.message? = none) (h : Handler) (l : Loopback) :
    l.replied (h.reply f) = [] := by
  have hr : h.reply f = none := by
    unfold Handler.reply Handler.heard
    rw [hm]
    rfl
  rw [hr]
  rfl

/-- What the worker reads and replies next. -/
theorem replies?_of_solo (hs : Solo o h x.core a l feed s) {f : Frame} {rest : Fifo Frame}
    (hpop : feed.frames.pop? = some (f, rest)) :
    x.reads? (.worker 0) = some f ∧
      (x.replies? (.worker 0)).toList = l.replied (h.reply f) := by
  obtain ⟨n, hp⟩ := hs.purpose
  have hsub : x.subs[0]? = some s := sub_of_solo hs
  have ht : x.transport = .loopback l := hs.transport
  have hread : x.reads? (.worker 0) = some f := by
    rw [reads?_of_solo hs, hpop]
    rfl
  refine ⟨hread, ?_⟩
  unfold Exchange.replies?
  rw [hread, ht]
  dsimp only
  rw [hsub, Option.map_some, hp]
  rfl

/-- The worker takes in a frame. -/
theorem acted_frame (ho : o.Beats) (hs : Solo o h x.core a l feed s) (ha : Awake x l feed)
    (hin : Task.worker 0 ∈ x.ready) {f : Frame} {rest : Fifo Frame}
    (hpop : feed.frames.pop? = some (f, rest)) :
    ∃ b l' feed' s', Acted o h x a (.worker 0) (x.workerStep 0) b l' feed' s' := by
  obtain ⟨n, hp⟩ := hs.purpose
  obtain ⟨hread, hreply⟩ := replies?_of_solo hs hpop
  have hstep : x.workerStep 0 = (x.popped 0 rest).takeFrame 0 s f := by
    rw [workerStep_of_solo hs,
      (Exchange.readStep_of_frame (sub_of_solo hs) (feed_of_solo hs) hpop).2, hs.feed]
  have hnext : a.frames = f :: rest.toList := hs.frames.symm.trans (Fifo.toList_of_pop? hpop)
  have hmanage : Flow.Step (inboxName 1) (.ofOptions o) a _ :=
    .manage a f rest.toList (l.replied (h.reply f)) hnext fun hm => replied_of_message? hm h l
  rw [Flow.manage_eq] at hmanage
  -- first the frame is heeded
  have hcore := Exchange.core_popped x 0 rest
  obtain ⟨hst, hready⟩ := Exchange.stirred_heed (x := x.popped 0 rest) (s := s) (f := f)
    (c := { Continuous.start o h with handled := n })
    (by rw [hcore]; exact hs.transport) hs.alive (by rw [hcore]; exact hs.callers)
  obtain ⟨s₁, hs₁⟩ := solo_heed hs hp f rest
  have hst₁ := (Exchange.stirred_popped x 0 rest).trans hst
  -- then perhaps more is asked for
  obtain ⟨y, hy, l₂, s₂, hs₂, hbroker, hcmd, hst₂, hready₂⟩ := solo_react ho hs₁ n f
  have hcmds : l₂.commands.toList = l.commands.toList ++
      ((l.replied (h.reply f)).map Command.publish ++ Flow.sent (inboxName 1)
        ((RefillPlan.ofOptions o).after (a.demand.take f) f)) := by
    rw [hcmd, commands_answered, List.append_assoc]
    rfl
  have hbroker' : l₂.broker = l.broker := hbroker.trans (broker_answered l (h.reply f)).1
  have hout := hst₁.trans hst₂
  have hawake : .broker ∈ y.ready ∨ BrokerRests l₂ { feed with frames := rest } := by
    rcases ha.broker with hb | ⟨hag, hnone⟩ | ⟨hag, _⟩
    · exact Or.inl (hout.mem hb)
    · by_cases hr : h.reply f = none
      · by_cases hn : (RefillPlan.ofOptions o).after (a.demand.take f) f = none
        · refine Or.inr (Or.inl ⟨by rw [hbroker']; exact hag, ?_⟩)
          rw [hcmds, hnone, hr, hn]
          rfl
        · exact Or.inl (hready₂ hn)
      · exact Or.inl (hst₂.mem (hready hr))
    · -- a broker that was held up can try again
      have hb := Exchange.broker_mem_ready_popped hs.transport hag 0 rest
      exact Or.inl ((hst.trans hst₂).mem hb)
  rw [hstep, Exchange.takeFrame_eq_heed hp Mode.noConfusion, ← hy]
  exact ⟨_, l₂, { feed with frames := rest }, s₂, {
    step := .single hmanage
    solo := hs₂
    stirred := hout
    broker := hawake
    worker := Or.inl (hout.mem hin)
    brokerRests := fun hf => by cases hf
    workerRests := fun hf => by cases hf
    stored := by rw [hreply]; rfl
    taken := by rw [hread]; rfl }⟩

/-- The worker takes in a frame, or an alarm, or has nothing to do. -/
theorem acted_worker (ho : o.Beats) (hs : Solo o h x.core a l feed s) (ha : Awake x l feed)
    (hin : Task.worker 0 ∈ x.ready) :
    ∃ b l' feed' s', Acted o h x a (.worker 0) (x.workerStep 0) b l' feed' s' := by
  cases hpop : feed.frames.pop? with
  | some q => exact acted_frame ho hs ha hin hpop
  | none =>
    have hempty := Fifo.pop?_eq_none_iff.1 hpop
    have hfeed : x.feeds[s.feed]? = some feed := feed_of_solo hs
    have hread : x.reads? (.worker 0) = none := by
      rw [reads?_of_solo hs, hpop]
      rfl
    have hreply : x.replies? (.worker 0) = none := by
      unfold Exchange.replies?
      rw [hread]
    have hact : ∀ (p : Exchange × Bool) (s' : Subscription), Solo o h p.1.core a l feed s' →
        Stirred x p.1 → Acted o h x a (.worker 0) p a l feed s' := by
      intro p s' hsolo hst
      refine ⟨.refl, hsolo, hst, ha.broker.imp_left hst.mem, Or.inl (hst.mem hin),
        (fun _ ht => by cases ht), (fun _ _ => hempty), ?_, ?_⟩
      · rw [hreply]
        exact (List.append_nil _).symm
      · rw [hread]
        exact (List.append_nil _).symm
    rw [workerStep_of_solo hs]
    unfold Exchange.readStep
    rw [hfeed]
    dsimp only
    rw [hpop]
    dsimp only
    rw [if_pos hs.writing]
    cases s.alarms with
    | nil => exact ⟨a, l, feed, s, hact _ s hs (Stirred.refl x)⟩
    | cons d rest =>
      obtain ⟨n, hp⟩ := hs.purpose
      have hsolo := solo_modifySub hs (g := fun s => { s with alarms := rest })
        ⟨rfl, rfl, rfl, rfl, rfl, rfl⟩
      have hst := Exchange.stirred_modifySub x 0 fun s => { s with alarms := rest }
      obtain ⟨hcore, htold⟩ := Exchange.takeAlarm_of_continuous (i := 0)
        (x := x.modifySub 0 fun s => { s with alarms := rest }) hp d
      rw [Exchange.core_modifySub] at hcore
      rw [← hcore] at hsolo
      exact ⟨a, l, feed, _, hact _ _ hsolo (hst.trans htold)⟩

end

end DemandFlow
