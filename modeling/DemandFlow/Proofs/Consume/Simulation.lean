import DemandFlow.Proofs.Consume.Backlog
import DemandFlow.Proofs.Consume.Reading

/-
  Every world of one continuous consumer stands for a flow that a consumer and its broker can
  come to: it does when the consumer starts, and each move is no step or one step of the flow.
  Where all tasks wait, nothing of the flow is under way. So what holds of flows holds of worlds.
-/

namespace DemandFlow

open Broker (Command inboxName)
open Exchange (Stirred)

/-- A world stands for a flow that a consumer and its broker can come to. -/
def World.Mirrors (o : ConsumeOptions) (h : Handler) (w : World) (a : Flow) : Prop :=
  Flow.Reached (inboxName 1) (.ofOptions o) a ∧ ∃ l feed s, Follows o h w a l feed s

namespace World

variable {o : ConsumeOptions} {h : Handler} {w : World} {a b : Flow} {l : Loopback}
  {feed : Feed} {s : Subscription}

theorem mirrors_of_follows (hr : Flow.Reached (inboxName 1) (.ofOptions o) a)
    (hs : Relation.ReflGen (Flow.Step (inboxName 1) (.ofOptions o)) a b)
    (hf : Follows o h w b l feed s) : w.Mirrors o h b :=
  ⟨by
    cases hs with
    | refl => exact hr
    | single h => exact .next hr h, l, feed, s, hf⟩

/-! ## Moves -/

theorem follows_publish (hw : Follows o h w a l feed s) (m : Message) :
    ∃ b l', Flow.Transit (inboxName 1) a b ∧ Follows o h (w.next (.publish m)) b l' feed s := by
  obtain ⟨hseq, hcore⟩ := Exchange.core_publish hw.solo.transport hw.solo.alive m
  obtain ⟨hst, hready⟩ := Exchange.stirred_publish hw.solo.transport hw.solo.alive m
  have hqueued : a.Queued { a with
      queue := a.queue ++ [.publish (m.withReply (Exchange.ackSubject l.nextSequence))]
      stored := a.stored ++ [m.withReply (Exchange.ackSubject l.nextSequence)] }
      [.publish (m.withReply (Exchange.ackSubject l.nextSequence))] :=
    ⟨rfl, rfl, rfl, rfl, rfl, rfl⟩
  have hpush := Fifo.toList_push l.commands
    (.publish (m.withReply (Exchange.ackSubject l.nextSequence)))
  have hlink : Linked { l with
      nextSequence := l.nextSequence + 1
      commands := l.commands.push (.publish (m.withReply (Exchange.ackSubject l.nextSequence))) }
      _ := linked_queued hw.solo.linked hqueued rfl hpush
  have hsolo := solo_setLoopback hw.solo hlink rfl rfl rfl rfl rfl
  rw [← hcore] at hsolo
  refine ⟨_, _, .publish a (m.withReply (Exchange.ackSubject l.nextSequence)), hsolo,
    awake_stirred hw.awake hst (Or.inl hready) (hw.awake.worker.imp_left hst.mem), ?_, hw.taken⟩
  show w.stored ++ [m.withReply (Exchange.ackSubject (w.exchange.publish m).2)] = _
  rw [hseq, hw.stored]

/-- Sleepers wake, and all else stays. -/
theorem follows_clock (hw : Follows o h w a l feed s) (later : Nat) :
    Follows o h (w.next (.clock later)) a l feed s := by
  have hst := stirred_ring hw.awake.sleepers (w.exchange.now + later)
  refine ⟨?_, ?_, hw.stored, hw.taken⟩
  · show Solo o h (w.exchange.ring _).core a l feed s
    rw [core_ring]
    exact solo_now hw.solo _
  · exact awake_stirred hw.awake hst (hw.awake.broker.imp_left hst.mem)
      (hw.awake.worker.imp_left hst.mem)

/-- Timers are looked at between two commands only. -/
theorem follows_timers (hsane : Flow.Sane (inboxName 1) o a) (hw : Follows o h w a l feed s) :
    ∃ b l', Relation.ReflGen (Flow.Transit (inboxName 1)) a b ∧
      Follows o h (w.next .timers) b l' feed s := by
  have hmove : w.next .timers =
      if .broker ∈ w.exchange.ready then ⟨w.exchange.fire 0, w.stored, w.taken⟩ else w := rfl
  rw [hmove]
  split
  · rename_i hin
    have hst := stirred_fire w.exchange 0
    have hb := hst.mem hin
    have hwork := hw.awake.worker.imp_left hst.mem
    rcases Exchange.core_fire hw.solo.transport 0 with hcore | ⟨hag, hcore⟩
    · refine ⟨a, l, .refl, ?_, awake_stirred hw.awake hst (Or.inl hb) hwork, hw.stored, hw.taken⟩
      rw [hcore]
      exact solo_now hw.solo _
    · obtain ⟨b, hstep, hl, hv, hf⟩ :=
        linked_fire (w.exchange.core.now + 0) hw.solo.linked hsane hag
      have hsolo := solo_now (solo_served hw.solo hl rfl rfl hv hf) (w.exchange.core.now + 0)
      rw [← hcore] at hsolo
      exact ⟨b, _, .single hstep, hsolo, awake_stirred hw.awake hst (Or.inl hb) hwork,
        hw.stored.trans hv.stored.symm, hw.taken.trans hv.taken.symm⟩
  · exact ⟨a, l, .refl, hw⟩

/-- A task's turn is over. -/
theorem follows_acted (hw : Follows o h w a l feed s) {t : Task} (hin : t ∈ w.exchange.ready)
    {l' : Loopback} {feed' : Feed} {s' : Subscription}
    (hact : Acted o h w.exchange a t (w.exchange.stepOf t) b l' feed' s') :
    Follows o h (w.next (.turn t)) b l' feed' s' := by
  have hmove : w.next (.turn t) = ⟨w.exchange.turn t,
      w.stored ++ (w.exchange.replies? t).toList, w.taken ++ (w.exchange.reads? t).toList⟩ :=
    if_pos hin
  have hawake := awake_stirred hw.awake hact.stirred hact.broker hact.worker
  rw [hmove]
  refine ⟨?_, ?_, ?_, ?_⟩
  · unfold Exchange.turn
    dsimp only
    split
    · exact hact.solo
    · exact hact.solo
  · unfold Exchange.turn
    dsimp only
    split
    · exact hawake
    · rename_i hmore
      have hm : (w.exchange.stepOf t).2 = false := by simpa using hmore
      exact awake_erase hawake (hact.brokerRests hm) (hact.workerRests hm)
  · rw [hact.stored, hw.stored]
  · rw [hact.taken, hw.taken]

/-- Only the crew ever stands in line. -/
theorem acted_of_mem (ho : o.Beats) (hsane : Flow.Sane (inboxName 1) o a)
    (hw : Follows o h w a l feed s) {t : Task} (hin : t ∈ w.exchange.ready) :
    ∃ b l' feed' s', Acted o h w.exchange a t (w.exchange.stepOf t) b l' feed' s' := by
  have ht := hw.awake.crew t hin
  simp only [Exchange.crew, List.mem_cons, List.not_mem_nil, or_false] at ht
  rcases ht with rfl | rfl | rfl
  · obtain ⟨b, l', feed', hact⟩ := acted_broker hw.solo hw.awake hsane hin
    exact ⟨b, l', feed', s, hact⟩
  · obtain ⟨s', hact⟩ := acted_alarm hw.solo hw.awake
    exact ⟨a, l, feed, s', hact⟩
  · exact acted_worker ho hw.solo hw.awake hin

theorem mirrors_next (hfit : o.Fits) (ho : o.Beats) (hw : w.Mirrors o h a) (m : Move) :
    ∃ b, (w.next m).Mirrors o h b := by
  obtain ⟨hr, l, feed, s, hf⟩ := hw
  have hsane := Flow.sane_of_reached hfit hr
  cases m with
  | publish m =>
    obtain ⟨b, l', hstep, hf'⟩ := follows_publish hf m
    exact ⟨b, mirrors_of_follows hr (.single (.transit hstep)) hf'⟩
  | clock later => exact ⟨a, mirrors_of_follows hr .refl (follows_clock hf later)⟩
  | turn t =>
    by_cases hin : t ∈ w.exchange.ready
    · obtain ⟨b, l', feed', s', hact⟩ := acted_of_mem ho hsane hf hin
      exact ⟨b, mirrors_of_follows hr hact.step (follows_acted hf hin hact)⟩
    · have hmove : w.next (.turn t) = w := if_neg hin
      rw [hmove]
      exact ⟨a, mirrors_of_follows hr .refl hf⟩
  | timers =>
    obtain ⟨b, l', hstep, hf'⟩ := follows_timers hsane hf
    exact ⟨b, mirrors_of_follows hr (Flow.step_of_transit hstep) hf'⟩

/-! ## The start -/

/-- A first request goes out at once. -/
theorem exists_issue_initial (ho : o.Beats) (since now : Nat) :
    ∃ t, (Tracker.start since).issue now o.initial = some t := by
  have hgo : (RefillPlan.ofOptions o).next? .none = some o.initial := rfl
  refine Option.isSome_iff_exists.1 (Option.isSome_iff_ne_none.2 fun hnone => ?_)
  exact Accounts.issue_eq_none_iff.1 hnone (goesOut_next ho hgo)

/-- On a bare world a consumer opens its subscription and sends its first request. -/
theorem openContinuous_bare (ho : o.Beats) {ms : List Message} (hb : w.Bare l ms) (h : Handler) :
    ∃ y t, w.exchange.openContinuous o h = (y, .ok 0) ∧
      t.demand = Demand.add .none o.initial ∧
      y.core = { w.exchange.core with
        transport := .loopback { l with
          nextInbox := 2
          commands := (l.commands.push (.register (inboxName 1))).push
            (.pull (inboxName 1) o.initial.onWire) }
        feeds := #[.start (inboxName 1) l.broker.limits.frameCapacity (some 0)]
        subs := #[{ Subscription.start (inboxName 1) 0 w.exchange.core.now
          w.exchange.core.queueCapacity (.continuous (.start o h)) with tracker := t }] } ∧
      Stirred w.exchange y ∧ .broker ∈ y.ready := by
  let p : Purpose := .continuous (.start o h)
  obtain ⟨hopen, hcore⟩ := Exchange.core_openSub hb.transport hb.alive p
  have hst := Exchange.stirred_openSub (x := w.exchange) (by rw [hb.subs]; rfl) p
  rw [hb.subs] at hopen
  obtain ⟨y, hy⟩ : ∃ y, w.exchange.openSub p = (y, .ok 0) := ⟨_, Prod.ext rfl hopen⟩
  rw [hy, hb.feeds, hb.subs, hb.nextInbox] at hcore
  rw [hy] at hst
  have hy' : y.core = { w.exchange.core with
      transport := .loopback { l with
        nextInbox := 2
        commands := l.commands.push (.register (inboxName 1)) }
      feeds := #[.start (inboxName 1) l.broker.limits.frameCapacity (some 0)]
      subs := #[.start (inboxName 1) 0 w.exchange.core.now w.exchange.core.queueCapacity p] } :=
    hcore
  have ht : y.core.transport = .loopback { l with
      nextInbox := 2
      commands := l.commands.push (.register (inboxName 1)) } := by rw [hy']
  have hn : y.core.callers = [] := by rw [hy']; exact hb.callers
  have hsub : y.core.subs[0]? =
      some (.start (inboxName 1) 0 w.exchange.core.now w.exchange.core.queueCapacity p) := by
    rw [hy']
    rfl
  obtain ⟨t, hissue⟩ := exists_issue_initial ho w.exchange.core.now y.core.now
  obtain ⟨hpull, hpulled⟩ := Exchange.core_pull (i := 0) ht hb.alive hsub rfl hissue
  obtain ⟨hstp, hready⟩ := Exchange.stirred_pull ht hb.alive hn hsub rfl hissue
  obtain ⟨z, hz⟩ : ∃ z, y.pull 0 o.initial = (z, .ok ()) := ⟨_, Prod.ext rfl hpull⟩
  rw [hz] at hpulled hstp hready
  have hopenc : w.exchange.openContinuous o h = (z.note (Journal.consumerStarted
      (((z.subs[0]?).map Subscription.inbox).getD "") o.batchSize o.batchBytes o.threshold),
      .ok 0) := by
    unfold Exchange.openContinuous
    rw [Exchange.openWith_eq hy hz]
  refine ⟨_, t, hopenc, Tracker.demand_issue hissue, ?_,
    (hst.trans hstp).trans (Exchange.stirred_note _ _), hready⟩
  rw [Exchange.core_note]
  dsimp only at hpulled
  rw [hpulled, hy']
  rfl

/-- A consumer that is opened on a bare world finds on the stream, or in line, what was published
before. -/
theorem mirrors_opened (ho : o.Beats) {ms : List Message} (hb : w.Bare l ms) (h : Handler) :
    ∃ handing, (w.opened o h).Mirrors o h
      (.start (inboxName 1) (.ofOptions o) l.broker.stream.toList handing ms) := by
  obtain ⟨y, t, hy, hdem, hcore, hst, hready⟩ := openContinuous_bare ho hb h
  have hopened : w.opened o h = ⟨y, w.stored, w.taken⟩ := by
    unfold opened
    rw [hy]
  obtain ⟨handing, hag⟩ : ∃ handing : Bool,
      l.broker.agenda = if handing then [.handOut] else [] := by
    rcases hb.agenda with hag | hag
    · exact ⟨false, hag⟩
    · exact ⟨true, hag⟩
  rw [hopened]
  refine ⟨handing, .start _ _ _, { l with
      nextInbox := 2
      commands := (l.commands.push (.register (inboxName 1))).push
        (.pull (inboxName 1) o.initial.onWire) },
    .start (inboxName 1) l.broker.limits.frameCapacity (some 0),
    { Subscription.start (inboxName 1) 0 w.exchange.core.now w.exchange.core.queueCapacity
      (.continuous (.start o h)) with tracker := t }, ?_, ?_, hb.stored, hb.taken⟩
  · rw [hcore]
    exact {
      transport := rfl
      feeds := rfl
      subs := rfl
      callers := hb.callers
      alive := hb.alive
      held := hb.held
      linked := {
        registered := Or.inr ⟨hb.unknown, rfl, rfl, ms, [.pull (inboxName 1) o.initial.onWire],
          rfl, by rw [Fifo.toList_push, Fifo.toList_push, hb.line, List.append_assoc]; rfl⟩
        stream := rfl
        cursor := hb.unread
        waiting := hb.waiting
        agenda := hag
        limits := hb.limits }
      feedInbox := rfl
      reading := rfl
      writing := rfl
      reader := rfl
      capacity := Nat.lt_of_lt_of_le Nat.zero_lt_one (Nat.le_max_left _ _)
      frames := rfl
      inbox := rfl
      feed := rfl
      opened := rfl
      worker := rfl
      purpose := ⟨0, rfl⟩
      demand := hdem
      handled := congrArg Array.toList hb.handled }
  · exact ⟨hb.toCrewed.stirred hst, Or.inl hready, Or.inr rfl⟩

theorem mirrors_start (ho : o.Beats) {limits : Broker.Limits} (hu : limits.Unlimited)
    (keepsNotices : Bool) (queueCapacity : Nat) (before : List Move) (h : Handler) :
    ∃ a, (World.start limits keepsNotices queueCapacity before o h).Mirrors o h a := by
  obtain ⟨l, ms, hb⟩ := (bare_empty hu keepsNotices queueCapacity).after before
  obtain ⟨handing, hm⟩ := mirrors_opened ho hb h
  exact ⟨_, hm⟩

theorem mirrors_after (hfit : o.Fits) (ho : o.Beats) (hw : w.Mirrors o h a) (ms : List Move) :
    ∃ b, (w.after ms).Mirrors o h b := by
  induction ms generalizing w a with
  | nil => exact ⟨a, hw⟩
  | cons m ms ih =>
    obtain ⟨b, hb⟩ := mirrors_next hfit ho hw m
    exact ih hb

/-! ## Rest -/

/-- Where all tasks wait, nothing of the flow is under way. -/
theorem quiet_of_follows (hw : Follows o h w a l feed s) (hq : w.exchange.isQuiet = true) :
    a.IsQuiet := by
  have hready : w.exchange.ready = [] := by
    unfold Exchange.isQuiet at hq
    simpa using (Bool.and_eq_true_iff.1 hq).1
  have hframes : feed.frames.toList = [] :=
    hw.awake.worker.resolve_left fun hin => by
      rw [hready] at hin
      cases hin
  have hrests : BrokerRests l feed :=
    hw.awake.broker.resolve_left fun hin => by
      rw [hready] at hin
      cases hin
  obtain ⟨hag, hcmd⟩ : l.broker.agenda = [] ∧ l.commands.toList = [] := by
    refine hrests.resolve_right fun ⟨_, hfull⟩ => ?_
    have hcap := hw.solo.capacity
    have hsize : feed.frames.size = 0 := by
      rw [← Fifo.length_toList, hframes]
      rfl
    unfold Feed.isFull at hfull
    rw [hsize] at hfull
    have := of_decide_eq_true hfull
    omega
  refine ⟨linked_idle hw.solo.linked hag, ?_, hw.solo.frames.symm.trans hframes⟩
  rcases hw.solo.linked.registered with ⟨_, hc⟩ | hr
  · exact hc.symm.trans hcmd
  · obtain ⟨ms, rest, _, hline⟩ := hr.commands
    rw [hcmd] at hline
    exact absurd hline.symm (List.append_ne_nil_of_right_ne_nil _ (List.cons_ne_nil _ _))

end World

end DemandFlow
