import DemandFlow.Proofs.Consume.Serve

/-
  The turns of the tasks of one continuous consumer, here the broker's and the alarm task's.
  After each one the exchange stands for the flow as it was or one step further; a step that
  lets its task leave the line leaves nothing behind for it to do, and whoever gets something to
  do is in line.
-/

namespace DemandFlow

open Broker (inboxName)
open Exchange (Core Stirred)

/-- What a task's step comes to: the exchange and whether the task can go on. -/
structure Acted (o : ConsumeOptions) (h : Handler) (x : Exchange) (a : Flow) (t : Task)
    (p : Exchange × Bool) (b : Flow) (l : Loopback) (feed : Feed) (s : Subscription) : Prop where
  step : Relation.ReflGen (Flow.Step (inboxName 1) (.ofOptions o)) a b
  solo : Solo o h p.1.core b l feed s
  stirred : Stirred x p.1
  broker : .broker ∈ p.1.ready ∨ BrokerRests l feed
  worker : .worker 0 ∈ p.1.ready ∨ feed.frames.toList = []
  brokerRests : p.2 = false → t = .broker → BrokerRests l feed
  workerRests : p.2 = false → t = .worker 0 → feed.frames.toList = []
  stored : b.stored = a.stored ++ (x.replies? t).toList
  taken : b.taken = a.taken ++ (x.reads? t).toList

section

variable {o : ConsumeOptions} {h : Handler} {x : Exchange} {a : Flow} {l : Loopback}
  {feed : Feed} {s : Subscription}

theorem Flow.step_of_transit {b : Flow}
    (ht : Relation.ReflGen (Flow.Transit (inboxName 1)) a b) :
    Relation.ReflGen (Flow.Step (inboxName 1) (.ofOptions o)) a b :=
  ht.mono fun _ _ => .transit

theorem sub_of_solo {c : Core} (hs : Solo o h c a l feed s) : c.subs[0]? = some s := by
  rw [hs.subs]
  rfl

/-! ## The broker -/

/-- A post is held up by a full feed; else the frame stands in the feed and the worker in line. -/
theorem post_of_solo (hs : Solo o h x.core a l feed s) {b : Broker.State}
    (hb : b.inboxes = [inboxName 1]) (f : Frame) :
    x.post l b (inboxName 1) f =
      if feed.isFull then (x.clearTimer .broker, false)
      else (((x.setBroker l b).modifyFeed 0 (·.push f)).wake (.worker 0), true) := by
  have hfeeds : x.feeds = #[feed] := hs.feeds
  have hi : x.feedOf? (inboxName 1) = some 0 := findIdx?_solo hs
  have hat : x.feedAt? (inboxName 1) = some (0, feed) := by
    unfold Exchange.feedAt?
    rw [hi, Option.bind_some, hfeeds]
    rfl
  have hreader : Exchange.readerOf feed = [.worker 0] := by
    unfold Exchange.readerOf
    rw [hs.reader]
    rfl
  unfold Exchange.post
  rw [if_pos (knows_of_inboxes hb), hat]
  dsimp only
  rw [if_pos hs.reading, hreader]
  rfl

/-- A frame is posted to the feed. -/
theorem solo_post {c : Core} (hs : Solo o h c a l feed s) {b : Flow} {l' : Loopback} {f : Frame}
    (hl : Linked l' b) (ha : l'.alive = l.alive) (hh : l'.held = l.held) (hv : a.Served b)
    (hf : b.frames = a.frames ++ [f]) :
    Solo o h { c with transport := .loopback l', feeds := c.feeds.modify 0 (·.push f) } b l'
      (feed.push f) s := by
  have hfeeds : c.feeds.modify 0 (·.push f) = #[feed.push f] := by
    rw [hs.feeds]
    rfl
  exact { hs with
    transport := rfl
    feeds := hfeeds
    alive := ha.trans hs.alive
    held := hh.trans hs.held
    linked := hl
    frames := by rw [Feed.toList_push, hs.frames, hf]
    demand := hs.demand.trans hv.demand.symm
    handled := by rw [hv.taken]; exact hs.handled }

/-- The broker changed without a post. -/
theorem solo_served {c : Core} (hs : Solo o h c a l feed s) {b : Flow} {l' : Loopback}
    (hl : Linked l' b) (ha : l'.alive = l.alive) (hh : l'.held = l.held) (hv : a.Served b)
    (hf : b.frames = a.frames) : Solo o h { c with transport := .loopback l' } b l' feed s :=
  solo_setLoopback hs hl ha hh hf hv.demand hv.taken

/-- All of the broker's steps but a post leave the feed alone. -/
theorem acted_of_feed_kept (ha : Awake x l feed) (hin : Task.broker ∈ x.ready)
    {p : Exchange × Bool} {b : Flow} {l' : Loopback}
    (hstep : Relation.ReflGen (Flow.Transit (inboxName 1)) a b)
    (hsolo : Solo o h p.1.core b l' feed s) (hst : Stirred x p.1)
    (hrest : p.2 = false → BrokerRests l' feed) (hv : a.Served b) :
    Acted o h x a .broker p b l' feed s where
  step := Flow.step_of_transit hstep
  solo := hsolo
  stirred := hst
  broker := Or.inl (hst.mem hin)
  worker := ha.worker.imp_left hst.mem
  brokerRests := fun hp _ => hrest hp
  workerRests := fun _ ht => by cases ht
  stored := hv.stored.trans (List.append_nil _).symm
  taken := hv.taken.trans (List.append_nil _).symm

theorem acted_posted (hs : Solo o h x.core a l feed s) (ha : Awake x l feed)
    (hin : Task.broker ∈ x.ready) {b' : Broker.State} {inbox : String} {f : Frame}
    (hw : l.broker.work x.core.now = (b', some (inbox, f))) :
    ∃ b l' feed', Acted o h x a .broker (x.post l b' inbox f) b l' feed' s := by
  obtain ⟨b, hstep, hl, hv, hf, rfl, hag, hinb⟩ := linked_post hs.linked hw
  rw [post_of_solo hs hinb]
  cases hfull : feed.isFull with
  | true =>
    rw [if_pos rfl]
    exact ⟨a, l, feed, acted_of_feed_kept ha hin .refl hs (Exchange.stirred_clearTimer x _)
      (fun _ => Or.inr ⟨hag, hfull⟩) ⟨rfl, rfl, rfl⟩⟩
  | false =>
    rw [if_neg Bool.false_ne_true]
    have hst : Stirred x (((x.setBroker l b').modifyFeed 0 (·.push f)).wake (.worker 0)) :=
      ((Exchange.stirred_setBroker x l b').trans (Exchange.stirred_modifyFeed _ _ _)).trans
        (Exchange.stirred_wake _ Exchange.worker_mem_crew)
    have hcore : (((x.setBroker l b').modifyFeed 0 (·.push f)).wake (.worker 0)).core =
        { x.core with
          transport := .loopback { l with broker := b' }
          feeds := x.core.feeds.modify 0 (·.push f) } := by
      rw [Exchange.core_wake, Exchange.core_modifyFeed, Exchange.core_setBroker]
    have hsolo := solo_post hs hl rfl rfl hv hf
    rw [← hcore] at hsolo
    refine ⟨b, _, feed.push f, Flow.step_of_transit (.single hstep), hsolo, hst,
      Or.inl (hst.mem hin), Or.inl ?_, (fun hp => by cases hp), (fun _ ht => by cases ht), ?_, ?_⟩
    · exact Exchange.mem_ready_wake _ fun id => by simp
    · exact hv.stored.trans (List.append_nil _).symm
    · exact hv.taken.trans (List.append_nil _).symm

theorem acted_taken (hs : Solo o h x.core a l feed s) (ha : Awake x l feed)
    (hsane : Flow.Sane (inboxName 1) o a) (hin : Task.broker ∈ x.ready)
    (hag : l.broker.agenda = []) {c : Broker.Command} {rest : Fifo Broker.Command}
    (hp : l.commands.pop? = some (c, rest)) :
    ∃ b l' feed', Acted o h x a .broker (x.takeCommand c rest, true) b l' feed' s := by
  obtain ⟨b, hstep, hl, hv, hf, hc⟩ := linked_accept x.core.now hs.linked hsane hag hp
  obtain ⟨hu, hst, hpl, hshut⟩ : (∀ inbox, c ≠ .unsubscribe inbox) ∧
      (∀ asker, c ≠ .stats asker) ∧ (∀ asker, c ≠ .pullLog asker) ∧
      Exchange.shutBy x.core.feeds c = x.core.feeds := by
    rcases hc with ⟨m, rfl⟩ | ⟨n, rfl⟩ | ⟨n, r, rfl⟩ <;>
      exact ⟨fun _ => by simp, fun _ => by simp, fun _ => by simp, rfl⟩
  have hcore : (x.takeCommand c rest).core = { x.core with
      transport := .loopback { l with
        commands := rest
        broker := l.broker.accept x.core.now c } } := by
    rw [Exchange.core_takeCommand hs.transport hst hpl rest, hshut]
  have hsolo := solo_served hs hl rfl rfl hv hf
  rw [← hcore] at hsolo
  exact ⟨b, _, feed, acted_of_feed_kept ha hin hstep hsolo
    (Exchange.stirred_takeCommand x hu hst hpl rest) (fun hp => by cases hp) hv⟩

theorem acted_idle (hs : Solo o h x.core a l feed s) (ha : Awake x l feed)
    (hsane : Flow.Sane (inboxName 1) o a) (hin : Task.broker ∈ x.ready)
    (hag : l.broker.agenda = []) (hcmd : l.commands.toList = []) :
    ∃ b l' feed', Acted o h x a .broker (x.idle l) b l' feed' s := by
  have hrest : BrokerRests l feed := Or.inl ⟨hag, hcmd⟩
  rcases Exchange.idle_cases x hs.held with hi | ⟨due, hi⟩ | hi
  · obtain ⟨b, hstep, hl, hv, hf⟩ := linked_fire x.core.now hs.linked hsane hag
    rw [hi]
    exact ⟨b, _, feed, acted_of_feed_kept ha hin (.single hstep)
      (solo_served hs hl rfl rfl hv hf) (Exchange.stirred_setBroker x l _)
      (fun hp => by cases hp) hv⟩
  · rw [hi]
    exact ⟨a, l, feed, acted_of_feed_kept ha hin .refl hs
      (Exchange.stirred_setTimer x Exchange.broker_mem_crew due) (fun _ => hrest) ⟨rfl, rfl, rfl⟩⟩
  · rw [hi]
    exact ⟨a, l, feed, acted_of_feed_kept ha hin .refl hs (Exchange.stirred_clearTimer x _)
      (fun _ => hrest) ⟨rfl, rfl, rfl⟩⟩

theorem acted_broker (hs : Solo o h x.core a l feed s) (ha : Awake x l feed)
    (hsane : Flow.Sane (inboxName 1) o a) (hin : Task.broker ∈ x.ready) :
    ∃ b l' feed', Acted o h x a .broker x.brokerStep b l' feed' s := by
  rcases Exchange.brokerStep_cases hs.transport hs.alive with ⟨b', hag, hw, he⟩ |
    ⟨b', inbox, f, hw, he⟩ | ⟨c, rest, hag, hp, he⟩ | ⟨hag, hcmd, he⟩
  · obtain ⟨b, hstep, hl, hv, hf⟩ := linked_work hs.linked hsane hag hw
    rw [he]
    exact ⟨b, _, feed, acted_of_feed_kept ha hin (.single hstep)
      (solo_served hs hl rfl rfl hv hf) (Exchange.stirred_setBroker x l b')
      (fun hp => by cases hp) hv⟩
  · rw [he]
    exact acted_posted hs ha hin hw
  · rw [he]
    exact acted_taken hs ha hsane hin hag hp
  · rw [he]
    exact acted_idle hs ha hsane hin hag hcmd

/-! ## The alarm task -/

theorem acted_alarm (hs : Solo o h x.core a l feed s) (ha : Awake x l feed) :
    ∃ s', Acted o h x a (.alarm 0) (x.alarmStep 0) a l feed s' := by
  obtain ⟨hst, g, ⟨w, m, as, hg⟩, hcore⟩ := Exchange.alarmStep_cases hs.callers (sub_of_solo hs)
  have hsolo := solo_modifySub hs (g := g) (by rw [hg]; exact ⟨rfl, rfl, rfl, rfl, rfl, rfl⟩)
  rw [← hcore] at hsolo
  exact ⟨g s, .refl, hsolo, hst, ha.broker.imp_left hst.mem, ha.worker.imp_left hst.mem,
    (fun _ ht => by cases ht), (fun _ ht => by cases ht), (List.append_nil _).symm,
    (List.append_nil _).symm⟩

end

end DemandFlow
