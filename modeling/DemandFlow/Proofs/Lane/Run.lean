import DemandFlow.Proofs.Exchange.Core
import DemandFlow.Proofs.Frame.Kinds

/-
  One lane of an exchange: a subscription with its feed, and the messages that the transport still
  owes it. `Step` says all that can happen to a lane, whatever the other subscriptions, the
  transport and the order of tasks are, and `Deed` what becomes known of it. A law of one
  subscription is shown on lanes, with one case for each step. In a calm run no frame comes into a
  feed but from the broker; what is owed means something in calm runs only.
-/

namespace DemandFlow

theorem Continuous.drain?_eq_some {c d : Continuous} (h : c.drain? = some d) :
    c.mode = .active ∧ d = { c with mode := .draining } := by
  unfold drain? at h
  cases hm : c.mode with
  | active =>
    rw [hm] at h
    exact ⟨rfl, (Option.some.inj h).symm⟩
  | draining | closed =>
    rw [hm] at h
    cases h

/-! ## What a subscription is for -/

/-- The continuous consumption that a purpose is, if it is one. -/
def Purpose.continuous? : Purpose → Option Continuous
  | .continuous c => some c
  | .manual | .fetch _ _ => none

theorem Purpose.continuous?_eq_some {p : Purpose} {c : Continuous} :
    p.continuous? = some c ↔ p = .continuous c := by
  cases p <;> simp [continuous?]

/-- The fetch that a purpose is, if it is one. -/
def Purpose.fetch? : Purpose → Option Fetch
  | .fetch f _ => some f
  | .manual | .continuous _ => none

theorem Purpose.fetch?_eq_some {p : Purpose} {f : Fetch} :
    p.fetch? = some f ↔ ∃ due, p = .fetch f due := by
  cases p <;> simp [fetch?]

def Purpose.isManual : Purpose → Bool
  | .manual => true
  | .fetch _ _ | .continuous _ => false

theorem Purpose.isManual_iff {p : Purpose} : p.isManual = true ↔ p = .manual := by
  cases p <;> simp [isManual]

/-! ## Deeds -/

deriving instance DecidableEq for Notice

/-- What becomes known of a subscription. -/
inductive Deed where
  /-- The broker put a frame into its feed. -/
  | sent (f : Frame)
  /-- The broker had a frame for it and nowhere to put it. -/
  | lost (f : Frame)
  /-- A frame was put into its feed by hand. -/
  | injected (f : Frame)
  /-- Its worker took in a frame. -/
  | took (f : Frame)
  /-- Its listener was told something. -/
  | told (n : Notice)
  /-- Its handler was called, and took the message in or failed. -/
  | called (m : Message) (kept : Bool)
  /-- A request was recorded. -/
  | pulled (r : PullRequest)
  /-- A read came to an end, with a delivery unless the time or the deliveries had run out. -/
  | read (d : Option Delivery)
  /-- A call that drains it returned. -/
  | drained (b : Bool)
deriving DecidableEq

namespace Subscription

/-- What others learn from a frame that the worker of a subscription takes in. -/
def hears (s : Subscription) (f : Frame) : List Deed :=
  match Intake.ofFrame f, s.purpose with
  | .heartbeat, _ => []
  | .warning st, _ => [.told (.warning s.inbox st)]
  | .error st, _ => [.told (.error s.inbox st)]
  | .message m, .continuous c =>
    if c.mode = .closed then [] else [.called m (c.handler.fails m).isNone]
  | .terminus st, .continuous _ => if st.isTooLarge then [.told (.error s.inbox st)] else []
  | .message _, _ | .terminus _, _ => []

/-- The request that follows on a frame: only continuous consumption asks for more by itself. -/
def asks (s : Subscription) (f : Frame) : Option PullRequest :=
  match s.purpose with
  | .continuous c => if f.reacts then c.refill? (s.demand.take f) else none
  | .manual | .fetch _ _ => none

/-- What a frame leads to, the request that follows on it included. -/
def frameDeeds (s : Subscription) (f : Frame) : List Deed :=
  .took f :: s.hears f ++ (s.asks f).toList.map .pulled

/-- What the worker is at once it has taken in a frame. -/
def after (s : Subscription) (f : Frame) : Worker :=
  match s.purpose with
  | .continuous _ => .reading
  | .manual | .fetch _ _ =>
    match (Intake.ofFrame f).delivery? with
    | some d => .holding d
    | none => .reading

/-- A subscription whose worker has taken in a frame. -/
def takes (s : Subscription) (now : Nat) (f : Frame) : Subscription :=
  { s with tracker := s.tracker.account now f, worker := s.after f }

/-- What the worker is at once it has taken in an alarm. -/
def alarmed (s : Subscription) (d : Span) : Worker :=
  match s.purpose with
  | .continuous _ => .reading
  | .manual | .fetch _ _ => .holding (.liveness d)

/-- Whether a request comes from a subscription itself or its owner: continuous consumption asks
for what its plan says and for nothing else. -/
def Wants (s : Subscription) (r : PullRequest) : Prop :=
  match s.purpose with
  | .continuous c => c.refill? s.demand = some r
  | .manual | .fetch _ _ => True

/-- A subscription that is shut down. -/
def shut (s : Subscription) : Subscription :=
  { s with closed := true, tracker := { s.tracker with monitor := s.tracker.monitor.shutdown } }

/-- A subscription that its owner has left. -/
def left (s : Subscription) : Subscription := { s.shut with claimed := true }

/-- A subscription whose worker has ended. -/
def ended (s : Subscription) : Subscription := { s.shut with worker := .ended }

/-- A subscription whose consumer is closed, if it is a continuous one. -/
def stopped (s : Subscription) : Subscription :=
  match s.purpose with
  | .continuous c => { s with purpose := .continuous c.close }
  | _ => s

/-- The requests of continuous consumption fit a word. -/
def Sized (s : Subscription) : Prop :=
  ∀ c, s.purpose = .continuous c → c.plan.initial.Fits ∧ c.plan.refill.Fits

/-- Nothing is outstanding, and nothing will be asked for any more. -/
def IsSettled (s : Subscription) : Prop :=
  s.tracker.isExhausted = true ∧
    (s.closed = true ∨ ∃ c, s.purpose = .continuous c ∧ c.mode ≠ .active)

/-- What is heard of a frame is a warning, an error, or the call with a message to a handler that
is not closed. -/
theorem told_or_called_of_hears {s : Subscription} {f : Frame} {d : Deed} (h : d ∈ s.hears f) :
    (∃ st, d = .told (.warning s.inbox st) ∨ d = .told (.error s.inbox st)) ∨
      ∃ m kept c, d = .called m kept ∧ f = .message m ∧
        s.purpose = .continuous c ∧ c.mode ≠ .closed := by
  unfold hears at h
  split at h
  · cases h
  · exact Or.inl ⟨_, Or.inl (List.mem_singleton.1 h)⟩
  · exact Or.inl ⟨_, Or.inr (List.mem_singleton.1 h)⟩
  · rename_i hk hp
    split at h
    · cases h
    · rename_i hm
      exact Or.inr ⟨_, _, _, List.mem_singleton.1 h, Intake.ofFrame_eq_message_iff.1 hk, hp, hm⟩
  · split at h
    · exact Or.inl ⟨_, Or.inr (List.mem_singleton.1 h)⟩
    · cases h
  · cases h
  · cases h

theorem tracker_stopped (s : Subscription) : s.stopped.tracker = s.tracker := by
  unfold stopped
  split <;> rfl

end Subscription

/-! ## Lanes -/

/-- What a transport has still to do for an inbox. -/
structure Due where
  /-- The messages that are asked for in commands or owed by the broker. -/
  owed : Nat
  /-- The requests that the broker has not taken in, or that a script keeps. -/
  requests : List PullRequest

/-- There is no more to do than before. -/
structure Due.Eases (calm : Bool) (d d' : Due) : Prop where
  owed : calm = true → d'.owed ≤ d.owed
  requests : d'.requests <:+ d.requests

theorem Due.eases_refl (calm : Bool) (d : Due) : d.Eases calm d :=
  ⟨fun _ => Nat.le_refl _, List.suffix_refl _⟩

structure Lane where
  sub : Subscription
  feed : Feed
  due : Due

namespace Lane

/-- The worker has to end: it is told to, or the feed is at its end, or its consumer is closed. -/
def MayEnd (L : Lane) : Prop :=
  L.sub.closed = true ∨
    (L.sub.worker = .reading ∧ L.feed.frames.toList = [] ∧ L.feed.writing = false) ∨
    ∃ c, L.sub.purpose = .continuous c ∧ c.mode = .closed

/-- A lane that was just opened. -/
structure IsFresh (calm : Bool) (L : Lane) : Prop where
  sub : ∃ inbox feed now capacity purpose,
    L.sub = Subscription.start inbox feed now capacity purpose ∧
      ∀ c, purpose = .continuous c → ∃ o h, c = Continuous.start o h
  feed : ∃ inbox capacity reader, L.feed = Feed.start inbox capacity reader
  owed : calm = true → L.due.owed = 0

/-- A step of a lane, with what becomes known. -/
inductive Step (calm : Bool) : Lane → List Deed → Lane → Prop
  /-- The broker sends a frame, in a calm run an honest one that it owes. -/
  | send (L : Lane) (f : Frame) (due : Due) (reading : L.feed.reading = true)
      (fair : calm = true → f.Honest ∧ f.weight + due.owed ≤ L.due.owed)
      (requests : due.requests <:+ L.due.requests) :
    Step calm L [.sent f] { L with feed := L.feed.push f, due := due }
  /-- The broker drops such a frame. -/
  | lose (L : Lane) (f : Frame) (due : Due)
      (fair : calm = true → f.Honest ∧ f.weight + due.owed ≤ L.due.owed)
      (requests : due.requests <:+ L.due.requests) :
    Step calm L [.lost f] { L with due := due }
  | inject (L : Lane) (f : Frame) (loose : calm = false) (reading : L.feed.reading = true) :
    Step calm L [.injected f] { L with feed := L.feed.push f }
  /-- The transport has less to do. -/
  | ease (L : Lane) (due : Due) (eases : L.due.Eases calm due) :
    Step calm L [] { L with due := due }
  /-- The feed loses its writer. -/
  | shut (L : Lane) : Step calm L [] { L with feed := L.feed.shut }
  /-- The worker takes in a frame. -/
  | take (L : Lane) (f : Frame) (rest : Fifo Frame) (now : Nat) (opened : L.sub.closed = false)
      (worker : L.sub.worker = .reading) (next : L.feed.frames.pop? = some (f, rest)) :
    Step calm L (.took f :: L.sub.hears f)
      { L with sub := L.sub.takes now f, feed := { L.feed with frames := rest } }
  /-- A handler has taken in so many messages. -/
  | count (L : Lane) (c : Continuous) (n : Nat) (purpose : L.sub.purpose = .continuous c) :
    Step calm L [] { L with sub := { L.sub with purpose := .continuous { c with handled := n } } }
  /-- A request is recorded, and goes out or is withdrawn again. -/
  | pull (L : Lane) (r : PullRequest) (t : Tracker) (due : Due) (opened : L.sub.closed = false)
      (wants : L.sub.Wants r)
      (goes : t.demand = L.sub.demand.add r ∧ (calm = true → due.owed ≤ L.due.owed + r.batch) ∨
        t.demand = (L.sub.demand.add r).withdraw r ∧ (calm = true → due.owed ≤ L.due.owed)) :
    Step calm L [.pulled r] { L with sub := { L.sub with tracker := t }, due := due }
  /-- The alarm task looks at the monitor. -/
  | watch (L : Lane) (m : Monitor) (alarms : List Span) (watching : Bool) :
    Step calm L [] { L with sub := { L.sub with
      tracker := { L.sub.tracker with monitor := m }, alarms := alarms, watching := watching } }
  /-- The worker takes in an alarm. -/
  | alarm (L : Lane) (d : Span) (alarms : List Span) (opened : L.sub.closed = false)
      (worker : L.sub.worker = .reading) :
    Step calm L [.told (.alarm L.sub.inbox d)]
      { L with sub := { L.sub with alarms := alarms, worker := L.sub.alarmed d } }
  /-- The worker puts what it holds into the queue. -/
  | enqueue (L : Lane) (d : Delivery) (opened : L.sub.closed = false)
      (worker : L.sub.worker = .holding d) : Step calm L [] { L with sub := L.sub.enqueue d }
  /-- The worker ends. -/
  | finish (L : Lane) (may : L.MayEnd) :
    Step calm L [] { L with sub := L.sub.ended, feed := L.feed.abandon }
  /-- The owner leaves. -/
  | leave (L : Lane) : Step calm L [] { L with sub := L.sub.left }
  /-- The owner closes the consumer and leaves. -/
  | stop (L : Lane) : Step calm L [] { L with sub := L.sub.stopped.left }
  /-- A reader takes a delivery. -/
  | read (L : Lane) (d : Delivery) (rest : Fifo Delivery)
      (next : L.sub.queue.pop? = some (d, rest)) :
    Step calm L [.read (some d)] { L with sub := { L.sub with queue := rest } }
  /-- A reader gives up, or learns that there is nothing more to come. -/
  | miss (L : Lane) : Step calm L [.read none] L
  /-- Other readers stand in line, or the owner is gone. -/
  | line (L : Lane) (readers : List Nat) (orphaned : Bool) :
    Step calm L [] { L with sub := { L.sub with readers := readers, orphaned := orphaned } }
  /-- A fetch goes on or ends. -/
  | fetch (L : Lane) (f g : Fetch) (due due' : Nat) (purpose : L.sub.purpose = .fetch f due) :
    Step calm L [] { L with sub := { L.sub with purpose := .fetch g due' } }
  /-- Consumption begins to drain. -/
  | drain (L : Lane) (c d : Continuous) (purpose : L.sub.purpose = .continuous c)
      (drains : c.drain? = some d) :
    Step calm L [] { L with sub := { L.sub with purpose := .continuous d } }
  | drained (L : Lane) (b : Bool) (settled : b = true → L.sub.IsSettled) :
    Step calm L [.drained b] L

/-- A run of a lane, with all that became known. -/
inductive Run (calm : Bool) : Lane → List Deed → Lane → Prop
  | nil (L : Lane) : Run calm L [] L
  | snoc {L₀ L L' : Lane} {past new : List Deed} (run : Run calm L₀ past L)
      (step : Step calm L new L') : Run calm L₀ (past ++ new) L'

variable {calm : Bool} {L₀ L L' : Lane} {past new : List Deed}

theorem Run.quiet (run : Run calm L₀ past L) (step : Step calm L [] L') :
    Run calm L₀ past L' := by
  have h := run.snoc step
  rwa [List.append_nil] at h

theorem Run.single (step : Step calm L new L') : Run calm L new L' := (Run.nil L).snoc step

theorem Run.trans (run : Run calm L₀ past L) (more : Run calm L new L') :
    Run calm L₀ (past ++ new) L' := by
  induction more with
  | nil =>
    rw [List.append_nil]
    exact run
  | snoc _ step ih =>
    rw [← List.append_assoc]
    exact ih.snoc step

/-- What every step keeps holds at the end of every run. -/
theorem Run.keeps {P : Lane → Prop} (hP : ∀ L new L', Step calm L new L' → P L → P L')
    (run : Run calm L₀ past L) (h : P L₀) : P L := by
  induction run with
  | nil => exact h
  | snoc _ step ih => exact hP _ _ _ step ih

/-! ## What every step keeps -/

/-- Inboxes and feeds keep their names. -/
structure SameNames (L L' : Lane) : Prop where
  inbox : L'.sub.inbox = L.sub.inbox
  feed : L'.sub.feed = L.sub.feed
  feedInbox : L'.feed.inbox = L.feed.inbox

theorem Step.sameNames (step : Step calm L new L') : SameNames L L' := by
  cases step with
  | stop =>
    unfold Subscription.stopped
    split <;> exact ⟨rfl, rfl, rfl⟩
  | _ => exact ⟨rfl, rfl, rfl⟩

theorem Run.sameNames (run : Run calm L new L') : SameNames L L' :=
  run.keeps (P := SameNames L) (fun _ _ _ step h =>
    ⟨step.sameNames.inbox.trans h.inbox, step.sameNames.feed.trans h.feed,
      step.sameNames.feedInbox.trans h.feedInbox⟩) ⟨rfl, rfl, rfl⟩

/-- A subscription is for what it was for: one that consumes continuously keeps its options, its
plan and its handler. -/
def Alike : Purpose → Purpose → Prop
  | .manual, .manual => True
  | .fetch _ _, .fetch _ _ => True
  | .continuous c, .continuous d =>
    d.options = c.options ∧ d.plan = c.plan ∧ d.handler = c.handler
  | _, _ => False

theorem alike_refl (p : Purpose) : Alike p p := by
  cases p with
  | continuous c => exact ⟨rfl, rfl, rfl⟩
  | _ => exact trivial

theorem Alike.trans {p q r : Purpose} (h : Alike p q) (h' : Alike q r) : Alike p r := by
  cases p <;> cases q <;> cases r <;>
    simp only [Alike] at h h' ⊢
  exact ⟨h'.1.trans h.1, h'.2.1.trans h.2.1, h'.2.2.trans h.2.2⟩

/-- A lane that consumes continuously was opened for that, with the plan of its options. -/
theorem start_of_fresh {c : Continuous} (fresh : L.IsFresh calm)
    (halike : Alike L.sub.purpose (.continuous c)) : c.plan = .ofOptions c.options ∧
      ∃ inbox feed now capacity, L.sub =
        .start inbox feed now capacity (.continuous (.start c.options c.handler)) := by
  obtain ⟨inbox, feed, now, capacity, purpose, hsub, hstart⟩ := fresh.sub
  have hp : L.sub.purpose = purpose := by rw [hsub]; rfl
  rw [hp] at halike
  cases purpose with
  | manual | fetch _ _ => exact halike.elim
  | continuous d =>
    obtain ⟨o, hd, rfl⟩ := hstart d rfl
    obtain ⟨ho, hplan, hhandler⟩ := halike
    refine ⟨by rw [hplan, ho]; rfl, inbox, feed, now, capacity, ?_⟩
    rw [hsub, ho, hhandler]
    rfl

theorem Step.alike (step : Step calm L new L') : Alike L.sub.purpose L'.sub.purpose := by
  cases step with
  | count c n purpose =>
    rw [purpose]
    exact ⟨rfl, rfl, rfl⟩
  | fetch f g due due' purpose =>
    rw [purpose]
    exact trivial
  | drain c d purpose drains =>
    obtain ⟨_, rfl⟩ := Continuous.drain?_eq_some drains
    rw [purpose]
    exact ⟨rfl, rfl, rfl⟩
  | stop =>
    unfold Subscription.stopped
    split
    · rename_i c hp
      rw [hp]
      exact ⟨rfl, rfl, rfl⟩
    · exact alike_refl _
  | _ => exact alike_refl _

theorem Run.alike (run : Run calm L new L') : Alike L.sub.purpose L'.sub.purpose :=
  run.keeps (P := fun M => Alike L.sub.purpose M.sub.purpose)
    (fun _ _ _ step h => h.trans step.alike) (alike_refl _)

theorem isExhausted_take {d : Demand} (h : d.isExhausted = true) (f : Frame) :
    (d.take f).isExhausted = true := by
  obtain ⟨hm, ht⟩ : d.messages = 0 ∧ d.tracking = false := by simpa [Demand.isExhausted] using h
  unfold Demand.take
  split
  · exact h
  · unfold Demand.subtract
    rw [ht, hm, Nat.zero_sub]
    rfl

/-- A subscription that is settled stays settled. -/
theorem Step.settled (step : Step calm L new L') (h : L.sub.IsSettled) : L'.sub.IsSettled := by
  obtain ⟨he, hover⟩ := h
  cases step with
  | take f rest now opened worker next =>
    refine ⟨?_, hover⟩
    show (L.sub.tracker.account now f).demand.isExhausted = true
    rw [Demand.demand_account]
    exact isExhausted_take he f
  | pull r t due opened wants goes =>
    rcases hover with hc | ⟨c, hp, hm⟩
    · rw [opened] at hc
      cases hc
    · unfold Subscription.Wants at wants
      rw [hp] at wants
      dsimp only at wants
      rw [Continuous.refill?_of_not_active hm] at wants
      cases wants
  | count c n purpose =>
    refine ⟨he, hover.imp_right ?_⟩
    rintro ⟨d, hp, hm⟩
    cases purpose.symm.trans hp
    exact ⟨_, rfl, hm⟩
  | fetch f g due due' purpose =>
    refine ⟨he, hover.imp_right ?_⟩
    rintro ⟨d, hp, _⟩
    cases purpose.symm.trans hp
  | drain c d purpose drains =>
    refine ⟨he, hover.imp_right ?_⟩
    rintro ⟨e, hp, hm⟩
    cases purpose.symm.trans hp
    rw [Continuous.drain?_eq_none_iff.2 hm] at drains
    cases drains
  | finish may => exact ⟨he, Or.inl rfl⟩
  | leave => exact ⟨he, Or.inl rfl⟩
  | stop =>
    refine ⟨?_, Or.inl rfl⟩
    unfold Subscription.stopped
    split <;> exact he
  | _ => exact ⟨he, hover⟩

theorem Step.sized (step : Step calm L new L') (h : L.sub.Sized) : L'.sub.Sized := by
  cases step with
  | count c n purpose =>
    intro d hd
    cases hd
    exact h c purpose
  | fetch f g due due' purpose =>
    intro d hd
    cases hd
  | drain c d purpose drains =>
    intro e he
    cases he
    obtain ⟨_, rfl⟩ := Continuous.drain?_eq_some drains
    exact h c purpose
  | stop =>
    intro d hd
    unfold Subscription.stopped at hd
    split at hd
    · rename_i c hp
      cases hd
      exact h c hp
    · exact h d hd
  | _ => exact h

end Lane

end DemandFlow
