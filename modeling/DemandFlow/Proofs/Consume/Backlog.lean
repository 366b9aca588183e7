import DemandFlow.Proofs.Consume.World
import DemandFlow.Proofs.Exchange.Free

/-
  A world before its consumer is opened. Messages may be published and time may pass, and the
  broker stores what was published; nobody waits for it. So each message is on the stream or in
  line when the consumer comes.
-/

namespace DemandFlow

open Broker (Command inboxName)
open Exchange (Stirred)

/-! ## Time -/

section Time

variable {x : Exchange}

/-- Sleepers of the crew wake. -/
theorem stirred_ring (hs : ∀ e ∈ x.timers, e.task ∈ Exchange.crew) (now : Nat) :
    Stirred x (x.ring now) := by
  have hx : Stirred x { x with
      now := now
      timers := x.timers.filter fun t => now < t.due } :=
    ⟨rfl, rfl, List.prefix_refl _, fun _ ht => Or.inl ht,
      fun _ he => Or.inl (List.mem_filter.1 he).1⟩
  refine hx.trans (Exchange.stirred_wakeAll _ (fun t ht => ?_) _)
  obtain ⟨e, he, rfl⟩ := List.mem_map.1 ht
  exact hs e (List.mem_filter.1 he).1

theorem core_ring (x : Exchange) (now : Nat) : (x.ring now).core = { x.core with now := now } := by
  unfold Exchange.ring
  rw [Exchange.core_wakeAll]
  rfl

theorem stirred_fire (x : Exchange) (later : Nat) : Stirred x (x.fire later) := by
  unfold Exchange.fire
  dsimp only
  split
  · split
    · exact Exchange.stirred_of_same rfl rfl rfl rfl
    · exact Exchange.stirred_of_same rfl rfl rfl rfl
  · exact Exchange.stirred_of_same rfl rfl rfl rfl

end Time

/-! ## Bare worlds -/

/-- Nothing was opened on a world, and the commands in line publish `ms`. -/
structure World.Bare (w : World) (l : Loopback) (ms : List Message) : Prop extends
    l.IsFree, Crewed w.exchange where
  transport : w.exchange.core.transport = .loopback l
  feeds : w.exchange.core.feeds = #[]
  subs : w.exchange.core.subs = #[]
  callers : w.exchange.core.callers = []
  handled : w.exchange.core.handled = #[]
  nextInbox : l.nextInbox = 1
  unknown : l.broker.inboxes = []
  unread : l.broker.cursor = 0
  line : l.commands.toList = ms.map Command.publish
  stored : w.stored = l.broker.stream.toList ++ ms
  taken : w.taken = []

namespace World

variable {w : World} {l l' : Loopback} {ms : List Message} {y : Exchange}

theorem bare_empty {limits : Broker.Limits} (hu : limits.Unlimited) (keepsNotices : Bool)
    (queueCapacity : Nat) :
    (empty limits keepsNotices queueCapacity).Bare (.start limits true) [] where
  toIsFree := .start hu
  toCrewed := ⟨rfl, rfl, fun _ ht => (nomatch ht), fun _ he => (nomatch he)⟩
  transport := rfl
  feeds := rfl
  subs := rfl
  callers := rfl
  handled := rfl
  nextInbox := rfl
  unknown := rfl
  unread := rfl
  line := rfl
  stored := rfl
  taken := rfl

/-- The broker goes on, and nothing else. -/
theorem Bare.of_core (h : w.Bare l ms) (hc : Crewed y) {t : Nat}
    (hy : y.core = { w.exchange.core with now := t, transport := .loopback l' }) (hl : l'.IsFree)
    (hn : l'.nextInbox = l.nextInbox ∧ l'.broker.inboxes = l.broker.inboxes ∧
      l'.broker.cursor = l.broker.cursor) {ms' stored : List Message}
    (hline : l'.commands.toList = ms'.map Command.publish)
    (hstored : stored = l'.broker.stream.toList ++ ms') :
    Bare ⟨y, stored, w.taken⟩ l' ms' where
  toIsFree := hl
  toCrewed := hc
  transport := by rw [hy]
  feeds := by rw [hy]; exact h.feeds
  subs := by rw [hy]; exact h.subs
  callers := by rw [hy]; exact h.callers
  handled := by rw [hy]; exact h.handled
  nextInbox := hn.1.trans h.nextInbox
  unknown := hn.2.1.trans h.unknown
  unread := hn.2.2.trans h.unread
  line := hline
  stored := hstored
  taken := h.taken

theorem Bare.publish (h : w.Bare l ms) (m : Message) :
    ∃ l' ms', (w.next (.publish m)).Bare l' ms' := by
  obtain ⟨hseq, hcore⟩ := Exchange.core_publish h.transport h.alive m
  obtain ⟨hst, _⟩ := Exchange.stirred_publish h.transport h.alive m
  refine ⟨_, ms ++ [m.withReply (Exchange.ackSubject l.nextSequence)],
    h.of_core (h.toCrewed.stirred hst) hcore (h.toIsFree.publish m _) ⟨rfl, rfl, rfl⟩ ?_ ?_⟩
  · rw [Fifo.toList_push, h.line, List.map_append]
    rfl
  · rw [hseq, h.stored, List.append_assoc]

/-- The broker works off the stream, stores the next message, or rests. -/
theorem Bare.brokerStep (h : w.Bare l ms) :
    ∃ l' ms', Bare ⟨w.exchange.brokerStep.1, w.stored, w.taken⟩ l' ms' := by
  have hkept : ∀ {y : Exchange}, Stirred w.exchange y → y.core = w.exchange.core →
      Bare ⟨y, w.stored, w.taken⟩ l ms := fun {y} hst hy =>
    h.of_core (t := w.exchange.core.now) (h.toCrewed.stirred hst)
      (by rw [hy, ← h.transport]) h.toIsFree ⟨rfl, rfl, rfl⟩ h.line h.stored
  have hwork : ∀ hag : l.broker.agenda ≠ [], l.broker.work w.exchange.core.now =
      ({ l.broker with agenda := [] }, none) := fun hag => h.toIsFree.work hag _
  rcases Exchange.brokerStep_cases h.transport h.alive with ⟨b, hag, hw, he⟩ |
    ⟨b, inbox, f, hw, he⟩ | ⟨c, rest, hag, hp, he⟩ | ⟨hag, _, he⟩
  · rw [hwork hag] at hw
    obtain rfl := (Prod.mk.inj hw).1
    have hl : { l with broker := { l.broker with agenda := [] } }.IsFree :=
      { h.toIsFree with agenda := Or.inl rfl }
    rw [he]
    exact ⟨_, ms, h.of_core (h.toCrewed.stirred (Exchange.stirred_setBroker _ l _))
      (Exchange.core_setBroker _ l _) hl ⟨rfl, rfl, rfl⟩ h.line h.stored⟩
  · obtain ⟨rest, ha, _⟩ := Broker.State.agenda_of_work hw
    rw [hwork (ha ▸ List.cons_ne_nil _ _)] at hw
    cases hw
  · obtain ⟨m, rfl, hl⟩ := h.toIsFree.accept hag hp w.exchange.core.now
    have hnext := Fifo.toList_of_pop? hp
    rw [h.line] at hnext
    cases ms with
    | nil => cases hnext
    | cons m' ms =>
      obtain ⟨hm, hrest⟩ := List.cons.inj hnext
      cases hm
      rw [he]
      refine ⟨_, ms, h.of_core (h.toCrewed.stirred (Exchange.stirred_takeCommand _
        (fun _ => by simp) (fun _ => by simp) (fun _ => by simp) rest))
        (Exchange.core_takeCommand h.transport (fun _ => by simp) (fun _ => by simp) rest) hl
        ⟨rfl, rfl, rfl⟩ hrest.symm ?_⟩
      show w.stored = (l.broker.stream.push m).toList ++ ms
      rw [h.stored, Array.toList_push, List.append_assoc]
      rfl
  · rw [he]
    rcases Exchange.idle_cases w.exchange h.held with hi | ⟨due, hi⟩ | hi <;> rw [hi]
    · rw [h.toIsFree.fireTimers]
      exact ⟨l, ms, h.of_core (h.toCrewed.stirred (Exchange.stirred_setBroker _ l _))
        (Exchange.core_setBroker _ l _) h.toIsFree ⟨rfl, rfl, rfl⟩ h.line h.stored⟩
    · exact ⟨l, ms, hkept (Exchange.stirred_setTimer _ Exchange.broker_mem_crew due) rfl⟩
    · exact ⟨l, ms, hkept (Exchange.stirred_clearTimer _ _) rfl⟩

/-- The workers and the alarm tasks have nothing to work for. -/
theorem Bare.stepOf (h : w.Bare l ms) {t : Task} (ht : t ∈ Exchange.crew) :
    ∃ l' ms', Bare ⟨(w.exchange.stepOf t).1, w.stored, w.taken⟩ l' ms' := by
  have hnone : w.exchange.subs[0]? = none := by
    rw [show w.exchange.subs = #[] from h.subs]
    rfl
  simp only [Exchange.crew, List.mem_cons, List.not_mem_nil, or_false] at ht
  rcases ht with rfl | rfl | rfl
  · exact h.brokerStep
  · refine ⟨l, ms, ?_⟩
    have hsame : (w.exchange.stepOf (.alarm 0)).1 = w.exchange := by
      show (w.exchange.alarmStep 0).1 = _
      unfold Exchange.alarmStep
      rw [hnone]
    rw [hsame]
    exact h
  · refine ⟨l, ms, ?_⟩
    have hsame : (w.exchange.stepOf (.worker 0)).1 = w.exchange := by
      show (w.exchange.workerStep 0).1 = _
      unfold Exchange.workerStep
      rw [hnone]
    rw [hsame]
    exact h

/-- There is no consumer to take in a frame. -/
theorem Bare.reads? (h : w.Bare l ms) (t : Task) : w.exchange.reads? t = none := by
  cases t with
  | worker i =>
    have hnone : w.exchange.subs[i]? = none := by
      rw [show w.exchange.subs = #[] from h.subs]
      rfl
    unfold Exchange.reads?
    dsimp only
    rw [hnone]
  | broker | alarm _ | farewell _ | caller _ => rfl

theorem Bare.turn (h : w.Bare l ms) (t : Task) : ∃ l' ms', (w.next (.turn t)).Bare l' ms' := by
  have hmove : w.next (.turn t) = if t ∈ w.exchange.ready then ⟨w.exchange.turn t,
      w.stored ++ (w.exchange.replies? t).toList, w.taken ++ (w.exchange.reads? t).toList⟩
      else w := rfl
  rw [hmove]
  split
  · rename_i hin
    have hreplies : w.exchange.replies? t = none := by
      unfold Exchange.replies?
      rw [h.reads? t]
    rw [hreplies, h.reads? t, Option.toList_none, Option.toList_none, List.append_nil,
      List.append_nil]
    obtain ⟨l', ms', hb⟩ := h.stepOf (h.crew t hin)
    refine ⟨l', ms', ?_⟩
    unfold Exchange.turn
    split
    · exact hb
    · exact { hb with
        toCrewed := hb.toCrewed.erase t
        transport := hb.transport
        feeds := hb.feeds
        subs := hb.subs
        callers := hb.callers
        handled := hb.handled }
  · exact ⟨l, ms, h⟩

theorem Bare.clock (h : w.Bare l ms) (later : Nat) : (w.next (.clock later)).Bare l ms :=
  h.of_core (t := w.exchange.core.now + later)
    (h.toCrewed.stirred (stirred_ring h.sleepers _)) (by rw [← h.transport]; exact core_ring _ _)
    h.toIsFree ⟨rfl, rfl, rfl⟩ h.line h.stored

theorem Bare.timers (h : w.Bare l ms) : (w.next .timers).Bare l ms := by
  have hmove : w.next .timers =
      if .broker ∈ w.exchange.ready then ⟨w.exchange.fire 0, w.stored, w.taken⟩ else w := rfl
  rw [hmove]
  split
  · have hst := stirred_fire w.exchange 0
    rcases Exchange.core_fire h.transport 0 with hcore | ⟨_, hcore⟩
    · exact h.of_core (h.toCrewed.stirred hst) (by rw [← h.transport]; exact hcore) h.toIsFree
        ⟨rfl, rfl, rfl⟩ h.line h.stored
    · rw [h.toIsFree.fireTimers] at hcore
      exact h.of_core (h.toCrewed.stirred hst) hcore h.toIsFree ⟨rfl, rfl, rfl⟩ h.line h.stored
  · exact h

theorem Bare.next (h : w.Bare l ms) (move : Move) : ∃ l' ms', (w.next move).Bare l' ms' := by
  cases move with
  | publish m => exact h.publish m
  | clock later => exact ⟨l, ms, h.clock later⟩
  | turn t => exact h.turn t
  | timers => exact ⟨l, ms, h.timers⟩

/-- Until something is opened, a world stays bare. -/
theorem Bare.after (h : w.Bare l ms) (moves : List Move) :
    ∃ l' ms', (w.after moves).Bare l' ms' := by
  induction moves generalizing w l ms with
  | nil => exact ⟨l, ms, h⟩
  | cons move moves ih =>
    obtain ⟨l', ms', hb⟩ := h.next move
    exact ih hb

end World

end DemandFlow
