import DemandFlow.Proofs.Consume.Order
import DemandFlow.Proofs.Consume.World

/-
  The broker of one continuous consumer. Each thing that it does is a step of the flow for which
  it stands: to hand out, to take in a command, to settle what is due, to post. Only the command
  that registers the inbox changes nothing in the flow.
-/

namespace DemandFlow

open Broker (Chore Command WaitingPull inboxName)

/-- A flow that the broker changed: what the consumer has and what was stored is as before. -/
structure Flow.Served (a b : Flow) : Prop where
  demand : b.demand = a.demand
  stored : b.stored = a.stored
  taken : b.taken = a.taken

section

variable {o : ConsumeOptions} {a : Flow} {l : Loopback} {now : Nat}

/-! ## The state of the broker -/

theorem linked_idle (hl : Linked l a) (hag : l.broker.agenda = []) : a.IsIdle :=
  Broker.State.idle_of_agenda hl.agenda hag

/-- The inbox is registered as soon as a pull waits or a frame is to be posted. -/
theorem linked_registered (hl : Linked l a) (hne : a.waiting ≠ [] ∨ a.out ≠ []) :
    l.broker.inboxes = [inboxName 1] ∧ l.commands.toList = a.queue :=
  hl.registered.resolve_right fun hr => hne.elim (absurd hr.waiting) (absurd hr.out)

theorem knows_of_inboxes {b : Broker.State} (hb : b.inboxes = [inboxName 1]) :
    b.knows (inboxName 1) = true := by
  unfold Broker.State.knows
  rw [hb]
  exact List.contains_iff_mem.2 List.mem_cons_self

/-! ## Steps -/

theorem linked_work (hl : Linked l a) (hs : Flow.Sane (inboxName 1) o a)
    (hag : l.broker.agenda ≠ []) {b' : Broker.State} (hw : l.broker.work now = (b', none)) :
    ∃ b, Flow.Transit (inboxName 1) a b ∧ Linked { l with broker := b' } b ∧ a.Served b ∧
      b.frames = a.frames := by
  obtain ⟨hclear, hhand, rfl⟩ := Broker.State.handOut_of_work hl.agenda hag hw
  rcases Broker.State.handOut_cases now { l.broker with agenda := [] } with
    ⟨ho, hdone⟩ | ⟨m, p, rest, hm, hwait, hr, ho⟩ | ⟨m, p, rest, hm, hwait, hr, ho⟩
  · rw [ho]
    refine ⟨{ a with handing := false }, .settle a hclear ?_, ?_, ⟨rfl, rfl, rfl⟩, rfl⟩
    · rcases hdone with hd | hd
      · exact Or.inl (Broker.State.unread_eq_nil hl.stream hl.cursor hd)
      · exact Or.inr (hl.waiting.symm.trans hd)
    · refine ⟨hl.registered.imp_right fun hr => ⟨hr.inboxes, hr.waiting, hr.out, hr.commands⟩,
        hl.stream, hl.cursor, hl.waiting, ?_, hl.limits⟩
      rw [hclear]
      rfl
  · obtain ⟨ms, hu⟩ := Broker.State.unread_of_cursor hl.stream hl.cursor hm
    have hpull : a.waiting = p :: rest := hl.waiting.symm.trans hwait
    have hreg := linked_registered hl (Or.inl (by rw [hpull]; exact List.cons_ne_nil _ _))
    have hin : p.inbox = inboxName 1 :=
      (hs.waiting p (by rw [hpull]; exact List.mem_cons_self)).1
    rw [ho]
    refine ⟨_, .refuse a m ms p rest hclear hhand hu hpull hr, ?_, ⟨rfl, rfl, rfl⟩, rfl⟩
    refine ⟨Or.inl hreg, hl.stream, hl.cursor, rfl, ?_, hl.limits⟩
    dsimp only
    rw [hhand, ← hin]
    rfl
  · obtain ⟨ms, hu⟩ := Broker.State.unread_of_cursor hl.stream hl.cursor hm
    have hpull : a.waiting = p :: rest := hl.waiting.symm.trans hwait
    have hreg := linked_registered hl (Or.inl (by rw [hpull]; exact List.cons_ne_nil _ _))
    have hin : p.inbox = inboxName 1 :=
      (hs.waiting p (by rw [hpull]; exact List.mem_cons_self)).1
    rw [ho]
    refine ⟨_, .hand a m ms p rest now hclear hhand hu hpull hr, ?_, ⟨rfl, rfl, rfl⟩, rfl⟩
    refine ⟨Or.inl hreg, ?_, ?_, ?_, ?_, hl.limits⟩
    · show l.broker.stream.toList = a.given ++ [m] ++ ms
      rw [hl.stream, hu, List.append_assoc]
      rfl
    · show l.broker.cursor + 1 = (a.given ++ [m]).length
      rw [hl.cursor, List.length_append]
      rfl
    · show (if _ then rest else _ :: rest) = Broker.goesOn _ ++ rest
      unfold Broker.goesOn
      split
      · rfl
      · rfl
    · show (Broker.State.handed _ m ++ [Chore.handOut]) ++ [] = _
      rw [List.append_nil, Broker.handed_eq_map, WaitingPull.inbox_charged, hin]
      dsimp only
      rw [hhand, if_pos rfl]

/-- A request that may wait is granted to an inbox that is known. -/
theorem accept_pull {b : Broker.State} (hu : b.limits.Unlimited) {inbox : String}
    (hk : b.knows inbox = true) {r : PullRequest} (hr : r.noWait = false) :
    b.accept now (.pull inbox r) = { b with
      received := r :: b.received
      waiting := b.waiting ++ [.ofRequest inbox r now b.limits.heartbeats]
      agenda := [Chore.handOut] ++ b.agenda } := by
  have hk' : { b with received := r :: b.received }.knows inbox = true := hk
  show b.request now inbox r = _
  unfold Broker.State.request
  dsimp only
  rw [if_pos hk', Broker.Limits.refusal?_of_unlimited hu hr, hr]
  rfl

/-- While the inbox is not registered, the next command is a message or the registration. -/
theorem linked_accept_registering (now : Nat) (hl : Linked l a) (hr : Registering l a)
    (hag : l.broker.agenda = []) {c : Command} {rest : Fifo Command}
    (hnext : l.commands.toList = c :: rest.toList) :
    ∃ b, Relation.ReflGen (Flow.Transit (inboxName 1)) a b ∧
      Linked { l with commands := rest, broker := l.broker.accept now c } b ∧ a.Served b ∧
      b.frames = a.frames ∧
      ((∃ m, c = .publish m) ∨ (∃ inbox, c = .register inbox) ∨ ∃ inbox r, c = .pull inbox r) := by
  have hidle := linked_idle hl hag
  obtain ⟨ms, tail, hqueue, hline⟩ := hr.commands
  cases ms with
  | nil =>
    obtain ⟨hc, hrest⟩ := List.cons.inj (hline.symm.trans hnext)
    subst hc
    refine ⟨a, .refl, ?_, ⟨rfl, rfl, rfl⟩, rfl, Or.inr (Or.inl ⟨_, rfl⟩)⟩
    refine ⟨Or.inl ⟨?_, hrest.symm.trans hqueue.symm⟩, hl.stream, hl.cursor, hl.waiting,
      hl.agenda, hl.limits⟩
    show inboxName 1 :: l.broker.inboxes.filter _ = _
    rw [hr.inboxes]
    rfl
  | cons m ms =>
    obtain ⟨hc, hrest⟩ := List.cons.inj (hline.symm.trans hnext)
    subst hc
    refine ⟨_, .single (.store a m _ hidle hqueue), ?_, ⟨rfl, rfl, rfl⟩, rfl, Or.inl ⟨m, rfl⟩⟩
    refine ⟨Or.inr ⟨hr.inboxes, hr.waiting, hr.out, ms, tail, rfl, hrest.symm⟩, ?_, hl.cursor,
      hl.waiting, ?_, hl.limits⟩
    · show (l.broker.stream.push m).toList = a.given ++ (a.unread ++ [m])
      rw [Array.toList_push, hl.stream, List.append_assoc]
    · show [Chore.handOut] ++ l.broker.agenda = a.out.map _ ++ [Chore.handOut]
      rw [hag, hidle.1]
      rfl

/-- The next command is taken in. -/
theorem linked_accept (now : Nat) (hl : Linked l a) (hs : Flow.Sane (inboxName 1) o a)
    (hag : l.broker.agenda = []) {c : Command} {rest : Fifo Command}
    (hp : l.commands.pop? = some (c, rest)) :
    ∃ b, Relation.ReflGen (Flow.Transit (inboxName 1)) a b ∧
      Linked { l with commands := rest, broker := l.broker.accept now c } b ∧ a.Served b ∧
      b.frames = a.frames ∧
      ((∃ m, c = .publish m) ∨ (∃ inbox, c = .register inbox) ∨ ∃ inbox r, c = .pull inbox r) := by
  have hidle := linked_idle hl hag
  have hpop := Fifo.toList_of_pop? hp
  rcases hl.registered with ⟨hin, hcmd⟩ | hr
  · have hnext : a.queue = c :: rest.toList := hcmd.symm.trans hpop
    rcases hs.queue c (by rw [hnext]; exact List.mem_cons_self) with ⟨m, rfl⟩ | ⟨r, hr, rfl⟩
    · refine ⟨_, .single (.store a m rest.toList hidle hnext), ?_, ⟨rfl, rfl, rfl⟩, rfl,
        Or.inl ⟨m, rfl⟩⟩
      refine ⟨Or.inl ⟨hin, rfl⟩, ?_, hl.cursor, hl.waiting, ?_, hl.limits⟩
      · show (l.broker.stream.push m).toList = a.given ++ (a.unread ++ [m])
        rw [Array.toList_push, hl.stream, List.append_assoc]
      · show [Chore.handOut] ++ l.broker.agenda = a.out.map _ ++ [Chore.handOut]
        rw [hag, hidle.1]
        rfl
    · refine ⟨_, .single (.grant a r rest.toList now l.broker.limits.heartbeats hidle hnext), ?_,
        ⟨rfl, rfl, rfl⟩, rfl, Or.inr (Or.inr ⟨_, r, rfl⟩)⟩
      have hk : l.broker.knows (inboxName 1) = true := knows_of_inboxes hin
      rw [accept_pull hl.limits hk hr.waits]
      refine ⟨Or.inl ⟨hin, rfl⟩, hl.stream, hl.cursor, ?_, ?_, hl.limits⟩
      · dsimp only
        rw [hl.waiting]
      · show [Chore.handOut] ++ l.broker.agenda = a.out.map _ ++ [Chore.handOut]
        rw [hag, hidle.1]
        rfl
  · exact linked_accept_registering now hl hr hag hpop

/-- What is due is settled. -/
theorem linked_fire (now : Nat) (hl : Linked l a) (hs : Flow.Sane (inboxName 1) o a)
    (hag : l.broker.agenda = []) :
    ∃ b, Flow.Transit (inboxName 1) a b ∧
      Linked { l with broker := l.broker.fireTimers now } b ∧ a.Served b ∧
      b.frames = a.frames := by
  have hidle := linked_idle hl hag
  refine ⟨_, .timers a now hidle, ?_, ⟨rfl, rfl, rfl⟩, rfl⟩
  refine ⟨?_, hl.stream, hl.cursor, ?_, ?_, hl.limits⟩
  · refine hl.registered.imp_right fun hr => ⟨hr.inboxes, ?_, ?_, hr.commands⟩
    · dsimp only
      rw [hr.waiting]
      rfl
    · dsimp only
      rw [hr.waiting]
      rfl
  · show l.broker.waiting.filterMap _ = a.waiting.filterMap _
    rw [hl.waiting]
  · show l.broker.waiting.filterMap _ ++ l.broker.agenda = _
    rw [hag, hl.waiting, Broker.posts_due fun p hp => (hs.waiting p hp).1]
    dsimp only
    rw [hidle.2]
    rfl

/-- A frame is posted once its post is done. -/
theorem linked_post (hl : Linked l a) {b' : Broker.State} {inbox : String} {f : Frame}
    (hw : l.broker.work now = (b', some (inbox, f))) :
    ∃ b, Flow.Transit (inboxName 1) a b ∧ Linked { l with broker := b' } b ∧ a.Served b ∧
      b.frames = a.frames ++ [f] ∧ inbox = inboxName 1 ∧ l.broker.agenda ≠ [] ∧
      b'.inboxes = [inboxName 1] := by
  obtain ⟨rest, cs, hout, rfl, rfl, hrest⟩ := Broker.State.post_of_work hl.agenda hw
  have hne : l.broker.agenda ≠ [] := by
    rw [hl.agenda, hout]
    exact List.cons_ne_nil _ _
  have hreg := linked_registered hl (Or.inr (by rw [hout]; exact List.cons_ne_nil _ _))
  exact ⟨_, .post a f rest hout, ⟨Or.inl hreg, hl.stream, hl.cursor, hl.waiting, hrest,
    hl.limits⟩, ⟨rfl, rfl, rfl⟩, rfl, rfl, hne, hreg.1⟩

end

end DemandFlow
