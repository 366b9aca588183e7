import DemandFlow.Proofs.Consume.Flow
import DemandFlow.Proofs.Exchange.Roster

/-
  The worker of an active continuous consumer. It heeds a frame (enters it into the accounts,
  calls the handler, tells the listener) and then, after a message or the end of a pull, looks
  whether more is to be asked for. Here is what both do to the core of an exchange and to its
  line of tasks.
-/

namespace DemandFlow

/-- The message of a frame that a handler takes in without failing. -/
def Handler.heard (h : Handler) (f : Frame) : Option Message :=
  f.message?.filter fun m => (h.fails m).isNone

/-- What a handler publishes when it gets a frame. -/
def Handler.reply (h : Handler) (f : Frame) : Option Message := (h.heard f).bind h.publishes

theorem Handler.heard_of_fails {h : Handler} {m : Message} {cause : Cause}
    (hf : h.fails m = some cause) : h.heard (.message m) = none := by
  have hn : (h.fails m).isNone = false := by
    rw [hf]
    rfl
  exact Option.filter_some.trans (if_neg (ne_true_of_eq_false hn))

theorem Handler.heard_of_takes {h : Handler} {m : Message} (hf : h.fails m = none) :
    h.heard (.message m) = some m := by
  have hn : (h.fails m).isNone = true := by
    rw [hf]
    rfl
  exact Option.filter_some.trans (if_pos hn)

/-- A broker to which a message was published, if there is one. -/
def Loopback.answered (l : Loopback) : Option Message → Loopback
  | none => l
  | some m => { l with
      nextSequence := l.nextSequence + 1
      commands := l.commands.push (.publish (m.withReply (Exchange.ackSubject l.nextSequence))) }

namespace Exchange

/-- What a consumer that is not closed does with a frame before it looks at its demand. -/
def heed (x : Exchange) (i : Nat) (s : Subscription) (c : Continuous) (f : Frame) : Exchange :=
  let x := x.account i s f
  match Intake.ofFrame f with
  | .message m => x.handle i s.inbox c m
  | .heartbeat => x
  | .terminus st =>
    if st.isTooLarge then x.notify (.error s.inbox st)
    else x.note (Journal.batchEnded s.inbox st)
  | .warning st => x.notify (.warning s.inbox st)
  | .error st => (x.note (Journal.fatalStatus s.inbox st)).notify (.error s.inbox st)

variable {x : Exchange} {i : Nat} {s : Subscription} {c : Continuous} {f : Frame} {l : Loopback}

theorem takeFrame_eq_heed (hp : s.purpose = .continuous c) (hm : c.mode ≠ .closed) :
    x.takeFrame i s f =
      (if f.reacts then (x.heed i s c f).refill i c else x.heed i s c f, true) := by
  unfold takeFrame heed Frame.reacts
  rw [hp]
  dsimp only
  cases Intake.ofFrame f with
  | message m =>
    dsimp only
    unfold handleMessage
    cases hc : c.mode with
    | closed => exact absurd hc hm
    | active | draining => rfl
  | heartbeat => rfl
  | terminus st =>
    dsimp only
    unfold handleTerminus
    split
    · rename_i hl
      rw [if_neg (by rw [hl]; exact Bool.false_ne_true)]
    · rename_i hl
      rw [if_pos (by simpa using hl)]
  | warning st => rfl
  | error st => rfl

/-! ## The handler -/

theorem core_handle (h : x.core.transport = .loopback l) (ha : l.alive = true) (inbox : String)
    (m : Message) : (x.handle i inbox c m).core = { x.core with
      transport := .loopback (l.answered (c.handler.reply (.message m)))
      subs := (c.handler.heard (.message m)).elim x.core.subs fun _ =>
        x.core.subs.modify i fun u =>
          { u with purpose := .continuous { c with handled := c.handled + 1 } }
      handled := (c.handler.heard (.message m)).elim x.core.handled fun m =>
        x.core.handled.push (i, m) } := by
  unfold handle Handler.reply
  cases hf : c.handler.fails m with
  | some cause =>
    rw [Handler.heard_of_fails hf]
    show x.core = { x.core with transport := .loopback l }
    rw [← h]
  | none =>
    rw [Handler.heard_of_takes hf, Option.bind_some]
    dsimp only [Option.elim_some]
    cases c.handler.publishes m with
    | none =>
      show _ = { x.core with
        transport := .loopback l
        subs := x.core.subs.modify i fun u =>
          { u with purpose := .continuous { c with handled := c.handled + 1 } }
        handled := x.core.handled.push (i, m) }
      rw [← h]
      rfl
    | some r =>
      exact (core_publish (x := { (x.modifySub i fun s => { s with
        purpose := .continuous { c with handled := c.handled + 1 } }) with
        handled := x.handled.push (i, m) }) h ha r).2

theorem stirred_handle (h : x.core.transport = .loopback l) (ha : l.alive = true)
    (inbox : String) (m : Message) :
    Stirred x (x.handle i inbox c m) ∧
      (c.handler.reply (.message m) ≠ none → Task.broker ∈ (x.handle i inbox c m).ready) := by
  unfold handle Handler.reply
  cases hf : c.handler.fails m with
  | some cause =>
    rw [Handler.heard_of_fails hf]
    exact ⟨stirred_note x _, fun hn => absurd rfl hn⟩
  | none =>
    rw [Handler.heard_of_takes hf, Option.bind_some]
    dsimp only
    cases c.handler.publishes m with
    | none => exact ⟨stirred_of_same rfl rfl rfl rfl, fun hn => absurd rfl hn⟩
    | some r =>
      let y : Exchange := { (x.modifySub i fun s => { s with
        purpose := .continuous { c with handled := c.handled + 1 } }) with
        handled := x.handled.push (i, m) }
      obtain ⟨hst, hb⟩ := stirred_publish (x := y) h ha r
      have hy : Stirred x y := stirred_of_same rfl rfl rfl rfl
      exact ⟨hy.trans hst, fun _ => hb⟩

/-! ## Heeding a frame -/

theorem reply_status (h : Handler) (st : Status) : h.reply (.status st) = none := rfl

theorem core_heed (h : x.core.transport = .loopback l) (ha : l.alive = true) :
    (x.heed i s c f).core = { x.core with
      transport := .loopback (l.answered (c.handler.reply f))
      subs := (c.handler.heard f).elim
        (x.core.subs.modify i fun u => { u with tracker := s.tracker.account x.core.now f })
        fun _ => (x.core.subs.modify i fun u =>
          { u with tracker := s.tracker.account x.core.now f }).modify i fun u =>
            { u with purpose := .continuous { c with handled := c.handled + 1 } }
      handled := (c.handler.heard f).elim x.core.handled fun m =>
        x.core.handled.push (i, m) } := by
  have hacc := core_account x i s f
  have ht : (x.account i s f).core.transport = .loopback l := by
    rw [hacc]
    exact h
  unfold heed
  cases f with
  | message m =>
    have hk : Intake.ofFrame (.message m) = .message m := rfl
    rw [hk]
    dsimp only
    rw [core_handle ht ha, hacc]
  | status st =>
    have hsame : (x.account i s (.status st)).core = { x.core with
        transport := .loopback l
        subs := x.core.subs.modify i fun u =>
          { u with tracker := s.tracker.account x.core.now (.status st) } } := by
      rw [hacc, ← h]
    have hk : Intake.ofFrame (.status st) = Intake.ofStatus st := rfl
    rw [hk]
    show _ = Core.mk _ _ _ _ _ _ _
    cases he : Intake.ofStatus st with
    | message m => exact absurd he (Intake.ofStatus_ne_message st m)
    | heartbeat => exact hsame
    | terminus st' =>
      dsimp only
      split
      · exact (core_notify _ _).trans hsame
      · exact hsame
    | warning st' => exact (core_notify _ _).trans hsame
    | error st' => exact (core_notify _ _).trans hsame

theorem stirred_heed (h : x.core.transport = .loopback l) (ha : l.alive = true)
    (hn : x.core.callers = []) :
    Stirred x (x.heed 0 s c f) ∧
      (c.handler.reply f ≠ none → Task.broker ∈ (x.heed 0 s c f).ready) := by
  have hst := stirred_account hn s f
  have hacc := core_account x 0 s f
  have ht : (x.account 0 s f).core.transport = .loopback l := by
    rw [hacc]
    exact h
  unfold heed
  cases f with
  | message m =>
    have hk : Intake.ofFrame (.message m) = .message m := rfl
    rw [hk]
    dsimp only
    obtain ⟨hh, hb⟩ := stirred_handle (i := 0) (c := c) ht ha s.inbox m
    exact ⟨hst.trans hh, hb⟩
  | status st =>
    refine ⟨?_, fun hr => absurd (reply_status c.handler st) hr⟩
    have hk : Intake.ofFrame (.status st) = Intake.ofStatus st := rfl
    rw [hk]
    dsimp only
    cases he : Intake.ofStatus st with
    | message m => exact absurd he (Intake.ofStatus_ne_message st m)
    | heartbeat => exact hst
    | terminus st' =>
      dsimp only
      split
      · exact hst.trans (stirred_notify _ _)
      · exact hst.trans (stirred_note _ _)
    | warning st' => exact hst.trans (stirred_notify _ _)
    | error st' => exact (hst.trans (stirred_note _ _)).trans (stirred_notify _ _)

/-! ## Asking for more -/

/-- The request that is due goes out, or there is none. -/
theorem core_refill (h : x.core.transport = .loopback l) (ha : l.alive = true)
    (hs : x.core.subs[i]? = some s) (hc : s.closed = false)
    (hg : ∀ r, c.refill? s.demand = some r → (s.tracker.issue x.core.now r).isSome) :
    (c.refill? s.demand = none ∧ x.refill i c = x) ∨
    (∃ r t, c.refill? s.demand = some r ∧ s.tracker.issue x.core.now r = some t ∧
      t.demand = s.demand.add r ∧
      (x.refill i c).core = { x.core with
        transport := .loopback { l with commands := l.commands.push (.pull s.inbox r.onWire) }
        subs := x.core.subs.modify i fun u => { u with tracker := t } } ∧
      x.refill i c = ((x.note (Journal.refilling s.inbox r)).pull i r).1) := by
  have hs' : x.subs[i]? = some s := hs
  unfold refill
  rw [hs']
  dsimp only
  cases hr : c.refill? s.demand with
  | none => exact Or.inl ⟨rfl, rfl⟩
  | some r =>
    obtain ⟨t, ht⟩ := Option.isSome_iff_exists.1 (hg r hr)
    obtain ⟨hok, hcore⟩ := core_pull (x := x.note (Journal.refilling s.inbox r)) h ha hs hc ht
    refine Or.inr ⟨r, t, rfl, ht, Tracker.demand_issue ht, ?_, ?_⟩
    · dsimp only
      rw [← Prod.eta (pull _ _ _), hok]
      exact hcore
    · dsimp only
      rw [← Prod.eta (pull _ _ _), hok]

theorem stirred_refill (h : x.core.transport = .loopback l) (ha : l.alive = true)
    (hn : x.core.callers = []) (hs : x.core.subs[0]? = some s) (hc : s.closed = false)
    (hg : ∀ r, c.refill? s.demand = some r → (s.tracker.issue x.core.now r).isSome) :
    Stirred x (x.refill 0 c) ∧
      (c.refill? s.demand ≠ none → Task.broker ∈ (x.refill 0 c).ready) := by
  rcases core_refill h ha hs hc hg with ⟨hr, he⟩ | ⟨r, t, hr, ht, _, _, he⟩
  · rw [he]
    exact ⟨Stirred.refl x, fun hn => absurd hr hn⟩
  · rw [he]
    obtain ⟨hst, hb⟩ := stirred_pull (x := x.note (Journal.refilling s.inbox r)) h ha hn hs hc ht
    exact ⟨(stirred_note x _).trans hst, fun _ => hb⟩

/-- An alarm is only told to the listener. -/
theorem takeAlarm_of_continuous (hp : s.purpose = .continuous c) (d : Span) :
    (x.takeAlarm i s d).core = x.core ∧ Stirred x (x.takeAlarm i s d) := by
  unfold takeAlarm
  rw [hp]
  dsimp only
  exact ⟨core_notify _ _, (stirred_count x _).trans (stirred_notify _ _)⟩

end Exchange

end DemandFlow
