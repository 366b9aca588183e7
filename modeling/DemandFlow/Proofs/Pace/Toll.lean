import DemandFlow.Proofs.Broker.Timers
import DemandFlow.Proofs.Exchange.Handed
import DemandFlow.Proofs.Pace.Broker
import Mathlib.Algebra.Order.BigOperators.Group.List
import Mathlib.Algebra.Order.Group.Nat

/-
  What a broker can still send before the clock moves on, if nothing more is published and no
  more is asked for. Each frame bears what may follow on it: that it is taken in, and if the
  consumer reacts to it one more request, which is then refused or waits. A pull bears the frame
  that ends it, and a message those that it can bring about. A pull that comes in now is neither
  over nor due to beat now, and whoever has just beaten does not beat again.
-/

namespace DemandFlow

open Broker (WaitingPull)

/-! ## Tolls -/

/-- A frame is taken in. If the consumer reacts to it, a request goes out besides, and what comes
of that is a refusal or a pull that waits. -/
def Frame.toll (f : Frame) : Nat := if f.reacts then 4 else 1

theorem Frame.toll_le (f : Frame) : f.toll ≤ 4 := by
  unfold toll
  split <;> decide

theorem Frame.toll_of_not_reacts {f : Frame} (h : f.reacts = false) : f.toll = 1 := by
  unfold toll
  rw [h, if_neg Bool.false_ne_true]

namespace Broker

def Chore.toll : Chore → Nat
  | .post _ f => f.toll + 1
  | .handOut | .endNoWait _ => 0

namespace WaitingPull

def isLate (now : Nat) (p : WaitingPull) : Bool := (p.expiresAt.filter (· ≤ now)).isSome

def isBeating (now : Nat) (p : WaitingPull) : Bool :=
  (p.beatsAt.filter (· ≤ now)).isSome && p.heartbeat.isSome

/-- A pull is ended by a frame, to which the consumer reacts if the pull has brought a message or
is over. It may beat once before that. -/
def toll (now : Nat) (p : WaitingPull) : Nat :=
  (if p.begun || p.isLate now then 5 else 2) + if p.isBeating now then 2 else 0

variable {p q : WaitingPull} {now : Nat}

theorem two_le_toll (now : Nat) (p : WaitingPull) : 2 ≤ p.toll now := by
  unfold toll
  split <;> omega

theorem five_le_toll (p : WaitingPull) (now : Nat)
    (h : p.begun = true ∨ p.isLate now = true) : 5 ≤ p.toll now := by
  unfold toll
  rw [if_pos (Bool.or_eq_true_iff.2 h)]
  exact Nat.le_add_right 5 _

/-- A request brings a pull that is neither over nor due to beat. -/
theorem toll_ofRequest (inbox : String) (r : PullRequest) (now : Nat) (heartbeats : Bool) :
    (ofRequest inbox r now heartbeats).IsSteady ∧
      (ofRequest inbox r now heartbeats).toll now = 2 := by
  have hsteady := (paced_ofRequest inbox r now heartbeats).steady
  refine ⟨hsteady, ?_⟩
  have hlate : (ofRequest inbox r now heartbeats).isLate now = false := by
    unfold isLate ofRequest
    dsimp only
    cases he : r.expires with
    | none => rfl
    | some d =>
      rw [Option.map_some, filter_later (nanos_pos fun hz => r.expires_ne_zero (he.trans hz))]
      rfl
  have hbeat : (ofRequest inbox r now heartbeats).isBeating now = false := by
    unfold isBeating
    cases hh : (ofRequest inbox r now heartbeats).heartbeat with
    | none => exact Bool.and_false _
    | some d =>
      have hat : (ofRequest inbox r now heartbeats).beatsAt = some (now + d.nanos) :=
        congrArg (Option.map fun e : Span => now + e.nanos) hh
      rw [hat, filter_later (hsteady d hh)]
      rfl
  unfold toll
  rw [hlate, hbeat]
  rfl

/-- A message for a pull puts off its beats. -/
theorem toll_charged (h : p.IsSteady) (size now : Nat) :
    (p.charged size now).IsSteady ∧ (p.charged size now).toll now = 5 := by
  refine ⟨h, ?_⟩
  have hbeat : (p.charged size now).isBeating now = false := by
    unfold isBeating charged
    dsimp only
    cases hh : p.heartbeat with
    | none => exact Bool.and_false _
    | some d =>
      dsimp only
      rw [filter_later (h d hh)]
      rfl
  unfold toll
  rw [hbeat]
  rfl

/-- What becomes of a pull when the broker looks at its timers, with the frame that is due. -/
theorem toll_due (h : p.IsSteady) (now : Nat) :
    (∀ q, (State.due now p).2 = some q → q.IsSteady) ∧
      (((State.due now p).1.elim 0 fun f => f.toll + 1) +
        (State.due now p).2.elim 0 (toll now)) ≤ p.toll now := by
  unfold State.due
  split
  · rename_i hlate
    refine ⟨fun q hq => (by cases hq), ?_⟩
    have hfive := five_le_toll p now (Or.inr hlate)
    have hfour := Frame.toll_le
      (.status (p.closing Code.requestTimeout StatusText.requestTimeout))
    exact Nat.le_trans (Nat.add_le_add_right hfour 1) hfive
  · split
    · rename_i t d ht hd
      refine ⟨fun q hq => by cases hq; exact h, ?_⟩
      have hbeating : p.isBeating now = true := by
        unfold isBeating
        rw [ht, hd]
        rfl
      have hlater : WaitingPull.isBeating now { p with beatsAt := some (now + d.nanos) } =
          false := by
        unfold isBeating
        dsimp only
        rw [filter_later (h d hd)]
        rfl
      have hnow : p.toll now = (if p.begun || p.isLate now then 5 else 2) + 2 := by
        unfold toll
        rw [hbeating, if_pos rfl]
      have hthen : WaitingPull.toll now { p with beatsAt := some (now + d.nanos) } =
          if p.begun || p.isLate now then 5 else 2 := by
        unfold toll
        rw [hlater]
        rfl
      show Frame.toll _ + 1 + WaitingPull.toll now _ ≤ _
      rw [Frame.toll_of_not_reacts Frame.reacts_beat, hnow, hthen]
      omega
    · exact ⟨fun q hq => by cases hq; exact h, Nat.le_of_eq (Nat.zero_add _)⟩

end WaitingPull

namespace State

variable {n now : Nat} {b b' : State} {rest : List Chore}

/-- What a broker can still come to at one instant, when `n` messages are published in all. -/
def toll (n now : Nat) (b : State) : Nat :=
  8 * (n - b.cursor) + (b.agenda.map Chore.toll).sum + (b.waiting.map (WaitingPull.toll now)).sum

/-- No pull beats without pause, and none that does not wait is taken on. -/
structure IsSteady (b : State) : Prop where
  waiting : ∀ p ∈ b.waiting, p.IsSteady
  patient : ∀ dest, .endNoWait dest ∉ b.agenda

theorem isSteady_start (l : Limits) : (start l).IsSteady :=
  ⟨fun _ h => (by cases h), fun _ h => (by cases h)⟩

theorem toll_first (cs : List Chore) (b : State) :
    (b.first cs).toll n now = (cs.map Chore.toll).sum + b.toll n now := by
  unfold toll first
  dsimp only
  rw [List.map_append, List.sum_append]
  omega

theorem IsSteady.first (h : b.IsSteady) {ps : List WaitingPull} (hps : ∀ p ∈ ps, p.IsSteady)
    {cs : List Chore} (hcs : ∀ dest, .endNoWait dest ∉ cs) (hw : b'.waiting = ps)
    (ha : b'.agenda = cs ++ b.agenda) : b'.IsSteady := by
  refine ⟨hw ▸ hps, fun dest hd => ?_⟩
  rw [ha] at hd
  exact (List.mem_append.1 hd).elim (hcs dest) (h.patient dest)

/-- A pull that is stopped. -/
theorem toll_stop_le (p : WaitingPull) (now : Nat) :
    (Chore.post p.inbox (.status (p.closing Code.conflict (stopText p)))).toll ≤ p.toll now := by
  show Frame.toll _ + 1 ≤ _
  cases hb : p.begun with
  | true =>
    have hfour := Frame.toll_le (.status (p.closing Code.conflict (stopText p)))
    have hfive := WaitingPull.five_le_toll p now (Or.inl hb)
    omega
  | false =>
    have htext : stopText p = StatusText.messageTooLarge := by
      unfold stopText
      rw [hb]
      rfl
    rw [htext,
      Frame.toll_of_not_reacts (Frame.reacts_of_isTooLarge (isTooLarge_closing_tooLarge p))]
    exact WaitingPull.two_le_toll now p

/-- A message is posted, with a closing status perhaps. -/
theorem toll_handed_le (q : WaitingPull) (m : Message) :
    ((handed q m).map Chore.toll).sum ≤ if q.isFilled || q.isSpent then 10 else 5 := by
  have hm := Frame.toll_le (.message m)
  have hs := Frame.toll_le (.status (q.closing Code.conflict StatusText.batchCompleted))
  unfold handed
  cases q.isSpent <;> cases q.isFilled <;> simp [Chore.toll] <;> omega

theorem not_endNoWait_handed (q : WaitingPull) (m : Message) (dest : String) :
    Chore.endNoWait dest ∉ handed q m := by
  unfold handed
  split <;> simp

/-- To hand out brings no more than a message bears. -/
theorem IsSteady.handOut (h : b.IsSteady) (hn : b.stream.size ≤ n) (now : Nat) :
    (b.handOut now).IsSteady ∧ (b.handOut now).toll n now ≤ b.toll n now := by
  rcases handOut_cases now b with ⟨he, _⟩ | ⟨m, p, ps, _, hw, _, he⟩ | ⟨m, p, ps, hm, hw, _, he⟩
  · rw [he]
    exact ⟨h, Nat.le_refl _⟩
  · have hps : ∀ q ∈ ps, q.IsSteady := fun q hq => h.waiting q (hw ▸ List.mem_cons_of_mem _ hq)
    rw [he]
    refine ⟨h.first hps (by simp) rfl rfl, ?_⟩
    rw [toll_first]
    have hstop := toll_stop_le p now
    unfold toll
    rw [hw]
    simp only [List.map_cons, List.map_nil, List.sum_cons, List.sum_nil]
    simp only [Chore.toll] at hstop ⊢
    omega
  · have hp : p.IsSteady := h.waiting p (hw ▸ List.mem_cons_self)
    have hps : ∀ q ∈ ps, q.IsSteady := fun q hq => h.waiting q (hw ▸ List.mem_cons_of_mem _ hq)
    obtain ⟨hq, htoll⟩ := WaitingPull.toll_charged hp m.size now
    have hlt : b.cursor < b.stream.size := (Array.getElem?_eq_some_iff.1 hm).1
    have htwo := WaitingPull.two_le_toll now p
    have hhanded := toll_handed_le (p.charged m.size now) m
    rw [he]
    refine ⟨h.first (fun q hmem => ?_) (fun dest hd => ?_) rfl rfl, ?_⟩
    · split at hmem
      · exact hps q hmem
      · rcases List.mem_cons.1 hmem with rfl | hmem
        · exact hq
        · exact hps q hmem
    · rcases List.mem_append.1 hd with hd | hd
      · exact not_endNoWait_handed _ m dest hd
      · cases List.mem_singleton.1 hd
    · rw [toll_first, List.map_append, List.sum_append]
      unfold toll
      rw [hw]
      simp only [List.map_cons, List.map_nil, List.sum_cons, List.sum_nil]
      split at hhanded
      · rename_i hdone
        rw [if_pos hdone]
        simp only [Chore.toll]
        omega
      · rename_i hmore
        rw [if_neg hmore, List.map_cons, List.sum_cons, htoll]
        simp only [Chore.toll]
        omega

/-- A chore that is no post. -/
theorem IsSteady.work (h : b.IsSteady) (hn : b.stream.size ≤ n) (hw : b.work now = (b', none)) :
    b'.IsSteady ∧ b'.toll n now ≤ b.toll n now := by
  rcases work_cases now b with ⟨_, he⟩ | ⟨dest, f, rest, _, he⟩ | ⟨rest, ha, he⟩ |
    ⟨dest, rest, ha, _⟩
  · rw [he] at hw
    cases hw
    exact ⟨h, Nat.le_refl _⟩
  · rw [he] at hw
    cases hw
  · rw [he] at hw
    cases hw
    have hrest : IsSteady { b with agenda := rest } :=
      ⟨h.waiting, fun dest hd => h.patient dest (ha ▸ List.mem_cons_of_mem _ hd)⟩
    have hsame : State.toll n now { b with agenda := rest } = b.toll n now := by
      unfold toll
      rw [ha, List.map_cons, List.sum_cons]
      simp only [Chore.toll, Nat.zero_add]
    obtain ⟨hs, hle⟩ := hrest.handOut hn now
    exact ⟨hs, hsame ▸ hle⟩
  · exact absurd (ha ▸ List.mem_cons_self) (h.patient dest)

/-- A post goes out. -/
theorem IsSteady.post (h : b.IsSteady) (n now : Nat) {dest : String} {f : Frame}
    (ha : b.agenda = .post dest f :: rest) :
    IsSteady { b with agenda := rest } ∧
      State.toll n now { b with agenda := rest } + (f.toll + 1) = b.toll n now := by
  refine ⟨⟨h.waiting, fun dest hd => h.patient dest (ha ▸ List.mem_cons_of_mem _ hd)⟩, ?_⟩
  unfold toll
  rw [ha, List.map_cons, List.sum_cons]
  simp only [Chore.toll]
  omega

theorem IsSteady.forget (h : b.IsSteady) (n now : Nat) (dest : String) :
    (b.forget dest).IsSteady ∧ (b.forget dest).toll n now ≤ b.toll n now := by
  refine ⟨⟨fun p hp => h.waiting p (List.mem_filter.1 hp).1, h.patient⟩, ?_⟩
  have hle : ((b.waiting.filter fun p => p.inbox != dest).map (WaitingPull.toll now)).sum ≤
      (b.waiting.map (WaitingPull.toll now)).sum :=
    (List.filter_sublist.map (WaitingPull.toll now)).sum_le_sum fun _ _ => Nat.zero_le _
  exact Nat.add_le_add_left hle _

/-- A request that may wait is refused, or waits. -/
theorem IsSteady.request (h : b.IsSteady) (now : Nat) (dest : String) {r : PullRequest}
    (hp : r.noWait = false) :
    (b.request now dest r).IsSteady ∧ (b.request now dest r).toll n now ≤ b.toll n now + 2 := by
  rcases request_cases now dest r b with ⟨_, he⟩ | ⟨s, _, hs, he⟩ | ⟨_, _, he⟩
  · rw [he]
    exact ⟨⟨h.waiting, h.patient⟩, Nat.le_add_right _ 2⟩
  · rw [he]
    refine ⟨h.first h.waiting (by simp) rfl rfl, ?_⟩
    rw [toll_first]
    have htoll := Frame.toll_of_not_reacts (reacts_of_refusal? hs)
    show Frame.toll _ + 1 + 0 + b.toll n now ≤ _
    omega
  · obtain ⟨hs, htoll⟩ := WaitingPull.toll_ofRequest dest r now b.limits.heartbeats
    rw [he, hp, if_neg Bool.false_ne_true]
    refine ⟨h.first (fun p hmem => ?_) (by simp) rfl rfl, ?_⟩
    · rcases List.mem_append.1 hmem with hmem | hmem
      · exact h.waiting p hmem
      · rw [List.mem_singleton.1 hmem]
        exact hs
    · rw [toll_first]
      unfold toll
      simp only [List.map_append, List.sum_append, List.map_cons, List.map_nil, List.sum_cons,
        List.sum_nil, htoll, Chore.toll]
      omega

/-- A command that asks for nothing adds nothing. -/
theorem IsSteady.accept (h : b.IsSteady) (now : Nat) {c : Command}
    (hc : ∀ dest f, c ≠ .inject dest f) (hp : ∀ dest r, c = .pull dest r → r.noWait = false) :
    (b.accept now c).IsSteady ∧
      (b.accept now c).toll n now ≤ b.toll n now + if c.request?.isSome then 2 else 0 := by
  cases c with
  | publish m =>
    refine ⟨h.first h.waiting (by simp) rfl rfl, ?_⟩
    show (State.first _ _).toll n now ≤ _
    rw [toll_first]
    exact Nat.le_of_eq (Nat.zero_add _)
  | register dest => exact ⟨⟨h.waiting, h.patient⟩, Nat.le_refl _⟩
  | pull dest r => exact h.request now dest (hp dest r rfl)
  | unsubscribe dest => exact h.forget n now dest
  | inject dest f => exact absurd rfl (hc dest f)
  | stats asker => exact ⟨h, Nat.le_refl _⟩
  | pullLog asker => exact ⟨h, Nat.le_refl _⟩

/-- What is due comes out of the pulls. -/
theorem IsSteady.fireTimers (h : b.IsSteady) (now : Nat) :
    (b.fireTimers now).IsSteady ∧ (b.fireTimers now).toll n now ≤ b.toll n now := by
  refine ⟨h.first (fun q hq => ?_) (fun dest hd => ?_) rfl rfl, ?_⟩
  · obtain ⟨p, hp, hpq⟩ := List.mem_filterMap.1 hq
    exact (WaitingPull.toll_due (h.waiting p hp) now).1 q hpq
  · obtain ⟨p, _, hp⟩ := List.mem_filterMap.1 hd
    obtain ⟨f, _, hf⟩ := Option.map_eq_some_iff.1 hp
    cases hf
  · have hall : ∀ ps : List WaitingPull, (∀ p ∈ ps, p.IsSteady) →
        ((ps.filterMap fun p => (due now p).1.map (Chore.post p.inbox)).map Chore.toll).sum +
          ((ps.filterMap fun p => (due now p).2).map (WaitingPull.toll now)).sum ≤
            (ps.map (WaitingPull.toll now)).sum := by
      intro ps hps
      induction ps with
      | nil => exact Nat.le_refl 0
      | cons p ps ih =>
        have hrest := ih fun q hq => hps q (List.mem_cons_of_mem _ hq)
        have hp := (WaitingPull.toll_due (hps p List.mem_cons_self) now).2
        rw [List.filterMap_cons, List.filterMap_cons, List.map_cons, List.sum_cons]
        cases hf : (due now p).1 <;> cases hq : (due now p).2 <;> rw [hf, hq] at hp <;>
          simp only [Option.map_none, Option.map_some, Option.elim, List.map_cons,
            List.sum_cons, Chore.toll] at hp ⊢ <;> omega
    have hsum := hall b.waiting h.waiting
    show (State.first _ _).toll n now ≤ _
    rw [toll_first]
    unfold toll
    dsimp only
    omega

end State

end Broker

end DemandFlow
