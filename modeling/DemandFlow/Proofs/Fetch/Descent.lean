import DemandFlow.Proofs.Broker.Timers
import DemandFlow.Proofs.Fetch.Arrival

/-
  Errands come to an end: every step makes an errand lighter. A pull that is due weighs more than
  one that is not, since it leads to a frame; it is not due again at the same instant, for it
  neither beats without pause nor expires at once.
-/

namespace DemandFlow

open Broker (Command WaitingPull)

/-! ## Pulls that are due -/

namespace Broker

theorem due_isSome_iff {now : Nat} {p : WaitingPull} : (State.due now p).1.isSome = true ↔
    (∃ t, p.expiresAt = some t ∧ t ≤ now) ∨
      p.heartbeat.isSome = true ∧ ∃ t, p.beatsAt = some t ∧ t ≤ now := by
  have hfilter (o : Option Nat) :
      (o.filter fun t => decide (t ≤ now)).isSome = true ↔ ∃ t, o = some t ∧ t ≤ now :=
    WaitingPull.filter_isSome_iff o
  unfold State.due
  split
  · rename_i he
    exact iff_of_true rfl (Or.inl ((hfilter _).1 he))
  · rename_i he
    rw [hfilter] at he
    rw [← hfilter p.beatsAt]
    simp only [he, false_or]
    cases p.beatsAt.filter fun t => decide (t ≤ now) with
    | none => simp
    | some t => cases p.heartbeat <;> simp

/-- A pull that has just been looked at is not due when it expires later and beats after a
pause. -/
theorem not_due {now : Nat} {p : WaitingPull} (he : ∀ t, p.expiresAt = some t → now < t)
    (hb : ∀ d t, p.heartbeat = some d → p.beatsAt = some t → now < t) :
    (State.due now p).1.isSome = false := by
  rw [← Bool.not_eq_true, due_isSome_iff]
  rintro (⟨t, ht, hle⟩ | ⟨hd, t, ht, hle⟩)
  · have := he t ht
    omega
  · obtain ⟨d, hd⟩ := Option.isSome_iff_exists.1 hd
    have := hb d t hd ht
    omega

/-- The deadline of a pull that is due has come. -/
theorem deadline_le_of_due {now : Nat} {p : WaitingPull} {f : Frame}
    (h : (State.due now p).1 = some f) : ∃ t, p.deadline = some t ∧ t ≤ now := by
  have hdue := due_isSome_iff.1 (show (State.due now p).1.isSome = true by rw [h]; rfl)
  have hsome : (p.expiresAt.isSome = true ∨ p.beatsAt.isSome = true) →
      ∃ t, p.deadline = some t := by
    unfold WaitingPull.deadline
    cases p.expiresAt <;> cases p.beatsAt <;> simp [WaitingPull.earlier]
  rcases hdue with ⟨t, ht, hle⟩ | ⟨_, t, ht, hle⟩
  · obtain ⟨d, hd⟩ := hsome (Or.inl (by rw [ht]; rfl))
    exact ⟨d, hd, Nat.le_trans (WaitingPull.earlier_le_left ht hd) hle⟩
  · obtain ⟨d, hd⟩ := hsome (Or.inr (by rw [ht]; rfl))
    exact ⟨d, hd, Nat.le_trans (WaitingPull.earlier_le_right ht hd) hle⟩

end Broker

namespace Errand

variable {T : Terms} {a b : Errand}

theorem beat_pos (T : Terms) {d : Span} (h : T.beat = some d) : 0 < d.nanos :=
  Nat.pos_of_ne_zero fun h0 => T.request.heartbeat_ne_zero (by
    have hd : d = Span.zero := congrArg Span.mk h0
    rw [← hd]
    exact h)

/-- Where nothing is due, the clock can go on. -/
theorem Waits.lt_deadline {p : WaitingPull} (h : Waits T a p)
    (hn : (Broker.State.due a.now p).1 = none) {t : Nat} (ht : p.deadline = some t) :
    a.now < t := by
  have hdue := Broker.due_isSome_iff.not.1 (by rw [hn]; exact Bool.false_ne_true)
  rw [not_or] at hdue
  have he : a.now < T.due := Nat.lt_of_not_le fun hle => hdue.1 ⟨_, h.expires, hle⟩
  have hb : ∀ b, p.beatsAt = some b → a.now < b := by
    intro b hb
    refine Nat.lt_of_not_le fun hle => ?_
    cases hbeat : T.beat with
    | none =>
      rw [h.still hbeat] at hb
      cases hb
    | some d => exact hdue.2 ⟨by rw [h.heartbeat, hbeat]; rfl, b, hb, hle⟩
  unfold WaitingPull.deadline at ht
  rw [h.expires] at ht
  cases hbeats : p.beatsAt with
  | none =>
    rw [hbeats] at ht
    cases ht
    exact he
  | some b =>
    rw [hbeats] at ht
    cases ht
    exact Nat.lt_min.2 ⟨he, hb b hbeats⟩

/-! ## Burdens -/

theorem burden_of_due {now : Nat} {p : WaitingPull} {f : Frame}
    (h : (Broker.State.due now p).1 = some f) : burden now p = 10 := by
  unfold burden
  rw [h]
  rfl

theorem burden_of_not_due {now : Nat} {p : WaitingPull}
    (h : (Broker.State.due now p).1.isSome = false) : burden now p = 5 := by
  unfold burden
  rw [h]
  rfl

theorem burden_pos (now : Nat) (p : WaitingPull) : 5 ≤ burden now p := by
  unfold burden
  split
  · exact Nat.le_add_left 5 5
  · exact Nat.le_refl 5

/-- A message that is handed out makes no pull due. -/
theorem Waits.burden_charged {p : WaitingPull} (h : Waits T a p) (n : Nat) :
    burden a.now (p.charged n a.now) ≤ burden a.now p := by
  cases hdue : (Broker.State.due a.now (p.charged n a.now)).1.isSome with
  | false =>
    rw [burden_of_not_due hdue]
    exact burden_pos _ _
  | true =>
    have hp : (Broker.State.due a.now p).1.isSome = true := by
      rcases Broker.due_isSome_iff.1 hdue with he | ⟨hd, t, ht, hle⟩
      · exact Broker.due_isSome_iff.2 (Or.inl he)
      · -- a pull that beats has just been put off
        obtain ⟨d, hd⟩ := Option.isSome_iff_exists.1 hd
        have hbeat : p.heartbeat = some d := hd
        unfold WaitingPull.charged at ht
        dsimp only at ht
        rw [hbeat] at ht
        cases ht
        have := beat_pos T (h.heartbeat.symm.trans hbeat)
        omega
    unfold burden
    rw [hdue, hp]

/-- A pull that goes on to wait has been handed one message, and one that ends at most two
frames. -/
theorem Waits.burden_kept {p : WaitingPull} (h : Waits T a p) (m : Message) :
    (kept (p.charged m.size a.now)).elim 0 (burden a.now) +
        4 * (Broker.handedFrames (p.charged m.size a.now) m).length ≤ burden a.now p + 4 := by
  have hle := h.burden_charged m.size
  have hpos := burden_pos a.now p
  unfold kept Broker.handedFrames
  cases (p.charged m.size a.now).isFilled <;> cases (p.charged m.size a.now).isSpent <;>
    simp <;> omega

theorem Waits.burden_granted (ho : T.options.Timed) (now : Nat) :
    burden now (.ofRequest T.inbox T.request now true) = 5 := by
  refine burden_of_not_due (Broker.not_due (fun t ht => ?_) fun d t hd ht => ?_)
  · have hexp : T.request.expires = some T.options.expires :=
      PullRequest.nonzero?_of_ne fun e => by
        have := ho.expires_pos
        rw [Option.some.inj e] at this
        exact absurd this (Nat.lt_irrefl 0)
    have ht' : T.request.expires.map (fun d => now + d.nanos) = some t := ht
    rw [hexp] at ht'
    cases ht'
    exact Nat.lt_add_of_pos_right ho.expires_pos
  · have hd' : T.beat = some d := hd
    have ht' : T.beat.map (fun d => now + d.nanos) = some t := ht
    rw [hd'] at ht'
    cases ht'
    exact Nat.lt_add_of_pos_right (beat_pos T hd')

/-- A pull that was due waits on with less to come, if it waits on. -/
theorem Waits.burden_due {p : WaitingPull} {f : Frame} (h : Waits T a p)
    (hdue : (Broker.State.due a.now p).1 = some f) :
    (Broker.State.due a.now p).2.elim 0 (burden a.now) + 5 ≤ burden a.now p := by
  rw [burden_of_due hdue]
  rcases Broker.due_some hdue with ⟨_, hnone, _⟩ | ⟨_, d, hd, hsome⟩
  · rw [hnone]
    exact Nat.le_add_left 5 5
  · have hlate : ¬∃ t, p.expiresAt = some t ∧ t ≤ a.now := by
      rintro ⟨t, ht, hle⟩
      have hs : (p.expiresAt.filter fun t => decide (t ≤ a.now)).isSome = true := by
        rw [ht, Option.filter_some, if_pos (decide_eq_true hle)]
        rfl
      unfold Broker.State.due at hsome
      rw [if_pos hs] at hsome
      cases hsome
    rw [hsome]
    refine Nat.add_le_add_right (Nat.le_of_eq (burden_of_not_due
      (Broker.not_due (fun t ht => ?_) fun d' t hd' ht => ?_))) 5
    · exact Nat.lt_of_not_le fun hle => hlate ⟨t, ht, hle⟩
    · cases ht
      exact Nat.lt_add_of_pos_right (beat_pos T (h.heartbeat.symm.trans hd))

/-! ## Weights -/

theorem workLeft_of (f : Frame) : workLeft (.of f.delivery?) ≤ 3 := by
  cases f.delivery? with
  | none => exact Nat.le_add_left 1 2
  | some d => exact Nat.le_refl 3

theorem weight_leave {a : Errand} (h : a.stage = .reading) : (a.leave T).weight < a.weight := by
  unfold weight leave
  rw [h]
  simp only [List.map_append, List.sum_append, List.map_cons, List.map_nil, List.sum_cons,
    List.sum_nil, charge, Stage.burden]
  omega

/-- Every step of an errand makes it lighter. -/
theorem Step.lighter (ho : T.options.Timed) (hs : Sound T a) (h : Step T a b) :
    b.weight < a.weight := by
  cases h with
  | store m rest idle next =>
    have hh : a.handing = false := idle.2
    unfold weight
    simp only [next, hh, List.map_cons, List.sum_cons, charge, List.length_append,
      List.length_singleton, Bool.toNat_true, Bool.toNat_false]
    omega
  | register rest idle next =>
    unfold weight
    simp only [next, List.map_cons, List.sum_cons, charge]
    omega
  | grant rest idle next known =>
    have hb := Waits.burden_granted ho a.now
    have hh : a.handing = false := idle.2
    unfold weight
    simp only [next, hh, List.map_cons, List.sum_cons, charge, Option.elim_some, hb,
      Bool.toNat_true, Bool.toNat_false]
    omega
  | forget rest idle next =>
    unfold weight
    simp only [next, List.map_cons, List.sum_cons, charge, Option.elim_none]
    omega
  | settle clear handing done =>
    unfold weight
    simp only [handing, Bool.toNat_true, Bool.toNat_false]
    omega
  | refuse m ms p clear handing message pull refuses =>
    have hb := burden_pos a.now p
    unfold weight
    simp only [pull, clear, Option.elim_some, Option.elim_none, List.length_nil,
      List.length_singleton]
    omega
  | hand m ms p clear handing message pull takes =>
    have hb := (hs.pull p pull).burden_kept m
    unfold weight
    simp only [pull, clear, message, Option.elim_some, List.length_nil, List.length_cons]
    omega
  | due p f idle pull due =>
    have hb := (hs.pull p pull).burden_due due
    unfold weight
    simp only [pull, idle.1, Option.elim_some, List.length_nil, List.length_singleton]
    omega
  | post f rest next known worker =>
    unfold weight
    simp only [next, List.length_cons, List.length_append, List.length_nil]
    omega
  | drop f rest next known =>
    unfold weight
    simp only [next, List.length_cons]
    omega
  | lose f rest next known worker =>
    unfold weight
    simp only [next, List.length_cons, Option.elim_none]
    omega
  | take f rest stage worker next =>
    have hw := workLeft_of f
    have hr : workLeft .reading = 1 := rfl
    unfold weight
    simp only [worker, next, List.length_cons, hr]
    omega
  | enqueue d stage worker =>
    unfold weight
    simp only [worker, List.length_append, List.length_singleton, workLeft]
    omega
  | quit stage worker =>
    have hw : 0 < workLeft a.worker := by
      cases hwork : a.worker with
      | reading => exact Nat.one_pos
      | holding d => exact Nat.succ_pos 2
      | ended => exact absurd hwork worker
    have he : workLeft .ended = 0 := rfl
    unfold weight
    simp only [List.length_nil, he]
    omega
  | rest watching =>
    unfold weight
    simp only [watching, Bool.toNat_true, Bool.toNat_false]
    omega
  | read m rest stage goesOn next =>
    unfold weight
    simp only [next, List.length_cons]
    omega
  | full stage full => exact weight_leave stage
  | ended s rest stage goesOn next =>
    have hw : ({ a with deliveries := rest }.leave T).weight <
        { a with deliveries := rest }.weight := weight_leave stage
    refine Nat.lt_of_lt_of_le hw ?_
    unfold weight
    simp only [next, List.length_cons]
    omega
  | expire stage none late => exact weight_leave stage
  | answer stage worker watching =>
    unfold weight
    simp only [stage, Stage.burden]
    omega

end Errand

end DemandFlow
