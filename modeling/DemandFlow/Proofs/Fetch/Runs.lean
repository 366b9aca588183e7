import DemandFlow.Proofs.Fetch.Tasks

/-
  Runs of an exchange that hosts an errand. Whatever happens next keeps the errand sound and what
  it is offered in all the same; and it brings the errand onward: fewer messages are left to be
  published, or the clock goes on, or the errand gets lighter, or the alarm task has nothing new
  to see. As long as there is no answer something can happen, and the fetch has not expired. So
  every run comes to an answer, and in time.
-/

namespace DemandFlow

open Broker (Command)
open Exchange (Goes Inevitable Timetable ackSubject stored)

namespace Errand

variable {T : Terms} {P : Place} {n k : Nat} {a b : Errand} {x y : Exchange}
  {plan plan' : Timetable} {offer : List Message} {l : Loopback} {feed : Feed}
  {s : Subscription}

/-- An exchange with a timetable hosts an errand that is offered these messages in all. -/
structure Kept (T : Terms) (P : Place) (offer : List Message) (n : Nat) (a : Errand)
    (plan : Timetable) (x : Exchange) : Prop where
  hosted : Hosted T P n a x
  sound : Sound T a
  starts : plan.StartsAt x.now
  /-- No message is published at the very instant at which the fetch expires. -/
  misses : ∀ p ∈ plan, p.1 ≠ T.due
  offer : a.offered ++ stored n (plan.before T.due) = offer

/-- How a run of an errand goes on. -/
inductive Onward (P : Place) (a b : Errand) (plan plan' : Timetable) (x y : Exchange) : Prop
  | publish (shorter : plan'.length < plan.length) (stage : b.stage = a.stage)
    (now : b.now = a.now)
  | clock (same : plan' = plan) (stage : b.stage = a.stage) (later : a.now < b.now)
  | turn (same : plan' = plan) (now : b.now = a.now)
    (lighter : 2 * b.weight + (stirs y P.sub).toNat < 2 * a.weight + (stirs x P.sub).toNat)

theorem Hosted.now (h : Hosted T P n a x) : x.now = a.now := by
  obtain ⟨⟨l, feed, s, h⟩, _⟩ := h
  exact h.now

/-! ## What happens next -/

/-- A message is published and stands in line for the broker. -/
theorem Hosted.publish (h : Hosted T P n a x) (m : Message) :
    Hosted T P (n + 1) (a.publish T (m.withReply (ackSubject n))) (x.publish m).1 := by
  obtain ⟨⟨l, feed, s, h⟩, ha⟩ := h
  obtain ⟨_, hc⟩ := Exchange.core_publish h.transport h.served.alive m
  rw [h.served.sequence] at hc
  have hside : (a.publish T (m.withReply (ackSubject n))).side = a.side := by
    unfold Errand.publish
    split <;> rfl
  have hserved : Served T (n + 1) (a.publish T (m.withReply (ackSubject n))) { l with
      nextSequence := n + 1
      commands := l.commands.push (.publish (m.withReply (ackSubject n))) } := by
    have hcommands : (l.commands.push (.publish (m.withReply (ackSubject n)))).toList =
        a.queue ++ [.publish (m.withReply (ackSubject n))] := by
      rw [Fifo.toList_push, h.served.commands]
    unfold Errand.publish
    split
    · exact { h.served with sequence := rfl, commands := hcommands }
    · exact { h.served with sequence := rfl, commands := hcommands }
  exact (h.serve hserved hside).hosted_of_side (a := a) hc ha
    (Exchange.skips_desk.publish x m) hside

theorem Kept.publish {m : Message} (h : Kept T P offer n a ((x.now, m) :: plan) x) :
    Kept T P offer (n + 1) (a.publish T (m.withReply (ackSubject n))) plan (x.publish m).1 := by
  have hnow := h.hosted.now
  have hhosted := h.hosted.publish m
  have hafter : (a.publish T (m.withReply (ackSubject n))).now = a.now := by
    unfold Errand.publish
    split <;> rfl
  have hmiss : x.now ≠ T.due := h.misses _ List.mem_cons_self
  refine ⟨hhosted, h.sound.publish (Exchange.size_withReply_pos m n) (by rwa [← hnow]), ?_,
    fun p hp => h.misses p (List.mem_cons_of_mem _ hp), ?_⟩
  · rw [hhosted.now, hafter, ← hnow]
    exact h.starts.tail
  · have hoffer := h.offer
    unfold Errand.publish
    split
    · rename_i hlt
      rw [← hnow] at hlt
      rw [Exchange.Timetable.before_cons hlt] at hoffer
      rw [← hoffer, List.append_assoc]
      rfl
    · rename_i hle
      rw [← hnow] at hle
      have hnone : Exchange.Timetable.before T.due ((x.now, m) :: plan) = [] :=
        h.starts.before_eq_nil (Nat.le_of_not_lt hle)
      have hrest : plan.before T.due = [] := h.starts.tail.before_eq_nil (Nat.le_of_not_lt hle)
      rw [hnone] at hoffer
      rw [hrest]
      exact hoffer

/-- A step of the errand, or a look of the alarm task. -/
theorem Kept.turn {p : Prop} (ho : T.options.Timed) (h : Kept T P offer n a plan x)
    (ht : Turned T P n a p x y) (hacts : y.content ≠ x.content) :
    ∃ b, Kept T P offer n b plan y ∧ Onward P a b plan plan x y := by
  cases ht with
  | same content _ => exact absurd content hacts
  | step b step hosted =>
    have hside := step.fixed
    have hlighter := step.lighter ho h.sound
    have hnow : y.now = x.now := by rw [hosted.now, h.hosted.now, hside.1]
    refine ⟨b, ⟨hosted, h.sound.step ho step, hnow ▸ h.starts, h.misses,
      by rw [hside.2]; exact h.offer⟩, .turn rfl hside.1 ?_⟩
    cases stirs x P.sub <;> cases stirs y P.sub <;>
      simp only [Bool.toNat_true, Bool.toNat_false] <;> omega
  | saw hosted before after _ =>
    have hnow : y.now = x.now := by rw [hosted.now, h.hosted.now]
    refine ⟨a, ⟨hosted, h.sound, hnow ▸ h.starts, h.misses, h.offer⟩, .turn rfl rfl ?_⟩
    rw [before, after]
    exact Nat.lt_succ_self _

/-- Time goes on up to the next instant at which something may have to be done. -/
theorem Kept.clock (ho : T.options.Timed) (h : Kept T P offer n a plan x) {now : Nat}
    (hlater : x.now < now) (hrests : x.Rests) (hrings : ∀ t, x.Rings t → now ≤ t)
    (htimely : ∀ p ∈ plan, now ≤ p.1) :
    Kept T P offer n (a.tick now) plan { x with now := now } := by
  obtain ⟨hquiet, _⟩ := isQuiet_of_rests ho h.hosted h.sound hrests
  have hnow := h.hosted.now
  obtain ⟨⟨l, feed, s, hh⟩, ha⟩ := h.hosted
  refine ⟨⟨⟨l, feed, s, ?_⟩, ha⟩, ?_, h.starts.later htimely, h.misses, h.offer⟩
  · exact { hh with
      now := rfl
      served := { hh.served with }
      fed := { hh.fed with }
      attended := { hh.attended with } }
  · refine h.sound.tick hquiet (by rwa [← hnow]) fun p t hp ht =>
      hrings t (.broker l hh.transport ?_)
    unfold Broker.State.deadline
    rw [hh.served.waiting, hp]
    exact ht

/-- Whatever happens next brings the errand onward. -/
theorem Kept.goes (ho : T.options.Timed) (h : Kept T P offer n a plan x)
    (hg : Goes (plan, x) (plan', y)) :
    ∃ k b, Kept T P offer k b plan' y ∧ Onward P a b plan plan' x y := by
  cases hg with
  | publish _ m _ =>
    refine ⟨n + 1, _, h.publish, .publish (Nat.lt_succ_self _) ?_ ?_⟩
    · unfold Errand.publish
      split <;> rfl
    · unfold Errand.publish
      split <;> rfl
  | turn _ _ t lasting acts =>
    obtain ⟨b, hb, hon⟩ := h.turn ho (turned ho h.hosted h.sound lasting) acts
    exact ⟨n, b, hb, hon⟩
  | timers _ _ acts =>
    have hturned : Turned T P n a True x (x.fire 0) := by
      obtain ⟨⟨l, feed, s, hh⟩, ha⟩ := h.hosted
      exact turned_timers hh ha h.sound
    obtain ⟨b, hb, hon⟩ := h.turn ho hturned acts
    exact ⟨n, b, hb, hon⟩
  | clock _ _ now later rests rings timely =>
    refine ⟨n, a.tick now, h.clock ho later rests rings timely, .clock rfl rfl ?_⟩
    rw [← h.hosted.now]
    exact later

/-! ## There is always something that can happen -/

/-- Nobody who waits has to look again before time has gone on. -/
theorem lt_of_rings (h : Hosts T P n a x.core l feed s) (hs : Sound T a) (hst : a.stage = .reading)
    (hdue : ∀ p, a.pull = some p → (Broker.State.due a.now p).1 = none) (hearly : a.now < T.due)
    {t : Nat} (hr : x.Rings t) : a.now < t := by
  cases hr with
  | broker l' transport due =>
    obtain rfl : l = l' := Transport.loopback.inj (h.transport.symm.trans transport)
    unfold Broker.State.deadline at due
    rw [h.served.waiting] at due
    cases hp : a.pull with
    | none =>
      rw [hp] at due
      cases due
    | some p =>
      rw [hp] at due
      exact (hs.pull p hp).lt_deadline (hdue p hp) due
  | alarm i u sub watching due =>
    by_cases hi : i = P.sub
    · subst hi
      obtain rfl : s = u := Option.some.inj (h.subAt.symm.trans sub)
      obtain ⟨_, _, p, hp, rfl⟩ := Monitor.deadline_eq_some_iff.1 due
      obtain ⟨d, hd, hnanos⟩ := h.attended.period p hp
      obtain ⟨stop, hreads⟩ := hs.reads hst
      have halert := hreads.alert d hd
      have hpos := beat_pos T hd
      have hmult : Monitor.multiplier = 3 := rfl
      rw [h.attended.seen, hnanos, hmult]
      omega
    · have hover := h.others i u hi sub
      unfold Subscription.isOver at hover
      rw [watching] at hover
      cases hover
  | caller c caller due =>
    rw [show x.callers = _ from h.callers_of_reading hst] at caller
    rw [List.mem_singleton.1 caller] at due
    obtain ⟨f, hp, _⟩ := h.attended.purpose
    unfold Exchange.dueOf? at due
    dsimp only at due
    rw [show x.subs[P.sub]? = some s from h.subAt, Option.bind_some, hp] at due
    cases due
    exact hearly

/-- As long as there is no answer, something can happen. -/
theorem Kept.exists_goes (ho : T.options.Timed) (h : Kept T P offer n a plan x)
    (hst : a.stage ≠ .answered) : ∃ d, Goes (plan, x) d := by
  by_cases hrests : x.Rests
  · obtain ⟨hquiet, hdue, hearly⟩ := isQuiet_of_rests ho h.hosted h.sound hrests
    have hreading : a.stage = .reading := by
      cases hs : a.stage with
      | reading => rfl
      | leaving => exact absurd hs hquiet.stays
      | answered => exact absurd hs hst
    have hclock : (∀ p ∈ plan, x.now < p.1) → ∃ d, Goes (plan, x) d := fun hplan =>
      ⟨_, .clock x plan (x.now + 1) (Nat.lt_succ_self _) hrests (fun t ht => by
        have hnow := h.hosted.now
        obtain ⟨⟨l, feed, s, hh⟩, _⟩ := h.hosted
        rw [hnow]
        exact lt_of_rings hh h.sound hreading hdue (hearly hreading) ht) hplan⟩
    cases plan with
    | nil => exact hclock fun p hp => by cases hp
    | cons q rest =>
      rcases Nat.lt_or_eq_of_le (h.starts.le List.mem_cons_self) with hlt | he
      · refine hclock fun p hp => ?_
        rcases List.mem_cons.1 hp with rfl | hp
        · exact hlt
        · exact Nat.lt_of_lt_of_le hlt
            (List.rel_of_pairwise_cons (List.pairwise_cons.1 h.starts).2 (List.mem_map_of_mem hp))
      · obtain ⟨t, m⟩ := q
        subst he
        exact ⟨_, .publish x m rest⟩
  · by_contra hnone
    exact hrests fun t ht => by_contra fun hacts => hnone ⟨_, .turn x plan t ht hacts⟩

/-! ## Whole runs -/

/-- A run keeps the errand up. -/
theorem Kept.run (ho : T.options.Timed) (h : Kept T P offer n a plan x)
    {d : Timetable × Exchange} (hr : Relation.ReflTransGen Goes (plan, x) d) :
    ∃ k b, Kept T P offer k b d.1 d.2 := by
  induction hr with
  | refl => exact ⟨n, a, h⟩
  | tail _ hg ih =>
    obtain ⟨k, b, hb⟩ := ih
    obtain ⟨k', b', hb', _⟩ := hb.goes ho hg
    exact ⟨k', b', hb'⟩

/-- Every run comes to an answer before the fetch has expired: at one instant the errand gets
lighter, time does not pass the instant at which the fetch expires, and no more messages are
published than the timetable has. -/
theorem Kept.inevitable (ho : T.options.Timed) {n : Nat} {a : Errand} {plan : Timetable}
    {x : Exchange} (h : Kept T P offer n a plan x) (hst : a.stage ≠ .answered) :
    Inevitable (fun y => ∃ k b, Hosted T P k b y ∧ b.stage = .answered ∧ b.now ≤ T.due)
      (plan, x) := by
  have hearly := h.sound.early hst
  refine .later _ (h.exists_goes ho hst) fun d hg => ?_
  obtain ⟨plan', y⟩ := d
  obtain ⟨k, b, hb, hon⟩ := h.goes ho hg
  by_cases hans : b.stage = .answered
  · refine .here _ ⟨k, b, hb.hosted, hans, ?_⟩
    cases hon with
    | publish _ stage | clock _ stage _ => exact absurd (stage.symm.trans hans) hst
    | turn _ now _ => exact now ▸ hearly
  · exact hb.inevitable ho hans
termination_by (plan.length, T.due + 1 - a.now, 2 * a.weight + (stirs x P.sub).toNat)
decreasing_by
  cases hon with
  | publish shorter _ _ => exact Prod.Lex.left _ _ shorter
  | clock same _ later =>
    subst same
    exact Prod.Lex.right _ (Prod.Lex.left _ _ (by omega))
  | turn same now lighter =>
    subst same
    rw [now]
    exact Prod.Lex.right _ (Prod.Lex.right _ lighter)

/-- A caller that has left has the longest batch that is admitted of all that is offered to it,
also of what is still to be published. -/
theorem Kept.longest (h : Kept T P offer n a plan x) (hst : a.stage ≠ .reading) :
    T.options.Longest offer a.got := by
  have hl := h.sound.leaves hst
  have hoffer := h.offer
  rw [hl.got]
  refine FetchOptions.longest_of_stuck ?_ h.sound.admits (fun m hm => ?_) ?_
  · rw [← hoffer]
    exact h.sound.leads.trans (List.prefix_append _ _)
  · rw [← hoffer] at hm
    rcases List.mem_append.1 hm with hm | hm
    · exact h.sound.sizes m hm
    · exact Exchange.size_pos_of_mem_stored hm
  · rcases hl.isOver with hstuck | ⟨hlate, hall⟩
    · rw [← hoffer]
      exact Or.inl (hstuck.mono _)
    · have hnone : plan.before T.due = [] :=
        h.starts.before_eq_nil (by rw [h.hosted.now]; exact hlate)
      rw [hnone] at hoffer
      rw [← hoffer, hall]
      exact Or.inr (List.append_nil _).symm

end Errand

end DemandFlow
