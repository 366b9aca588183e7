import DemandFlow.Proofs.Drain.Waiter
import DemandFlow.Proofs.Exchange.Desk
import DemandFlow.Proofs.Wake.Parting

/-
  A drain returns when it should. In each lull of a run it either waits, and then its demand is
  outstanding and its time not over, or it has returned (`Stage`): whatever exhausts its demand
  wakes it in the same step, and so does the clock when its time is over. Its time is over at the
  first whole millisecond that is not before the end of its grace, since sleepers wake on whole
  milliseconds; and after thirty years where the clock cannot name the end of its grace.
-/

namespace DemandFlow.Exchange

variable {x : Exchange} {id i : Nat} {b : Bool} {inbox : String} {seen : List Exchange}

/-! ## What others leave alone -/

/-- The demand that the consumer of a subscription shows. -/
def pendingOf (x : Exchange) (i : Nat) : Demand :=
  ((x.subs[i]?).map Subscription.demand).getD .none

theorem pendingOf_of {s : Subscription} (hs : x.subs[i]? = some s) :
    x.pendingOf i = s.tracker.demand := by
  unfold pendingOf
  rw [hs]
  rfl

theorem now_follow (x : Exchange) {m : Move} (hm : ∀ now, m ≠ .clock now) :
    (x.follow m).now = x.now := by
  obtain ⟨_, _, _, hw, hy, _⟩ := works_follow x hm
  rw [hy]
  exact hw.now

theorem now_le_follow {m : Move} (hm : x.Allows m) : x.now ≤ (x.follow m).now := by
  by_cases hclock : ∃ now, m = .clock now
  · obtain ⟨now, rfl⟩ := hclock
    rw [follow_clock, (stays_ring x now).now]
    exact hm.2.1
  · exact Nat.le_of_eq (now_follow x fun now he => hclock ⟨now, he⟩).symm

/-! ## Stages of a drain -/

/-- A call that drains a consumer: its number, the subscription with its inbox, and the instant at
which its wait ends. -/
structure DrainCall where
  id : Nat
  sub : Nat
  inbox : String
  due : Nat

namespace DrainCall

/-- The instant at which the call wakes in the end. -/
def limit (k : DrainCall) : Nat := wholeMillis k.due

/-- The call waits in a lull: demand is outstanding, and there is time. -/
structure Waits (k : DrainCall) (w : Exchange) : Prop where
  outstanding : (w.pendingOf k.sub).isExhausted = false
  early : w.now < k.limit
  answer : w.answerOf? k.id = none

/-- The call has returned: successfully only when nothing is outstanding, and else only when its
time is over. -/
structure Returned (k : DrainCall) (b : Bool) (w : Exchange) : Prop where
  answer : w.answerOf? k.id = some (.flag b)
  exhausted : b = true → (w.pendingOf k.sub).isExhausted = true
  late : b = false → k.limit ≤ w.now

/-- How far a call has come, and what it was like in the lulls so far. -/
inductive Stage (k : DrainCall) (seen : List Exchange) (x : Exchange) : Prop
  | waiting (caller : x.callerOf? k.id = some ⟨k.id, .drain k.sub k.due⟩)
    (answer : x.answerOf? k.id = none) (early : x.now ≤ k.limit)
    (parting : Parting k.sub k.inbox x) (past : ∀ w ∈ seen, w.isQuiet = true → k.Waits w)
  | leaving {b : Bool} (caller : x.callerOf? k.id = some ⟨k.id, .leave k.sub (.flag b)⟩)
    (answer : x.answerOf? k.id = none) (early : x.now ≤ k.limit)
    (late : b = false → x.now = k.limit) (parted : Parted k.sub k.inbox b x)
    (past : ∀ w ∈ seen, w.isQuiet = true → k.Waits w)
  | returned {b : Bool} (caller : x.callerOf? k.id = none)
    (answer : x.answerOf? k.id = some (.flag b))
    (early : b = true → x.now ≤ k.limit ∨ ∃ w ∈ seen, w.isQuiet = true ∧ w.now ≤ k.limit ∧
      (w.pendingOf k.sub).isExhausted = true)
    (late : b = false → k.limit ≤ x.now ∧ (x.now = k.limit ∨ ∃ w ∈ seen, w.isQuiet = true ∧
      w.now = k.limit ∧ w.answerOf? k.id = some (.flag false)))
    (parted : Parted k.sub k.inbox b x)
    (past : ∀ w ∈ seen, w.isQuiet = true → k.Waits w ∨ k.Returned b w)

variable {k : DrainCall}

/-! ## Lulls -/

/-- Whose consumer is closed has returned in a lull. -/
theorem not_isQuiet_of_leaving (h : Steady x) {a : Answer}
    (hc : x.callerOf? id = some ⟨id, .leave i a⟩) (hx : Parted i inbox b x) :
    x.isQuiet = false := by
  obtain ⟨s, _, hs, _, _, hclosed, _⟩ := hx
  exact not_isQuiet_of_leave h hc hs hclosed

/-- In a lull a call that waits has reason to. -/
theorem waits_of_isQuiet (h : Steady x) (hq : x.isQuiet = true)
    (hc : x.callerOf? k.id = some ⟨k.id, .drain k.sub k.due⟩) (ha : x.answerOf? k.id = none) :
    k.Waits x := by
  refine ⟨?_, ?_, ha⟩
  · rw [← Bool.not_eq_true]
    intro he
    refine h.not_owes hq (.caller k.id) (.spent hc fun s hs => ?_)
    rw [pendingOf_of hs] at he
    exact he
  · refine Nat.lt_of_not_le fun hle => h.not_owes hq (.caller k.id) (.late hc ?_)
    exact hle

/-- What has come to a stage has been in it when it is looked at. -/
theorem Stage.see (h : Steady x) (hx : k.Stage seen x) : k.Stage (seen ++ [x]) x := by
  have hsee : ∀ {P : Exchange → Prop}, (∀ w ∈ seen, w.isQuiet = true → P w) →
      (x.isQuiet = true → P x) → ∀ w ∈ seen ++ [x], w.isQuiet = true → P w := by
    intro P hpast hnow w hw hq
    rcases List.mem_append.1 hw with hw | hw
    · exact hpast w hw hq
    · cases List.mem_singleton.1 hw
      exact hnow hq
  cases hx with
  | waiting hc ha he hp hpast =>
    exact .waiting hc ha he hp (hsee hpast fun hq => waits_of_isQuiet h hq hc ha)
  | leaving hc ha he hl hp hpast =>
    refine .leaving hc ha he hl hp (hsee hpast fun hq => ?_)
    rw [not_isQuiet_of_leaving h hc hp] at hq
    cases hq
  | returned hc ha he hl hp hpast =>
    refine .returned hc ha (fun hb => ?_) (fun hb => ?_) hp
      (hsee hpast fun _ => Or.inr ⟨ha, fun hb => ?_, fun hb => (hl hb).1⟩)
    · refine (he hb).imp_right ?_
      rintro ⟨w, hw, hrest⟩
      exact ⟨w, List.mem_append_left _ hw, hrest⟩
    · refine ⟨(hl hb).1, (hl hb).2.imp_right ?_⟩
      rintro ⟨w, hw, hrest⟩
      exact ⟨w, List.mem_append_left _ hw, hrest⟩
    · obtain ⟨s, _, hs, _, _, _, _, _, hexhausted⟩ := hp
      rw [pendingOf_of hs]
      exact hexhausted hb

/-! ## Moves of others -/

/-- The moves of others, and of the clock, leave a call that waits where it is. -/
theorem waiting_follow (h : Steady x) {m : Move} (hm : x.Allows m)
    (hown : m ≠ .turn (.caller k.id))
    (hc : x.callerOf? k.id = some ⟨k.id, .drain k.sub k.due⟩) (ha : x.answerOf? k.id = none)
    (he : x.now ≤ k.limit) (hp : Parting k.sub k.inbox x)
    (hpast : ∀ w ∈ seen, w.isQuiet = true → k.Waits w) : k.Stage seen (x.follow m) := by
  obtain ⟨hc', ha'⟩ := caller_follow h (id_lt_of_caller h hc) fun hm => absurd hm hown
  refine .waiting (hc'.trans hc) (ha'.trans ha) ?_ (parting_follow h hown hc hp) hpast
  by_cases hclock : ∃ now, m = .clock now
  · obtain ⟨now, rfl⟩ := hclock
    obtain ⟨hq, _, hsleepers⟩ := hm
    obtain ⟨e, hmem, _, hdue⟩ := h.sleeps hq hc
    rw [follow_clock, (stays_ring x now).now]
    exact Nat.le_trans (hsleepers e hmem) (Nat.le_of_eq hdue)
  · rw [now_follow x fun now he => hclock ⟨now, he⟩]
    exact he

/-- The moves of others leave a call that has closed where it is; and the clock stands still until
it has returned. -/
theorem leaving_follow (h : Steady x) {m : Move} (hm : x.Allows m)
    (hown : m ≠ .turn (.caller k.id))
    (hc : x.callerOf? k.id = some ⟨k.id, .leave k.sub (.flag b)⟩)
    (ha : x.answerOf? k.id = none) (he : x.now ≤ k.limit) (hl : b = false → x.now = k.limit)
    (hp : Parted k.sub k.inbox b x) (hpast : ∀ w ∈ seen, w.isQuiet = true → k.Waits w) :
    k.Stage seen (x.follow m) := by
  have hclock : ∀ now, m ≠ .clock now := by
    rintro now rfl
    have hq := hm.1
    rw [not_isQuiet_of_leaving h hc hp] at hq
    cases hq
  obtain ⟨hc', ha'⟩ := caller_follow h (id_lt_of_caller h hc) fun hm => absurd hm hown
  have hnow := now_follow x hclock
  exact .leaving (hc'.trans hc) (ha'.trans ha) (hnow.symm ▸ he) (fun hb => hnow.trans (hl hb))
    (parted_follow h hp) hpast

/-- A call that has returned is done, whatever happens. -/
theorem returned_follow (h : Steady x) {m : Move} (hm : x.Allows m) (hx : x ∈ seen)
    (hc : x.callerOf? k.id = none) (ha : x.answerOf? k.id = some (.flag b))
    (he : b = true → x.now ≤ k.limit ∨ ∃ w ∈ seen, w.isQuiet = true ∧ w.now ≤ k.limit ∧
      (w.pendingOf k.sub).isExhausted = true)
    (hl : b = false → k.limit ≤ x.now ∧ (x.now = k.limit ∨ ∃ w ∈ seen, w.isQuiet = true ∧
      w.now = k.limit ∧ w.answerOf? k.id = some (.flag false)))
    (hp : Parted k.sub k.inbox b x)
    (hpast : ∀ w ∈ seen, w.isQuiet = true → k.Waits w ∨ k.Returned b w) :
    k.Stage seen (x.follow m) := by
  obtain ⟨hc', ha'⟩ := caller_follow h (id_lt_of_answer h ha) fun _ => hc
  refine .returned (hc'.trans hc) (ha'.trans ha) (fun hb => ?_) (fun hb => ?_)
    (parted_follow h hp) hpast
  · by_cases hclock : ∃ now, m = .clock now
    · obtain ⟨now, rfl⟩ := hclock
      obtain ⟨s, _, hs, _, _, _, _, _, hexhausted⟩ := hp
      refine Or.inr ((he hb).elim (fun hle => ⟨x, hx, hm.1, hle, ?_⟩) fun hw => hw)
      rw [pendingOf_of hs]
      exact hexhausted hb
    · rw [now_follow x fun now he => hclock ⟨now, he⟩]
      exact he hb
  · refine ⟨Nat.le_trans (hl hb).1 (now_le_follow hm), ?_⟩
    by_cases hclock : ∃ now, m = .clock now
    · obtain ⟨now, rfl⟩ := hclock
      exact Or.inr ((hl hb).2.elim (fun heq => ⟨x, hx, hm.1, heq, hb ▸ ha⟩)
        fun hw => hw)
    · rw [now_follow x fun now he => hclock ⟨now, he⟩]
      exact (hl hb).2

/-! ## The turns of the call -/

theorem now_stopWith (x : Exchange) (id i : Nat) (a : Answer) :
    (x.stopWith id i a).now = x.now := by
  unfold stopWith
  rw [now_setActivity]
  exact (stays_stop x i).now

theorem answerOf?_stopWith (x : Exchange) (id i : Nat) (a : Answer) (n : Nat) :
    (x.stopWith id i a).answerOf? n = x.answerOf? n := by
  unfold stopWith answerOf?
  rw [answers_setActivity, (stays_stop x i).answers]

theorem callerOf?_stopWith {c : Caller} (hc : x.callerOf? id = some c) (a : Answer) :
    (x.stopWith id i a).callerOf? id = some ⟨id, .leave i a⟩ :=
  callerOf?_setActivity_self ((callerOf?_of_callers (stays_stop x i).callers id).trans hc) _

/-- In its turn a call that waits closes, or sleeps on. -/
theorem waiting_turn (hc : x.callerOf? k.id = some ⟨k.id, .drain k.sub k.due⟩) (ha : x.answerOf? k.id = none)
    (he : x.now ≤ k.limit) (hp : Parting k.sub k.inbox x)
    (hpast : ∀ w ∈ seen, w.isQuiet = true → k.Waits w) :
    k.Stage seen (x.turn (.caller k.id)) := by
  have hstep : x.stepOf (.caller k.id) = x.drainStep k.id k.sub k.due := callerStep_of_drain hc
  rcases turn_cases x (.caller k.id) with ⟨hmore, hy⟩ | ⟨hmore, hy⟩
  · rw [hstep] at hmore hy
    obtain ⟨s, z, b, hs, hz, hstop, hb, hl⟩ := drainStep_of_true hmore
    rw [hy, hstop]
    have hcall : z.callerOf? k.id = some ⟨k.id, .drain k.sub k.due⟩ :=
      (callerOf?_of_callers hz.callers k.id).trans hc
    have hnow : (z.stopWith k.id k.sub (.flag b)).now = x.now := (now_stopWith ..).trans hz.now
    have hanswer : z.answerOf? k.id = none := (congrArg (List.lookup k.id) hz.answers).trans ha
    have hparting : Parting k.sub k.inbox z := by
      obtain ⟨s, c, hs, hp, hm, hi, hcl⟩ := hp
      exact ⟨s, c, hz.subs ▸ hs, hp, hm, hi, fun he => hz.transport ▸ hcl he⟩
    refine .leaving (callerOf?_stopWith hcall _) ((answerOf?_stopWith ..).trans hanswer)
      (hnow ▸ he) (fun hf => ?_) (parted_stopWith hparting (fun he u hu => ?_) _) hpast
    · rw [hnow]
      exact Nat.le_antisymm he (hl hf)
    · rw [hz.subs, hs] at hu
      cases hu
      exact hb he
  · rw [hstep] at hmore hy
    rcases drainStep_of_false hmore with ⟨hn, _⟩ | ⟨s, _, _, _, hkeep⟩
    · obtain ⟨s, _, hs, _⟩ := hp
      cases hn.symm.trans hs
    · rw [hy, hkeep]
      have hcore := core_keepTimer x (.caller k.id) k.due
      have hnow : (x.keepTimer (.caller k.id) k.due).now = x.now := congrArg Core.now hcore
      have hsubs : (x.keepTimer (.caller k.id) k.due).subs = x.subs := congrArg Core.subs hcore
      have htransport := transport_keepTimer x (.caller k.id) k.due
      have hanswers := answers_of_desk (skips_desk.keepTimer x (.caller k.id) k.due)
      refine .waiting ?_ ?_ (Nat.le_trans (Nat.le_of_eq hnow) he) ?_ hpast
      · exact (callerOf?_of_callers (congrArg Core.callers hcore) k.id).trans hc
      · exact (congrArg (List.lookup k.id) hanswers).trans ha
      · obtain ⟨s, c, hs, hp, hm, hi, hcl⟩ := hp
        refine ⟨s, c, (congrArg (·[k.sub]?) hsubs).trans hs, hp, hm, hi, fun he => ?_⟩
        show Transport.Released k.inbox (x.keepTimer (.caller k.id) k.due).transport
        rw [htransport]
        exact hcl he

/-- In its turn a call that has closed returns when both tasks have ended. -/
theorem leaving_turn (hc : x.callerOf? k.id = some ⟨k.id, .leave k.sub (.flag b)⟩)
    (ha : x.answerOf? k.id = none) (he : x.now ≤ k.limit) (hl : b = false → x.now = k.limit)
    (hp : Parted k.sub k.inbox b x) (hpast : ∀ w ∈ seen, w.isQuiet = true → k.Waits w) :
    k.Stage seen (x.turn (.caller k.id)) := by
  have hstep : x.stepOf (.caller k.id) = x.leaveStep k.id k.sub (.flag b) := callerStep_of_leave hc
  obtain ⟨s, c, hs, hrest⟩ := hp
  have hparted : Parted k.sub k.inbox b x := ⟨s, c, hs, hrest⟩
  have hleave : x.leaveStep k.id k.sub (.flag b) =
      if s.isOver then (x.finish k.id (.flag b), false) else (x, false) := by
    unfold leaveStep
    rw [hs]
  unfold turn
  rw [hstep, hleave]
  by_cases hover : s.isOver = true
  · rw [if_pos hover]
    refine .returned (callerOf?_finish_self x k.id (.flag b)) ?_ (fun _ => Or.inl he)
      (fun hb => ?_) hparted fun w hw hq => Or.inl (hpast w hw hq)
    · show List.lookup k.id (x.answers ++ [(k.id, .flag b)]) = _
      rw [List.lookup_append, show List.lookup k.id x.answers = none from ha]
      simp
    · exact ⟨Nat.le_of_eq (hl hb).symm, Or.inl (hl hb)⟩
  · rw [if_neg hover]
    exact .leaving hc ha he hl hparted hpast

/-! ## Runs -/

theorem Stage.follow (h : Steady x) {m : Move} (hm : x.Allows m) (hx : x ∈ seen)
    (hk : k.Stage seen x) : k.Stage seen (x.follow m) := by
  by_cases hown : m = .turn (.caller k.id)
  · subst hown
    cases hk with
    | waiting hc ha he hp hpast => exact waiting_turn hc ha he hp hpast
    | leaving hc ha he hl hp hpast => exact leaving_turn hc ha he hl hp hpast
    | returned hc ha he hl hp hpast => exact returned_follow h hm hx hc ha he hl hp hpast
  · cases hk with
    | waiting hc ha he hp hpast => exact waiting_follow h hm hown hc ha he hp hpast
    | leaving hc ha he hl hp hpast => exact leaving_follow h hm hown hc ha he hl hp hpast
    | returned hc ha he hl hp hpast => exact returned_follow h hm hx hc ha he hl hp hpast

/-- A call with all moments so far: it has come to a stage, and the clock was not set back. -/
structure Followed (k : DrainCall) (seen : List Exchange) (x : Exchange) : Prop where
  steady : Steady x
  last : x ∈ seen
  stage : k.Stage seen x
  past : ∀ w ∈ seen, w.now ≤ x.now

theorem Followed.follow (h : k.Followed seen x) {m : Move} (hm : x.Allows m) :
    k.Followed (seen ++ [x.follow m]) (x.follow m) := by
  have hsteady := steady_follow h.steady hm
  refine ⟨hsteady, List.mem_append_right _ List.mem_cons_self,
    (h.stage.follow h.steady hm h.last).see hsteady, fun w hw => ?_⟩
  rcases List.mem_append.1 hw with hw | hw
  · exact Nat.le_trans (h.past w hw) (now_le_follow hm)
  · cases List.mem_singleton.1 hw
    exact Nat.le_refl _

theorem Followed.run (h : k.Followed seen x) {ms : List Move} (hrun : x.IsRun ms) :
    k.Followed (seen ++ x.course ms) (x.followed ms) := by
  induction ms generalizing x seen with
  | nil => exact (List.append_nil seen).symm ▸ h
  | cons m ms ih =>
    have hrest := ih (h.follow hrun.1) hrun.2
    rw [List.append_assoc] at hrest
    exact hrest

/-- When a call has to return, and what is so then, in a run with these lulls that has come to
`y`. -/
structure InTime (k : DrainCall) (lulls : List Exchange) (y : Exchange) : Prop where
  /-- Once demand was exhausted in a lull while there was time, it has returned successfully. -/
  drained : (∃ w ∈ lulls, w.now < k.limit ∧ (w.pendingOf k.sub).isExhausted = true) →
    y.answerOf? k.id = some (.flag true)
  /-- As long as there is time and demand is outstanding, it has not returned. -/
  waits : y.now < k.limit → (y.pendingOf k.sub).isExhausted = false → y.answerOf? k.id = none
  /-- If demand was outstanding in all lulls up to the end of its time, it has returned without
  success, and did so at that end. -/
  late : (∃ w ∈ lulls, k.limit ≤ w.now) →
    (∀ w ∈ lulls, w.now ≤ k.limit → (w.pendingOf k.sub).isExhausted = false) →
      y.answerOf? k.id = some (.flag false) ∧
        ∃ w ∈ lulls, w.now = k.limit ∧ w.answerOf? k.id = some (.flag false)
  /-- When it has returned, the consumer is closed and the transport was told. -/
  closed : ∀ a, y.answerOf? k.id = some a → ∃ s c, y.subs[k.sub]? = some s ∧
    s.purpose = .continuous c ∧ c.mode = .closed ∧ y.transport.Released k.inbox

theorem Followed.inTime (h : k.Followed seen x) : k.InTime (seen.filter isQuiet) x := by
  have hlull : ∀ {w : Exchange}, w ∈ seen.filter isQuiet → w ∈ seen ∧ w.isQuiet = true :=
    fun {w} hw => List.mem_filter.1 hw
  cases h.stage with
  | waiting hc ha he hp hpast =>
    refine ⟨?_, fun _ _ => ha, ?_, fun a hy => by cases ha.symm.trans hy⟩
    · rintro ⟨w, hw, _, hex⟩
      rw [(hpast w (hlull hw).1 (hlull hw).2).outstanding] at hex
      cases hex
    · rintro ⟨w, hw, hle⟩ _
      exact absurd hle (Nat.not_le_of_lt (hpast w (hlull hw).1 (hlull hw).2).early)
  | leaving hc ha he hl hp hpast =>
    refine ⟨?_, fun _ _ => ha, ?_, fun a hy => by cases ha.symm.trans hy⟩
    · rintro ⟨w, hw, _, hex⟩
      rw [(hpast w (hlull hw).1 (hlull hw).2).outstanding] at hex
      cases hex
    · rintro ⟨w, hw, hle⟩ _
      exact absurd hle (Nat.not_le_of_lt (hpast w (hlull hw).1 (hlull hw).2).early)
  | @returned b hc ha he hl hp hpast =>
    obtain ⟨s, c, hs, hpurpose, hmode, _, _, hreleased, hexhausted⟩ := hp
    refine ⟨?_, fun hlt hout => ?_, ?_, fun _ _ => ⟨s, c, hs, hpurpose, hmode, hreleased⟩⟩
    · rintro ⟨w, hw, hlt, hex⟩
      rcases hpast w (hlull hw).1 (hlull hw).2 with hwait | hret
      · rw [hwait.outstanding] at hex
        cases hex
      · cases b with
        | true => exact ha
        | false => exact absurd (hret.late rfl) (Nat.not_le_of_lt hlt)
    · cases b with
      | true =>
        rw [pendingOf_of hs, show s.tracker.demand.isExhausted = true from hexhausted rfl] at hout
        cases hout
      | false => exact absurd (hl rfl).1 (Nat.not_le_of_lt hlt)
    · rintro ⟨w, hw, hle⟩ hout
      have hret : k.Returned b w := (hpast w (hlull hw).1 (hlull hw).2).resolve_left fun hwait =>
        Nat.not_le_of_lt hwait.early hle
      have hnow : w.now ≤ x.now := h.past w (hlull hw).1
      cases b with
      | true =>
        rcases he rfl with hearly | ⟨v, hv, hq, hearly, hex⟩
        · have hex := hret.exhausted rfl
          rw [hout w hw (Nat.le_trans hnow hearly)] at hex
          cases hex
        · rw [hout v (List.mem_filter.2 ⟨hv, hq⟩) hearly] at hex
          cases hex
      | false =>
        refine ⟨ha, ?_⟩
        rcases (hl rfl).2 with heq | ⟨v, hv, hq, heq, hva⟩
        · exact ⟨w, hw, Nat.le_antisymm (heq ▸ hnow) hle, hret.answer⟩
        · exact ⟨v, List.mem_filter.2 ⟨hv, hq⟩, heq, hva⟩

end DrainCall

/-! ## The call -/

variable {s : Subscription} {c : Continuous}

/-- The call that drains a consumer from now on. -/
def drainCall (x : Exchange) (i : Nat) (s : Subscription) (grace : Span) : DrainCall :=
  ⟨x.nextCaller, i, s.inbox, waitEnd x.now grace⟩

/-- An active consumer begins to drain with a caller that waits. -/
theorem drainBehind_eq (hs : x.subs[i]? = some s) (hp : s.purpose = .continuous c)
    (hm : c.mode = .active) (grace : Span) :
    ∃ y : Exchange, Stays x y ∧
      x.drainBehind i grace = (y.callBehind (.drain i (waitEnd x.now grace))).1 := by
  have hd : c.drain? = some { c with mode := .draining } := by
    unfold Continuous.drain?
    rw [hm]
  unfold drainBehind beginDrain
  rw [hs]
  dsimp only
  rw [hp]
  dsimp only
  rw [hd]
  exact ⟨_, (stays_modifySub x i _).trans (stays_note _ _), rfl⟩

/-- It is followed from the moment of the call. -/
theorem followed_drain (h : Steady x) (hs : x.subs[i]? = some s)
    (hp : s.purpose = .continuous c) (hm : c.mode = .active) (hc : s.claimed = false)
    (grace : Span) : (x.drainCall i s grace).Followed [x.follow (.drain i grace)]
      (x.follow (.drain i grace)) := by
  obtain ⟨y, hy, hcall⟩ := drainBehind_eq hs hp hm grace
  obtain ⟨d, hsub, hmode, _⟩ := sub_drainBehind hs hp grace
  have hfollow : x.follow (.drain i grace) = (y.callBehind (.drain i (waitEnd x.now grace))).1 :=
    hcall
  have hallow : x.Allows (.drain i grace) := trivial
  have hsteady : Steady (x.follow (.drain i grace)) := steady_follow h hallow
  have hnow : (x.follow (.drain i grace)).now = x.now := now_follow x nofun
  have hseated : Seated y := h.seated.stays hy
  have hstage : (x.drainCall i s grace).Stage [] (x.follow (.drain i grace)) := by
    refine .waiting ?_ ?_ ?_ ⟨_, d, hsub, rfl, hmode, rfl, fun hcl => ?_⟩
      fun w hw => absurd hw List.not_mem_nil
    · rw [hfollow, drainCall, ← hy.nextCaller]
      exact callerOf?_callBehind_self hseated _
    · rw [hfollow, drainCall, ← hy.nextCaller]
      exact answerOf?_callBehind_self hseated _
    · rw [hnow]
      exact Nat.le_trans (Nat.le_add_right _ _) (le_wholeMillis _)
    · cases hc.symm.trans hcl
  refine ⟨hsteady, List.mem_singleton_self _, hstage.see hsteady, fun w hw => ?_⟩
  cases List.mem_singleton.1 hw
  exact Nat.le_refl _

/-- A drain returns when it should, on every transport and whatever else happens: once demand is
exhausted in a lull before its time is over it has returned successfully; it does not return while
there is time and demand is outstanding; and when demand is outstanding in all lulls up to the end
of its time it returns without success at that end. Its time ends at the first whole millisecond
that is not before the end of its grace, or of thirty years if the clock cannot name the end of
its grace. When it has returned, the consumer is closed and the transport was told. In general, a
task that waits beside a tracker for its demand to be exhausted ends when it should. Only a
subscription that was given up, whose owner is gone, has nobody who could drain it. -/
theorem drains_in_time {t : Transport} (ht : IsNew t) (keeps : Bool) (capacity : Nat)
    (ms₁ ms₂ : List Move) (grace : Span)
    (hrun : (start t keeps capacity).IsRun (ms₁ ++ .drain i grace :: ms₂)) :
    (let x := (start t keeps capacity).followed ms₁
      let y := x.follow (.drain i grace)
      x.subs[i]? = some s → s.purpose = .continuous c → c.mode = .active → s.claimed = false →
        (x.drainCall i s grace).InTime (y.lulls ms₂) (y.followed ms₂) ∧
          (∃ n, (x.drainCall i s grace).limit = n * Span.nanosPerMilli) ∧
          ∀ n, (x.drainCall i s grace).limit ≤ n * Span.nanosPerMilli ↔
            x.now + (waitSpan x.now grace).nanos ≤ n * Span.nanosPerMilli) ∧
      ∀ accounting as es, ((Bench.Await.start accounting as).after es).EndsInTime := by
  refine ⟨?_, fun accounting as es => ?_⟩
  rotate_left
  · have hstart : (Bench.Await.start accounting as).Watching := nofun
    exact (hstart.after es).endsInTime
  intro x y hs hp hm hc
  obtain ⟨hrun₁, hrun₂⟩ := isRun_append.1 hrun
  have hx : Steady x := steady_followed (steady_start ht keeps capacity) hrun₁
  have hy := (followed_drain hx hs hp hm hc grace).run hrun₂.2
  exact ⟨hy.inTime, ⟨_, rfl⟩, fun n => wholeMillis_le_mul⟩

/-- The message comes two milliseconds after the call, in a grace of five. -/
def drainInTwo : List Move :=
  [Move.turn (.caller 0), .clock 2000000, .publish hello] ++
    List.replicate 5 (Move.turn .broker) ++
    [Move.turn (.worker 0), .turn (.worker 0), .turn (.alarm 0), .turn (.caller 0),
      .turn (.caller 0), .turn (.worker 0), .turn (.alarm 0), .turn .broker, .turn .broker,
      .turn (.caller 0), .turn (.worker 0)]

/-- The consumer opens, and all wait for messages. -/
def singleOpens : List Move :=
  Move.consume single .plain :: List.replicate 4 (Move.turn .broker) ++
    [Move.turn (.alarm 0), .turn (.worker 0)]

theorem drainInTwo_in_time :
    let x := (start (.loopback (.start .default true)) true 4).followed singleOpens
    let y := x.follow (.drain 0 (.ofMillis 5))
    (start (.loopback (.start .default true)) true 4).IsRun
        (singleOpens ++ .drain 0 (.ofMillis 5) :: drainInTwo) ∧
      ∃ s c, x.subs[0]? = some s ∧ s.purpose = .continuous c ∧ c.mode = .active ∧
        s.claimed = false ∧ (x.drainCall 0 s (.ofMillis 5)).limit = 5000000 ∧
        (y.followed drainInTwo).now = 2000000 ∧
        (y.followed drainInTwo).answerOf? 0 = some (.flag true) ∧
        ((Bench.Await.start true []).after [.look]).EndsInTime := by
  intro x y
  have hrun : (start (.loopback (.start .default true)) true 4).IsRun
      (singleOpens ++ .drain 0 (.ofMillis 5) :: drainInTwo) := by decide +kernel
  have hterms : (x.subs[0]?).bind (fun s => s.purpose.continuous?.map
      fun c => (c.mode, s.claimed)) = some (.active, false) := by decide +kernel
  have hcall : x.nextCaller = 0 ∧ x.now = 0 := by decide +kernel
  have hlull : (y.lulls drainInTwo).any (fun w =>
      decide (w.now < 5000000) && (w.pendingOf 0).isExhausted) = true := by decide +kernel
  have hnow : (y.followed drainInTwo).now = 2000000 := by decide +kernel
  obtain ⟨s, hs, hc⟩ := Option.bind_eq_some_iff.1 hterms
  obtain ⟨c, hp, hc⟩ := Option.map_eq_some_iff.1 hc
  rw [Purpose.continuous?_eq_some] at hp
  obtain ⟨hm, hcl⟩ := Prod.mk.inj hc
  obtain ⟨hdrain, hwait⟩ := drains_in_time (.loopback .default true) true 4 singleOpens drainInTwo
    (.ofMillis 5) hrun
  obtain ⟨htime, _⟩ := hdrain hs hp hm hcl
  have hlimit : (x.drainCall 0 s (.ofMillis 5)).limit = 5000000 := by
    show wholeMillis (waitEnd x.now (.ofMillis 5)) = 5000000
    rw [hcall.2]
    decide
  obtain ⟨w, hw, hwhen⟩ := List.any_eq_true.1 hlull
  obtain ⟨hlt, hex⟩ := Bool.and_eq_true_iff.1 hwhen
  have hdone := htime.drained ⟨w, hw, hlimit.symm ▸ of_decide_eq_true hlt, hex⟩
  exact ⟨hrun, s, c, hs, hp, hm, hcl, hlimit, hnow, hcall.1 ▸ hdone, hwait true [] [.look]⟩

/-- A grace of a millisecond and a half, and no message. -/
def drainOvertime : List Move := [.turn (.caller 0), .clock 1500000, .clock 2000000,
  .turn (.caller 0), .turn (.worker 0), .turn (.alarm 0), .turn (.caller 0)]

/-- At the end of its grace the call has not returned, though demand is outstanding in all lulls
up to then; it returns half a millisecond later. -/
theorem drainOvertime_waits :
    let x := (start (.loopback (.start .default true)) true 4).followed singleOpens
    let y := x.follow (.drain 0 ⟨1500000⟩)
    (start (.loopback (.start .default true)) true 4).IsRun
        (singleOpens ++ .drain 0 ⟨1500000⟩ :: drainOvertime) ∧ x.now = 0 ∧
      (x.subs[0]?).bind (fun s => s.purpose.continuous?.map fun c => (c.mode, s.claimed)) =
        some (.active, false) ∧
      (y.lulls (drainOvertime.take 3)).all (fun w => !(w.pendingOf 0).isExhausted) = true ∧
      (y.followed (drainOvertime.take 2)).isQuiet = true ∧
      (y.followed (drainOvertime.take 2)).now = 1500000 ∧
      (y.followed (drainOvertime.take 2)).answerOf? 0 = none ∧
      (y.followed drainOvertime).now = 2000000 ∧
      ((y.followed drainOvertime).answerOf? 0 matches some (.flag false)) = true := by
  refine ⟨?_, ?_, ?_, ?_, ?_, ?_, ?_, ?_, ?_⟩ <;> decide +kernel

end DemandFlow.Exchange
