import DemandFlow.Proofs.Broker.WorkOff

/-
  The timers of a broker. A pull beats only if it has an interval, and no interval is empty,
  since neither a request nor what a broker does to a pull can make one (`Paced`, kept by every
  event). Hence whoever was looked at is due later: the expired are gone, those that beat have
  their next beat ahead. So a broker that has fired its timers and sent what they brought has no
  deadline at that instant or before it, and cannot go round in a loop.
-/

namespace DemandFlow.Broker

namespace WaitingPull

/-- A pull never beats without pause. -/
def IsSteady (p : WaitingPull) : Prop := ∀ d, p.heartbeat = some d → 0 < d.nanos

/-- A pull beats without a break if it has an interval, and that is not empty. -/
structure Paced (p : WaitingPull) : Prop where
  steady : p.IsSteady
  interval : p.beatsAt.isSome = p.heartbeat.isSome

def HasExpired (now : Nat) (p : WaitingPull) : Prop := ∃ t ∈ p.expiresAt, t ≤ now

def IsToBeat (now : Nat) (p : WaitingPull) : Prop := ∃ t ∈ p.beatsAt, t ≤ now

instance (now : Nat) : DecidablePred (HasExpired now) := fun p =>
  inferInstanceAs (Decidable (∃ t ∈ p.expiresAt, t ≤ now))

instance (now : Nat) : DecidablePred (IsToBeat now) := fun p =>
  inferInstanceAs (Decidable (∃ t ∈ p.beatsAt, t ≤ now))

/-- What is said of a pull that has expired, with the counts that are left of it, or else beats. -/
def notice (now : Nat) (p : WaitingPull) : Status :=
  if p.HasExpired now then
    (Status.plain Code.requestTimeout StatusText.requestTimeout).withHeaders
      (Status.pendingHeaders p.messages (p.bytes.getD 0))
  else .plain Code.heartbeat StatusText.idleHeartbeat

/-- A pull that is to beat does so one interval later again. -/
def putOff (now : Nat) (p : WaitingPull) : WaitingPull :=
  if p.IsToBeat now then { p with beatsAt := p.heartbeat.map fun d => now + d.nanos } else p

variable {p q : WaitingPull} {now : Nat}

theorem nanos_pos {d : Span} (h : some d ≠ some Span.zero) : 0 < d.nanos :=
  Nat.pos_of_ne_zero fun hz => h (congrArg some (show d = ⟨0⟩ by cases d; cases hz; rfl))

theorem filter_later {d : Span} (hd : 0 < d.nanos) :
    (some (now + d.nanos)).filter (fun t => decide (t ≤ now)) = none := by
  rw [Option.filter_some, if_neg]
  exact fun h => Nat.not_le_of_lt (Nat.lt_add_of_pos_right hd) (of_decide_eq_true h)

theorem filter_isSome_iff (o : Option Nat) :
    (o.filter fun t => decide (t ≤ now)).isSome = true ↔ ∃ t ∈ o, t ≤ now := by
  rw [Option.isSome_filter]
  cases o <;> simp

theorem earlier_eq_some {x y : Option Nat} {t : Nat} (h : earlier x y = some t) :
    x = some t ∨ y = some t := by
  cases x with
  | none => exact Or.inr h
  | some x =>
    cases y with
    | none => exact Or.inl h
    | some y =>
      have hmin : min x y = t := Option.some.inj h
      exact (Nat.le_total x y).imp
        (fun hle => congrArg some ((Nat.min_eq_left hle).symm.trans hmin))
        fun hle => congrArg some ((Nat.min_eq_right hle).symm.trans hmin)

/-! ## Pace -/

theorem paced_ofRequest (inbox : String) (r : PullRequest) (now : Nat) (heartbeats : Bool) :
    (ofRequest inbox r now heartbeats).Paced := by
  refine ⟨fun d hd => ?_, Option.isSome_map⟩
  cases heartbeats with
  | false => cases hd
  | true => exact nanos_pos fun he => r.heartbeat_ne_zero (hd.trans he)

/-- A message for a pull puts off its beats. -/
theorem Paced.charged (h : p.Paced) (size now : Nat) : (p.charged size now).Paced := by
  refine ⟨h.steady, ?_⟩
  have hinterval := h.interval
  unfold WaitingPull.charged
  dsimp only
  cases hb : p.heartbeat with
  | none => rw [hinterval, hb]
  | some d => rfl

/-- Whoever is to beat has an interval to do so. -/
theorem Paced.exists_interval (h : p.Paced) (hb : p.IsToBeat now) :
    ∃ d, p.heartbeat = some d ∧ 0 < d.nanos := by
  obtain ⟨t, ht, _⟩ := hb
  have hsome : p.heartbeat.isSome = true := by
    rw [← h.interval, Option.mem_def.1 ht]
    rfl
  obtain ⟨d, hd⟩ := Option.isSome_iff_exists.1 hsome
  exact ⟨d, hd, h.steady d hd⟩

theorem Paced.putOff (h : p.Paced) (now : Nat) : (p.putOff now).Paced := by
  unfold WaitingPull.putOff
  split
  · exact ⟨h.steady, Option.isSome_map⟩
  · exact h

/-- Nobody who was put off is to beat at that instant. -/
theorem Paced.not_isToBeat (h : p.Paced) (now : Nat) : ¬(p.putOff now).IsToBeat now := by
  unfold WaitingPull.putOff
  split
  · rename_i hb
    obtain ⟨d, hd, hpos⟩ := h.exists_interval hb
    rintro ⟨t, ht, hle⟩
    dsimp only at ht
    rw [hd, Option.map_some, Option.mem_some_iff] at ht
    omega
  · assumption

theorem hasExpired_putOff : (p.putOff now).HasExpired now ↔ p.HasExpired now := by
  unfold WaitingPull.putOff
  split <;> rfl

theorem putOff_of_not (h : ¬p.IsToBeat now) : p.putOff now = p := if_neg h

/-! ## What is due -/

theorem due_of_expired (h : p.HasExpired now) :
    State.due now p = (some (.status (p.notice now)), none) := by
  unfold State.due notice
  rw [if_pos ((filter_isSome_iff _).2 h), if_pos h]
  rfl

theorem Paced.due_of_waiting (h : p.Paced) (he : ¬p.HasExpired now) :
    State.due now p =
      (if p.IsToBeat now then some (.status (p.notice now)) else none, some (p.putOff now)) := by
  have hexpires := mt (filter_isSome_iff p.expiresAt).1 he
  unfold State.due
  rw [if_neg hexpires]
  by_cases hb : p.IsToBeat now
  · obtain ⟨d, hd, _⟩ := h.exists_interval hb
    obtain ⟨t, ht⟩ := Option.isSome_iff_exists.1 ((filter_isSome_iff p.beatsAt).2 hb)
    unfold WaitingPull.putOff notice
    rw [ht, hd, if_pos hb, if_neg he, if_pos hb]
    rfl
  · have hbeats : p.beatsAt.filter (fun t => decide (t ≤ now)) = none :=
      Option.not_isSome_iff_eq_none.1 (mt (filter_isSome_iff p.beatsAt).1 hb)
    rw [hbeats, if_neg hb, putOff_of_not hb]

theorem Paced.due (h : p.Paced) (hq : (State.due now p).2 = some q) : q.Paced := by
  by_cases he : p.HasExpired now
  · rw [due_of_expired he] at hq
    cases hq
  · rw [h.due_of_waiting he] at hq
    cases hq
    exact h.putOff now

end WaitingPull

namespace State

variable {b : State} {now : Nat}

/-! ## What holds of all who wait -/

section Waiting

variable {P : WaitingPull → Prop}

/-- Whoever waits after an event has waited before, got a message, was left by the timers, or
comes in with a request. -/
theorem forall_waiting_react
    (hnew : ∀ inbox r now heartbeats, P (.ofRequest inbox r now heartbeats))
    (hcharged : ∀ p size now, P p → P (p.charged size now))
    (hdue : ∀ p q now, P p → (due now p).2 = some q → P q)
    (h : ∀ p ∈ b.waiting, P p) (e : Event) : ∀ p ∈ (b.react e).waiting, P p := by
  have hforget : ∀ {y : State}, (∀ p ∈ y.waiting, P p) → ∀ inbox, ∀ p ∈ (y.forget inbox).waiting,
      P p := fun h inbox p hp => h p (List.mem_filter.1 hp).1
  cases e with
  | command now c =>
    unfold react
    dsimp only
    split
    · cases c with
      | pull inbox r =>
        show ∀ p ∈ (b.request now inbox r).waiting, P p
        rcases request_cases now inbox r b with ⟨_, he⟩ | ⟨s, _, _, he⟩ | ⟨_, _, he⟩ <;> rw [he]
        · exact h
        · exact h
        · intro p hp
          rcases List.mem_append.1 hp with hp | hp
          · exact h p hp
          · exact List.mem_singleton.1 hp ▸ hnew inbox r now _
      | unsubscribe inbox => exact hforget h inbox
      | _ => exact h
    · exact h
  | timers now =>
    unfold react
    dsimp only
    split
    · intro q hq
      obtain ⟨p, hp, hd⟩ := List.mem_filterMap.1 hq
      exact hdue p q now (h p hp) hd
    · exact h
  | chore now gone =>
    unfold react
    dsimp only
    rcases work_cases now b with ⟨_, he⟩ | ⟨inbox, f, rest, _, he⟩ | ⟨rest, _, he⟩ |
      ⟨inbox, rest, _, he⟩ <;> rw [he] <;> dsimp only
    · exact h
    · unfold told
      split
      · exact hforget (y := { b with agenda := rest }) h inbox
      · exact h
    · rcases handOut_cases now { b with agenda := rest } with ⟨ho, _⟩ | ⟨m, p, ps, _, hw, _, ho⟩ |
        ⟨m, p, ps, _, hw, _, ho⟩ <;> rw [ho]
      · exact h
      · intro q hq
        exact h q (by rw [show b.waiting = p :: ps from hw]; exact List.mem_cons_of_mem _ hq)
      · have hps : ∀ q ∈ p :: ps, P q := by
          rw [← show b.waiting = p :: ps from hw]
          exact h
        intro q hq
        dsimp only [first] at hq
        split at hq
        · exact hps q (List.mem_cons_of_mem _ hq)
        · rcases List.mem_cons.1 hq with rfl | hq
          · exact hcharged p _ now (hps p List.mem_cons_self)
          · exact hps q (List.mem_cons_of_mem _ hq)
    · rcases endNoWait_cases inbox { b with agenda := rest } with ⟨ho, _⟩ |
        ⟨p, before, after, _, hw, _, ho⟩ <;> rw [ho]
      · exact h
      · have hw : b.waiting = before ++ p :: after := hw
        intro q hq
        refine h q (hw ▸ List.mem_append.2 ?_)
        exact (List.mem_append.1 hq).imp_right (List.mem_cons_of_mem _)

end Waiting

/-- Every pull that waits keeps a pace, whatever has happened. -/
theorem paced_run (l : Limits) (es : List Event) :
    ∀ p ∈ (es.foldl react (start l)).waiting, p.Paced := by
  suffices h : ∀ b : State, (∀ p ∈ b.waiting, p.Paced) → ∀ p ∈ (es.foldl react b).waiting, p.Paced
    from h _ fun _ hp => absurd hp List.not_mem_nil
  induction es with
  | nil => exact fun _ h => h
  | cons e es ih =>
    exact fun b h => ih (b.react e) (forall_waiting_react WaitingPull.paced_ofRequest
      (fun _ size now h => h.charged size now) (fun _ _ _ h hq => h.due hq) h e)

/-! ## Deadlines -/

theorem deadline_foldl {t : Nat} (ps : List WaitingPull) (d : Option Nat)
    (h : ps.foldl (fun d p => WaitingPull.earlier d p.deadline) d = some t) :
    d = some t ∨ ∃ p ∈ ps, p.deadline = some t := by
  induction ps generalizing d with
  | nil => exact Or.inl h
  | cons p ps ih =>
    rcases ih _ h with hd | ⟨q, hq, hd⟩
    · exact (WaitingPull.earlier_eq_some hd).imp_right fun hp => ⟨p, List.mem_cons_self, hp⟩
    · exact Or.inr ⟨q, List.mem_cons_of_mem _ hq, hd⟩

/-- A deadline is the time at which some pull expires or beats. -/
theorem exists_of_deadline {t : Nat} (h : b.deadline = some t) :
    ∃ p ∈ b.waiting, p.expiresAt = some t ∨ p.beatsAt = some t := by
  rcases deadline_foldl b.waiting none h with hd | ⟨p, hp, hd⟩
  · cases hd
  · exact ⟨p, hp, WaitingPull.earlier_eq_some hd⟩

/-- While nobody has expired or is to beat, the deadline is later. -/
theorem lt_deadline (h : ∀ p ∈ b.waiting, ¬p.HasExpired now ∧ ¬p.IsToBeat now) {t : Nat}
    (ht : b.deadline = some t) : now < t := by
  obtain ⟨p, hp, he⟩ := exists_of_deadline ht
  refine Nat.lt_of_not_le fun hle => ?_
  rcases he with he | hb
  · exact (h p hp).1 ⟨t, he, hle⟩
  · exact (h p hp).2 ⟨t, hb, hle⟩

/-! ## Firing -/

/-- What goes out when the timers fire: a frame for each pull that has expired or is to beat, in
order of arrival. -/
def notices (now : Nat) (ps : List WaitingPull) : List (String × Frame) :=
  (ps.filter fun p => p.HasExpired now ∨ p.IsToBeat now).map
    fun p => (p.inbox, .status (p.notice now))

/-- The broker without the pulls that have expired, and with the beats put off that are due. -/
def settled (now : Nat) (b : State) : State :=
  { b with waiting := (b.waiting.filter fun p => ¬p.HasExpired now).map (.putOff now) }

theorem filterMap_due (ps : List WaitingPull) (h : ∀ p ∈ ps, p.Paced) :
    ps.filterMap (fun p => (due now p).2) =
      (ps.filter fun p => ¬p.HasExpired now).map (.putOff now) := by
  induction ps with
  | nil => rfl
  | cons p ps ih =>
    have htail := ih fun q hq => h q (List.mem_cons_of_mem _ hq)
    by_cases he : p.HasExpired now
    · rw [List.filterMap_cons_none (by rw [WaitingPull.due_of_expired he]), htail,
        List.filter_cons_of_neg (by simp [he])]
    · have hdue := (h p List.mem_cons_self).due_of_waiting he
      rw [List.filterMap_cons_some (by rw [hdue]), htail,
        List.filter_cons_of_pos (by simp [he]), List.map_cons]

theorem filterMap_post_due (ps : List WaitingPull) (h : ∀ p ∈ ps, p.Paced) :
    ps.filterMap (fun p => (due now p).1.map (Chore.post p.inbox)) =
      (notices now ps).map fun q => .post q.1 q.2 := by
  unfold notices
  induction ps with
  | nil => rfl
  | cons p ps ih =>
    have htail := ih fun q hq => h q (List.mem_cons_of_mem _ hq)
    by_cases he : p.HasExpired now
    · rw [List.filterMap_cons_some (by rw [WaitingPull.due_of_expired he]; rfl), htail,
        List.filter_cons_of_pos (by simp [he]), List.map_cons, List.map_cons]
    · have hdue := (h p List.mem_cons_self).due_of_waiting he
      by_cases hb : p.IsToBeat now
      · rw [List.filterMap_cons_some (by rw [hdue, if_pos hb]; rfl), htail,
          List.filter_cons_of_pos (by simp [hb]), List.map_cons, List.map_cons]
      · rw [List.filterMap_cons_none (by rw [hdue, if_neg hb]; rfl), htail,
          List.filter_cons_of_neg (by simp [he, hb])]

theorem fireTimers_eq (h : ∀ p ∈ b.waiting, p.Paced) (now : Nat) : b.fireTimers now =
    (b.settled now).first ((notices now b.waiting).map fun q => .post q.1 q.2) := by
  unfold fireTimers settled
  rw [filterMap_due _ h, filterMap_post_due _ h]

/-- Whoever is left was looked at: it has not expired, and its next beat is ahead. -/
theorem nobody_due (h : ∀ p ∈ b.waiting, p.Paced) (now : Nat) :
    ∀ p ∈ (b.settled now).waiting, ¬p.HasExpired now ∧ ¬p.IsToBeat now := by
  intro q hq
  obtain ⟨p, hp, rfl⟩ := List.mem_map.1 hq
  obtain ⟨hp, he⟩ := List.mem_filter.1 hp
  exact ⟨mt WaitingPull.hasExpired_putOff.1 (of_decide_eq_true he), (h p hp).not_isToBeat now⟩

/-- Timers with nothing due change nothing. -/
theorem settled_of_nobody (h : ∀ p ∈ b.waiting, ¬p.HasExpired now ∧ ¬p.IsToBeat now) :
    b.settled now = b ∧ notices now b.waiting = [] := by
  have hstay : (b.waiting.filter fun p => ¬p.HasExpired now) = b.waiting :=
    List.filter_eq_self.2 fun p hp => decide_eq_true (h p hp).1
  have hsame : b.waiting.map (.putOff now) = b.waiting :=
    (List.map_congr_left fun p hp => WaitingPull.putOff_of_not (h p hp).2).trans (List.map_id _)
  refine ⟨?_, ?_⟩
  · unfold settled
    rw [hstay, hsame]
  · unfold notices
    rw [List.filter_eq_nil_iff.2 fun p hp hd => ?_]
    · rfl
    · exact (of_decide_eq_true hd).elim (h p hp).1 (h p hp).2

theorem react_timers_of_rest (ha : b.agenda = []) (now : Nat) :
    b.react (.timers now) = b.fireTimers now := if_pos (List.isEmpty_iff.2 ha)

/-- Posts to open feeds go out as they stand and change nothing else. -/
theorem workOff_posts (qs : List (String × Frame)) (ha : b.agenda = qs.map fun q => .post q.1 q.2)
    {ts : List Nat} (hts : b.agenda.length ≤ ts.length) :
    b.workOff (fun _ => false) ts = ({ b with agenda := [] }, qs) := by
  induction qs generalizing b ts with
  | nil =>
    rw [workOff_of_rest ha]
    exact Prod.ext (by cases b; cases ha; rfl) rfl
  | cons q qs ih =>
    cases ts with
    | nil =>
      rw [ha] at hts
      exact absurd hts (Nat.not_succ_le_zero _)
    | cons t ts =>
      obtain ⟨hr, hh⟩ := chore_post (fun _ => false) t ha
      have htold : ({ b with agenda := qs.map fun q => .post q.1 q.2 } : State).told q.1 false =
          { b with agenda := qs.map fun q => .post q.1 q.2 } := rfl
      have hlen : (qs.map fun q => Chore.post q.1 q.2).length ≤ ts.length := by
        rw [ha] at hts
        exact Nat.le_of_succ_le_succ hts
      rw [workOff_cons, hr, hh, htold, ih rfl hlen]
      rfl

/-- A broker with no chores left looks at its timers, and all feeds are open. Then what goes out
is one frame for each pull that has expired or is to beat, in order of arrival and to inboxes
that are registered: to the expired that they have, with their counts, and to the others a beat.
The expired are gone, those that beat do so again after their interval, which is never empty;
the others, their order, and all else are as before. The next deadline, if there is one, is
later, so that to fire again at that instant changes nothing. -/
theorem timers_settle (l : Limits) (es : List Event) (now : Nat) (ts : List Nat) :
    let b := es.foldl react (start l)
    b.agenda = [] → (b.react (.timers now)).agenda.length ≤ ts.length →
      let done := (b.react (.timers now)).workOff (fun _ => false) ts
      done = (b.settled now, notices now b.waiting) ∧
        (∀ p ∈ b.waiting, b.knows p.inbox = true ∧
          (p.IsToBeat now → ∃ d, p.heartbeat = some d ∧ 0 < d.nanos)) ∧
        (∀ t, done.1.deadline = some t → now < t) ∧
        done.1.react (.timers now) = done.1 := by
  intro b ha hts done
  have hpaced : ∀ p ∈ b.waiting, p.Paced := paced_run l es
  have hfire : b.react (.timers now) =
      (b.settled now).first ((notices now b.waiting).map fun q => .post q.1 q.2) := by
    rw [react_timers_of_rest ha, fireTimers_eq hpaced]
  have hrest : (b.settled now).agenda = [] := ha
  have hagenda : (b.react (.timers now)).agenda =
      (notices now b.waiting).map fun q => .post q.1 q.2 := by
    rw [hfire, first, hrest, List.append_nil]
  have hdone : done = (b.settled now, notices now b.waiting) := by
    refine (workOff_posts _ hagenda hts).trans (Prod.ext ?_ rfl)
    rw [hfire]
    show ({ b.settled now with agenda := [] } : State) = _
    rw [← hrest]
  have hnobody := nobody_due hpaced now
  refine ⟨hdone, fun p hp => ⟨((shaped_run l es).expects p hp).2, (hpaced p hp).exists_interval⟩,
    fun t ht => ?_, ?_⟩
  · rw [hdone] at ht
    exact lt_deadline hnobody ht
  · obtain ⟨hsame, hnone⟩ := settled_of_nobody hnobody
    have hstill : ∀ p ∈ (b.settled now).waiting, p.Paced := by
      intro q hq
      obtain ⟨p, hp, rfl⟩ := List.mem_map.1 hq
      exact (hpaced p (List.mem_filter.1 hp).1).putOff now
    rw [hdone, react_timers_of_rest hrest, fireTimers_eq hstill, hsame, hnone]
    rfl

/-- Requests for two inboxes, taken on one after another at the same instant. -/
def fourPulls : List Event :=
  let asked : List (String × Option Span × Option Span) :=
    [("a", some ⟨5⟩, some ⟨2⟩), ("b", none, some ⟨3⟩), ("a", none, none), ("b", none, some ⟨9⟩)]
  [Event.command 0 (.register "a"), .command 0 (.register "b")] ++
    asked.flatMap fun (inbox, expires, heartbeat) =>
      [Event.command 1 (.pull inbox ⟨3, 64, PullRequest.nonzero? expires,
        PullRequest.nonzero? heartbeat, false, Nat.succ_pos 2,
        PullRequest.nonzero?_ne_zero _, PullRequest.nonzero?_ne_zero _⟩), .chore 1 false]

/-- At the instant at which the first one expires, the second is to beat as well. -/
theorem fourPulls_settle :
    let b := fourPulls.foldl react (start .default)
    let done := (b.react (.timers 6)).workOff (fun _ => false) [6, 7]
    b.agenda = [] ∧ (b.react (.timers 6)).agenda.length ≤ [6, 7].length ∧
      done = (b.settled 6, notices 6 b.waiting) ∧
      done.2 =
        [("a", .status ((Status.plain Code.requestTimeout StatusText.requestTimeout).withHeaders
            (Status.pendingHeaders 3 64))),
          ("b", .status (.plain Code.heartbeat StatusText.idleHeartbeat))] ∧
      done.1.waiting.map (fun p => (p.inbox, p.beatsAt)) =
        [("b", some 9), ("a", none), ("b", some 10)] ∧
      done.1.deadline = some 9 ∧ done.1.react (.timers 6) = done.1 := by
  intro b done
  have ha : b.agenda = [] := by decide +kernel
  have hts : (b.react (.timers 6)).agenda.length ≤ [6, 7].length := by decide +kernel
  obtain ⟨hdone, _, _, hagain⟩ := timers_settle .default fourPulls 6 [6, 7] ha hts
  exact ⟨ha, hts, hdone, by decide +kernel, by decide +kernel, by decide +kernel, hagain⟩

end State

end DemandFlow.Broker
