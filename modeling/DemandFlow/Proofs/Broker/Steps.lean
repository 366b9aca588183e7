import DemandFlow.Broker.State

/-
  What one step of a broker can do, said once: taking on a request, handing out, ending the last
  pull of an inbox, settling what is due for one pull, and doing a chore. Every law about runs of
  a broker takes its cases from here.
-/

namespace DemandFlow.Broker

/-! ## What is taken on -/

namespace Limits

/-- A broker that refuses nothing for its size or its number. -/
structure Unlimited (l : Limits) : Prop where
  maxWaiting : l.maxWaiting = none
  maxBatch : l.maxBatch = none
  maxBytes : l.maxBytes = none
  maxExpires : l.maxExpires = none

variable {l : Limits} {r : PullRequest}

/-- A broker without limits takes on every request that may wait. -/
theorem refusal?_of_unlimited (hu : l.Unlimited) (hr : r.noWait = false) (n : Nat) :
    l.refusal? n r = none := by
  have hb : passes l.maxBatch r.batch = none := by
    rw [hu.maxBatch]
    rfl
  have hy : passes l.maxBytes r.maxBytes = none := by
    rw [hu.maxBytes]
    rfl
  have he : passes (l.maxExpires.map Span.nanos) ((r.expires.map Span.nanos).getD 0) = none := by
    rw [hu.maxExpires]
    rfl
  have hw : (l.maxWaiting.filter (· ≤ n)).isSome = false := by
    rw [hu.maxWaiting]
    rfl
  unfold refusal?
  rw [hr, hb, hy, he, hw]
  rfl

/-- A request that waits is taken on only where there is room for it. -/
theorem room_of_refusal? {n most : Nat} (h : l.refusal? n r = none) (hn : r.noWait = false)
    (hm : l.maxWaiting = some most) : n < most := by
  refine Nat.lt_of_not_le fun hle => ?_
  have hfull : (!r.noWait && (l.maxWaiting.filter (· ≤ n)).isSome) = true := by
    simp [hn, hm, hle]
  unfold refusal? at h
  rw [if_pos hfull] at h
  repeat' split at h
  all_goals cases h

/-- Fewer waiting pulls change nothing, unless there are too many with the others. -/
theorem refusal?_of_fewer {m n : Nat} (h : m ≤ n) : l.refusal? n r = l.refusal? m r ∨
    (r.noWait = false ∧ l.refusal? m r = none ∧ (∃ most, l.maxWaiting = some most ∧ m < most ∧
      most ≤ n) ∧
      l.refusal? n r = some (refusal r Code.conflict StatusText.exceededMaxWaiting)) := by
  have hlimit : (l.maxWaiting.filter (· ≤ n)).isSome = (l.maxWaiting.filter (· ≤ m)).isSome ∨
      (∃ most, l.maxWaiting = some most ∧ m < most ∧ most ≤ n) := by
    cases hmax : l.maxWaiting with
    | none => exact Or.inl rfl
    | some most =>
      by_cases hn : most ≤ n
      · by_cases hm : most ≤ m
        · exact Or.inl (by simp [hn, hm])
        · exact Or.inr ⟨most, rfl, Nat.lt_of_not_le hm, hn⟩
      · have hm : ¬most ≤ m := fun hm => hn (Nat.le_trans hm h)
        exact Or.inl (by simp [hn, hm])
  rcases hlimit with hsame | ⟨most, hmost, hlt, hle⟩
  · refine Or.inl ?_
    unfold refusal?
    rw [hsame]
  · have hn : (l.maxWaiting.filter (· ≤ n)).isSome = true := by simp [hmost, hle]
    have hm : (l.maxWaiting.filter (· ≤ m)).isSome = false := by simp [hmost, Nat.not_le_of_lt hlt]
    unfold refusal?
    rw [hn, hm]
    repeat' split
    all_goals simp_all

end Limits

namespace State

/-! ## What is done -/

section Request

variable {now : Nat} {inbox : String} {r : PullRequest} {b : State}

/-- A request for an inbox that nobody registered is only remembered. -/
theorem request_of_unknown (hk : b.knows inbox = false) :
    b.request now inbox r = { b with received := r :: b.received } :=
  if_neg (by simpa [knows] using hk)

theorem request_of_refused (hk : b.knows inbox = true) {s : Status}
    (hs : b.limits.refusal? b.waiting.length r = some s) :
    b.request now inbox r =
      { b with received := r :: b.received }.first [.post inbox (.status s)] := by
  unfold request
  dsimp only
  rw [if_pos (by simpa [knows] using hk), hs]

theorem request_of_taken (hk : b.knows inbox = true)
    (hs : b.limits.refusal? b.waiting.length r = none) :
    b.request now inbox r = { b with
      received := r :: b.received
      waiting := b.waiting ++ [WaitingPull.ofRequest inbox r now b.limits.heartbeats] }.first
        (if r.noWait then [.handOut, .endNoWait inbox] else [.handOut]) := by
  unfold request
  dsimp only
  rw [if_pos (by simpa [knows] using hk), hs]

/-- A request is remembered, and where its inbox is registered it is refused or taken on. -/
theorem request_cases (now : Nat) (inbox : String) (r : PullRequest) (b : State) :
    (b.knows inbox = false ∧ b.request now inbox r = { b with received := r :: b.received }) ∨
    (∃ s, b.knows inbox = true ∧ b.limits.refusal? b.waiting.length r = some s ∧
      b.request now inbox r =
        { b with received := r :: b.received }.first [.post inbox (.status s)]) ∨
    (b.knows inbox = true ∧ b.limits.refusal? b.waiting.length r = none ∧
      b.request now inbox r = { b with
        received := r :: b.received
        waiting := b.waiting ++ [WaitingPull.ofRequest inbox r now b.limits.heartbeats] }.first
          (if r.noWait then [.handOut, .endNoWait inbox] else [.handOut])) := by
  cases hk : b.knows inbox with
  | false => exact Or.inl ⟨rfl, request_of_unknown hk⟩
  | true =>
    refine Or.inr ?_
    cases hs : b.limits.refusal? b.waiting.length r with
    | some s => exact Or.inl ⟨s, rfl, rfl, request_of_refused hk hs⟩
    | none => exact Or.inr ⟨rfl, rfl, request_of_taken hk hs⟩

end Request

section HandOut

variable {now : Nat} {b : State} {m : Message} {p : WaitingPull} {rest : List WaitingPull}

/-- The first pull is ended by a message that passes its budget. -/
theorem handOut_of_refuses (hm : b.stream[b.cursor]? = some m) (hw : b.waiting = p :: rest)
    (hr : p.refuses m.size = true) :
    b.handOut now = { b with waiting := rest }.first
      [.post p.inbox (.status (p.closing Code.conflict (stopText p))), .handOut] := by
  unfold handOut
  rw [hm, hw]
  dsimp only
  rw [if_pos hr]

/-- The first pull gets the message at the cursor. -/
theorem handOut_of_takes (hm : b.stream[b.cursor]? = some m) (hw : b.waiting = p :: rest)
    (hr : p.refuses m.size = false) :
    b.handOut now = { b with
      cursor := b.cursor + 1
      delivered := b.delivered + 1
      waiting := if (p.charged m.size now).isFilled || (p.charged m.size now).isSpent
        then rest else p.charged m.size now :: rest }.first
      (handed (p.charged m.size now) m ++ [Chore.handOut]) := by
  unfold handOut
  rw [hm, hw]
  dsimp only
  rw [if_neg (ne_true_of_eq_false hr)]

/-- Handing out has nothing to do, ends the first pull, or takes one message off the stream. -/
theorem handOut_cases (now : Nat) (b : State) :
    (b.handOut now = b ∧ (b.stream.size ≤ b.cursor ∨ b.waiting = [])) ∨
    (∃ m p rest, b.stream[b.cursor]? = some m ∧ b.waiting = p :: rest ∧
      p.refuses m.size = true ∧
      b.handOut now = { b with waiting := rest }.first
        [.post p.inbox (.status (p.closing Code.conflict (stopText p))), .handOut]) ∨
    (∃ m p rest, b.stream[b.cursor]? = some m ∧ b.waiting = p :: rest ∧
      p.refuses m.size = false ∧
      b.handOut now = { b with
        cursor := b.cursor + 1
        delivered := b.delivered + 1
        waiting := if (p.charged m.size now).isFilled || (p.charged m.size now).isSpent
          then rest else p.charged m.size now :: rest }.first
        (handed (p.charged m.size now) m ++ [Chore.handOut])) := by
  cases hm : b.stream[b.cursor]? with
  | none =>
    have hsz := Array.getElem?_eq_none_iff.1 hm
    exact Or.inl ⟨handOut_of_end hsz, Or.inl hsz⟩
  | some m =>
    cases hw : b.waiting with
    | nil => exact Or.inl ⟨handOut_of_idle hw, Or.inr rfl⟩
    | cons p rest =>
      refine Or.inr ?_
      cases hr : p.refuses m.size with
      | true => exact Or.inl ⟨m, p, rest, rfl, rfl, hr, handOut_of_refuses hm hw hr⟩
      | false => exact Or.inr ⟨m, p, rest, rfl, rfl, hr, handOut_of_takes hm hw hr⟩

end HandOut

/-- The pull that is removed is the last one of its inbox. -/
theorem removeLast_eq_some {inbox : String} {ps : List WaitingPull} {p : WaitingPull}
    {rest : List WaitingPull} (h : removeLast inbox ps = some (p, rest)) :
    p.inbox = inbox ∧ ∃ before after, ps = before ++ p :: after ∧ rest = before ++ after ∧
      ∀ q ∈ after, q.inbox ≠ inbox := by
  induction ps generalizing p rest with
  | nil => cases h
  | cons q qs ih =>
    rw [removeLast] at h
    cases hq : removeLast inbox qs with
    | some found =>
      rw [hq] at h
      obtain ⟨hi, before, after, hqs, hrest, hafter⟩ := ih hq
      cases h
      exact ⟨hi, q :: before, after, by rw [hqs]; rfl, by rw [hrest]; rfl, hafter⟩
    | none =>
      rw [hq] at h
      dsimp only at h
      split at h
      · rename_i hi
        cases h
        exact ⟨eq_of_beq hi, [], qs, rfl, rfl, removeLast_eq_none_iff.1 hq⟩
      · cases h

/-- Ending the last pull of an inbox does nothing where there is none. -/
theorem endNoWait_cases (inbox : String) (b : State) :
    (b.endNoWait inbox = b ∧ ∀ p ∈ b.waiting, p.inbox ≠ inbox) ∨
    (∃ p before after, p.inbox = inbox ∧ b.waiting = before ++ p :: after ∧
      (∀ q ∈ after, q.inbox ≠ inbox) ∧
      b.endNoWait inbox = { b with waiting := before ++ after }.first
        [.post inbox (.status (p.closing Code.notFound StatusText.noMessages))]) := by
  cases h : removeLast inbox b.waiting with
  | none =>
    refine Or.inl ⟨?_, removeLast_eq_none_iff.1 h⟩
    unfold endNoWait
    rw [h]
  | some found =>
    obtain ⟨hi, before, after, hw, hrest, hafter⟩ := removeLast_eq_some h
    refine Or.inr ⟨found.1, before, after, hi, hw, hafter, ?_⟩
    unfold endNoWait
    rw [h]
    dsimp only
    rw [hrest]

/-- A pull expires, or beats and goes on, or is left alone. -/
theorem due_cases (now : Nat) (p : WaitingPull) :
    (due now p = (some (.status (p.closing Code.requestTimeout StatusText.requestTimeout)), none) ∧
      ∃ t, p.expiresAt = some t ∧ t ≤ now) ∨
    (∃ t, due now p = (some (.status (.plain Code.heartbeat StatusText.idleHeartbeat)),
      some { p with beatsAt := some t })) ∨
    due now p = (none, some p) := by
  unfold due
  split
  · rename_i h
    refine Or.inl ⟨rfl, ?_⟩
    obtain ⟨t, ht⟩ := Option.isSome_iff_exists.1 h
    obtain ⟨he, hle⟩ := Option.filter_eq_some_iff.1 ht
    exact ⟨t, he, of_decide_eq_true hle⟩
  · split
    · exact Or.inr (Or.inl ⟨_, rfl⟩)
    · exact Or.inr (Or.inr rfl)

/-- The first chore is done: it is a post that is handed over, or it changes the broker. -/
theorem work_cases (now : Nat) (b : State) :
    (b.agenda = [] ∧ b.work now = (b, none)) ∨
    (∃ inbox f rest, b.agenda = .post inbox f :: rest ∧
      b.work now = ({ b with agenda := rest }, some (inbox, f))) ∨
    (∃ rest, b.agenda = .handOut :: rest ∧
      b.work now = ({ b with agenda := rest }.handOut now, none)) ∨
    (∃ inbox rest, b.agenda = .endNoWait inbox :: rest ∧
      b.work now = ({ b with agenda := rest }.endNoWait inbox, none)) := by
  unfold work
  cases h : b.agenda with
  | nil => exact Or.inl ⟨rfl, rfl⟩
  | cons c rest =>
    refine Or.inr ?_
    cases c with
    | post inbox f => exact Or.inl ⟨inbox, f, rest, rfl, rfl⟩
    | handOut => exact Or.inr (Or.inl ⟨rest, rfl, rfl⟩)
    | endNoWait inbox => exact Or.inr (Or.inr ⟨inbox, rest, rfl, rfl⟩)

/-- A frame is handed over by a post, which was the next chore. -/
theorem agenda_of_work {b b' : State} {inbox : String} {f : Frame}
    (hw : b.work now = (b', some (inbox, f))) :
    ∃ rest, b.agenda = .post inbox f :: rest ∧ b' = { b with agenda := rest } := by
  rcases work_cases now b with ⟨_, he⟩ | ⟨dest, g, rest, ha, he⟩ | ⟨rest, _, he⟩ |
    ⟨dest, rest, _, he⟩ <;> rw [he] at hw <;> cases hw
  exact ⟨rest, ha, rfl⟩

/-- Chores touch the agenda, the pulls that wait, and the place in the stream. -/
theorem work_keeps {α : Type} (view : State → α)
    (hview : ∀ (b : State) (cs : List Chore) (ps : List WaitingPull) (cursor delivered : Nat),
      view { b with agenda := cs, waiting := ps, cursor := cursor, delivered := delivered } =
        view b)
    (now : Nat) (b : State) : view (b.work now).1 = view b := by
  rcases work_cases now b with ⟨_, he⟩ | ⟨inbox, f, rest, _, he⟩ | ⟨rest, _, he⟩ |
    ⟨inbox, rest, _, he⟩
  · rw [he]
  · rw [he]
    exact hview b rest b.waiting b.cursor b.delivered
  · rw [he]
    dsimp only
    rcases handOut_cases now { b with agenda := rest } with ⟨ho, _⟩ | ⟨m, p, ps, _, _, _, ho⟩ |
      ⟨m, p, ps, _, _, _, ho⟩
    · rw [ho]
      exact hview b rest b.waiting b.cursor b.delivered
    · rw [ho]
      exact hview b _ ps b.cursor b.delivered
    · rw [ho]
      exact hview b _ _ _ _
  · rw [he]
    dsimp only
    rcases endNoWait_cases inbox { b with agenda := rest } with ⟨ho, _⟩ | ⟨p, xs, ys, _, _, _, ho⟩
    · rw [ho]
      exact hview b rest b.waiting b.cursor b.delivered
    · rw [ho]
      exact hview b _ _ b.cursor b.delivered

/-- Chores register nobody. -/
theorem inboxes_work (now : Nat) (b : State) : (b.work now).1.inboxes = b.inboxes :=
  work_keeps State.inboxes (fun _ _ _ _ _ => rfl) now b

/-- Nor do they hear of requests. -/
theorem received_work (now : Nat) (b : State) : (b.work now).1.received = b.received :=
  work_keeps State.received (fun _ _ _ _ _ => rfl) now b

/-- Nothing is published by them either. -/
theorem stream_work (now : Nat) (b : State) : (b.work now).1.stream = b.stream :=
  work_keeps State.stream (fun _ _ _ _ _ => rfl) now b

/-! ## A broker that posts for one inbox -/

section OneInbox

variable {b b' : State} {inbox : String} {out : List Frame} {handing : Bool} {now : Nat}

/-- Frames are to be posted for one inbox, and then it may be time to hand out. -/
abbrev IsAt (b : State) (inbox : String) (out : List Frame) (handing : Bool) : Prop :=
  b.agenda = out.map (Chore.post inbox) ++ if handing then [Chore.handOut] else []

theorem idle_of_agenda (h : b.IsAt inbox out handing) (hag : b.agenda = []) :
    out = [] ∧ handing = false := by
  obtain ⟨hout, hhand⟩ := List.append_eq_nil_iff.1 (h.symm.trans hag)
  refine ⟨List.map_eq_nil_iff.1 hout, ?_⟩
  cases handing with
  | false => rfl
  | true => cases hhand

/-- A chore that is no post hands out, and nothing else is to be done. -/
theorem handOut_of_work (h : b.IsAt inbox out handing) (hag : b.agenda ≠ [])
    (hw : b.work now = (b', none)) :
    out = [] ∧ handing = true ∧ b' = { b with agenda := [] }.handOut now := by
  unfold work at hw
  cases out with
  | cons f fs =>
    rw [h] at hw
    cases hw
  | nil =>
    cases handing with
    | false => exact absurd h hag
    | true =>
      rw [h] at hw
      exact ⟨rfl, rfl, (Prod.mk.inj hw).1.symm⟩

/-- A chore that is a post takes the first frame. -/
theorem post_of_work (h : b.IsAt inbox out handing) {dest : String} {f : Frame}
    (hw : b.work now = (b', some (dest, f))) :
    ∃ rest cs, out = f :: rest ∧ dest = inbox ∧ b' = { b with agenda := cs } ∧
      b'.IsAt inbox rest handing := by
  obtain ⟨cs, ha, rfl⟩ := agenda_of_work hw
  rw [h] at ha
  cases out with
  | cons g gs =>
    cases ha
    exact ⟨gs, _, rfl, rfl, rfl, rfl⟩
  | nil => cases handing <;> cases ha

/-- The message at the cursor is the first one that was not handed out. -/
theorem unread_of_cursor {given unread : List Message} (hs : b.stream.toList = given ++ unread)
    (hc : b.cursor = given.length) {m : Message} (hm : b.stream[b.cursor]? = some m) :
    ∃ ms, unread = m :: ms := by
  rw [← Array.getElem?_toList, hs, hc, List.getElem?_append_right (Nat.le_refl _),
    Nat.sub_self] at hm
  cases unread with
  | nil => cases hm
  | cons m' ms => exact ⟨ms, by rw [Option.some.inj hm]⟩

theorem unread_eq_nil {given unread : List Message} (hs : b.stream.toList = given ++ unread)
    (hc : b.cursor = given.length) (hsz : b.stream.size ≤ b.cursor) : unread = [] := by
  rw [← Array.length_toList, hs, hc, List.length_append] at hsz
  exact List.eq_nil_of_length_eq_zero (by omega)

end OneInbox

end State

end DemandFlow.Broker
