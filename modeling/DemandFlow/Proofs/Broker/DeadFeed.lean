import DemandFlow.Proofs.Broker.WorkOff

/-
  A feed that is gone while the broker has not noticed it yet. The broker finds out when it hands
  a frame to that feed; until then the pulls of the inbox stay in the queue. Such a broker is set
  beside one that forgot the inbox before the command. `without` leaves out all that a broker
  still keeps for the inbox: as long as no message is handed to the feed, each chore either
  leaves the rest alone, or is a chore of the rest (`chore_without`). What a message does that is
  handed to the feed is said in `Wasted`.
-/

namespace DemandFlow.Broker

/-- Whether a chore is for an inbox alone. -/
def Chore.isFor (d : String) : Chore → Bool
  | .post inbox _ => inbox == d
  | .handOut => false
  | .endNoWait inbox => inbox == d

namespace State

/-- Take in a command and do all its chores at one instant. -/
def obey (gone : String → Bool) (now : Nat) (c : Command) (b : State) :
    State × List (String × Frame) :=
  (b.react (.command now c)).workOff gone
    (List.replicate (b.react (.command now c)).burden now)

/-- All that a broker keeps, apart from what it keeps for an inbox. -/
def without (d : String) (b : State) : State :=
  { b.forget d with agenda := b.agenda.filter fun c => !c.isFor d }

variable {b y : State} {d inbox : String} {t : Nat} {f : Frame} {rest : List Chore}

/-! ## What is left out -/

theorem without_forget (d : String) (b : State) : (b.forget d).without d = b.without d := by
  simp [without, forget, List.filter_filter]

theorem without_told (b : State) (d : String) (gone : Bool) :
    (b.told d gone).without d = b.without d := by
  unfold told
  split
  · exact without_forget d b
  · rfl

theorem without_of_isFor {c : Chore} (hc : c.isFor d = true) (ha : b.agenda = c :: rest) :
    b.without d = ({ b with agenda := rest } : State).without d := by
  simp [without, forget, ha, hc]

theorem without_first {cs : List Chore} (hcs : ∀ c ∈ cs, c.isFor d = false) (b : State) :
    (b.first cs).without d = (b.without d).first cs := by
  have hkeep : cs.filter (fun c => !c.isFor d) = cs :=
    List.filter_eq_self.2 fun c hc => by rw [hcs c hc]; rfl
  simp [without, forget, first, hkeep]

theorem not_isFor_handed {q : WaitingPull} (hq : q.inbox ≠ d) (m : Message) :
    ∀ c ∈ handed q m ++ [Chore.handOut], c.isFor d = false := by
  have hpost : ∀ f, (Chore.post q.inbox f).isFor d = false := fun f => by simp [Chore.isFor, hq]
  intro c hc
  rcases List.mem_append.1 hc with hc | hc
  · unfold handed at hc
    rcases List.mem_cons.1 hc with rfl | hc
    · exact hpost _
    · split at hc
      · rw [List.mem_singleton.1 hc]
        exact hpost _
      · cases hc
  · rw [List.mem_singleton.1 hc]
    rfl

theorem agenda_without_cons {c : Chore} (hc : c.isFor d = false) {cs : List Chore}
    (ha : b.agenda = c :: cs) :
    (b.without d).agenda = c :: (({ b with agenda := cs } : State).without d).agenda := by
  simp [without, ha, hc]

theorem waiting_without_cons {p : WaitingPull} {ps : List WaitingPull} (hp : p.inbox ≠ d)
    (hw : b.waiting = p :: ps) :
    (b.without d).waiting = p :: (({ b with waiting := ps } : State).without d).waiting := by
  simp [without, forget, hw, hp]

theorem waiting_without (hw : ∀ p ∈ b.waiting, p.inbox ≠ d) : (b.without d).waiting = b.waiting :=
  List.filter_eq_self.2 fun p hp => by simpa using hw p hp

/-! ## Chores of both -/

/-- Handing out to a pull of the inbox that refuses the message leaves the rest alone, and what
else is handed out is handed out there too. -/
theorem handOut_without (hno : ∀ m, (d, Frame.message m) ∉ posts (y.handOut t).agenda) :
    (y.handOut t).without d = ({ y with agenda := .handOut :: y.agenda } : State).without d ∨
    (y.handOut t).without d = (y.without d).handOut t := by
  rcases handOut_cases t y with ⟨he, hidle⟩ | ⟨m, p, ps, hm, hw, hr, he⟩ |
    ⟨m, p, ps, hm, hw, hr, he⟩
  · refine Or.inr ?_
    rw [he]
    rcases hidle with hend | hnone
    · exact (handOut_of_end (b := y.without d) hend).symm
    · refine (handOut_of_idle (b := y.without d) ?_).symm
      simp [without, forget, hnone]
  · rw [he]
    by_cases hp : p.inbox = d
    · refine Or.inl ?_
      simp [without, forget, first, Chore.isFor, hw, hp]
    · refine Or.inr ?_
      have hpost : ∀ c ∈ [.post p.inbox (.status (p.closing Code.conflict (stopText p))),
          Chore.handOut], c.isFor d = false := by simp [Chore.isFor, hp]
      rw [handOut_of_refuses (b := y.without d) hm (waiting_without_cons hp hw) hr,
        without_first hpost]
      rfl
  · have hp : p.inbox ≠ d := fun hp => hno m (by
      rw [he, first, handed, posts_append, posts_append, WaitingPull.inbox_charged, hp]
      exact List.mem_append_left _ (List.mem_append_left _ List.mem_cons_self))
    have hq : (p.charged m.size t).inbox ≠ d := hp
    refine Or.inr ?_
    rw [he, handOut_of_takes (b := y.without d) hm (waiting_without_cons hp hw) hr,
      without_first (not_isFor_handed hq m)]
    split
    · rfl
    · simp [without, forget, hq]

/-- Ending a pull of the inbox leaves the rest alone. -/
theorem endNoWait_without_self (y : State) (d : String) :
    (y.endNoWait d).without d = y.without d := by
  rcases endNoWait_cases d y with ⟨he, _⟩ | ⟨p, xs, ys, hp, hw, _, he⟩
  · rw [he]
  · rw [he]
    simp [without, forget, first, Chore.isFor, hw, hp]

theorem removeLast_filter (hi : inbox ≠ d) (ps : List WaitingPull) :
    removeLast inbox (ps.filter fun p => p.inbox != d) =
      (removeLast inbox ps).map fun e => (e.1, e.2.filter fun p => p.inbox != d) := by
  induction ps with
  | nil => rfl
  | cons p ps ih =>
    by_cases hp : p.inbox = d
    · have hne : ¬p.inbox = inbox := fun e => hi (e.symm.trans hp)
      rw [List.filter_cons_of_neg (by simpa using hp), ih, removeLast]
      cases hl : removeLast inbox ps with
      | none => simp [hne]
      | some e => simp [hp]
    · rw [List.filter_cons_of_pos (by simpa using hp), removeLast, removeLast, ih]
      cases hl : removeLast inbox ps with
      | none =>
        dsimp only [Option.map_none]
        split <;> rfl
      | some e => simp [hp]

/-- Any other pull that does not wait is ended there too. -/
theorem endNoWait_without (hi : inbox ≠ d) (y : State) :
    (y.endNoWait inbox).without d = (y.without d).endNoWait inbox := by
  have hw : (y.without d).waiting = y.waiting.filter fun p => p.inbox != d := rfl
  unfold endNoWait
  rw [hw, removeLast_filter hi]
  cases removeLast inbox y.waiting with
  | none => rfl
  | some e => exact without_first (by simp [Chore.isFor, hi]) _

/-- A chore, with the feed of `d` gone and no message to be handed to it, leaves the rest alone or
is a chore of the rest, which hands over the same to all others. -/
theorem chore_without
    (hno : ∀ m, (d, Frame.message m) ∉ posts (b.react (b.chore (· == d) t)).agenda) :
    ((b.react (b.chore (· == d) t)).without d = b.without d ∧
      (b.handsOver (b.chore (· == d) t)).filter (·.1 != d) = []) ∨
    ((b.react (b.chore (· == d) t)).without d =
        (b.without d).react ((b.without d).chore (· == d) t) ∧
      (b.handsOver (b.chore (· == d) t)).filter (·.1 != d) =
        (b.without d).handsOver ((b.without d).chore (· == d) t)) := by
  cases ha : b.agenda with
  | nil =>
    obtain ⟨hr, hh⟩ := chore_rest (· == d) t ha
    rw [hr, hh]
    exact Or.inl ⟨rfl, rfl⟩
  | cons c rest =>
    cases c with
    | post inbox f =>
      obtain ⟨hr, hh⟩ := chore_post (· == d) t ha
      rw [hr, hh]
      by_cases hi : inbox = d
      · refine Or.inl ⟨?_, by simp [hi]⟩
        rw [hi, without_told]
        exact (without_of_isFor (by simp [Chore.isFor, hi]) ha).symm
      · have hopen : (inbox == d) = false := by simpa using hi
        have hkeep : (Chore.post inbox f).isFor d = false := hopen
        obtain ⟨hr', hh'⟩ := chore_post (· == d) t (agenda_without_cons hkeep ha)
        refine Or.inr ⟨?_, ?_⟩
        · rw [hr', hopen]
          rfl
        · rw [hh']
          simp [hi]
    | handOut =>
      obtain ⟨hr, hh⟩ := chore_handOut (· == d) t ha
      obtain ⟨hr', hh'⟩ := chore_handOut (· == d) t (agenda_without_cons (d := d) rfl ha)
      rw [hr] at hno
      rw [hr, hh, hr', hh']
      rcases handOut_without hno with he | he
      · refine Or.inl ⟨?_, rfl⟩
        rw [he, ← ha]
      · exact Or.inr ⟨he, rfl⟩
    | endNoWait inbox =>
      obtain ⟨hr, hh⟩ := chore_endNoWait (· == d) t ha
      rw [hr, hh]
      by_cases hi : inbox = d
      · refine Or.inl ⟨?_, rfl⟩
        rw [hi, endNoWait_without_self]
        exact (without_of_isFor (by simp [Chore.isFor, hi]) ha).symm
      · have hkeep : (Chore.endNoWait inbox).isFor d = false := by simpa [Chore.isFor] using hi
        obtain ⟨hr', hh'⟩ := chore_endNoWait (· == d) t (agenda_without_cons hkeep ha)
        exact Or.inr ⟨(endNoWait_without hi _).trans hr'.symm, hh'.symm⟩

/-! ## All chores -/

section Runs

variable {n : Nat} (hrest : (b.workOff (· == d) (List.replicate n t)).1.agenda = [])
  (hno : ∀ m, (d, Frame.message m) ∉ (b.workOff (· == d) (List.replicate n t)).2)

include hrest hno in
/-- The rest of a broker works off its chores as the whole does, in fewer of them. -/
theorem workOff_without :
    ∃ k, (b.without d).workOff (· == d) (List.replicate k t) =
      ((b.workOff (· == d) (List.replicate n t)).1.without d,
        (b.workOff (· == d) (List.replicate n t)).2.filter (·.1 != d)) := by
  induction n generalizing b with
  | zero => exact ⟨0, rfl⟩
  | succ n ih =>
    rw [List.replicate_succ, workOff_cons] at hrest hno ⊢
    obtain ⟨k, hk⟩ := ih hrest fun m hm => hno m (List.mem_append_right _ hm)
    have hposts : ∀ m, (d, Frame.message m) ∉ posts (b.react (b.chore (· == d) t)).agenda :=
      fun m hm => hno m (List.mem_append_right _ (mem_workOff_of_posts hrest hm))
    dsimp only
    rw [List.filter_append]
    rcases chore_without hposts with ⟨hb, hh⟩ | ⟨hb, hh⟩
    · exact ⟨k, by rw [← hb, hk, hh, List.nil_append]⟩
    · exact ⟨k + 1, by rw [List.replicate_succ, workOff_cons, ← hb, hk, hh]⟩

include hrest hno in
/-- A broker that is the rest of another one, perhaps but for chores that do nothing, ends as the
rest of it and hands over the same to all others. -/
theorem workOff_of_rest_of {z : State} {j : Nat}
    (hz : (b.without d).workOff (· == d) (List.replicate j t) = (z, [])) :
    z.workOff (· == d) (List.replicate z.burden t) =
      ((b.workOff (· == d) (List.replicate n t)).1.without d,
        (b.workOff (· == d) (List.replicate n t)).2.filter (·.1 != d)) := by
  obtain ⟨k, hk⟩ := workOff_without hrest hno
  have hall := workOff_burden hz
  rw [List.nil_append] at hall
  rw [← hk]
  refine hall.symm.trans
    (workOff_replicate (agenda_workOff (Nat.le_of_eq List.length_replicate.symm)) ?_)
  rw [hk]
  simp [without, hrest]

end Runs

theorem knows_chore {gone : String → Bool} (h : b.knows inbox = false) :
    (b.react (b.chore gone t)).knows inbox = false := by
  have hkeep : (b.work t).1.knows inbox = false := by
    unfold knows
    rw [inboxes_work]
    exact h
  unfold react chore
  dsimp only
  cases hw : b.work t with
  | mk y o =>
    rw [hw] at hkeep
    cases o with
    | none => exact hkeep
    | some e =>
      unfold told
      dsimp only
      split
      · simp_all [knows, forget]
      · exact hkeep

/-- The broker forgets an inbox as soon as a frame was handed to its feed that is gone. -/
theorem knows_of_handed (ts : List Nat) (h : ∃ f, (d, f) ∈ (b.workOff (· == d) ts).2) :
    (b.workOff (· == d) ts).1.knows d = false := by
  refine workOff_induction (P := fun y out => (∃ f, (d, f) ∈ out) → y.knows d = false)
    (fun y out t ih hout => ?_) ts (b := b) [] (fun ⟨_, hf⟩ => nomatch hf) h
  obtain ⟨f, hf⟩ := hout
  rcases List.mem_append.1 hf with hf | hf
  · exact knows_chore (ih ⟨f, hf⟩)
  · rcases chore_cases (· == d) t y with ⟨_, _, hh⟩ | ⟨i, g, rest, _, hb, hh⟩ | ⟨rest, _, _, hh⟩ |
      ⟨i, rest, _, _, hh⟩ <;> rw [hh] at hf
    · cases hf
    · cases List.mem_singleton.1 hf
      rw [hb]
      unfold told
      cases hk : ({ y with agenda := rest } : State).knows d with
      | true => simp [knows_forget]
      | false => simpa using hk
    · cases hf
    · cases hf

/-! ## Taking in a command -/

/-- A request that is refused only since the pulls of `d` count against the limit. -/
structure CrowdedOut (b : State) (d inbox : String) (r : PullRequest) : Prop where
  other : inbox ≠ d
  known : b.knows inbox = true
  refused : b.limits.refusal? b.waiting.length r ≠ none
  room : b.limits.refusal? (b.forget d).waiting.length r = none

section Commands

variable {now : Nat} {r : PullRequest}

theorem knows_forget_of_ne (h : inbox ≠ d) (b : State) :
    (b.forget d).knows inbox = b.knows inbox := by
  rw [Bool.eq_iff_iff]
  simp [knows, forget, h]

/-- With no chores left, the rest of a broker is the broker that forgot the inbox. -/
theorem without_of_rest (ha : b.agenda = []) : b.without d = b.forget d := by
  unfold without forget
  rw [ha]
  rfl

theorem publish_without (ha : b.agenda = []) (m : Message) :
    (b.react (.command now (.publish m))).without d =
      (b.forget d).react (.command now (.publish m)) := by
  rw [react_command_of_rest ha, react_command_of_rest (b := b.forget d) ha]
  exact without_first (by simp [Chore.isFor]) _ |>.trans (by simp [without, forget, accept, ha])

/-- Whoever is not crowded out is refused or taken on alike. -/
theorem refusal?_forget (hin : ¬b.CrowdedOut d inbox r) (hi : inbox ≠ d)
    (hk : b.knows inbox = true) :
    (b.forget d).limits.refusal? (b.forget d).waiting.length r =
      b.limits.refusal? b.waiting.length r := by
  have hlen : (b.forget d).waiting.length ≤ b.waiting.length := List.length_filter_le _ _
  rcases Limits.refusal?_of_fewer (l := b.limits) (r := r) hlen with he | ⟨_, hroom, _, hs⟩
  · exact he.symm
  · exact absurd ⟨hi, hk, by rw [hs]; exact Option.some_ne_none _, hroom⟩ hin

/-- A pull on the inbox that is gone leaves at most one more round of handing out, in which there
is nothing to do. -/
theorem pull_without_self (hb : b.Shaped) (ha : b.agenda = []) :
    ∃ j, ((b.request now d r).without d).workOff (· == d) (List.replicate j now) =
      ((b.forget d).request now d r, []) := by
  rw [request_of_unknown (knows_forget b d)]
  rcases request_cases now d r b with ⟨_, he⟩ | ⟨s, _, _, he⟩ | ⟨_, _, he⟩ <;> rw [he]
  · exact ⟨0, Prod.ext (without_of_rest ha) rfl⟩
  · refine ⟨0, Prod.ext ?_ rfl⟩
    rw [without_of_isFor (b := first _ _) (c := .post d (.status s)) (by simp [Chore.isFor]) rfl]
    exact without_of_rest ha
  · refine ⟨1, ?_⟩
    have hround : (first { b with
        received := r :: b.received
        waiting := b.waiting ++ [WaitingPull.ofRequest d r now b.limits.heartbeats] }
        (if r.noWait then [.handOut, .endNoWait d] else [.handOut])).without d =
          ({ b.forget d with received := r :: b.received } : State).first [.handOut] := by
      have hp : (WaitingPull.ofRequest d r now b.limits.heartbeats).inbox = d := rfl
      cases r.noWait <;> simp [without, forget, first, Chore.isFor, ha, hp]
    have hidle : (({ b.forget d with received := r :: b.received } : State).handOut now) =
        { b.forget d with received := r :: b.received } := by
      rcases (hb.at_rest ha).1 with hw | hc
      · exact handOut_of_idle (by simp [forget, hw])
      · exact handOut_of_end (Nat.le_of_eq hc.symm)
    obtain ⟨hr, hh⟩ := chore_first_handOut (· == d) hidle
    rw [hround, List.replicate_one, workOff_cons, hr, hh]
    rfl

/-- Any other pull is taken in alike, unless it is crowded out. -/
theorem pull_without (hin : ¬b.CrowdedOut d inbox r) (hi : inbox ≠ d) (ha : b.agenda = []) :
    (b.request now inbox r).without d = (b.forget d).request now inbox r := by
  have hkeep : ∀ cs : List Chore, (∀ c ∈ cs, c = .handOut ∨ c = .endNoWait inbox ∨
      ∃ f, c = .post inbox f) → ∀ c ∈ cs, c.isFor d = false := by
    intro cs hcs c hc
    rcases hcs c hc with rfl | rfl | ⟨f, rfl⟩ <;> simp [Chore.isFor, hi]
  rcases request_cases now inbox r b with ⟨hk, he⟩ | ⟨s, hk, hs, he⟩ | ⟨hk, hs, he⟩ <;> rw [he]
  · rw [request_of_unknown ((knows_forget_of_ne hi b).trans hk)]
    exact without_of_rest ha
  · rw [request_of_refused ((knows_forget_of_ne hi b).trans hk)
      ((refusal?_forget hin hi hk).trans hs), without_first (hkeep _ (by simp))]
    exact congrArg (first · _) (without_of_rest ha)
  · rw [request_of_taken ((knows_forget_of_ne hi b).trans hk)
      ((refusal?_forget hin hi hk).trans hs), without_first (hkeep _ (by split <;> simp))]
    refine congrArg (first · _) (Eq.trans (without_of_rest ?_) ?_)
    · exact ha
    · have hp : (WaitingPull.ofRequest inbox r now b.limits.heartbeats).inbox ≠ d := hi
      simp [forget, hp]

end Commands

/-- Who is crowded out gets the refusal, and all stays as it is; with `d` forgotten the pull waits
and gets nothing yet, for nothing is unread where somebody waits. -/
theorem obey_of_crowdedOut (hb : b.Shaped) (ha : b.agenda = []) {gone : String → Bool}
    {now : Nat} {r : PullRequest} (hr : b.CrowdedOut d inbox r) (ho : gone inbox = false) :
    b.obey gone now (.pull inbox r) = ({ b with received := r :: b.received },
      [(inbox, .status (refusal r Code.conflict StatusText.exceededMaxWaiting))]) ∧
    (b.forget d).obey gone now (.pull inbox r) = ({ b.forget d with
      received := r :: b.received
      waiting := (b.forget d).waiting ++
        [WaitingPull.ofRequest inbox r now b.limits.heartbeats] }, []) := by
  have hlen : (b.forget d).waiting.length ≤ b.waiting.length := List.length_filter_le _ _
  obtain ⟨hn, hroom, ⟨most, hm, hlt, hle⟩, hs⟩ :=
    (Limits.refusal?_of_fewer (l := b.limits) (r := r) hlen).resolve_left fun he =>
      hr.refused (he.trans hr.room)
  have hend : b.cursor = b.stream.size := (hb.at_rest ha).1.resolve_left fun hw => by
    rw [hw] at hle
    exact Nat.not_lt_zero _ (Nat.lt_of_lt_of_le hlt hle)
  unfold obey
  rw [react_command_of_rest ha, react_command_of_rest (b := b.forget d) ha]
  unfold accept
  dsimp only
  constructor
  · rw [request_of_refused hr.known hs]
    obtain ⟨hc, hh⟩ := chore_first_post (b := { b with received := r :: b.received }) now ho
      (.status (refusal r Code.conflict StatusText.exceededMaxWaiting))
    rw [workOff_one (by rw [hc]; exact ha), hc, hh]
  · rw [request_of_taken ((knows_forget_of_ne hr.other b).trans hr.known) hr.room, hn]
    obtain ⟨hc, hh⟩ := chore_first_handOut (t := now) gone (b := { b.forget d with
      received := r :: b.received
      waiting := (b.forget d).waiting ++
        [WaitingPull.ofRequest inbox r now b.limits.heartbeats] })
      (handOut_of_end (Nat.le_of_eq hend.symm))
    exact (workOff_one ((congrArg agenda hc).trans ha)).trans (Prod.ext hc hh)

/-- Unless a pull is crowded out, what is left of a broker, `d` left out, is the broker that has
forgotten `d`, and it has sent the same to all others. -/
theorem obey_forget (hb : b.Shaped) (ha : b.agenda = []) {now : Nat} {c : Command}
    (hc : (∃ m, c = .publish m) ∨ ∃ inbox r, c = .pull inbox r)
    (hin : ∀ inbox r, c = .pull inbox r → ¬b.CrowdedOut d inbox r)
    (hno : ∀ m, (d, Frame.message m) ∉ (b.obey (· == d) now c).2) :
    (b.forget d).obey (· == d) now c =
      ((b.obey (· == d) now c).1.without d, (b.obey (· == d) now c).2.filter (·.1 != d)) := by
  have hrest : (b.obey (· == d) now c).1.agenda = [] :=
    agenda_workOff (Nat.le_of_eq List.length_replicate.symm)
  suffices hz : ∃ j, ((b.react (.command now c)).without d).workOff (· == d)
      (List.replicate j now) = ((b.forget d).react (.command now c), []) by
    obtain ⟨j, hj⟩ := hz
    exact workOff_of_rest_of hrest hno hj
  rcases hc with ⟨m, rfl⟩ | ⟨inbox, r, rfl⟩
  · exact ⟨0, Prod.ext (publish_without ha m) rfl⟩
  · rw [react_command_of_rest ha, react_command_of_rest (b := b.forget d) ha]
    by_cases hi : inbox = d
    · rw [hi]
      exact pull_without_self hb ha
    · exact ⟨0, Prod.ext (pull_without (hin inbox r rfl) hi ha) rfl⟩

/-- As long as no message is handed to the feed that is gone, a broker that has not noticed does
what it is told as one that has forgotten `d` before. The cursor and the count of deliveries are
the same. So are the frames for all others and the pulls of all others in the queue, and once any
frame was handed to the feed, the queues are the same. Only a pull for which the pulls of `d`
leave no room is refused, where else it would wait. -/
theorem obey_unheard (hb : b.Shaped) (ha : b.agenda = []) {now : Nat} {c : Command}
    (hc : (∃ m, c = .publish m) ∨ ∃ inbox r, c = .pull inbox r)
    (hno : ∀ m, (d, Frame.message m) ∉ (b.obey (· == d) now c).2) :
    let y := b.obey (· == d) now c
    let z := (b.forget d).obey (· == d) now c
    y.1.cursor = z.1.cursor ∧ y.1.delivered = z.1.delivered ∧
      ((∀ inbox r, c = .pull inbox r → ¬b.CrowdedOut d inbox r) →
        y.2.filter (·.1 != d) = z.2 ∧ (y.1.waiting.filter fun p => p.inbox != d) = z.1.waiting ∧
        ((∃ f, (d, f) ∈ y.2) → y.1.waiting = z.1.waiting)) ∧
      ∀ inbox r, c = .pull inbox r → b.CrowdedOut d inbox r →
        y.2 = [(inbox, .status (refusal r Code.conflict StatusText.exceededMaxWaiting))] ∧
        y.1.waiting = b.waiting ∧ z.2 = [] ∧ z.1.waiting = (b.forget d).waiting ++
          [WaitingPull.ofRequest inbox r now b.limits.heartbeats] := by
  intro y z
  have hcrowd : ∀ inbox r, c = .pull inbox r → b.CrowdedOut d inbox r →
      y = ({ b with received := r :: b.received }, [(inbox, .status
        (refusal r Code.conflict StatusText.exceededMaxWaiting))]) ∧
      z = ({ b.forget d with
        received := r :: b.received
        waiting := (b.forget d).waiting ++
          [WaitingPull.ofRequest inbox r now b.limits.heartbeats] }, []) := by
    rintro inbox r rfl hr
    exact obey_of_crowdedOut hb ha hr (by simpa using hr.other)
  by_cases hin : ∃ inbox r, c = .pull inbox r ∧ b.CrowdedOut d inbox r
  · obtain ⟨inbox, r, hp, hr⟩ := hin
    obtain ⟨hy, hz⟩ := hcrowd inbox r hp hr
    refine ⟨by rw [hy, hz]; rfl, by rw [hy, hz]; rfl,
      fun hin => absurd hr (hin inbox r hp), fun inbox r hp hr => ?_⟩
    obtain ⟨hy, hz⟩ := hcrowd inbox r hp hr
    rw [hy, hz]
    exact ⟨rfl, rfl, rfl, rfl⟩
  · have hin : ∀ inbox r, c = .pull inbox r → ¬b.CrowdedOut d inbox r :=
      fun inbox r hp hr => hin ⟨inbox, r, hp, hr⟩
    have hz : z = (y.1.without d, y.2.filter (·.1 != d)) := obey_forget hb ha hc hin hno
    refine ⟨by rw [hz]; rfl, by rw [hz]; rfl, fun _ => ⟨by rw [hz], by rw [hz]; rfl,
      fun hf => ?_⟩, fun inbox r he hr => absurd hr (hin inbox r he)⟩
    have hgone : y.1.knows d = false := knows_of_handed _ hf
    have hnone : ∀ p ∈ y.1.waiting, p.inbox ≠ d := fun p hp e => by
      have hk : y.1.knows p.inbox = true := (((hb.react _).workOff _ _).expects p hp).2
      rw [e, hgone] at hk
      cases hk
    rw [hz]
    exact (waiting_without hnone).symm

end State

end DemandFlow.Broker
