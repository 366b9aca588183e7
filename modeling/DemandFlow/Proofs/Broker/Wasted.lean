import DemandFlow.Proofs.Broker.DeadFeed

/-
  What a feed that is gone costs. A message that is handed to it is lost: the broker has moved its
  cursor and its count before the hand-over fails, and does not go back (`obey_of_wastes`). That
  comes about in one way only, which `Wastes` reads off the queue: the first pull that does not
  refuse the message is one of the feed, and no other pull of the feed stands before it. In all
  other cases no message goes to the feed (`message_iff_wastes`), and `DeadFeed` says how the
  broker does then. A pull of the feed that is sent nothing is not found out either, and stays in
  the queue (`alike_iff`).
-/

namespace DemandFlow.Broker

namespace State

variable {a b y : State} {d : String} {now t : Nat} {m : Message} {rest : List Chore}
  {pre ps : List WaitingPull} {p : WaitingPull} {gone : String → Bool} {who : String → Prop}

/-! ## Nothing for some inboxes -/

/-- No message is on its way to these inboxes, and none is to come: all is handed out, or nobody
of them waits. -/
structure Spared (who : String → Prop) (y : State) : Prop where
  sent : ∀ i m, who i → (i, Frame.message m) ∉ posts y.agenda
  line : y.stream.size ≤ y.cursor ∨ ∀ p ∈ y.waiting, ¬who p.inbox

theorem Spared.told (h : y.Spared who) (inbox : String) (gone : Bool) :
    (y.told inbox gone).Spared who := by
  unfold State.told
  split
  · exact ⟨h.sent, h.line.imp_right fun hw p hp => hw p (List.mem_filter.1 hp).1⟩
  · exact h

/-- A status in front, and perhaps a pull less. -/
theorem Spared.closed (h : y.Spared who) {inbox : String} {s : Status} {cs : List Chore}
    (hcs : posts cs = []) (hps : ∀ p ∈ ps, p ∈ y.waiting) :
    (({ y with waiting := ps } : State).first (.post inbox (.status s) :: cs)).Spared who := by
  refine ⟨fun i m hi hm => ?_, h.line.imp_right fun hw p hp => hw p (hps p hp)⟩
  rw [first, posts_append] at hm
  rcases List.mem_append.1 hm with hm | hm
  · change (i, Frame.message m) ∈ (inbox, Frame.status s) :: posts cs at hm
    rw [hcs] at hm
    cases List.mem_singleton.1 hm
  · exact h.sent i m hi hm

/-- What goes with a message goes to the pull that gets it. -/
theorem inbox_of_handed {i : String} {f : Frame}
    (hf : (i, f) ∈ posts (handed p m ++ [Chore.handOut])) : i = p.inbox := by
  unfold handed at hf
  split at hf
  · rcases List.mem_cons.1 hf with he | hf
    · exact (Prod.mk.inj he).1
    · exact (Prod.mk.inj (List.mem_singleton.1 hf)).1
  · exact (Prod.mk.inj (List.mem_singleton.1 hf)).1

theorem Spared.chore (h : y.Spared who) (gone : String → Bool) (t : Nat) :
    (y.react (y.chore gone t)).Spared who ∧
      ∀ i m, who i → (i, Frame.message m) ∉ y.handsOver (y.chore gone t) := by
  have htail : ∀ {c rest}, y.agenda = c :: rest → ({ y with agenda := rest } : State).Spared who :=
    fun {c rest} ha => ⟨fun i m hi hm => h.sent i m hi (by
      rw [ha, ← List.singleton_append, posts_append]
      exact List.mem_append_right _ hm), h.line⟩
  rcases chore_cases gone t y with ⟨_, hb, hh⟩ | ⟨inbox, f, rest, ha, hb, hh⟩ |
    ⟨rest, ha, hb, hh⟩ | ⟨inbox, rest, ha, hb, hh⟩ <;> rw [hb, hh]
  · exact ⟨h, fun _ _ _ => List.not_mem_nil⟩
  · refine ⟨(htail ha).told inbox _, fun i m hi hm => h.sent i m hi ?_⟩
    rw [ha, List.mem_singleton.1 hm]
    exact List.mem_cons_self
  · refine ⟨?_, fun _ _ _ => List.not_mem_nil⟩
    have hrest := htail ha
    rcases handOut_cases t { y with agenda := rest } with ⟨he, _⟩ | ⟨m, p, ps, _, hw, _, he⟩ |
      ⟨m, p, ps, hm, hw, _, he⟩ <;> rw [he]
    · exact hrest
    · exact hrest.closed rfl fun q hq => hw ▸ List.mem_cons_of_mem _ hq
    · -- something is handed out, so that none of these inboxes waits
      have hwho := hrest.line.resolve_left (Nat.not_le.2 (Array.getElem?_eq_some_iff.1 hm).1)
      rw [hw] at hwho
      refine ⟨fun i n hi hn => ?_, Or.inr fun q hq => ?_⟩
      · rw [first, posts_append] at hn
        rcases List.mem_append.1 hn with hn | hn
        · exact hwho p List.mem_cons_self (inbox_of_handed hn ▸ hi)
        · exact hrest.sent i n hi hn
      · dsimp only [first] at hq
        split at hq
        · exact hwho q (List.mem_cons_of_mem _ hq)
        · rcases List.mem_cons.1 hq with rfl | hq
          · exact hwho p List.mem_cons_self
          · exact hwho q (List.mem_cons_of_mem _ hq)
  · refine ⟨?_, fun _ _ _ => List.not_mem_nil⟩
    rcases endNoWait_cases inbox { y with agenda := rest } with ⟨he, _⟩ |
      ⟨p, before, after, _, hw, _, he⟩ <;> rw [he]
    · exact htail ha
    · refine (htail ha).closed rfl fun q hq => ?_
      rw [hw]
      exact (List.mem_append.1 hq).elim (List.mem_append_left _)
        fun hq => List.mem_append_right _ (List.mem_cons_of_mem _ hq)

/-- Whoever is spared gets no message from any chores. -/
theorem Spared.workOff (h : y.Spared who) (gone : String → Bool) (ts : List Nat) :
    ∀ i m, who i → (i, Frame.message m) ∉ (y.workOff gone ts).2 := by
  induction ts generalizing y with
  | nil => exact fun _ _ _ => List.not_mem_nil
  | cons t ts ih =>
    obtain ⟨hnext, hno⟩ := h.chore gone t
    intro i m hi hm
    rw [workOff_cons] at hm
    exact (List.mem_append.1 hm).elim (hno i m hi) (ih hnext i m hi)

/-- The cursor moves only for a message that is handed over. -/
theorem cursor_workOff {ts : List Nat} (ha : (b.workOff gone ts).1.agenda = [])
    (hno : ∀ i m, (i, Frame.message m) ∉ (b.workOff gone ts).2) :
    (b.workOff gone ts).1.cursor = b.cursor := by
  have hmoved : (b.workOff gone ts).1.cursor = b.cursor ∨ ∃ i m, (i, Frame.message m) ∈
      (b.workOff gone ts).2 ++ posts (b.workOff gone ts).1.agenda := by
    refine workOff_induction (P := fun y out => y.cursor = b.cursor ∨
      ∃ i m, (i, Frame.message m) ∈ out ++ posts y.agenda) (fun y out t ih => ?_) ts [] (Or.inl rfl)
    rcases ih with ih | ⟨i, m, hm⟩
    · rcases chore_cases gone t y with ⟨_, hb, _⟩ | ⟨inbox, f, rest, _, hb, _⟩ |
        ⟨rest, _, hb, _⟩ | ⟨inbox, rest, _, hb, _⟩ <;> rw [hb]
      · exact Or.inl ih
      · refine Or.inl (Eq.trans ?_ ih)
        unfold told
        split <;> rfl
      · rcases handOut_cases t { y with agenda := rest } with ⟨he, _⟩ | ⟨m, p, ps, _, _, _, he⟩ |
          ⟨m, p, ps, _, _, _, he⟩ <;> rw [he]
        · exact Or.inl ih
        · exact Or.inl ih
        · refine Or.inr ⟨p.inbox, m, List.mem_append_right _ ?_⟩
          rw [first, handed]
          exact List.mem_cons_self
      · rcases endNoWait_cases inbox { y with agenda := rest } with ⟨he, _⟩ |
          ⟨p, xs, ys, _, _, _, he⟩ <;> rw [he] <;> exact Or.inl ih
    · refine Or.inr ⟨i, m, ?_⟩
      rw [List.append_assoc]
      rcases List.mem_append.1 hm with hm | hm
      · exact List.mem_append_left _ hm
      · refine List.mem_append_right _ (List.mem_append.2 ?_)
        exact (mem_posts_chore hm).symm
  rcases hmoved with he | ⟨i, m, hm⟩
  · exact he
  · rw [ha] at hm
    exact absurd ((List.mem_append.1 hm).resolve_right List.not_mem_nil) (hno i m)

/-! ## One message is offered -/

/-- The frame that ends a pull which refuses the message. -/
def refusedBy (p : WaitingPull) : String × Frame :=
  (p.inbox, .status (p.closing Code.conflict (stopText p)))

theorem not_message_refusedBy {i : String} : (i, Frame.message m) ∉ pre.map refusedBy := by
  simp [refusedBy]

/-- The broker as the first pull takes a message: all but the post of the message itself. -/
def serving (now : Nat) (m : Message) (p : WaitingPull) (ps : List WaitingPull)
    (rest : List Chore) (b : State) : State :=
  let q := p.charged m.size now
  { b with
    agenda := rest
    cursor := b.cursor + 1
    delivered := b.delivered + 1
    waiting := if q.isFilled || q.isSpent then ps else q :: ps }.first
      ((handed q m).tail ++ [Chore.handOut])

theorem not_message_serving (hrest : posts rest = []) (i : String) (n : Message) :
    (i, Frame.message n) ∉ posts (b.serving t m p ps rest).agenda := by
  intro hn
  unfold serving at hn
  dsimp only [first] at hn
  rw [posts_append, posts_append, hrest] at hn
  unfold handed at hn
  dsimp only [List.tail_cons] at hn
  split at hn
  · exact nomatch List.mem_singleton.1 hn
  · cases hn

variable (rest) in
theorem inbox_of_serving (hps : ps = []) :
    ∀ q ∈ (b.serving t m p ps rest).waiting, q.inbox = p.inbox := by
  intro q hq
  unfold serving at hq
  dsimp only [first] at hq
  rw [hps] at hq
  split at hq
  · cases hq
  · rw [List.mem_singleton.1 hq]
    rfl

section Rounds

variable (hm : b.stream[b.cursor]? = some m) (ha : b.agenda = .handOut :: rest)

include hm ha in
/-- The first pull refuses the message: it is ended, and its status goes out. -/
theorem workOff_refusal (hw : b.waiting = p :: ps) (hr : p.refuses m.size = true) :
    b.workOff gone (List.replicate 2 t) =
      (({ b with waiting := ps } : State).told p.inbox (gone p.inbox), [refusedBy p]) := by
  obtain ⟨hb, hh⟩ := chore_handOut gone t ha
  have hout : ({ b with agenda := rest } : State).handOut t = _ := handOut_of_refuses hm hw hr
  have hnext : (b.react (b.chore gone t)).agenda =
      .post p.inbox (.status (p.closing Code.conflict (stopText p))) :: .handOut :: rest := by
    rw [hb, hout]
    rfl
  have hback : ({ b.react (b.chore gone t) with agenda := .handOut :: rest } : State) =
      { b with waiting := ps } := by
    rw [hb, hout, ← ha]
    rfl
  obtain ⟨hb', hh'⟩ := chore_post gone t hnext
  rw [List.replicate_succ, List.replicate_one, workOff_cons, workOff_cons, hh, hh', hb', hback]
  rfl

include hm ha in
/-- The first pull takes the message, which is posted next. -/
theorem workOff_taken (hw : b.waiting = p :: ps) (hr : p.refuses m.size = false) :
    b.workOff gone (List.replicate 1 t) =
      ((b.serving t m p ps rest).first [.post p.inbox (.message m)], []) := by
  obtain ⟨hb, hh⟩ := chore_handOut gone t ha
  rw [List.replicate_one, workOff_cons, hb, hh,
    handOut_of_takes (b := { b with agenda := rest }) hm hw hr]
  rfl

end Rounds

variable (gone) in
/-- The pulls in front, whose feeds are open and which refuse the message, are ended. -/
theorem workOff_refused (hm : b.stream[b.cursor]? = some m) (ha : b.agenda = .handOut :: rest)
    (hw : b.waiting = pre ++ ps)
    (hpre : ∀ q ∈ pre, gone q.inbox = false ∧ q.refuses m.size = true) :
    b.workOff gone (List.replicate (2 * pre.length) t) =
      ({ b with waiting := ps }, pre.map refusedBy) := by
  induction pre generalizing b with
  | nil =>
    rw [← show b.waiting = ps from hw]
    rfl
  | cons q pre ih =>
    obtain ⟨ho, hr⟩ := hpre q List.mem_cons_self
    have hfirst : b.workOff gone (List.replicate 2 t) =
        ({ b with waiting := pre ++ ps }, [refusedBy q]) := by
      rw [workOff_refusal hm ha hw hr, ho]
      rfl
    have hnext := ih (b := { b with waiting := pre ++ ps }) hm ha rfl
      fun q hq => hpre q (List.mem_cons_of_mem _ hq)
    rw [List.length_cons, Nat.mul_succ, Nat.add_comm, ← List.replicate_append_replicate,
      workOff_append, hfirst, hnext]
    rfl

/-- The stream is about to be handed out: a message is unread, and it is the last one, or only
one pull waits for it. -/
structure Offers (a : State) (m : Message) : Prop where
  next : a.stream[a.cursor]? = some m
  agenda : ∃ rest, a.agenda = .handOut :: rest ∧ posts rest = []
  last : a.stream.size = a.cursor + 1 ∨ ∃ p, a.waiting = [p]

/-- A pull of the inbox stands before all pulls that would take the message, and takes it. -/
def TakenFor (a : State) (d : String) (m : Message) : Prop :=
  ∃ (pre : List WaitingPull) (p : WaitingPull) (ps : List WaitingPull),
    a.waiting = pre ++ p :: ps ∧ (∀ q ∈ pre, q.inbox ≠ d ∧ q.refuses m.size = true) ∧
      p.inbox = d ∧ p.refuses m.size = false

/-- All pulls are of others and refuse the message, or one is the first that is not like that. -/
theorem refused_or_first (d : String) (size : Nat) (ps : List WaitingPull) :
    (∀ q ∈ ps, q.inbox ≠ d ∧ q.refuses size = true) ∨
    ∃ (pre : List WaitingPull) (p : WaitingPull) (rest : List WaitingPull),
      ps = pre ++ p :: rest ∧ (∀ q ∈ pre, q.inbox ≠ d ∧ q.refuses size = true) ∧
        ¬(p.inbox ≠ d ∧ p.refuses size = true) := by
  induction ps with
  | nil => exact Or.inl fun _ hq => nomatch hq
  | cons q qs ih =>
    by_cases hq : q.inbox ≠ d ∧ q.refuses size = true
    · rcases ih with hall | ⟨pre, p, rest, hqs, hpre, hp⟩
      · exact Or.inl (List.forall_mem_cons.2 ⟨hq, hall⟩)
      · exact Or.inr ⟨q :: pre, p, rest, congrArg (q :: ·) hqs,
          List.forall_mem_cons.2 ⟨hq, hpre⟩, hp⟩
    · exact Or.inr ⟨[], q, qs, rfl, fun _ hq => (nomatch hq), hq⟩

section Offers

variable (h : a.Offers m)

theorem open_of_ne (hpre : ∀ q ∈ pre, q.inbox ≠ d ∧ q.refuses m.size = true) :
    ∀ q ∈ pre, (q.inbox == d) = false ∧ q.refuses m.size = true :=
  fun q hq => ⟨by simpa using (hpre q hq).1, (hpre q hq).2⟩

include h in
theorem Offers.last_tail (hw : a.waiting = pre ++ p :: ps) :
    a.stream.size = a.cursor + 1 ∨ ps = [] := by
  refine h.last.imp_right fun ⟨q, hq⟩ => ?_
  rw [hw] at hq
  cases pre with
  | nil => exact (List.cons.inj hq).2
  | cons r pre => simp at hq

include h in
/-- The message that a pull of the inbox takes is lost: it goes to the feed that is gone, the
cursor has moved, and no other message is handed out. -/
theorem Offers.lost (hd : a.knows d = true) (ht : a.TakenFor d m) :
    (a.workOff (· == d) (List.replicate a.burden t)).1.cursor = a.cursor + 1 ∧
      ∀ i n, (i, Frame.message n) ∈ (a.workOff (· == d) (List.replicate a.burden t)).2 ↔
        i = d ∧ n = m := by
  obtain ⟨rest, ha, hrest⟩ := h.agenda
  obtain ⟨pre, p, ps, hw, hpre, rfl, hr⟩ := ht
  let y := ({ a with waiting := p :: ps } : State).serving t m p ps rest
  obtain ⟨hb, hh⟩ := chore_first_lost (b := y) (· == p.inbox) t (beq_self_eq_true _) hd
    (.message m)
  have hlost : a.workOff (· == p.inbox) (List.replicate (2 * pre.length + (1 + 1)) t) =
      (y.forget p.inbox, pre.map refusedBy ++ [(p.inbox, .message m)]) := by
    rw [← List.replicate_append_replicate, workOff_append,
      workOff_refused (· == p.inbox) h.next ha hw (open_of_ne hpre),
      ← List.replicate_append_replicate, workOff_append,
      workOff_taken (b := { a with waiting := p :: ps }) h.next ha rfl hr, List.replicate_one,
      workOff_cons, hb, hh]
    rfl
  have hspared : (y.forget p.inbox).Spared fun _ => True := by
    refine ⟨fun i n _ => not_message_serving hrest i n, (h.last_tail hw).imp Nat.le_of_eq ?_⟩
    intro hps q hq _
    obtain ⟨hq, hne⟩ := List.mem_filter.1 hq
    exact bne_iff_ne.1 hne (inbox_of_serving rest hps q hq)
  rw [workOff_burden hlost]
  have hnone := hspared.workOff (· == p.inbox)
    (List.replicate (y.forget p.inbox).burden t)
  refine ⟨?_, fun i n => ⟨fun hn => ?_, ?_⟩⟩
  · refine Eq.trans (cursor_workOff (agenda_workOff (Nat.le_of_eq List.length_replicate.symm))
      fun i n => hnone i n trivial) rfl
  · rcases List.mem_append.1 hn with hn | hn
    · rcases List.mem_append.1 hn with hn | hn
      · exact absurd hn not_message_refusedBy
      · cases List.mem_singleton.1 hn
        exact ⟨rfl, rfl⟩
    · exact absurd hn (hnone i n trivial)
  · rintro ⟨rfl, rfl⟩
    exact List.mem_append_left _ (List.mem_append_right _ List.mem_cons_self)

/-- The feed that is gone is handed no message. -/
abbrev Unheard (t : Nat) (d : String) (a : State) : Prop :=
  ∀ n, (d, Frame.message n) ∉ (a.workOff (· == d) (List.replicate a.burden t)).2

theorem unheard_of_spared {k : Nat} {out : List (String × Frame)}
    (hk : a.workOff (· == d) (List.replicate k t) = (y, out)) (hy : y.Spared (· = d))
    (hout : ∀ i n, (i, Frame.message n) ∉ out) : a.Unheard t d := by
  intro n hn
  rw [workOff_burden hk] at hn
  rcases List.mem_append.1 hn with hn | hn
  · exact hout d n hn
  · exact hy.workOff _ _ d n rfl hn

include h in
theorem Offers.not_message_agenda (i : String) (n : Message) :
    (i, Frame.message n) ∉ posts a.agenda := by
  obtain ⟨rest, ha, hrest⟩ := h.agenda
  rw [ha]
  exact fun hn => nomatch (hrest ▸ hn : (i, Frame.message n) ∈ [])

include h in
/-- All pulls are ended, and nobody is left. -/
theorem Offers.unheard_of_refused (hall : ∀ q ∈ a.waiting, q.inbox ≠ d ∧ q.refuses m.size = true) :
    a.Unheard t d := by
  obtain ⟨rest, ha, _⟩ := h.agenda
  have hk := workOff_refused (t := t) (· == d) h.next ha (List.append_nil _).symm
    (open_of_ne hall)
  exact unheard_of_spared hk
    ⟨fun i n _ => h.not_message_agenda i n, Or.inr fun _ hq => nomatch hq⟩
    fun _ _ => not_message_refusedBy

include h in
/-- A pull of the inbox is ended, and with its status the broker finds out. -/
theorem Offers.unheard_of_ended (hd : a.knows d = true) (hw : a.waiting = pre ++ p :: ps)
    (hpre : ∀ q ∈ pre, q.inbox ≠ d ∧ q.refuses m.size = true) (hi : p.inbox = d)
    (hr : p.refuses m.size = true) : a.Unheard t d := by
  obtain ⟨rest, ha, _⟩ := h.agenda
  have hheard : ({ a with waiting := ps } : State).told p.inbox (p.inbox == d) =
      ({ a with waiting := ps } : State).forget d := by
    unfold told
    rw [hi, beq_self_eq_true, Bool.true_and]
    exact if_pos hd
  have hk : a.workOff (· == d) (List.replicate (2 * pre.length + 2) t) =
      (({ a with waiting := ps } : State).forget d, pre.map refusedBy ++ [refusedBy p]) := by
    rw [← List.replicate_append_replicate, workOff_append,
      workOff_refused (· == d) h.next ha hw (open_of_ne hpre),
      workOff_refusal (b := { a with waiting := p :: ps }) h.next ha rfl hr, hheard]
  refine unheard_of_spared hk
    ⟨fun i n _ => h.not_message_agenda i n, Or.inr fun q hq => ?_⟩ fun i n hn => ?_
  · exact bne_iff_ne.1 (List.mem_filter.1 hq).2
  · rcases List.mem_append.1 hn with hn | hn
    · exact not_message_refusedBy hn
    · exact nomatch List.mem_singleton.1 hn

include h in
/-- Another one takes the message, and none is left for the inbox. -/
theorem Offers.unheard_of_taken (hw : a.waiting = pre ++ p :: ps)
    (hpre : ∀ q ∈ pre, q.inbox ≠ d ∧ q.refuses m.size = true) (hi : p.inbox ≠ d)
    (hr : p.refuses m.size = false) : a.Unheard t d := by
  obtain ⟨rest, ha, hrest⟩ := h.agenda
  have hk : a.workOff (· == d) (List.replicate (2 * pre.length + 1) t) =
      ((({ a with waiting := p :: ps } : State).serving t m p ps rest).first
        [.post p.inbox (.message m)], pre.map refusedBy ++ []) := by
    rw [← List.replicate_append_replicate, workOff_append,
      workOff_refused (· == d) h.next ha hw (open_of_ne hpre),
      workOff_taken (b := { a with waiting := p :: ps }) h.next ha rfl hr]
  refine unheard_of_spared hk ⟨fun i n hid hn => ?_,
    (h.last_tail hw).imp Nat.le_of_eq fun hps q hq e => hi ?_⟩
    fun i n hn => not_message_refusedBy (List.append_nil _ ▸ hn)
  · rcases List.mem_cons.1 hn with hn | hn
    · exact hi ((Prod.mk.inj hn).1.symm.trans hid)
    · exact not_message_serving hrest i n hn
  · have hqi := inbox_of_serving (b := { a with waiting := p :: ps }) rest hps q hq
    exact hqi.symm.trans e

include h in
/-- Where no pull of the inbox takes the message, the feed gets none. -/
theorem Offers.unheard (hd : ∀ p ∈ a.waiting, a.knows p.inbox = true) (hno : ¬a.TakenFor d m) :
    a.Unheard t d := by
  rcases refused_or_first d m.size a.waiting with hall | ⟨pre, p, ps, hw, hpre, hp⟩
  · exact h.unheard_of_refused hall
  · by_cases hi : p.inbox = d
    · have hknown : a.knows d = true := hi ▸ hd p (by
        rw [hw]
        exact List.mem_append_right _ List.mem_cons_self)
      cases hr : p.refuses m.size with
      | true => exact h.unheard_of_ended hknown hw hpre hi hr
      | false => exact absurd ⟨pre, p, ps, hw, hpre, hi, hr⟩ hno
    · exact h.unheard_of_taken hw hpre hi (by simpa [hi] using hp)

end Offers

/-! ## A command -/

/-- The message that the command brings to a pull of the inbox, which takes it. -/
def Wastes (now : Nat) (d : String) (c : Command) (b : State) (m : Message) : Prop :=
  (b.accept now c).stream[(b.accept now c).cursor]? = some m ∧ (b.accept now c).TakenFor d m

section Commands

variable {c : Command} (hc : (∃ m, c = .publish m) ∨ ∃ inbox r, c = .pull inbox r)

theorem obey_of_rest (ha : b.agenda = []) (gone : String → Bool) (now : Nat) (c : Command) :
    b.obey gone now c =
      (b.accept now c).workOff gone (List.replicate (b.accept now c).burden now) := by
  unfold obey
  rw [react_command_of_rest ha]

/-- Nothing is posted but statuses, and all is handed out or nobody waits. -/
theorem spared_of_rest (hb : b.Shaped) (ha : b.agenda = []) (cs : List Chore)
    (hcs : ∀ i m, (i, Frame.message m) ∉ posts cs) (r : PullRequest) :
    (({ b with received := r :: b.received } : State).first cs).Spared fun _ => True := by
  refine ⟨fun i m _ hm => hcs i m ?_, (hb.at_rest ha).1.symm.imp (fun he => Nat.le_of_eq he.symm)
    fun hw p hp _ => ?_⟩
  · rwa [first, ha, List.append_nil] at hm
  · rw [first, hw] at hp
    cases hp

variable (now) in
include hc in
/-- A command posts no message by itself. Where the stream is to be handed out, the next message
is the last one, or waits for one pull. -/
theorem offers_or_spared (hb : b.Shaped) (ha : b.agenda = []) :
    (∃ m, (b.accept now c).Offers m) ∨ (b.accept now c).Spared fun _ => True := by
  rcases hc with ⟨m, rfl⟩ | ⟨inbox, r, rfl⟩
  · rcases (hb.at_rest ha).1 with hw | hend
    · refine Or.inr ⟨fun i n _ hn => ?_, Or.inr fun p hp => ?_⟩
      · rw [accept, first, ha] at hn
        cases hn
      · rw [accept, first, hw] at hp
        cases hp
    · refine Or.inl ⟨m, ?_, ⟨[], by rw [accept, first, ha]; rfl, rfl⟩, Or.inl ?_⟩ <;>
        simp [accept, first, hend]
  · change (∃ m, (b.request now inbox r).Offers m) ∨ (b.request now inbox r).Spared _
    rcases request_cases now inbox r b with ⟨_, he⟩ | ⟨s, _, _, he⟩ | ⟨_, _, he⟩ <;> rw [he]
    · exact Or.inr (spared_of_rest hb ha [] (fun _ _ => List.not_mem_nil) r)
    · refine Or.inr (spared_of_rest hb ha _ (fun i n hn => ?_) r)
      exact absurd (List.mem_singleton.1 hn) (by simp)
    · have hposts : ∀ cs : List Chore, cs = (if r.noWait then [.endNoWait inbox] else []) →
          posts cs = [] := by
        rintro cs rfl
        split <;> rfl
      cases hm : b.stream[b.cursor]? with
      | none =>
        refine Or.inr ⟨fun i n _ hn => ?_, Or.inl (Array.getElem?_eq_none_iff.1 hm)⟩
        rw [first, ha, List.append_nil] at hn
        split at hn <;> cases hn
      | some m =>
        have hw : b.waiting = [] := (hb.at_rest ha).1.resolve_right fun he =>
          Nat.lt_irrefl _ (he ▸ (Array.getElem?_eq_some_iff.1 hm).1)
        refine Or.inl ⟨m, hm, ⟨if r.noWait then [.endNoWait inbox] else [], ?_, hposts _ rfl⟩,
          Or.inr ⟨WaitingPull.ofRequest inbox r now b.limits.heartbeats, ?_⟩⟩
        · rw [first, ha, List.append_nil]
          split <;> rfl
        · rw [first, hw]
          rfl

include hc in
theorem cursor_accept : (b.accept now c).cursor = b.cursor := by
  rcases hc with ⟨m, rfl⟩ | ⟨inbox, r, rfl⟩
  · rfl
  · change (b.request now inbox r).cursor = b.cursor
    rcases request_cases now inbox r b with ⟨_, he⟩ | ⟨s, _, _, he⟩ | ⟨_, _, he⟩ <;> rw [he] <;> rfl

include hc in
theorem knows_accept (i : String) : (b.accept now c).knows i = b.knows i := by
  rcases hc with ⟨m, rfl⟩ | ⟨inbox, r, rfl⟩
  · rfl
  · change (b.request now inbox r).knows i = b.knows i
    rcases request_cases now inbox r b with ⟨_, he⟩ | ⟨s, _, _, he⟩ | ⟨_, _, he⟩ <;> rw [he] <;> rfl

include hc in
/-- A feed that is gone is handed a message exactly where a pull of it takes one. -/
theorem message_iff_wastes (hb : b.Shaped) (ha : b.agenda = []) (m : Message) :
    (d, Frame.message m) ∈ (b.obey (· == d) now c).2 ↔ b.Wastes now d c m := by
  have hknows : ∀ p ∈ (b.accept now c).waiting, (b.accept now c).knows p.inbox = true :=
    fun p hp => ((hb.accept ha c).expects p hp).2
  rw [obey_of_rest ha]
  rcases offers_or_spared now hc hb ha with ⟨n, ho⟩ | hs
  · by_cases ht : (b.accept now c).TakenFor d n
    · have ⟨pre, p, ps, hw, _, hi, _⟩ := ht
      have hd := hknows p (by rw [hw]; exact List.mem_append_right _ List.mem_cons_self)
      rw [(ho.lost (hi ▸ hd) ht).2]
      refine ⟨fun ⟨_, he⟩ => he ▸ ⟨ho.next, ht⟩, fun hm => ⟨rfl, ?_⟩⟩
      exact Option.some.inj (hm.1.symm.trans ho.next)
    · refine ⟨fun hm => absurd hm (ho.unheard hknows ht m), fun hm => absurd ?_ ht⟩
      exact Option.some.inj (hm.1.symm.trans ho.next) ▸ hm.2
  · refine ⟨fun hm => absurd hm (hs.workOff _ _ d m trivial), fun ⟨hm, ht⟩ => ?_⟩
    obtain ⟨pre, p, ps, hw, _⟩ := ht
    rcases hs.line with hend | hnone
    · exact absurd (Array.getElem?_eq_some_iff.1 hm).1 (Nat.not_lt_of_le hend)
    · refine absurd trivial (hnone p ?_)
      rw [hw]
      exact List.mem_append_right _ List.mem_cons_self

include hc in
/-- A message that is wasted is counted, and nothing else is handed out. -/
theorem obey_of_wastes (hb : b.Shaped) (ha : b.agenda = []) (hm : b.Wastes now d c m) :
    (b.obey (· == d) now c).1.cursor = b.cursor + 1 ∧
      (b.obey (· == d) now c).1.delivered = b.delivered + 1 ∧
      (b.obey (· == d) now c).1.knows d = false ∧
      ∀ i n, (i, Frame.message n) ∈ (b.obey (· == d) now c).2 ↔ i = d ∧ n = m := by
  have hmsg := (message_iff_wastes hc hb ha m).2 hm
  have hgone : (b.obey (· == d) now c).1.knows d = false := knows_of_handed _ ⟨_, hmsg⟩
  have hcounted := (((hb.react (.command now c)).workOff (· == d)
    (List.replicate (b.react (.command now c)).burden now))).counted
  rcases offers_or_spared now hc hb ha with ⟨n, ho⟩ | hs
  · obtain rfl := Option.some.inj (hm.1.symm.trans ho.next)
    have ⟨pre, p, ps, hw, _, hi, _⟩ := hm.2
    have hshaped : (b.accept now c).Shaped := hb.accept ha c
    have hd := (hshaped.expects p (by
      rw [hw]
      exact List.mem_append_right _ List.mem_cons_self)).2
    obtain ⟨hcursor, hframes⟩ := ho.lost (t := now) (hi ▸ hd) hm.2
    rw [← obey_of_rest ha] at hcursor hframes
    rw [cursor_accept hc] at hcursor
    exact ⟨hcursor, hcounted.trans (hcursor.trans (congrArg (· + 1) hb.counted.symm)), hgone,
      hframes⟩
  · rw [obey_of_rest ha] at hmsg
    exact absurd hmsg (hs.workOff _ _ d m trivial)

end Commands

/-- Two brokers have come to the same cursor, count and queue, and sent the same to all but `d`. -/
def Alike (d : String) (y z : State × List (String × Frame)) : Prop :=
  y.1.cursor = z.1.cursor ∧ y.1.delivered = z.1.delivered ∧ y.1.waiting = z.1.waiting ∧
    y.2.filter (·.1 != d) = z.2.filter (·.1 != d)

section Forgotten

variable {c : Command} (hc : (∃ m, c = .publish m) ∨ ∃ inbox r, c = .pull inbox r)

include hc in
/-- A broker that has forgotten the inbox has nothing for it. -/
theorem spared_forget (hb : b.Shaped) (ha : b.agenda = []) :
    ((b.forget d).accept now c).Spared (· = d) := by
  rcases offers_or_spared now hc (hb.forget d) ha with ⟨m, ho⟩ | hs
  · refine ⟨fun i n _ => ho.not_message_agenda i n, Or.inr fun p hp hi => ?_⟩
    have hshaped : ((b.forget d).accept now c).Shaped := (hb.forget d).accept ha c
    have hk := (hshaped.expects p hp).2
    rw [hi] at hk
    rw [knows_accept hc, knows_forget] at hk
    cases hk
  · exact ⟨fun i n _ => hs.sent i n trivial, hs.line.imp_right fun hw p hp _ => hw p hp trivial⟩

include hc in
/-- A message that is wasted would have been handed to another feed, or to none. -/
theorem not_alike_of_wastes (hb : b.Shaped) (ha : b.agenda = []) (hm : b.Wastes now d c m) :
    ¬Alike d (b.obey (· == d) now c) ((b.forget d).obey (· == d) now c) := by
  obtain ⟨hcursor, _, _, hframes⟩ := obey_of_wastes hc hb ha hm
  rintro ⟨hsame, _, _, hothers⟩
  rw [obey_of_rest (b := b.forget d) ha] at hsame hothers
  have hmoved : ∃ i n, (i, Frame.message n) ∈ (((b.forget d).accept now c).workOff (· == d)
      (List.replicate ((b.forget d).accept now c).burden now)).2 := by
    refine Classical.byContradiction fun hno => ?_
    have hstill := cursor_workOff (agenda_workOff (Nat.le_of_eq List.length_replicate.symm))
      fun i n hn => hno ⟨i, n, hn⟩
    rw [cursor_accept hc] at hstill
    exact Nat.succ_ne_self _ (hcursor.symm.trans (hsame.trans hstill))
  obtain ⟨i, n, hn⟩ := hmoved
  have hi : i ≠ d := fun hi => (spared_forget hc hb ha).workOff _ _ i n hi hn
  have hin : (i, Frame.message n) ∈ (b.obey (· == d) now c).2.filter (·.1 != d) := by
    rw [hothers]
    exact List.mem_filter.2 ⟨hn, by simpa using hi⟩
  exact hi ((hframes i n).1 (List.mem_filter.1 hin).1).1

include hc in
/-- Without waste, the brokers are alike once no pull of the inbox is left. -/
theorem alike_iff (hb : b.Shaped) (ha : b.agenda = [])
    (hno : ∀ m, (d, Frame.message m) ∉ (b.obey (· == d) now c).2) :
    Alike d (b.obey (· == d) now c) ((b.forget d).obey (· == d) now c) ↔
      ∀ p ∈ (b.obey (· == d) now c).1.waiting, p.inbox ≠ d := by
  have hkept : ∀ p ∈ (b.forget d).waiting, p.inbox ≠ d := fun p hp =>
    bne_iff_ne.1 (List.mem_filter.1 hp).2
  obtain ⟨hcursor, hdelivered, hin, hout⟩ := obey_unheard hb ha hc hno
  by_cases hcrowd : ∃ inbox r, c = .pull inbox r ∧ b.CrowdedOut d inbox r
  · obtain ⟨inbox, r, hp, hr⟩ := hcrowd
    obtain ⟨_, hw, _, hw'⟩ := hout inbox r hp hr
    refine ⟨fun ⟨_, _, he, _⟩ p hp => ?_, fun hnone => ?_⟩
    · rw [he, hw'] at hp
      rcases List.mem_append.1 hp with hp | hp
      · exact hkept p hp
      · rw [List.mem_singleton.1 hp]
        exact hr.other
    · rw [hw] at hnone
      have hsame : (b.forget d).waiting = b.waiting := waiting_without hnone
      exact absurd (hsame ▸ hr.room) hr.refused
  · obtain ⟨hframes, hw, _⟩ := hin fun inbox r hp hr => hcrowd ⟨inbox, r, hp, hr⟩
    refine ⟨fun ⟨_, _, he, _⟩ p hp => ?_, fun hnone => ⟨hcursor, hdelivered, ?_, ?_⟩⟩
    · rw [he, ← hw] at hp
      exact bne_iff_ne.1 (List.mem_filter.1 hp).2
    · exact (waiting_without hnone).symm.trans hw
    · rw [← hframes, List.filter_filter]
      exact List.filter_congr fun _ _ => (Bool.and_self _).symm

end Forgotten

/-- A broker that has not noticed that the feed of `d` is gone does what it is told as one that
has forgotten `d` before, exactly if no message is wasted on the feed and no pull of `d` is left
in the queue. A message is handed to the feed only if it is wasted; then it is counted, and nobody
else gets it. If none is wasted, the cursor and the count of deliveries are the same, and so are
the frames for all others and the pulls of all others in the queue, but for a pull that is
refused since the pulls of `d` leave no room for it. -/
theorem unnoticed_as_forgotten (l : Limits) (es : List Event) (now : Nat) (d : String)
    (c : Command) (hc : (∃ m, c = .publish m) ∨ ∃ inbox r, c = .pull inbox r) :
    let b := es.foldl react (start l)
    b.agenda = [] →
    let y := b.obey (· == d) now c
    let z := (b.forget d).obey (· == d) now c
    y.1.agenda = [] ∧ z.1.agenda = [] ∧
      (Alike d y z ↔ (∀ m, ¬b.Wastes now d c m) ∧ ∀ p ∈ y.1.waiting, p.inbox ≠ d) ∧
      (∀ m, (d, Frame.message m) ∈ y.2 ↔ b.Wastes now d c m) ∧
      (∀ m, b.Wastes now d c m → y.1.cursor = b.cursor + 1 ∧ y.1.delivered = b.delivered + 1 ∧
        y.1.knows d = false ∧ ∀ i n, (i, Frame.message n) ∈ y.2 ↔ i = d ∧ n = m) ∧
      ((∀ m, ¬b.Wastes now d c m) →
        y.1.cursor = z.1.cursor ∧ y.1.delivered = z.1.delivered ∧
        ((∀ inbox r, c = .pull inbox r → ¬b.CrowdedOut d inbox r) →
          y.2.filter (·.1 != d) = z.2 ∧ (y.1.waiting.filter fun p => p.inbox != d) = z.1.waiting ∧
          ((∃ f, (d, f) ∈ y.2) → y.1.waiting = z.1.waiting)) ∧
        ∀ inbox r, c = .pull inbox r → b.CrowdedOut d inbox r →
          y.2 = [(inbox, .status (refusal r Code.conflict StatusText.exceededMaxWaiting))] ∧
          y.1.waiting = b.waiting ∧ z.2 = [] ∧ z.1.waiting = (b.forget d).waiting ++
            [WaitingPull.ofRequest inbox r now l.heartbeats]) := by
  intro b ha y z
  have hb : b.Shaped := shaped_run l es
  have hunheard : (∀ m, ¬b.Wastes now d c m) → ∀ m, (d, Frame.message m) ∉ y.2 :=
    fun hno m hm => hno m ((message_iff_wastes hc hb ha m).1 hm)
  refine ⟨agenda_workOff (Nat.le_of_eq List.length_replicate.symm),
    agenda_workOff (Nat.le_of_eq List.length_replicate.symm), ?_, message_iff_wastes hc hb ha,
    fun m hm => obey_of_wastes hc hb ha hm, fun hno => ?_⟩
  · by_cases hwaste : ∃ m, b.Wastes now d c m
    · obtain ⟨m, hm⟩ := hwaste
      exact ⟨fun h => absurd h (not_alike_of_wastes hc hb ha hm), fun h => absurd hm (h.1 m)⟩
    · have hno := not_exists.1 hwaste
      rw [alike_iff hc hb ha (hunheard hno)]
      exact ⟨fun h => ⟨hno, h⟩, fun h => h.2⟩
  · rw [← limits_run l es]
    exact obey_unheard hb ha hc (hunheard hno)

/-- Five messages of at most ten bytes. -/
def tenBytes : PullRequest :=
  ⟨5, 10, none, none, false, by decide, PullRequest.none_ne_zero, PullRequest.none_ne_zero⟩

/-- Five messages of any size. -/
def five : PullRequest :=
  ⟨5, 0, none, none, false, by decide, PullRequest.none_ne_zero, PullRequest.none_ne_zero⟩

/-- Two inboxes pull one after the other. -/
def queued (first second : String × PullRequest) : List Event :=
  [.command 0 (.register first.1), .command 0 (.register second.1),
    .command 0 (.pull first.1 first.2), .chore 0 false,
    .command 0 (.pull second.1 second.2), .chore 0 false]

/-- A message of twelve bytes. -/
def twelveBytes : Message := .plain "ab" ⟨#[1, 2, 3, 4, 5, 6, 7, 8, 9, 10]⟩

/-- The pull whose feed is gone comes first, and the message passes its budget: the broker
notices as it sends the status, and the message goes to the next pull. -/
theorem refused_then_next :
    let b := (queued ("d", tenBytes) ("a", five)).foldl react (start .default)
    let y := b.obey (· == "d") 0 (.publish twelveBytes)
    let z := (b.forget "d").obey (· == "d") 0 (.publish twelveBytes)
    b.agenda = [] ∧ y.2 = [("d", .status (refusal tenBytes Code.conflict
      StatusText.messageTooLarge)), ("a", .message twelveBytes)] ∧ Alike "d" y z := by
  intro b y z
  have ha : b.agenda = [] := by decide
  have hy : y.2 = [("d", .status (refusal tenBytes Code.conflict StatusText.messageTooLarge)),
      ("a", .message twelveBytes)] := by decide +kernel
  obtain ⟨_, _, halike, hheard, _⟩ := unnoticed_as_forgotten .default
    (queued ("d", tenBytes) ("a", five)) 0 "d" (.publish twelveBytes) (Or.inl ⟨_, rfl⟩) ha
  refine ⟨ha, hy, halike.2 ⟨fun m hm => ?_, by decide +kernel⟩⟩
  have hd := (hheard m).2 hm
  rw [show _ = y.2 from rfl, hy] at hd
  simp at hd

/-- The same pulls, and the first one takes the message: it is lost and counted, where a broker
that had forgotten the inbox would have sent it to the next pull. -/
theorem lost_to_next :
    let b := (queued ("d", five) ("a", five)).foldl react (start .default)
    let y := b.obey (· == "d") 0 (.publish twelveBytes)
    let z := (b.forget "d").obey (· == "d") 0 (.publish twelveBytes)
    b.agenda = [] ∧ b.knows "d" = true ∧ y.1.delivered = 1 ∧
      y.2 = [("d", .message twelveBytes)] ∧ z.2 = [("a", .message twelveBytes)] ∧
      ¬Alike "d" y z := by
  intro b y z
  have hy : y.2 = [("d", .message twelveBytes)] := by decide +kernel
  have hz : z.2 = [("a", .message twelveBytes)] := by decide +kernel
  refine ⟨by decide, by decide, by decide +kernel, hy, hz, fun h => ?_⟩
  have hframes := h.2.2.2
  rw [hy, hz] at hframes
  simp at hframes

end State

end DemandFlow.Broker
