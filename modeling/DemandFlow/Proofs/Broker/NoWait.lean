import DemandFlow.Proofs.Broker.Portion
import DemandFlow.Proofs.Broker.WorkOff

/-
  A pull that does not wait. It is taken on behind everyone who waits, the stream is handed out,
  and then the pull that was taken on last for its inbox is ended. That this is never an older
  pull of the same inbox comes from the shape of a broker at rest: either nobody waited before, or
  nothing is unread, and then handing out leaves the new pull in its place. So the answer is
  complete once the chores are done, and whoever waited before waits on.
-/

namespace DemandFlow.Broker

/-! ## What follows the messages -/

/-- A status that ends a request for which these messages were sent. -/
def leftover (r : PullRequest) (ms : List Message) (code : Nat) (text : String) : Status :=
  (Status.plain code text).withHeaders
    (Status.pendingHeaders (r.batch - ms.length) (r.maxBytes - weigh ms))

/-- What follows the messages: nothing where they fill the batch; a conflict where the bytes stop
the request first, since they are spent or since the next message passes them; else the status
that no more messages are there. -/
def ending (r : PullRequest) (offered ms : List Message) : List Frame :=
  if ms.length = r.batch then []
  else if 0 < r.maxBytes ∧ (weigh ms = r.maxBytes ∨ ms.length < offered.length) then
    [.status (leftover r ms Code.conflict
      (if ms.isEmpty then StatusText.messageTooLarge else StatusText.batchCompleted))]
  else [.status (leftover r ms Code.notFound StatusText.noMessages)]

section Endings

variable {r : PullRequest} {p : WaitingPull} {offered ms : List Message} {m : Message}

theorem closing_eq_leftover (h : Serving r p ms) (code : Nat) (text : String) :
    p.closing code text = leftover r ms code text := by
  have hm : p.messages = r.batch - ms.length := by
    have := h.messages
    omega
  have hb : p.bytes.getD 0 = r.maxBytes - weigh ms := by
    rw [bytes_left h]
    split <;> omega
  unfold WaitingPull.closing leftover
  rw [hm, hb]

theorem ending_of_filled (h : ms.length = r.batch) : ending r offered ms = [] := if_pos h

theorem not_filled (h : Serving r p ms) : ms.length ≠ r.batch := by
  have := h.pos
  have := h.messages
  omega

theorem ending_of_stopped (h : Serving r p ms) (hb : 0 < r.maxBytes)
    (hs : weigh ms = r.maxBytes ∨ ms.length < offered.length) :
    ending r offered ms = [.status (p.closing Code.conflict
      (if ms.isEmpty then StatusText.messageTooLarge else StatusText.batchCompleted))] := by
  unfold ending
  rw [if_neg (not_filled h), if_pos ⟨hb, hs⟩, closing_eq_leftover h]

theorem ending_of_short (h : Serving r p offered) (hw : p.Wanting) :
    ending r offered offered = [.status (p.closing Code.notFound StatusText.noMessages)] := by
  have hopen : ¬(0 < r.maxBytes ∧
      (weigh offered = r.maxBytes ∨ offered.length < offered.length)) := by
    rintro ⟨hb, hsp | hlt⟩
    · obtain ⟨left, hl, hsum⟩ := h.bytes hb
      exact hw.bytes (by rw [hl]; congr 1; omega)
    · exact Nat.lt_irrefl _ hlt
  unfold ending
  rw [if_neg (not_filled h), if_neg hopen, closing_eq_leftover h]

theorem admits_of_serving (h : Serving r p ms) : r.Admits ms :=
  ⟨by have := h.messages; omega, weigh_le h⟩

/-- A message that a pull does not refuse is within what was asked for. -/
theorem admits_snoc (h : Serving r p ms) (hm : p.refuses m.size = false) :
    r.Admits (ms ++ [m]) := by
  refine ⟨?_, fun hb => ?_⟩
  · have := h.pos
    have := h.messages
    rw [List.length_append, List.length_singleton]
    omega
  · obtain ⟨left, hl, hsum⟩ := h.bytes hb
    have hle : m.size ≤ left := by simpa [WaitingPull.refuses, hl] using hm
    rw [weigh_snoc]
    omega

/-- A message that a pull refuses passes the budget of its request. -/
theorem passes_of_refuses (h : Serving r p ms) (hm : p.refuses m.size = true) :
    0 < r.maxBytes ∧ r.maxBytes < weigh ms + m.size := by
  have hb : 0 < r.maxBytes := by
    refine Nat.pos_of_ne_zero fun hz => ?_
    rw [WaitingPull.refuses, h.unbudgeted hz] at hm
    cases hm
  obtain ⟨left, hl, hsum⟩ := h.bytes hb
  have hlt : left < m.size := by simpa [WaitingPull.refuses, hl] using hm
  exact ⟨hb, by omega⟩

/-- A pull that has spent its bytes has sent as much as its budget. -/
theorem weigh_of_spent (h : Serving r p ms) (hs : p.isSpent = true) :
    0 < r.maxBytes ∧ weigh ms = r.maxBytes := by
  have hz : p.bytes = some 0 := by simpa [WaitingPull.isSpent] using hs
  have hb : 0 < r.maxBytes := by
    refine Nat.pos_of_ne_zero fun hn => ?_
    rw [h.unbudgeted hn] at hz
    cases hz
  obtain ⟨left, hl, hsum⟩ := h.bytes hb
  rw [hz] at hl
  cases hl
  exact ⟨hb, hsum⟩

end Endings

namespace State

/-- The messages that were not handed out yet. -/
def unread (b : State) : List Message := b.stream.toList.drop b.cursor

/-! ## How far the answer is -/

/-- A pull is served for `r`: it waits behind others only where nothing is on offer. -/
structure Drawing (r : PullRequest) (inbox : String) (w : List WaitingPull)
    (offered : List Message) (p : WaitingPull) (ms : List Message) : Prop where
  serves : Serving r p ms
  wants : p.Wanting
  own : p.inbox = inbox
  begun : p.begun = !ms.isEmpty
  leads : ms <+: offered
  alone : w = [] ∨ offered = []

/-- How far the answer to `r` is: the chores that are left besides posts, the pulls that wait, the
messages that it got, and all frames for it. Before it `w` waited, and `offered` was unread. -/
inductive Answering (r : PullRequest) (inbox : String) (w : List WaitingPull)
    (offered : List Message) :
    List Chore → List WaitingPull → List Message → List Frame → Prop
  | drawing {p : WaitingPull} {ms : List Message} (draws : Drawing r inbox w offered p ms) :
    Answering r inbox w offered [.handOut, .endNoWait inbox] (w ++ [p]) ms (ms.map .message)
  /-- It got all there is, and more was asked for. -/
  | short {p : WaitingPull} (draws : Drawing r inbox w offered p offered) :
    Answering r inbox w offered [.endNoWait inbox] (w ++ [p]) offered (offered.map .message)
  /-- It is answered, and the chores that are left do nothing. -/
  | answered {tasks : List Chore} {ms : List Message} (longest : r.Longest offered ms)
    (left : tasks <:+ [.handOut, .endNoWait inbox]) (idle : tasks = [] ∨ w = []) :
    Answering r inbox w offered tasks w ms (ms.map .message ++ ending r offered ms)

variable {b y : State} {inbox : String} {r : PullRequest} {sent : List Frame} {rest : List Chore}
  {p : WaitingPull} {ps : List WaitingPull} {ms : List Message} {m : Message} {t : Nat}

/-- How far a broker `y` is that was `b` before the request came, with these frames sent. -/
def Answers (b : State) (inbox : String) (r : PullRequest) (y : State) (sent : List Frame) : Prop :=
  ∃ tasks fs ms, y.agenda = fs.map (Chore.post inbox) ++ tasks ∧ y.stream = b.stream ∧
    y.cursor = b.cursor + ms.length ∧
    Answering r inbox b.waiting b.unread tasks y.waiting ms (sent ++ fs)

theorem Answering.not_post {w ps : List WaitingPull} {offered : List Message}
    {tasks : List Chore} {fs : List Frame} (h : Answering r inbox w offered tasks ps ms fs) :
    ∀ c ∈ tasks, c.isPost = false := by
  have hall : ∀ c ∈ [Chore.handOut, .endNoWait inbox], c.isPost = false := by simp [Chore.isPost]
  cases h with
  | drawing => exact hall
  | short => exact fun c hc => hall c (List.mem_cons_of_mem _ hc)
  | answered _ left => exact fun c hc => hall c (left.subset hc)

/-- The next chore posts the first frame that was not sent, or else is no post. -/
theorem Answers.next (h : Answers b inbox r y sent) {c : Chore} (ha : y.agenda = c :: rest) :
    (∃ f, c = .post inbox f ∧ Answers b inbox r { y with agenda := rest } (sent ++ [f])) ∨
    (c.isPost = false ∧ ∃ ms, y.stream = b.stream ∧ y.cursor = b.cursor + ms.length ∧
      Answering r inbox b.waiting b.unread (c :: rest) y.waiting ms sent) := by
  obtain ⟨tasks, fs, ms, hag, hs, hc, hans⟩ := h
  rw [ha] at hag
  cases fs with
  | nil =>
    rw [List.append_nil] at hans
    rw [List.map_nil, List.nil_append] at hag
    rw [← hag] at hans
    exact Or.inr ⟨hans.not_post c List.mem_cons_self, ms, hs, hc, hans⟩
  | cons f fs =>
    obtain ⟨rfl, rfl⟩ := List.cons.inj hag
    refine Or.inl ⟨f, rfl, tasks, fs, ms, rfl, hs, hc, ?_⟩
    rwa [List.append_assoc]

/-! ## Handing out -/

theorem snoc_prefix_unread (hl : ms <+: b.unread)
    (hm : b.stream[b.cursor + ms.length]? = some m) : ms ++ [m] <+: b.unread := by
  obtain ⟨more, hmore⟩ := hl
  have hget : b.unread[ms.length]? = some m := by
    rw [unread, List.getElem?_drop, Array.getElem?_toList]
    exact hm
  cases more with
  | nil =>
    rw [← hmore, List.append_nil, List.getElem?_eq_none (Nat.le_refl _)] at hget
    cases hget
  | cons k more =>
    rw [← hmore, List.getElem?_append_right (Nat.le_refl _), Nat.sub_self] at hget
    cases hget
    exact ⟨more, by rw [← hmore, List.append_assoc]; rfl⟩

theorem eq_unread (hl : ms <+: b.unread) (he : b.stream.size ≤ b.cursor + ms.length) :
    ms = b.unread := by
  refine hl.eq_of_length_le ?_
  rw [unread, List.length_drop, Array.length_toList]
  omega

/-- Where nobody waited before, the pull is done once it has got the longest prefix, and handing
out and ending it are left. -/
theorem answering_done (hempty : b.waiting = []) (hlong : r.Longest b.unread ms) :
    Answering r inbox b.waiting b.unread [.handOut, .endNoWait inbox] [] ms
      (ms.map .message ++ ending r b.unread ms) := by
  rw [hempty]
  exact .answered hlong (List.suffix_refl _) (Or.inr rfl)

/-- A chore that finds nobody in the queue leaves the answer as it is. -/
theorem answers_of_done {c : Chore} (hlong : r.Longest b.unread ms)
    (left : c :: rest <:+ [.handOut, .endNoWait inbox]) (hempty : b.waiting = [])
    (hs : y.stream = b.stream) (hc : y.cursor = b.cursor + ms.length)
    (hw : y.waiting = b.waiting) :
    Answers b inbox r { y with agenda := rest } (ms.map .message ++ ending r b.unread ms) := by
  refine ⟨rest, [], ms, rfl, hs, hc, ?_⟩
  rw [List.append_nil]
  show Answering r inbox b.waiting b.unread rest y.waiting ms _
  rw [hw]
  exact .answered hlong ((List.suffix_cons _ _).trans left) (Or.inr hempty)

section Draws

variable (hz : b.Sized) (h : Drawing r inbox b.waiting b.unread p ms)
  (ha : y.agenda = [.endNoWait inbox]) (hs : y.stream = b.stream)
  (hc : y.cursor = b.cursor + ms.length) (hw : y.waiting = b.waiting ++ [p])

include h in
/-- A pull that finds a message waits alone. -/
theorem Drawing.waiting_eq_nil (hm : ms ++ [m] <+: b.unread) : b.waiting = [] :=
  h.alone.resolve_right fun e => by
    rw [e, List.prefix_nil] at hm
    exact List.append_ne_nil_of_right_ne_nil ms (List.cons_ne_nil m []) hm

include hz in
theorem Sized.longest {ns : List Message} (hl : ns <+: b.unread) (ha : r.Admits ns)
    (hst : r.Stuck b.unread ns ∨ ns = b.unread) : r.Longest b.unread ns :=
  PullRequest.longest_of_stuck hl ha (fun m hm => hz m (List.mem_of_mem_drop hm)) hst

include h ha hs hc hw in
/-- Nothing more is there. -/
theorem Drawing.handOut_end (hm : y.stream[y.cursor]? = none) :
    Answers b inbox r (y.handOut t) (ms.map .message) := by
  have hsz := Array.getElem?_eq_none_iff.1 hm
  have hall := eq_unread h.leads (by rw [← hs, ← hc]; exact hsz)
  rw [handOut_of_end hsz]
  refine ⟨_, [], ms, ha, hs, hc, ?_⟩
  rw [hw, hall, List.append_nil]
  exact .short (hall ▸ h)

include hz h ha hs hc hw in
/-- The next message passes the budget. -/
theorem Drawing.handOut_refused (hm : y.stream[y.cursor]? = some m)
    (hnext : ms ++ [m] <+: b.unread) (hr : p.refuses m.size = true) :
    Answers b inbox r (y.handOut t) (ms.map .message) := by
  obtain ⟨hb, hover⟩ := passes_of_refuses h.serves hr
  have hmore : ms.length < b.unread.length := by
    have := hnext.length_le
    rwa [List.length_append, List.length_singleton] at this
  have hempty := h.waiting_eq_nil hnext
  have htext : stopText p =
      if ms.isEmpty then StatusText.messageTooLarge else StatusText.batchCompleted := by
    unfold stopText
    rw [h.begun]
    cases ms.isEmpty <;> rfl
  rw [handOut_of_refuses hm (hw.trans (by rw [hempty]; rfl)) hr, h.own, ha, htext]
  refine ⟨_, [_], ms, rfl, hs, hc, ?_⟩
  rw [← ending_of_stopped h.serves hb (Or.inr hmore)]
  exact answering_done hempty (hz.longest h.leads (admits_of_serving h.serves)
    (Or.inl (Or.inr ⟨m, hnext, hb, hover⟩)))

include hz h ha hs hc hw in
/-- The next message is sent: it fills the pull, or spends its bytes, or the pull goes on. -/
theorem Drawing.handOut_taken (hm : y.stream[y.cursor]? = some m)
    (hnext : ms ++ [m] <+: b.unread) (hr : p.refuses m.size = false) :
    Answers b inbox r (y.handOut t) (ms.map .message) := by
  have hempty := h.waiting_eq_nil hnext
  have hadm := admits_snoc h.serves hr
  have hcursor : y.cursor + 1 = b.cursor + (ms ++ [m]).length := by
    rw [hc, List.length_append, List.length_singleton, Nat.add_assoc]
  have hsent : ms.map Frame.message ++ [.message m] = (ms ++ [m]).map .message := by simp
  rw [handOut_of_takes hm (hw.trans (by rw [hempty]; rfl)) hr]
  cases hf : (p.charged m.size t).isFilled with
  | true =>
    have hfull : (ms ++ [m]).length = r.batch := by
      have := h.serves.messages
      have := h.serves.pos
      have hz : p.messages - 1 = 0 := by simpa [WaitingPull.isFilled, WaitingPull.charged] using hf
      rw [List.length_append, List.length_singleton]
      omega
    refine ⟨[.handOut, .endNoWait inbox], [.message m], ms ++ [m], ?_, hs, hcursor, ?_⟩
    · simp [first, handed, hf, ha, WaitingPull.inbox_charged, h.own]
    · rw [hsent, ← List.append_nil (List.map _ _), ← ending_of_filled hfull]
      exact answering_done hempty
        (hz.longest hnext hadm (Or.inl (Or.inl (Or.inl (Nat.le_of_eq hfull.symm)))))
  | false =>
    have hserves := serving_charged h.serves hr hf
    cases hsp : (p.charged m.size t).isSpent with
    | true =>
      obtain ⟨hb, hspent⟩ := weigh_of_spent hserves hsp
      refine ⟨[.handOut, .endNoWait inbox], [.message m, .status
        ((p.charged m.size t).closing Code.conflict StatusText.batchCompleted)], ms ++ [m], ?_, hs,
        hcursor, ?_⟩
      · simp [first, handed, hf, hsp, ha, WaitingPull.inbox_charged, h.own]
      · have hend : ending r b.unread (ms ++ [m]) = [.status
            ((p.charged m.size t).closing Code.conflict StatusText.batchCompleted)] := by
          rw [ending_of_stopped hserves hb (Or.inl hspent), if_neg (by simp)]
        rw [List.append_cons (ms.map Frame.message), hsent, ← hend]
        exact answering_done hempty
          (hz.longest hnext hadm (Or.inl (Or.inl (Or.inr ⟨hb, Nat.le_of_eq hspent.symm⟩))))
    | false =>
      have hwants : (p.charged m.size t).Wanting :=
        WaitingPull.wanting_charged (by rw [hf, hsp]; rfl)
      refine ⟨[.handOut, .endNoWait inbox], [.message m], ms ++ [m], ?_, hs, hcursor, ?_⟩
      · simp [first, handed, hf, hsp, ha, WaitingPull.inbox_charged, h.own]
      · have hgoes : Drawing r inbox b.waiting b.unread (p.charged m.size t) (ms ++ [m]) :=
          ⟨hserves, hwants, h.own, by simp [WaitingPull.charged], hnext, h.alone⟩
        have hstays : b.waiting ++ [p.charged m.size t] = [p.charged m.size t] := by
          rw [hempty]
          rfl
        rw [hsent]
        show Answering r inbox b.waiting b.unread _ [p.charged m.size t] _ _
        rw [← hstays]
        exact .drawing hgoes

end Draws

theorem Answers.handOut (hz : b.Sized) (h : Answers b inbox r y sent)
    (ha : y.agenda = .handOut :: rest) :
    Answers b inbox r (({ y with agenda := rest } : State).handOut t) sent := by
  obtain ⟨_, hno, _⟩ | ⟨_, ms, hs, hc, hans⟩ := h.next ha
  · cases hno
  · obtain ⟨ps, hw⟩ : ∃ ps, y.waiting = ps := ⟨_, rfl⟩
    rw [hw] at hans
    cases hans with
    | drawing draws =>
      cases hm : y.stream[y.cursor]? with
      | none => exact draws.handOut_end (y := { y with agenda := _ }) rfl hs hc hw hm
      | some m =>
        have hnext := snoc_prefix_unread draws.leads (by rw [← hs, ← hc]; exact hm)
        rename_i p
        cases hr : p.refuses m.size with
        | true =>
          exact draws.handOut_refused (y := { y with agenda := _ }) hz rfl hs hc hw hm hnext hr
        | false =>
          exact draws.handOut_taken (y := { y with agenda := _ }) hz rfl hs hc hw hm hnext hr
    | answered longest left idle =>
      have hnone := idle.resolve_left (List.cons_ne_nil _ _)
      rw [handOut_of_idle (b := { y with agenda := rest }) (hw.trans hnone)]
      exact answers_of_done longest left hnone hs hc hw

/-! ## Ending the pull -/

/-- The pull that is ended is the one that came last. -/
theorem endNoWait_snoc (hw : y.waiting = ps ++ [p]) (hp : p.inbox = inbox) :
    y.endNoWait inbox = { y with waiting := ps }.first
      [.post inbox (.status (p.closing Code.notFound StatusText.noMessages))] := by
  rcases endNoWait_cases inbox y with ⟨_, hnone⟩ | ⟨q, before, after, _, hq, hafter, he⟩
  · exact absurd hp (hnone p (by rw [hw]; exact List.mem_append_right _ List.mem_cons_self))
  · rw [hw] at hq
    rcases List.eq_nil_or_concat' after with rfl | ⟨front, last, rfl⟩
    · obtain ⟨rfl, hpq⟩ := List.append_inj' hq rfl
      cases hpq
      rw [he, List.append_nil]
    · rw [← List.cons_append, ← List.append_assoc] at hq
      obtain ⟨_, hlast⟩ := List.append_inj' hq rfl
      cases hlast
      exact absurd hp (hafter p (List.mem_append_right _ List.mem_cons_self))

theorem endNoWait_of_idle (hw : y.waiting = []) : y.endNoWait inbox = y := by
  unfold State.endNoWait removeLast
  rw [hw]

theorem Answers.endNoWait (hz : b.Sized) (h : Answers b inbox r y sent) {i : String}
    (ha : y.agenda = .endNoWait i :: rest) :
    Answers b inbox r (({ y with agenda := rest } : State).endNoWait i) sent := by
  obtain ⟨_, hno, _⟩ | ⟨_, ms, hs, hc, hans⟩ := h.next ha
  · cases hno
  · obtain ⟨ps, hw⟩ : ∃ ps, y.waiting = ps := ⟨_, rfl⟩
    rw [hw] at hans
    cases hans with
    | short draws =>
      rw [endNoWait_snoc (y := { y with agenda := [] }) hw draws.own]
      refine ⟨[], [_], b.unread, rfl, hs, hc, ?_⟩
      rw [← ending_of_short draws.serves draws.wants]
      have hlong := hz.longest (List.prefix_refl _) (admits_of_serving draws.serves) (Or.inr rfl)
      exact .answered hlong List.nil_suffix (Or.inl rfl)
    | answered longest left idle =>
      have hnone := idle.resolve_left (List.cons_ne_nil _ _)
      rw [endNoWait_of_idle (y := { y with agenda := rest }) (hw.trans hnone)]
      exact answers_of_done longest left hnone hs hc hw

/-! ## The whole answer -/

/-- Each chore keeps the answer going, as long as the feed of the inbox is open. -/
theorem Answers.chore (hz : b.Sized) {gone : String → Bool} (ho : gone inbox = false)
    (h : Answers b inbox r y sent) :
    ∃ more, y.handsOver (y.chore gone t) = more.map (inbox, ·) ∧
      Answers b inbox r (y.react (y.chore gone t)) (sent ++ more) := by
  rcases chore_cases gone t y with ⟨_, hb, hh⟩ | ⟨i, f, rest, ha, hb, hh⟩ | ⟨rest, ha, hb, hh⟩ |
    ⟨i, rest, ha, hb, hh⟩ <;> rw [hb, hh]
  · exact ⟨[], rfl, by rwa [List.append_nil]⟩
  · obtain ⟨g, hg, hnext⟩ | ⟨hno, _⟩ := h.next ha
    · cases hg
      refine ⟨[f], rfl, ?_⟩
      unfold told
      rw [ho]
      exact hnext
    · cases hno
  · exact ⟨[], rfl, by rw [List.append_nil]; exact h.handOut hz ha⟩
  · exact ⟨[], rfl, by rw [List.append_nil]; exact h.endNoWait hz ha⟩

/-- The answer begins when the request is taken on. -/
theorem answers_pull (hb : b.Shaped) (ha : b.agenda = []) (hk : b.knows inbox = true)
    (hn : r.noWait = true) (hr : b.limits.refusal? b.waiting.length r = none) (now : Nat) :
    Answers b inbox r (b.react (.command now (.pull inbox r))) [] := by
  have htaken : b.react (.command now (.pull inbox r)) = b.request now inbox r :=
    react_command_of_rest ha now _
  have halone : b.waiting = [] ∨ b.unread = [] := (hb.at_rest ha).1.imp_right fun hc =>
    List.drop_eq_nil_of_le (by rw [hc, Array.length_toList])
  rw [htaken]
  rcases request_cases now inbox r b with ⟨hno, _⟩ | ⟨s, _, hs, _⟩ | ⟨_, _, he⟩
  · rw [hk] at hno
    cases hno
  · rw [hr] at hs
    cases hs
  · rw [he, if_pos hn]
    refine ⟨_, [], [], ?_, rfl, rfl, .drawing (p := .ofRequest inbox r now b.limits.heartbeats)
      ⟨serving_ofRequest r inbox now _, WaitingPull.wanting_ofRequest inbox r now _, rfl, rfl,
        List.nil_prefix, halone⟩⟩
    show [Chore.handOut, .endNoWait inbox] ++ b.agenda = _
    rw [ha]
    rfl

/-- Once the chores are done, the request is answered and nobody else was disturbed. -/
theorem Answers.answered (h : Answers b inbox r y sent) (ha : y.agenda = []) :
    y.waiting = b.waiting ∧ ∃ ms, r.Longest b.unread ms ∧ y.cursor = b.cursor + ms.length ∧
      sent = ms.map .message ++ ending r b.unread ms := by
  obtain ⟨tasks, fs, ms, hag, hs, hc, hans⟩ := h
  obtain ⟨hfs, rfl⟩ := List.append_eq_nil_iff.1 (hag.symm.trans ha)
  obtain rfl := List.map_eq_nil_iff.1 hfs
  obtain ⟨ps, hw⟩ : ∃ ps, y.waiting = ps := ⟨_, rfl⟩
  rw [hw, List.append_nil] at hans
  cases hans with
  | answered longest => exact ⟨hw, ms, longest, hc, rfl⟩

theorem ending_of_none (r : PullRequest) :
    ending r [] [] = [.status (refusal r Code.notFound StatusText.noMessages)] := by
  have hlen : ([] : List Message).length ≠ r.batch := Nat.ne_of_lt r.batch_pos
  unfold ending
  rw [if_neg hlen, if_neg]
  · rfl
  · rintro ⟨hb, hz | hlt⟩
    · exact Nat.ne_of_lt hb hz
    · exact Nat.lt_irrefl _ hlt

/-- A broker that took on a pull that does not wait, on an inbox whose feed is open, has answered
it when all chores are done, and the pulls that waited before are the ones that wait. Where
somebody waited, or nothing was unread, the inbox gets one status with all that was asked for.
Else it gets the longest prefix of the unread messages that the request admits, and what follows
it: nothing where the batch is filled, a conflict where the bytes stop it first, and else the
status that carries back what is left. -/
theorem answered_at_once (l : Limits) (es : List Event) (hes : ∀ e ∈ es, e.Addressed) (now : Nat)
    (inbox : String) (r : PullRequest) (gone : String → Bool) (ts : List Nat) :
    let b := es.foldl react (start l)
    b.agenda = [] → b.knows inbox = true → gone inbox = false → r.noWait = true →
    l.refusal? b.waiting.length r = none →
    (b.react (.command now (.pull inbox r))).burden ≤ ts.length →
    let y := (b.react (.command now (.pull inbox r))).workOff gone ts
    y.1.agenda = [] ∧ y.1.waiting = b.waiting ∧
      (b.waiting ≠ [] ∨ b.unread = [] →
        y.2 = [(inbox, .status (refusal r Code.notFound StatusText.noMessages))]) ∧
      (b.waiting = [] → b.unread ≠ [] → ∃ ms, r.Longest b.unread ms ∧
        y.2 = (ms.map Frame.message ++ ending r b.unread ms).map (inbox, ·) ∧
        y.1.cursor = b.cursor + ms.length) := by
  intro b ha hk ho hn hr hts y
  have hb : b.Shaped := shaped_run l es
  have hz : b.Sized := sized_run l hes
  rw [← limits_run l es] at hr
  obtain ⟨sent, hout, hans⟩ : ∃ sent : List Frame, y.2 = sent.map (inbox, ·) ∧
      Answers b inbox r y.1 sent :=
    workOff_induction (P := fun y out => ∃ sent, out = sent.map (inbox, ·) ∧
        Answers b inbox r y sent)
      (fun y out t ⟨sent, hout, h⟩ => by
        obtain ⟨more, hmore, h⟩ := h.chore (t := t) hz ho
        exact ⟨sent ++ more, by rw [hout, hmore, List.map_append], h⟩)
      ts [] ⟨[], rfl, answers_pull hb ha hk hn hr now⟩
  have hrest : y.1.agenda = [] := agenda_workOff hts
  obtain ⟨hw, ms, hlong, hc, rfl⟩ := hans.answered hrest
  refine ⟨hrest, hw, fun hnone => ?_, fun _ _ => ⟨ms, hlong, hout, hc⟩⟩
  have hunread : b.unread = [] := hnone.elim
    (fun hne => List.drop_eq_nil_of_le (by
      rw [((hb.at_rest ha).1.resolve_left hne), Array.length_toList])) id
  have hnil : ms = [] := List.prefix_nil.1 (hunread ▸ hlong.leads)
  rwa [hunread, hnil, ending_of_none] at hout

/-- Two messages of twenty bytes each, as they are stored. -/
def twoMessages : List Message :=
  [Message.plain "s" ⟨#[7]⟩, .plain "s" ⟨#[8]⟩].zipIdx 1 |>.map fun e =>
    e.1.withReply (Exchange.ackSubject e.2)

/-- An inbox is registered, and two messages are published that nobody waits for. -/
def supplied : List Event :=
  .command 0 (.register "a") ::
    twoMessages.flatMap fun m => [.command 0 (.publish m), .chore 0 false]

/-- Two messages of at most thirty bytes, at once. -/
def thirtyBytes : PullRequest :=
  ⟨2, 30, none, none, true, Nat.two_pos, PullRequest.none_ne_zero, PullRequest.none_ne_zero⟩

/-- The first message is sent, and the second one passes what is left of the bytes. -/
theorem thirtyBytes_answered :
    let b := supplied.foldl react (start .default)
    let y := (b.react (.command 1 (.pull "a" thirtyBytes))).workOff (fun _ => false)
      (List.replicate 10 1)
    (∀ e ∈ supplied, e.Addressed) ∧ b.agenda = [] ∧ b.knows "a" = true ∧
      thirtyBytes.noWait = true ∧
      Limits.default.refusal? b.waiting.length thirtyBytes = none ∧
      (b.react (.command 1 (.pull "a" thirtyBytes))).burden ≤ (List.replicate 10 1).length ∧
      b.waiting = [] ∧ b.unread ≠ [] ∧
      y.2 = (twoMessages.take 1).map (("a", .message ·)) ++
        [("a", .status (leftover thirtyBytes (twoMessages.take 1) Code.conflict
          StatusText.batchCompleted))] ∧
      y.1.agenda = [] ∧ y.1.waiting = b.waiting ∧
      ∃ ms, thirtyBytes.Longest b.unread ms ∧
        y.2 = (ms.map Frame.message ++ ending thirtyBytes b.unread ms).map ("a", ·) ∧
        y.1.cursor = b.cursor + ms.length := by
  intro b y
  have hes : ∀ e ∈ supplied, e.Addressed := by
    intro e he
    rcases List.mem_cons.1 he with rfl | he
    · exact trivial
    · obtain ⟨m, hm, he⟩ := List.mem_flatMap.1 he
      obtain ⟨k, _, rfl⟩ := List.mem_map.1 hm
      rcases List.mem_cons.1 he with rfl | he
      · exact ⟨k.1, k.2, rfl⟩
      · rw [List.mem_singleton.1 he]
        exact trivial
  have ha : b.agenda = [] := by decide
  have hk : b.knows "a" = true := by decide
  have hr : Limits.default.refusal? b.waiting.length thirtyBytes = none := by decide
  have hts : (b.react (.command 1 (.pull "a" thirtyBytes))).burden ≤
      (List.replicate 10 1).length := by decide
  have hw : b.waiting = [] := by decide
  have hu : b.unread ≠ [] := List.cons_ne_nil _ _
  obtain ⟨hrest, hwait, _, hgets⟩ := answered_at_once .default supplied hes 1 "a" thirtyBytes
    (fun _ => false) (List.replicate 10 1) ha hk rfl rfl hr hts
  exact ⟨hes, ha, hk, rfl, hr, hts, hw, hu, by decide +kernel, hrest, hwait, hgets hw hu⟩

end State

end DemandFlow.Broker
