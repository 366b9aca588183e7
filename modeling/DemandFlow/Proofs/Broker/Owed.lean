import DemandFlow.Proofs.Broker.Steps
import DemandFlow.Proofs.Demand.Window
import Mathlib.Algebra.GroupWithZero.Nat

/-
  What a broker owes an inbox: the messages that its waiting pulls still ask for, and what the
  frames stand for that are still to be posted to it. Whatever way a pull goes (filled, out of
  bytes, refused, ended for want of messages, expired), the counts that leave the queue are
  those of the frames that are posted for it, so that nothing but a post changes the sum.
-/

namespace DemandFlow.Broker

/-! ## Counts for one inbox -/

/-- The messages that a command asks for on behalf of an inbox. -/
def Command.asks (inbox : String) : Command → Nat
  | .pull dest r => if dest = inbox then r.batch else 0
  | .publish _ | .register _ | .unsubscribe _ | .inject _ _ | .stats _ | .pullLog _ => 0

/-- The messages that a list of commands asks for on behalf of an inbox. -/
def asked (inbox : String) (cs : List Command) : Nat := (cs.map (Command.asks inbox)).sum

/-- The messages that a waiting pull still asks for on behalf of an inbox. -/
def WaitingPull.heldFor (inbox : String) (p : WaitingPull) : Nat :=
  if p.inbox = inbox then p.messages else 0

/-- The messages that waiting pulls still ask for on behalf of an inbox. -/
def held (inbox : String) (ps : List WaitingPull) : Nat :=
  (ps.map (WaitingPull.heldFor inbox)).sum

/-- The messages that a chore brings to an inbox. -/
def Chore.brings (inbox : String) : Chore → Nat
  | .post dest f => if dest = inbox then f.weight else 0
  | .handOut | .endNoWait _ => 0

/-- The messages that the posts among some chores bring to an inbox. -/
def posted (inbox : String) (cs : List Chore) : Nat := (cs.map (Chore.brings inbox)).sum

/-- The messages that some frames stand for. -/
def carried (fs : List Frame) : Nat := (fs.map Frame.weight).sum

theorem asked_cons (inbox : String) (c : Command) (cs : List Command) :
    asked inbox (c :: cs) = c.asks inbox + asked inbox cs := by
  simp only [asked, List.map_cons, List.sum_cons]

theorem asked_append (inbox : String) (cs ds : List Command) :
    asked inbox (cs ++ ds) = asked inbox cs + asked inbox ds := by
  simp only [asked, List.map_append, List.sum_append]

theorem held_cons (inbox : String) (p : WaitingPull) (ps : List WaitingPull) :
    held inbox (p :: ps) = p.heldFor inbox + held inbox ps := by
  simp only [held, List.map_cons, List.sum_cons]

theorem held_append (inbox : String) (ps qs : List WaitingPull) :
    held inbox (ps ++ qs) = held inbox ps + held inbox qs := by
  simp only [held, List.map_append, List.sum_append]

theorem posted_nil (inbox : String) : posted inbox [] = 0 := rfl

theorem posted_cons (inbox : String) (c : Chore) (cs : List Chore) :
    posted inbox (c :: cs) = c.brings inbox + posted inbox cs := by
  simp only [posted, List.map_cons, List.sum_cons]

theorem posted_append (inbox : String) (cs ds : List Chore) :
    posted inbox (cs ++ ds) = posted inbox cs + posted inbox ds := by
  simp only [posted, List.map_append, List.sum_append]

theorem carried_cons (f : Frame) (fs : List Frame) : carried (f :: fs) = f.weight + carried fs := by
  simp only [carried, List.map_cons, List.sum_cons]

theorem carried_append (fs gs : List Frame) : carried (fs ++ gs) = carried fs + carried gs := by
  simp only [carried, List.map_append, List.sum_append]

/-! ## Counts that fit -/

/-- A waiting pull asks for something, and its counts fit a word. -/
structure WaitingPull.Fits (p : WaitingPull) : Prop where
  pos : 0 < p.messages
  messages : p.messages ≤ Count.top
  bytes : p.bytes.getD 0 ≤ Count.top

/-- A post carries a frame whose counts are what the accounts will settle. -/
def Chore.Honest : Chore → Prop
  | .post _ f => f.Honest
  | .handOut | .endNoWait _ => True

theorem weight_closing {p : WaitingPull} (h : p.Fits) (code : Nat) (text : String) :
    (Frame.status (p.closing code text)).weight = p.messages :=
  Frame.weight_withHeaders _ _ h.messages

theorem honest_closing {p : WaitingPull} (h : p.Fits) {code : Nat} (hc : code ≠ Code.heartbeat)
    (text : String) : (Frame.status (p.closing code text)).Honest :=
  Frame.honest_withHeaders hc h.messages h.bytes

theorem weight_refusal {r : PullRequest} (h : r.Fits) (code : Nat) (text : String) :
    (Frame.status (refusal r code text)).weight = r.batch :=
  Frame.weight_withHeaders _ _ h.batch

theorem honest_refusal {r : PullRequest} (h : r.Fits) {code : Nat} (hc : code ≠ Code.heartbeat)
    (text : String) : (Frame.status (refusal r code text)).Honest :=
  Frame.honest_withHeaders hc h.batch h.maxBytes

/-- Whatever the reason, a refusal gives the whole request back. -/
theorem refusal?_eq_some {l : Limits} {n : Nat} {r : PullRequest} {s : Status}
    (h : l.refusal? n r = some s) :
    ∃ code text, code ≠ Code.heartbeat ∧ s = refusal r code text := by
  unfold Limits.refusal? at h
  split at h
  · exact ⟨_, _, by decide, (Option.some.inj h).symm⟩
  · split at h
    · exact ⟨_, _, by decide, (Option.some.inj h).symm⟩
    · split at h
      · exact ⟨_, _, by decide, (Option.some.inj h).symm⟩
      · split at h
        · exact ⟨_, _, by decide, (Option.some.inj h).symm⟩
        · split at h
          · exact ⟨_, _, by decide, (Option.some.inj h).symm⟩
          · cases h

theorem fits_ofRequest {r : PullRequest} (h : r.Fits) (inbox : String) (now : Nat)
    (heartbeats : Bool) : (WaitingPull.ofRequest inbox r now heartbeats).Fits := by
  refine ⟨r.batch_pos, h.batch, ?_⟩
  unfold WaitingPull.ofRequest
  dsimp only
  split
  · exact h.maxBytes
  · exact Nat.zero_le _

/-- A pull that takes a message without being filled still fits. -/
theorem fits_charged {p : WaitingPull} (h : p.Fits) {size now : Nat}
    (hf : (p.charged size now).isFilled = false) : (p.charged size now).Fits := by
  have hpos : p.messages - 1 ≠ 0 := beq_eq_false_iff_ne.1 hf
  refine ⟨Nat.pos_of_ne_zero hpos, Nat.le_trans (Nat.sub_le _ _) h.messages, ?_⟩
  rw [WaitingPull.bytes_charged]
  have hb := h.bytes
  cases hp : p.bytes with
  | none => exact Nat.zero_le _
  | some left =>
    rw [hp] at hb
    exact Nat.le_trans (Nat.sub_le _ _) hb

namespace State

/-- What the broker owes an inbox. -/
def owed (inbox : String) (b : State) : Nat := held inbox b.waiting + posted inbox b.agenda

/-- Every waiting pull fits, and every post is honest. -/
structure Sound (b : State) : Prop where
  waiting : ∀ p ∈ b.waiting, p.Fits
  agenda : ∀ c ∈ b.agenda, c.Honest

theorem sound_start (l : Limits) : (start l).Sound := by
  refine ⟨?_, ?_⟩
  · intro p hp
    cases hp
  · intro c hc
    cases hc

theorem owed_first (inbox : String) (b : State) (cs : List Chore) :
    (b.first cs).owed inbox = posted inbox cs + b.owed inbox := by
  unfold owed first
  dsimp only
  rw [posted_append]
  omega

theorem sound_first {b : State} {cs : List Chore} (h : b.Sound) (hc : ∀ c ∈ cs, c.Honest) :
    (b.first cs).Sound := by
  refine ⟨h.waiting, ?_⟩
  intro c hm
  rcases List.mem_append.1 hm with hm | hm
  · exact hc c hm
  · exact h.agenda c hm

/-! ## Requests and commands -/

theorem owed_request {b : State} {r : PullRequest} (hr : r.Fits) (now : Nat)
    (dest inbox : String) (hk : dest = inbox → b.knows dest = true) :
    (b.request now dest r).owed inbox = b.owed inbox + if dest = inbox then r.batch else 0 := by
  unfold request
  dsimp only
  cases hb : b.knows dest with
  | false =>
    have hne : dest ≠ inbox := fun e => by rw [hk e] at hb; cases hb
    rw [if_neg (by simpa [knows] using hb), if_neg hne]
    rfl
  | true =>
    rw [if_pos (by simpa [knows] using hb)]
    cases hf : b.limits.refusal? b.waiting.length r with
    | some s =>
      obtain ⟨code, text, _, rfl⟩ := refusal?_eq_some hf
      dsimp only
      rw [owed_first, posted_cons, posted_nil, Chore.brings, weight_refusal hr]
      unfold owed
      dsimp only
      split <;> omega
    | none =>
      dsimp only
      have hz : posted inbox (if r.noWait then [Chore.handOut, .endNoWait dest] else [.handOut])
          = 0 := by
        split <;> rfl
      rw [owed_first, hz]
      unfold owed
      dsimp only
      rw [held_append]
      have hh : held inbox [WaitingPull.ofRequest dest r now b.limits.heartbeats]
          = if dest = inbox then r.batch else 0 := by
        rw [held_cons]
        rfl
      rw [hh]
      omega

theorem sound_request {b : State} {r : PullRequest} (h : b.Sound) (hr : r.Fits) (now : Nat)
    (dest : String) : (b.request now dest r).Sound := by
  unfold request
  dsimp only
  split
  · cases hf : b.limits.refusal? b.waiting.length r with
    | some s =>
      obtain ⟨code, text, hc, rfl⟩ := refusal?_eq_some hf
      refine sound_first ⟨h.waiting, h.agenda⟩ ?_
      intro c hm
      rw [List.mem_singleton.1 hm]
      exact honest_refusal hr hc text
    | none =>
      refine sound_first ⟨?_, h.agenda⟩ ?_
      · intro p hp
        rcases List.mem_append.1 hp with hp | hp
        · exact h.waiting p hp
        · rw [List.mem_singleton.1 hp]
          exact fits_ofRequest hr _ _ _
      · intro c hm
        -- the chores of a new pull post nothing
        have : c = .handOut ∨ c = .endNoWait dest := by
          split at hm
          · simpa using hm
          · exact Or.inl (List.mem_singleton.1 hm)
        rcases this with rfl | rfl
        · exact trivial
        · exact trivial
  · exact ⟨h.waiting, h.agenda⟩

theorem held_filter_other {dest inbox : String} (h : dest ≠ inbox) (ps : List WaitingPull) :
    held inbox (ps.filter fun p => p.inbox != dest) = held inbox ps := by
  induction ps with
  | nil => rfl
  | cons p ps ih =>
    rw [List.filter_cons]
    split
    · rw [held_cons, held_cons, ih]
    · rename_i hp
      have he : p.inbox = dest := by simpa using hp
      have hz : p.heldFor inbox = 0 := if_neg (by rw [he]; exact h)
      rw [held_cons, ih, hz, Nat.zero_add]

/-- To forget one inbox is nothing to the others. -/
theorem owed_forget {dest inbox : String} (h : dest ≠ inbox) (b : State) :
    (b.forget dest).owed inbox = b.owed inbox := by
  unfold owed forget
  dsimp only
  rw [held_filter_other h]

theorem held_filter_le (dest inbox : String) (ps : List WaitingPull) :
    held inbox (ps.filter fun p => p.inbox != dest) ≤ held inbox ps := by
  induction ps with
  | nil => exact Nat.le_refl _
  | cons p ps ih =>
    rw [List.filter_cons, held_cons]
    split
    · rw [held_cons]
      omega
    · omega

theorem owed_forget_le (dest inbox : String) (b : State) :
    (b.forget dest).owed inbox ≤ b.owed inbox :=
  Nat.add_le_add_right (held_filter_le dest inbox b.waiting) _

theorem sound_forget {b : State} (h : b.Sound) (dest : String) : (b.forget dest).Sound :=
  ⟨fun p hp => h.waiting p ((List.mem_filter.1 hp).1), h.agenda⟩

/-- A command that leaves an inbox registered: it neither ends it nor slips a frame in, and it
asks for messages only where the inbox is registered. -/
structure Suits (inbox : String) (b : State) (c : Command) : Prop where
  fits : ∀ dest r, c = .pull dest r → r.Fits ∧ (dest = inbox → b.knows dest = true)
  stays : c ≠ .unsubscribe inbox
  plain : ∀ dest f, c ≠ .inject dest f

/-- A command that is taken in turns what it asks for into what is owed. -/
theorem owed_accept {inbox : String} {b : State} {c : Command} (h : Suits inbox b c) (now : Nat) :
    (b.accept now c).owed inbox = b.owed inbox + c.asks inbox := by
  cases c with
  | publish m => exact (owed_first inbox _ _).trans (by rw [posted_cons]; exact Nat.zero_add _)
  | register dest => rfl
  | pull dest r =>
    obtain ⟨hr, hk⟩ := h.fits dest r rfl
    exact owed_request hr now dest inbox hk
  | unsubscribe dest =>
    have hne : dest ≠ inbox := fun e => h.stays (by rw [e])
    exact owed_forget hne b
  | inject dest f => exact absurd rfl (h.plain dest f)
  | stats asker => rfl
  | pullLog asker => rfl

/-! ## Chores -/

theorem posted_handed (inbox : String) {p : WaitingPull} (h : p.Fits) (m : Message) (now : Nat) :
    posted inbox (handed (p.charged m.size now) m) +
      held inbox (if (p.charged m.size now).isFilled || (p.charged m.size now).isSpent
        then [] else [p.charged m.size now]) = p.heldFor inbox := by
  have hpos := h.pos
  have hq : (p.charged m.size now).heldFor inbox =
      if p.inbox = inbox then p.messages - 1 else 0 := rfl
  have hin : (p.charged m.size now).inbox = p.inbox := rfl
  have hmsg : (Chore.post p.inbox (.message m)).brings inbox =
      if p.inbox = inbox then 1 else 0 := rfl
  unfold handed
  rw [posted_cons, hin, hmsg, WaitingPull.heldFor]
  cases hf : (p.charged m.size now).isFilled with
  | true =>
    -- the last message of the batch: nothing is left, whatever became of the bytes
    have hm : p.messages - 1 = 0 := eq_of_beq hf
    simp only [Bool.not_true, Bool.and_false, Bool.true_or, if_true, Bool.false_eq_true, if_false]
    rw [posted_nil]
    show (if p.inbox = inbox then 1 else 0) + 0 + 0 = if p.inbox = inbox then p.messages else 0
    split <;> omega
  | false =>
    have hw := weight_closing (fits_charged h hf) Code.conflict StatusText.batchCompleted
    rw [WaitingPull.messages_charged] at hw
    cases (p.charged m.size now).isSpent with
    | true =>
      simp only [Bool.not_false, Bool.and_true, Bool.or_true, if_true]
      rw [posted_cons, posted_nil, Chore.brings, hw]
      show (if p.inbox = inbox then 1 else 0) +
        ((if p.inbox = inbox then p.messages - 1 else 0) + 0) + 0 =
          if p.inbox = inbox then p.messages else 0
      split <;> omega
    | false =>
      simp only [Bool.not_false, Bool.and_true, Bool.or_false, Bool.false_eq_true, if_false]
      rw [posted_nil, held_cons, hq]
      show (if p.inbox = inbox then 1 else 0) + 0 + ((if p.inbox = inbox then p.messages - 1 else 0)
        + 0) = if p.inbox = inbox then p.messages else 0
      split <;> omega

theorem owed_handOut {b : State} (h : b.Sound) (now : Nat) (inbox : String) :
    (b.handOut now).owed inbox = b.owed inbox := by
  rcases handOut_cases now b with ⟨he, _⟩ | ⟨m, p, rest, _, hw, _, he⟩ | ⟨m, p, rest, _, hw, _, he⟩
  · rw [he]
  · have hp : p.Fits := h.waiting p (by rw [hw]; exact List.mem_cons_self)
    rw [he, owed_first, posted_cons, posted_cons, posted_nil, Chore.brings, weight_closing hp]
    unfold owed
    dsimp only
    rw [hw, held_cons, WaitingPull.heldFor, Chore.brings]
    omega
  · have hp : p.Fits := h.waiting p (by rw [hw]; exact List.mem_cons_self)
    have hc := posted_handed inbox hp m now
    rw [he, owed_first, posted_append]
    unfold owed
    dsimp only
    rw [hw, held_cons, posted_cons, posted_nil, Chore.brings, ← hc]
    split
    · show _ + (0 + 0) + (held inbox rest + _) = _ + 0 + held inbox rest + _
      omega
    · rw [held_cons, held_cons]
      show _ = _ + (_ + 0) + held inbox rest + _
      omega

theorem sound_handOut {b : State} (h : b.Sound) (now : Nat) : (b.handOut now).Sound := by
  rcases handOut_cases now b with ⟨he, _⟩ | ⟨m, p, rest, _, hw, _, he⟩ | ⟨m, p, rest, _, hw, _, he⟩
  · rw [he]
    exact h
  · have hp : p.Fits := h.waiting p (by rw [hw]; exact List.mem_cons_self)
    have hrest : ∀ q ∈ rest, q.Fits := fun q hq =>
      h.waiting q (by rw [hw]; exact List.mem_cons_of_mem _ hq)
    rw [he]
    refine sound_first ⟨hrest, h.agenda⟩ ?_
    intro c hm
    rcases List.mem_cons.1 hm with rfl | hm
    · exact honest_closing hp (by decide) _
    · rw [List.mem_singleton.1 hm]
      exact trivial
  · have hp : p.Fits := h.waiting p (by rw [hw]; exact List.mem_cons_self)
    have hrest : ∀ q ∈ rest, q.Fits := fun q hq =>
      h.waiting q (by rw [hw]; exact List.mem_cons_of_mem _ hq)
    rw [he]
    refine sound_first ⟨?_, h.agenda⟩ ?_
    · dsimp only
      split
      · exact hrest
      · rename_i hns
        have hnf : (p.charged m.size now).isFilled = false := by
          cases hf : (p.charged m.size now).isFilled with
          | true => exact absurd (by rw [hf]; rfl) hns
          | false => rfl
        intro q hq
        rcases List.mem_cons.1 hq with rfl | hq
        · exact fits_charged hp hnf
        · exact hrest q hq
    · intro c hm
      rcases List.mem_append.1 hm with hm | hm
      · unfold handed at hm
        rcases List.mem_cons.1 hm with rfl | hm
        · exact Frame.honest_message m
        · split at hm
          · rename_i hs
            have hnf : (p.charged m.size now).isFilled = false := by
              simp only [Bool.and_eq_true, Bool.not_eq_true'] at hs
              exact hs.2
            rw [List.mem_singleton.1 hm]
            exact honest_closing (fits_charged hp hnf) (by decide) _
          · cases hm
      · rw [List.mem_singleton.1 hm]
        exact trivial

theorem owed_endNoWait {b : State} (h : b.Sound) (dest inbox : String) :
    (b.endNoWait dest).owed inbox = b.owed inbox := by
  rcases endNoWait_cases dest b with ⟨he, _⟩ | ⟨p, before, after, hi, hw, _, he⟩
  · rw [he]
  · have hp : p.Fits := h.waiting p (by rw [hw]; simp)
    rw [he, owed_first, posted_cons, posted_nil, Chore.brings, weight_closing hp]
    unfold owed
    dsimp only
    rw [hw, held_append, held_append, held_cons, WaitingPull.heldFor, hi]
    omega

theorem sound_endNoWait {b : State} (h : b.Sound) (dest : String) : (b.endNoWait dest).Sound := by
  rcases endNoWait_cases dest b with ⟨he, _⟩ | ⟨p, before, after, _, hw, _, he⟩
  · rw [he]
    exact h
  · have hp : p.Fits := h.waiting p (by rw [hw]; simp)
    rw [he]
    refine sound_first ⟨?_, h.agenda⟩ ?_
    · intro q hq
      refine h.waiting q ?_
      rw [hw]
      rcases List.mem_append.1 hq with hq | hq
      · exact List.mem_append_left _ hq
      · exact List.mem_append_right _ (List.mem_cons_of_mem _ hq)
    · intro c hm
      rw [List.mem_singleton.1 hm]
      exact honest_closing hp (by decide) _

/-- A chore that is done changes what is owed by the frame that it hands over, if any. -/
theorem owed_work {b : State} (h : b.Sound) (now : Nat) (inbox : String) :
    b.owed inbox = (b.work now).1.owed inbox +
      ((b.work now).2.elim 0 fun q => (Chore.post q.1 q.2).brings inbox) := by
  have hrest : ∀ {c rest}, b.agenda = c :: rest → ({ b with agenda := rest } : State).Sound :=
    fun ha => ⟨h.waiting, fun d hd => h.agenda d (by rw [ha]; exact List.mem_cons_of_mem _ hd)⟩
  have hsplit : ∀ {c rest}, b.agenda = c :: rest →
      b.owed inbox = ({ b with agenda := rest } : State).owed inbox + c.brings inbox := by
    intro c rest ha
    unfold owed
    dsimp only
    rw [ha, posted_cons]
    omega
  rcases work_cases now b with ⟨_, he⟩ | ⟨dest, f, rest, ha, he⟩ | ⟨rest, ha, he⟩ |
    ⟨dest, rest, ha, he⟩
  · rw [he]
    rfl
  · rw [he]
    exact hsplit ha
  · rw [he, hsplit ha]
    exact congrArg (· + 0) (owed_handOut (hrest ha) now inbox).symm
  · rw [he, hsplit ha]
    exact congrArg (· + 0) (owed_endNoWait (hrest ha) dest inbox).symm

theorem sound_work {b : State} (h : b.Sound) (now : Nat) : (b.work now).1.Sound := by
  have hrest : ∀ {c rest}, b.agenda = c :: rest → ({ b with agenda := rest } : State).Sound :=
    fun ha => ⟨h.waiting, fun d hd => h.agenda d (by rw [ha]; exact List.mem_cons_of_mem _ hd)⟩
  rcases work_cases now b with ⟨_, he⟩ | ⟨dest, f, rest, ha, he⟩ | ⟨rest, ha, he⟩ |
    ⟨dest, rest, ha, he⟩
  · rw [he]
    exact h
  · rw [he]
    exact hrest ha
  · rw [he]
    exact sound_handOut (hrest ha) now
  · rw [he]
    exact sound_endNoWait (hrest ha) dest

/-- What a chore hands over is honest. -/
theorem honest_of_work {b : State} (h : b.Sound) (now : Nat) {dest : String} {f : Frame}
    (hw : (b.work now).2 = some (dest, f)) : f.Honest := by
  obtain ⟨rest, ha, _⟩ := agenda_of_work (Prod.ext rfl hw)
  exact h.agenda _ (by rw [ha]; exact List.mem_cons_self)

/-! ## Timers -/

theorem owed_due (now : Nat) (inbox : String) {p : WaitingPull} (h : p.Fits) :
    ((due now p).2.elim 0 (WaitingPull.heldFor inbox)) +
      ((due now p).1.elim 0 fun f => (Chore.post p.inbox f).brings inbox) = p.heldFor inbox := by
  rcases due_cases now p with ⟨he, _⟩ | ⟨t, he⟩ | he
  · rw [he]
    show 0 + (if p.inbox = inbox then _ else 0) = _
    rw [weight_closing h, Nat.zero_add]
    rfl
  · rw [he]
    show p.heldFor inbox + (if p.inbox = inbox then _ else 0) = _
    rw [Frame.weight_plain, ite_self, Nat.add_zero]
  · rw [he]
    rfl

theorem held_due {ps : List WaitingPull} (h : ∀ p ∈ ps, p.Fits) (now : Nat) (inbox : String) :
    held inbox (ps.filterMap fun p => (due now p).2) +
      posted inbox (ps.filterMap fun p => (due now p).1.map (Chore.post p.inbox)) =
        held inbox ps := by
  induction ps with
  | nil => rfl
  | cons p ps ih =>
    have hp := owed_due now inbox (h p List.mem_cons_self)
    have hps := ih fun q hq => h q (List.mem_cons_of_mem _ hq)
    rw [held_cons, List.filterMap_cons, List.filterMap_cons, ← hp, ← hps]
    cases (due now p).1 with
    | none =>
      cases (due now p).2 with
      | none => simp only [Option.map_none, Option.elim_none]; omega
      | some q => simp only [Option.map_none, Option.elim_none, Option.elim_some, held_cons]; omega
    | some f =>
      cases (due now p).2 with
      | none =>
        simp only [Option.map_some, Option.elim_none, Option.elim_some, posted_cons]
        omega
      | some q =>
        simp only [Option.map_some, Option.elim_some, posted_cons, held_cons]
        omega

theorem owed_fireTimers {b : State} (h : b.Sound) (now : Nat) (inbox : String) :
    (b.fireTimers now).owed inbox = b.owed inbox := by
  have hd := held_due h.waiting now inbox
  unfold fireTimers
  rw [owed_first]
  unfold owed
  dsimp only
  omega

theorem fits_due {now : Nat} {p q : WaitingPull} (h : p.Fits) (hq : (due now p).2 = some q) :
    q.Fits := by
  rcases due_cases now p with ⟨he, _⟩ | ⟨t, he⟩ | he
  · rw [he] at hq
    cases hq
  · rw [he] at hq
    cases hq
    exact ⟨h.pos, h.messages, h.bytes⟩
  · rw [he] at hq
    cases hq
    exact h

theorem honest_due {now : Nat} {p : WaitingPull} {f : Frame} (h : p.Fits)
    (hf : (due now p).1 = some f) : f.Honest := by
  rcases due_cases now p with ⟨he, _⟩ | ⟨t, he⟩ | he
  · rw [he] at hf
    cases hf
    exact honest_closing h (by decide) _
  · rw [he] at hf
    cases hf
    exact Frame.honest_plain _ _
  · rw [he] at hf
    cases hf

theorem sound_fireTimers {b : State} (h : b.Sound) (now : Nat) : (b.fireTimers now).Sound := by
  refine sound_first ⟨?_, h.agenda⟩ ?_
  · intro q hq
    obtain ⟨p, hp, hpq⟩ := List.mem_filterMap.1 hq
    exact fits_due (h.waiting p hp) hpq
  · intro c hc
    obtain ⟨p, hp, hpc⟩ := List.mem_filterMap.1 hc
    obtain ⟨f, hf, rfl⟩ := Option.map_eq_some_iff.1 hpc
    exact honest_due (h.waiting p hp) hf

end State

end DemandFlow.Broker
