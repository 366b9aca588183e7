import DemandFlow.Proofs.Broker.Books

/-
  The shape that a broker keeps, also while its chores are being done. Whoever waits asks for
  something, has bytes left where it has a budget, and stands for a registered inbox; what was
  handed out is counted, and is no more than the stream. Pulls wait beside unread messages only
  while handing out is still a chore, and the limit on waiting pulls is passed only by the one
  pull that is still to be ended because it does not wait. The chores do come to an end: `burden`
  bounds how many are left, whatever feeds turn out to be gone.
-/

namespace DemandFlow.Broker

/-! ## Waiting pulls -/

namespace WaitingPull

/-- The pull asks for something, and has bytes left where it has a budget. -/
structure Wanting (p : WaitingPull) : Prop where
  messages : 0 < p.messages
  bytes : p.bytes ≠ some 0

variable {p : WaitingPull}

theorem wanting_ofRequest (inbox : String) (r : PullRequest) (now : Nat) (heartbeats : Bool) :
    (ofRequest inbox r now heartbeats).Wanting := by
  refine ⟨r.batch_pos, ?_⟩
  unfold ofRequest
  dsimp only
  split
  · rename_i h
    exact fun e => Nat.ne_of_gt h (Option.some.inj e)
  · exact fun e => nomatch e

/-- A pull that goes on after a message is neither filled nor spent. -/
theorem wanting_charged {size now : Nat}
    (h : ((p.charged size now).isFilled || (p.charged size now).isSpent) = false) :
    (p.charged size now).Wanting := by
  obtain ⟨hf, hs⟩ := Bool.or_eq_false_iff.1 h
  exact ⟨Nat.pos_of_ne_zero (by simpa [isFilled] using hf), by simpa [isSpent] using hs⟩

/-- What a pull has left and what a message takes from it make up what it had. -/
theorem Wanting.charge (h : p.Wanting) {size now : Nat} (hr : p.refuses size = false) :
    (p.charged size now).messages + 1 = p.messages ∧
      ∀ left, p.bytes = some left →
        ∃ less, (p.charged size now).bytes = some less ∧ less + size = left := by
  refine ⟨Nat.sub_add_cancel h.messages, fun left hl => ⟨left - size, ?_, ?_⟩⟩
  · rw [bytes_charged, hl]
    rfl
  · have hle : size ≤ left := by simpa [refuses, hl] using hr
    omega

theorem Wanting.due (h : p.Wanting) {now : Nat} {q : WaitingPull}
    (hq : (State.due now p).2 = some q) : q.Wanting ∧ q.inbox = p.inbox := by
  rcases State.due_cases now p with ⟨he, _⟩ | ⟨t, he⟩ | he <;> rw [he] at hq <;> cases hq
  · exact ⟨⟨h.messages, h.bytes⟩, rfl⟩
  · exact ⟨h, rfl⟩

end WaitingPull

namespace State

/-! ## The shape of a broker -/

/-- Everyone who waits wants something and stands for a registered inbox. -/
def Expects (b : State) : Prop :=
  ∀ p ∈ b.waiting, p.Wanting ∧ b.knows p.inbox = true

/-- The limit on waiting pulls is kept, up to the one that is still to be ended. -/
def HasRoom (b : State) : Prop :=
  ∀ most, b.limits.maxWaiting = some most → b.waiting.length ≤ most ∨
    (b.waiting.length ≤ most + 1 ∧ ∃ p ∈ b.waiting, Chore.endNoWait p.inbox ∈ b.agenda)

structure Shaped (b : State) : Prop where
  counted : b.delivered = b.cursor
  bounded : b.cursor ≤ b.stream.size
  expects : b.Expects
  going : b.waiting = [] ∨ b.cursor = b.stream.size ∨ Chore.handOut ∈ b.agenda
  room : b.HasRoom

theorem shaped_start (l : Limits) : (start l).Shaped :=
  ⟨rfl, Nat.le_refl _, fun _ hp => absurd hp List.not_mem_nil, Or.inl rfl,
    fun _ _ => Or.inl (Nat.zero_le _)⟩

variable {b : State} {now : Nat}

/-- While no chore is left, no pull waits beside an unread message, and no limit is passed. -/
theorem Shaped.at_rest (h : b.Shaped) (ha : b.agenda = []) :
    (b.waiting = [] ∨ b.cursor = b.stream.size) ∧
      ∀ most, b.limits.maxWaiting = some most → b.waiting.length ≤ most := by
  refine ⟨?_, fun most hm => ?_⟩
  · rcases h.going with hw | hc | hg
    · exact Or.inl hw
    · exact Or.inr hc
    · rw [ha] at hg
      cases hg
  · rcases h.room most hm with hle | ⟨_, p, _, hp⟩
    · exact hle
    · rw [ha] at hp
      cases hp

/-! ## Fewer pulls -/

/-- Forgetting an inbox only takes pulls off the queue, and those that stay are known. -/
theorem Shaped.forget (h : b.Shaped) (inbox : String) : (b.forget inbox).Shaped := by
  refine ⟨h.counted, h.bounded, fun p hp => ?_, ?_, fun most hm => ?_⟩
  · obtain ⟨hp, hne⟩ := List.mem_filter.1 hp
    obtain ⟨hw, hk⟩ := h.expects p hp
    refine ⟨hw, ?_⟩
    simp only [knows, State.forget, List.contains_iff_mem, List.mem_filter] at hk ⊢
    exact ⟨hk, hne⟩
  · rcases h.going with hw | hc | hg
    · exact Or.inl (by simp [State.forget, hw])
    · exact Or.inr (Or.inl hc)
    · exact Or.inr (Or.inr hg)
  · have hlen : (b.forget inbox).waiting.length ≤ b.waiting.length := List.length_filter_le _ _
    rcases h.room most hm with hle | ⟨hle, p, hp, ha⟩
    · exact Or.inl (Nat.le_trans hlen hle)
    · by_cases hi : p.inbox = inbox
      · -- the pull that is still to be ended goes with its inbox
        have hlt : (b.forget inbox).waiting.length < b.waiting.length :=
          List.length_filter_lt_length_iff_exists.2 ⟨p, hp, by simp [hi]⟩
        exact Or.inl (by omega)
      · exact Or.inr ⟨Nat.le_trans hlen hle, p, List.mem_filter.2 ⟨hp, by simpa using hi⟩, ha⟩

theorem Shaped.told (h : b.Shaped) (inbox : String) (gone : Bool) : (b.told inbox gone).Shaped := by
  unfold State.told
  split
  · exact h.forget inbox
  · exact h

/-! ## Commands and timers -/

theorem Shaped.request (h : b.Shaped) (ha : b.agenda = []) (inbox : String) (r : PullRequest) :
    (b.request now inbox r).Shaped := by
  obtain ⟨hrest, hroom⟩ := h.at_rest ha
  rcases request_cases now inbox r b with ⟨_, he⟩ | ⟨s, _, _, he⟩ | ⟨hk, hf, he⟩ <;> rw [he]
  · exact ⟨h.counted, h.bounded, h.expects, h.going, h.room⟩
  · exact ⟨h.counted, h.bounded, h.expects, hrest.imp_right Or.inl,
      fun most hm => Or.inl (hroom most hm)⟩
  · refine ⟨h.counted, h.bounded, fun p hp => ?_, Or.inr (Or.inr ?_), fun most hm => ?_⟩
    · rcases List.mem_append.1 hp with hp | hp
      · exact h.expects p hp
      · rw [List.mem_singleton.1 hp]
        exact ⟨WaitingPull.wanting_ofRequest _ _ _ _, hk⟩
    · refine List.mem_append_left _ ?_
      split <;> exact List.mem_cons_self
    · have hlen : (b.waiting ++ [WaitingPull.ofRequest inbox r now b.limits.heartbeats]).length =
          b.waiting.length + 1 := List.length_append
      cases hn : r.noWait with
      | false =>
        have hlt := Limits.room_of_refusal? hf hn hm
        exact Or.inl (by dsimp only [State.first]; omega)
      | true =>
        refine Or.inr ⟨?_, WaitingPull.ofRequest inbox r now b.limits.heartbeats, ?_, ?_⟩
        · have := hroom most hm
          dsimp only [State.first]
          omega
        · exact List.mem_append_right _ List.mem_cons_self
        · exact List.mem_append_left _ (List.mem_cons_of_mem _ List.mem_cons_self)

theorem Shaped.accept (h : b.Shaped) (ha : b.agenda = []) (c : Command) :
    (b.accept now c).Shaped := by
  obtain ⟨hrest, hroom⟩ := h.at_rest ha
  cases c with
  | publish m =>
    refine ⟨h.counted, ?_, h.expects, Or.inr (Or.inr (List.mem_append_left _ List.mem_cons_self)),
      fun most hm => Or.inl (hroom most hm)⟩
    exact Nat.le_trans h.bounded (by simp [State.accept, State.first])
  | register inbox =>
    refine ⟨h.counted, h.bounded, fun p hp => ?_, h.going, h.room⟩
    obtain ⟨hw, hk⟩ := h.expects p hp
    refine ⟨hw, ?_⟩
    simp only [State.accept, knows, List.contains_iff_mem, List.mem_cons, List.mem_filter,
      bne_iff_ne] at hk ⊢
    exact Decidable.or_iff_not_imp_left.2 fun hne => ⟨hk, hne⟩
  | pull inbox r => exact h.request ha inbox r
  | unsubscribe inbox => exact h.forget inbox
  | inject inbox f =>
    exact ⟨h.counted, h.bounded, h.expects, hrest.imp_right Or.inl,
      fun most hm => Or.inl (hroom most hm)⟩
  | stats asker => exact h
  | pullLog asker => exact h

theorem Shaped.fireTimers (h : b.Shaped) (ha : b.agenda = []) : (b.fireTimers now).Shaped := by
  obtain ⟨hrest, hroom⟩ := h.at_rest ha
  refine ⟨h.counted, h.bounded, fun q hq => ?_, ?_, fun most hm => Or.inl ?_⟩
  · obtain ⟨p, hp, hd⟩ := List.mem_filterMap.1 hq
    obtain ⟨hw, hk⟩ := h.expects p hp
    obtain ⟨hw', hi⟩ := hw.due hd
    exact ⟨hw', by rw [hi]; exact hk⟩
  · rcases hrest with hw | hc
    · exact Or.inl (by simp [State.fireTimers, State.first, hw])
    · exact Or.inr (Or.inl hc)
  · exact Nat.le_trans (List.length_filterMap_le _ _) (hroom most hm)

/-! ## Chores -/

section Chores

variable {rest : List Chore}

theorem Shaped.post (h : b.Shaped) {inbox : String} {f : Frame}
    (ha : b.agenda = .post inbox f :: rest) : ({ b with agenda := rest } : State).Shaped := by
  have hg := h.going
  rw [ha, List.mem_cons] at hg
  refine ⟨h.counted, h.bounded, h.expects, hg.imp_right (Or.imp_right (Or.resolve_left · nofun)),
    fun most hm => (h.room most hm).imp_right fun ⟨hle, p, hp, hend⟩ => ⟨hle, p, hp, ?_⟩⟩
  rw [ha, List.mem_cons] at hend
  exact hend.resolve_left nofun

/-- The first in line is ended, filled, or goes on; nobody else moves. -/
theorem Shaped.handOut (h : b.Shaped) (ha : b.agenda = .handOut :: rest) :
    (({ b with agenda := rest } : State).handOut now).Shaped := by
  have hroom : ({ b with agenda := rest } : State).HasRoom := fun most hm =>
    (h.room most hm).imp_right fun ⟨hle, p, hp, hend⟩ => by
      rw [ha, List.mem_cons] at hend
      exact ⟨hle, p, hp, hend.resolve_left nofun⟩
  rcases handOut_cases now { b with agenda := rest } with ⟨he, hidle⟩ |
    ⟨m, p, ps, hm, hw, hr, he⟩ | ⟨m, p, ps, hm, hw, hr, he⟩ <;> rw [he]
  · refine ⟨h.counted, h.bounded, h.expects, ?_, hroom⟩
    rcases hidle with hend | hnone
    · exact Or.inr (Or.inl (Nat.le_antisymm h.bounded hend))
    · exact Or.inl hnone
  · refine ⟨h.counted, h.bounded, fun q hq => h.expects q ?_, Or.inr (Or.inr ?_),
      fun most hl => Or.inl ?_⟩
    · rw [show b.waiting = p :: ps from hw]
      exact List.mem_cons_of_mem _ hq
    · exact List.mem_append_left _ (List.mem_cons_of_mem _ List.mem_cons_self)
    · have hlen : b.waiting.length = ps.length + 1 := by
        rw [show b.waiting = p :: ps from hw]
        rfl
      dsimp only [State.first]
      rcases hroom most hl with hle | ⟨hle, _⟩ <;> dsimp only at hle <;> omega
  · have hp : p ∈ b.waiting := by
      rw [show b.waiting = p :: ps from hw]
      exact List.mem_cons_self
    have hps : ∀ q ∈ ps, q ∈ b.waiting := fun q hq => by
      rw [show b.waiting = p :: ps from hw]
      exact List.mem_cons_of_mem _ hq
    have hlen : b.waiting.length = ps.length + 1 := by
      rw [show b.waiting = p :: ps from hw]
      rfl
    refine ⟨congrArg (· + 1) h.counted, (Array.getElem?_eq_some_iff.1 hm).1, ?_,
      Or.inr (Or.inr ?_), ?_⟩
    · intro q hq
      dsimp only [State.first] at hq
      split at hq
      · exact h.expects q (hps q hq)
      · rename_i hopen
        rcases List.mem_cons.1 hq with rfl | hq
        · exact ⟨WaitingPull.wanting_charged (by simpa using hopen), (h.expects p hp).2⟩
        · exact h.expects q (hps q hq)
    · exact List.mem_append_left _ (List.mem_append_right _ List.mem_cons_self)
    · intro most hl
      dsimp only [State.first]
      split
      · rcases hroom most hl with hle | ⟨hle, _⟩ <;> dsimp only at hle <;>
          exact Or.inl (by omega)
      · rcases hroom most hl with hle | ⟨hle, q, hq, hend⟩
        · exact Or.inl (by rw [List.length_cons]; dsimp only at hle; omega)
        · refine Or.inr ⟨by rw [List.length_cons]; dsimp only at hle; omega, ?_⟩
          rw [show ({ b with agenda := rest } : State).waiting = p :: ps from hw] at hq
          rcases List.mem_cons.1 hq with rfl | hq
          · exact ⟨_, List.mem_cons_self, List.mem_append_right _ hend⟩
          · exact ⟨q, List.mem_cons_of_mem _ hq, List.mem_append_right _ hend⟩

/-- The pull that does not wait gives its place back. -/
theorem Shaped.endNoWait (h : b.Shaped) {inbox : String}
    (ha : b.agenda = .endNoWait inbox :: rest) :
    (({ b with agenda := rest } : State).endNoWait inbox).Shaped := by
  have hg := h.going
  rw [ha, List.mem_cons] at hg
  have hgoing := hg.imp_right (Or.imp_right (Or.resolve_left · nofun))
  rcases endNoWait_cases inbox { b with agenda := rest } with ⟨he, hnone⟩ |
    ⟨p, before, after, hi, hw, hafter, he⟩ <;> rw [he]
  · refine ⟨h.counted, h.bounded, h.expects, hgoing,
      fun most hm => (h.room most hm).imp_right fun ⟨hle, p, hp, hend⟩ => ⟨hle, p, hp, ?_⟩⟩
    rw [ha, List.mem_cons] at hend
    exact hend.resolve_left fun e => hnone p hp (by cases e; rfl)
  · have hwb : b.waiting = before ++ p :: after := hw
    refine ⟨h.counted, h.bounded, fun q hq => h.expects q ?_, Or.inr ?_, fun most hm => Or.inl ?_⟩
    · rw [hwb]
      exact (List.mem_append.1 hq).elim (List.mem_append_left _)
        fun hq => List.mem_append_right _ (List.mem_cons_of_mem _ hq)
    · refine (hgoing.resolve_left fun e => ?_).imp_right (List.mem_append_right _)
      rw [hwb] at e
      simp at e
    · have hlen : b.waiting.length = before.length + after.length + 1 := by
        rw [hwb]
        simp [Nat.add_assoc]
      dsimp only [State.first]
      rw [List.length_append]
      rcases h.room most hm with hle | ⟨hle, _⟩ <;> omega

end Chores

/-- Whatever happens, a broker keeps its shape. -/
theorem Shaped.react (h : b.Shaped) (e : Event) : (b.react e).Shaped := by
  cases e with
  | command now c =>
    unfold State.react
    dsimp only
    split
    · rename_i ha
      exact h.accept (List.isEmpty_iff.1 ha) c
    · exact h
  | timers now =>
    unfold State.react
    dsimp only
    split
    · rename_i ha
      exact h.fireTimers (List.isEmpty_iff.1 ha)
    · exact h
  | chore now gone =>
    unfold State.react
    dsimp only
    rcases work_cases now b with ⟨_, he⟩ | ⟨inbox, f, rest, ha, he⟩ | ⟨rest, ha, he⟩ |
      ⟨inbox, rest, ha, he⟩ <;> rw [he]
    · exact h
    · exact (h.post ha).told inbox gone
    · exact h.handOut ha
    · exact h.endNoWait ha

/-- No event changes what a broker grants. Only publishing adds to the stream, and nothing takes
from it. -/
theorem stock_react (b : State) (e : Event) : (b.react e).limits = b.limits ∧
    ((b.react e).stream = b.stream ∨
      ∃ now m, e = .command now (.publish m) ∧ (b.react e).stream = b.stream.push m) := by
  cases e with
  | command now c =>
    unfold react
    dsimp only
    split
    · cases c with
      | publish m => exact ⟨rfl, Or.inr ⟨now, m, rfl, rfl⟩⟩
      | pull inbox r =>
        unfold accept
        dsimp only
        rcases request_cases now inbox r b with ⟨_, he⟩ | ⟨s, _, _, he⟩ | ⟨_, _, he⟩ <;> rw [he] <;>
          exact ⟨rfl, Or.inl rfl⟩
      | _ => exact ⟨rfl, Or.inl rfl⟩
    · exact ⟨rfl, Or.inl rfl⟩
  | timers now =>
    unfold react
    dsimp only
    split <;> exact ⟨rfl, Or.inl rfl⟩
  | chore now gone =>
    unfold react
    dsimp only
    rcases work_cases now b with ⟨_, he⟩ | ⟨inbox, f, rest, _, he⟩ | ⟨rest, _, he⟩ |
      ⟨inbox, rest, _, he⟩ <;> rw [he] <;> dsimp only
    · exact ⟨rfl, Or.inl rfl⟩
    · unfold told
      split <;> exact ⟨rfl, Or.inl rfl⟩
    · rcases handOut_cases now { b with agenda := rest } with ⟨ho, _⟩ | ⟨m, p, ps, _, _, _, ho⟩ |
        ⟨m, p, ps, _, _, _, ho⟩ <;> rw [ho] <;> exact ⟨rfl, Or.inl rfl⟩
    · rcases endNoWait_cases inbox { b with agenda := rest } with ⟨ho, _⟩ |
        ⟨p, xs, ys, _, _, _, ho⟩ <;> rw [ho] <;> exact ⟨rfl, Or.inl rfl⟩

theorem limits_react (b : State) (e : Event) : (b.react e).limits = b.limits :=
  (stock_react b e).1

/-! ## Chores come to an end -/

/-- How many chores can be left: a message that is handed out brings two posts and one more round
of handing out, and a pull that is ended brings one post. -/
def burden (b : State) : Nat :=
  b.agenda.length + 2 * b.waiting.length + 3 * (b.stream.size - b.cursor)

theorem burden_forget (b : State) (inbox : String) : (b.forget inbox).burden ≤ b.burden := by
  have : (b.forget inbox).waiting.length ≤ b.waiting.length := List.length_filter_le _ _
  unfold burden
  simp only [forget] at this ⊢
  omega

theorem burden_handOut {rest : List Chore} (now : Nat) (ha : b.agenda = .handOut :: rest) :
    (({ b with agenda := rest } : State).handOut now).burden < b.burden := by
  have hlen : b.agenda.length = rest.length + 1 := by rw [ha]; rfl
  rcases handOut_cases now { b with agenda := rest } with ⟨he, _⟩ | ⟨m, p, ps, _, hw, _, he⟩ |
    ⟨m, p, ps, hm, hw, _, he⟩ <;> rw [he]
  · unfold burden
    dsimp only
    omega
  · have hwb : b.waiting.length = ps.length + 1 := congrArg List.length hw
    simp only [burden, first, List.length_append, List.length_cons, List.length_nil]
    omega
  · have hwb : b.waiting.length = ps.length + 1 := congrArg List.length hw
    have hlt : b.cursor < b.stream.size := (Array.getElem?_eq_some_iff.1 hm).1
    unfold burden first handed
    dsimp only
    -- a second post is sent only for a pull that leaves the queue
    cases hs : (p.charged m.size now).isSpent <;> cases hf : (p.charged m.size now).isFilled <;>
      simp only [Bool.or_true, Bool.or_false, Bool.and_true, Bool.and_false, Bool.not_true,
        Bool.not_false, if_true, if_false, Bool.false_eq_true, List.length_append,
        List.length_cons, List.length_nil] <;> omega

theorem burden_endNoWait {inbox : String} {rest : List Chore}
    (ha : b.agenda = .endNoWait inbox :: rest) :
    (({ b with agenda := rest } : State).endNoWait inbox).burden < b.burden := by
  have hlen : b.agenda.length = rest.length + 1 := by rw [ha]; rfl
  rcases endNoWait_cases inbox { b with agenda := rest } with ⟨he, _⟩ |
    ⟨p, before, after, _, hw, _, he⟩ <;> rw [he]
  · unfold burden
    dsimp only
    omega
  · have hwb : b.waiting.length = (before ++ p :: after).length := congrArg List.length hw
    simp only [List.length_append, List.length_cons] at hwb
    simp only [burden, first, List.length_append, List.length_cons, List.length_nil]
    omega

/-- Each chore leaves fewer to be done. -/
theorem burden_chore (ha : b.agenda ≠ []) (now : Nat) (gone : Bool) :
    (b.react (.chore now gone)).burden < b.burden := by
  unfold react
  dsimp only
  rcases work_cases now b with ⟨hn, _⟩ | ⟨inbox, f, rest, hb, he⟩ | ⟨rest, hb, he⟩ |
    ⟨inbox, rest, hb, he⟩
  · exact absurd hn ha
  · rw [he]
    have hlt : ({ b with agenda := rest } : State).burden < b.burden := by
      simp only [burden, hb, List.length_cons]
      omega
    dsimp only
    unfold told
    split
    · exact Nat.lt_of_le_of_lt (burden_forget _ inbox) hlt
    · exact hlt
  · rw [he]
    exact burden_handOut now hb
  · rw [he]
    exact burden_endNoWait hb

/-- A broker that has done all its chores has none to do. -/
theorem react_chore_of_rest (ha : b.agenda = []) (now : Nat) (gone : Bool) :
    b.react (.chore now gone) = b := by
  unfold react work
  rw [ha]

/-- As many chores as the burden says empty the agenda, whatever feeds are gone meanwhile. -/
theorem agenda_of_chores (cs : List (Nat × Bool)) (h : b.burden ≤ cs.length) :
    (cs.foldl (fun b c => b.react (.chore c.1 c.2)) b).agenda = [] := by
  induction cs generalizing b with
  | nil =>
    refine List.length_eq_zero_iff.1 (Nat.eq_zero_of_le_zero (Nat.le_trans ?_ h))
    exact Nat.le_trans (Nat.le_add_right _ _) (Nat.le_add_right _ _)
  | cons c cs ih =>
    rw [List.foldl_cons]
    by_cases ha : b.agenda = []
    · rw [react_chore_of_rest ha]
      clear ih h
      induction cs with
      | nil => exact ha
      | cons d cs ih => rwa [List.foldl_cons, react_chore_of_rest ha]
    · refine ih ?_
      have := burden_chore ha c.1 c.2
      rw [List.length_cons] at h
      omega

/-! ## Whole runs -/

theorem shaped_run (l : Limits) (es : List Event) : (es.foldl react (start l)).Shaped := by
  suffices h : ∀ b : State, b.Shaped → (es.foldl react b).Shaped from h _ (shaped_start l)
  induction es with
  | nil => exact fun _ h => h
  | cons e es ih => exact fun b h => ih (b.react e) (h.react e)

theorem limits_run (l : Limits) (es : List Event) : (es.foldl react (start l)).limits = l := by
  suffices h : ∀ b : State, (es.foldl react b).limits = b.limits from h (start l)
  induction es with
  | nil => exact fun _ => rfl
  | cons e es ih => exact fun b => (ih (b.react e)).trans (limits_react b e)

/-- After any events, also amid its chores, a broker with any limits has counted what it handed
out, which is no more than the stream. Every pull that waits asks for a message at least, has
bytes left where it has a budget, and stands for a registered inbox; a message that it does not
refuse takes no more from it than it has. So many chores as the burden says are all that is left
to do, whichever feeds are gone. With all of them done, no pull waits beside an unread message,
and no more pulls wait than the limit allows. -/
theorem kept_in_shape (l : Limits) (es : List Event) :
    let b := es.foldl react (start l)
    b.delivered = b.cursor ∧ b.cursor ≤ b.stream.size ∧
      (∀ p ∈ b.waiting, 1 ≤ p.messages ∧ p.bytes ≠ some 0 ∧ b.knows p.inbox = true ∧
        ∀ now size, p.refuses size = false →
          (p.charged size now).messages + 1 = p.messages ∧
            ∀ left, p.bytes = some left →
              ∃ less, (p.charged size now).bytes = some less ∧ less + size = left) ∧
      (∀ cs : List (Nat × Bool), b.burden ≤ cs.length →
        (cs.foldl (fun b c => b.react (.chore c.1 c.2)) b).agenda = []) ∧
      (b.agenda = [] → (b.waiting = [] ∨ b.cursor = b.stream.size) ∧
        ∀ most, l.maxWaiting = some most → b.waiting.length ≤ most) := by
  dsimp only
  have h := shaped_run l es
  refine ⟨h.counted, h.bounded, fun p hp => ?_, agenda_of_chores, fun ha => ?_⟩
  · obtain ⟨hw, hk⟩ := h.expects p hp
    exact ⟨hw.messages, hw.bytes, hk, fun _ _ hr => hw.charge hr⟩
  · obtain ⟨hrest, hroom⟩ := h.at_rest ha
    rw [limits_run] at hroom
    exact ⟨hrest, hroom⟩

end State

end DemandFlow.Broker
