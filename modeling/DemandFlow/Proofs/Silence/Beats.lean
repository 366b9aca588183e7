import DemandFlow.Proofs.Accounts.Queue

/-
  A broker that serves one inbox with heartbeats. Every pull that waits beats within one heartbeat
  of the present instant. Seen from an earlier instant this is so too, unless a frame has been put
  on the agenda meanwhile: to reset the timer of a pull takes a frame, and so does every end of a
  pull. Here is what each thing that a broker does means for both.
-/

namespace DemandFlow.Broker

/-- A pull with a heartbeat beats within one heartbeat of an instant. -/
def WaitingPull.BeatsBy (since : Nat) (p : WaitingPull) : Prop :=
  ∀ d, p.heartbeat = some d → ∃ t, p.beatsAt = some t ∧ t ≤ since + d.nanos

/-- A pull for an inbox, with the heartbeat of those who ask, that beats from now on. -/
structure WaitingPull.Serves (inbox : String) (beat : Option Span) (now : Nat)
    (p : WaitingPull) : Prop where
  inbox : p.inbox = inbox
  heartbeat : p.heartbeat = beat
  beats : p.BeatsBy now

/-- A command by which messages are published, or requests for one inbox with one heartbeat are
made. -/
def Command.Serves (inbox : String) (beat : Option Span) : Command → Prop
  | .publish _ => True
  | .register dest => dest = inbox
  | .pull dest r => dest = inbox ∧ r.heartbeat = beat
  | .unsubscribe _ | .inject _ _ | .stats _ | .pullLog _ => False

namespace WaitingPull

variable {inbox : String} {beat : Option Span} {now since : Nat} {p q : WaitingPull}

theorem BeatsBy.later (h : p.BeatsBy since) {t : Nat} (hle : since ≤ t) : p.BeatsBy t := by
  intro d hd
  obtain ⟨u, hu, hle'⟩ := h d hd
  exact ⟨u, hu, by omega⟩

theorem serves_ofRequest {r : PullRequest} (hr : r.heartbeat = beat) (now : Nat) :
    (ofRequest inbox r now true).Serves inbox beat now := by
  refine ⟨rfl, hr, fun d hd => ⟨now + d.nanos, ?_, Nat.le_refl _⟩⟩
  have hbeat : r.heartbeat = some d := hd
  unfold ofRequest
  dsimp only
  rw [if_pos rfl, hbeat]
  rfl

theorem exists_earlier_left {a : Option Nat} {x t : Nat} (ha : a = some x) (hle : x ≤ t)
    {b : Option Nat} : ∃ u, earlier a b = some u ∧ u ≤ t := by
  subst ha
  cases b with
  | none => exact ⟨x, rfl, hle⟩
  | some y => exact ⟨min x y, rfl, Nat.le_trans (Nat.min_le_left x y) hle⟩

theorem exists_earlier_right {b : Option Nat} {y t : Nat} (hb : b = some y) (hle : y ≤ t)
    {a : Option Nat} : ∃ u, earlier a b = some u ∧ u ≤ t := by
  subst hb
  cases a with
  | none => exact ⟨y, rfl, hle⟩
  | some x => exact ⟨min x y, rfl, Nat.le_trans (Nat.min_le_right x y) hle⟩

/-- The timer of a pull is reset when a message is handed out for it. -/
theorem Serves.charged (h : p.Serves inbox beat now) (size : Nat) :
    (p.charged size now).Serves inbox beat now := by
  refine ⟨h.inbox, h.heartbeat, fun d hd => ⟨now + d.nanos, ?_, Nat.le_refl _⟩⟩
  have hbeat : p.heartbeat = some d := hd
  unfold WaitingPull.charged
  dsimp only
  rw [hbeat]

/-- So it is when the pull beats. -/
theorem Serves.due (h : p.Serves inbox beat now) (hq : (State.due now p).2 = some q) :
    q.Serves inbox beat now := by
  unfold State.due at hq
  split at hq
  · cases hq
  · split at hq
    · rename_i d _ hd
      cases hq
      refine ⟨h.inbox, h.heartbeat, fun e he => ⟨now + d.nanos, rfl, ?_⟩⟩
      cases hd.symm.trans he
      exact Nat.le_refl _
    · cases hq
      exact h

end WaitingPull

namespace State

/-- Heartbeats are on, and every pull waits for one inbox, which is registered, with one
heartbeat. -/
structure Beats (inbox : String) (beat : Option Span) (now : Nat) (b : State) : Prop where
  heartbeats : b.limits.heartbeats = true
  pulls : ∀ p ∈ b.waiting, p.Serves inbox beat now
  known : b.waiting ≠ [] → b.knows inbox = true

/-- An inbox that was seen at an instant hears of the broker within one heartbeat of it, or a frame
for it is to be posted. -/
def Tells (inbox : String) (since : Nat) (b : State) : Prop :=
  (∃ f, .post inbox f ∈ b.agenda) ∨ ∀ p ∈ b.waiting, p.BeatsBy since

variable {inbox : String} {beat : Option Span} {now since : Nat} {b b' : State}

theorem beats_start {l : Limits} (hl : l.heartbeats = true) (inbox : String)
    (beat : Option Span) (now : Nat) : (start l).Beats inbox beat now :=
  ⟨hl, fun _ hp => (List.not_mem_nil hp).elim, fun hn => absurd rfl hn⟩

theorem tells_start (l : Limits) (inbox : String) (since : Nat) : (start l).Tells inbox since :=
  Or.inr fun _ hp => (List.not_mem_nil hp).elim

theorem Beats.later (h : b.Beats inbox beat now) {later : Nat} (hle : now ≤ later) :
    b.Beats inbox beat later :=
  ⟨h.heartbeats, fun p hp => ⟨(h.pulls p hp).inbox, (h.pulls p hp).heartbeat,
    (h.pulls p hp).beats.later hle⟩, h.known⟩

/-- Pulls only leave. -/
theorem Beats.fewer (h : b.Beats inbox beat now) (hl : b'.limits = b.limits)
    (hi : b'.inboxes = b.inboxes) (hw : ∀ p ∈ b'.waiting, p ∈ b.waiting) :
    b'.Beats inbox beat now := by
  refine ⟨by rw [hl]; exact h.heartbeats, fun p hp => h.pulls p (hw p hp), fun hn => ?_⟩
  obtain ⟨p, hp⟩ := List.exists_mem_of_ne_nil _ hn
  have hk := h.known (List.ne_nil_of_mem (hw p hp))
  unfold knows at hk ⊢
  rw [hi]
  exact hk

/-- Pulls only leave, and no post does. -/
theorem Tells.fewer (h : b.Tells inbox since) (ha : ∀ f, .post inbox f ∈ b.agenda →
    .post inbox f ∈ b'.agenda) (hw : ∀ p ∈ b'.waiting, p ∈ b.waiting) :
    b'.Tells inbox since :=
  h.imp (fun ⟨f, hf⟩ => ⟨f, ha f hf⟩) fun hall p hp => hall p (hw p hp)

/-- Whoever looks now hears of the broker in time. -/
theorem Beats.tells (h : b.Beats inbox beat now) : b.Tells inbox now :=
  Or.inr fun p hp => (h.pulls p hp).beats

/-! ## Commands -/

section Accept

variable {c : Command}

/-- A request that is taken on is to beat within one heartbeat of now. -/
theorem Beats.accept (h : b.Beats inbox beat now) (hc : c.Serves inbox beat) :
    (b.accept now c).Beats inbox beat now := by
  cases c with
  | publish m => exact h.fewer rfl rfl fun _ hp => hp
  | register dest =>
    obtain rfl : dest = inbox := hc
    refine ⟨h.heartbeats, h.pulls, fun _ => ?_⟩
    exact List.contains_iff_mem.2 List.mem_cons_self
  | pull dest r =>
    obtain ⟨rfl, hr⟩ : dest = inbox ∧ r.heartbeat = beat := hc
    show (b.request now dest r).Beats dest beat now
    rcases request_cases now dest r b with ⟨_, he⟩ | ⟨st, _, _, he⟩ | ⟨hk, _, he⟩ <;> rw [he]
    · exact h.fewer rfl rfl fun _ hp => hp
    · exact h.fewer rfl rfl fun _ hp => hp
    · refine ⟨h.heartbeats, fun p hp => ?_, fun _ => hk⟩
      rcases List.mem_append.1 hp with hp | hp
      · exact h.pulls p hp
      · rw [List.mem_singleton.1 hp, h.heartbeats]
        exact WaitingPull.serves_ofRequest hr now
  | unsubscribe _ | inject _ _ | stats _ | pullLog _ => exact hc.elim

/-- Whoever sent a request was seen when it was sent. -/
theorem Tells.accept (h : b.Tells inbox since) (hb : b.Beats inbox beat now)
    (hc : c.Serves inbox beat) (hp : ∀ dest r, c = .pull dest r → since = now) :
    (b.accept now c).Tells inbox since := by
  cases c with
  | publish m => exact h.fewer (fun f hf => List.mem_append_right _ hf) fun _ hp => hp
  | register dest => exact h.fewer (fun _ hf => hf) fun _ hp => hp
  | pull dest r =>
    rw [hp dest r rfl]
    exact (hb.accept hc).tells
  | unsubscribe _ | inject _ _ | stats _ | pullLog _ => exact hc.elim

end Accept

/-- Who is live stays so when a command is taken in that ends nobody. -/
theorem live_accept {c : Command} {cs : List Command} (hc : c.Serves inbox beat)
    (h : Live inbox b (c :: cs)) : Live inbox (b.accept now c) cs := by
  cases c with
  | publish m => exact h.imp_right fun hm => (List.mem_cons.1 hm).resolve_left fun he => by cases he
  | register dest =>
    obtain rfl : dest = inbox := hc
    exact Or.inl (List.contains_iff_mem.2 List.mem_cons_self)
  | pull dest r =>
    have hi : (b.request now dest r).inboxes = b.inboxes := by
      rcases request_cases now dest r b with ⟨_, he⟩ | ⟨st, _, _, he⟩ | ⟨_, _, he⟩ <;> rw [he] <;>
        rfl
    rcases h with hk | hm
    · refine Or.inl ?_
      show (b.request now dest r).knows inbox = true
      unfold knows at hk ⊢
      rw [hi]
      exact hk
    · exact Or.inr ((List.mem_cons.1 hm).resolve_left fun he => by cases he)
  | unsubscribe _ | inject _ _ | stats _ | pullLog _ => exact hc.elim

/-! ## Chores -/

/-- Handing out resets a timer only for a message that is to be posted. -/
theorem Beats.handOut (h : b.Beats inbox beat now) (since : Nat) :
    (b.handOut now).Beats inbox beat now ∧
      (b.Tells inbox since → (b.handOut now).Tells inbox since) := by
  rcases handOut_cases now b with ⟨he, _⟩ | ⟨m, p, rest, _, hw, _, he⟩ |
    ⟨m, p, rest, _, hw, _, he⟩ <;> rw [he]
  · exact ⟨h, id⟩
  · have hrest : ∀ q ∈ rest, q ∈ b.waiting := fun q hq => by
      rw [hw]
      exact List.mem_cons_of_mem _ hq
    refine ⟨h.fewer rfl rfl hrest, fun ht => ht.fewer (fun f hf => ?_) hrest⟩
    exact List.mem_append_right _ hf
  · have hp : p ∈ b.waiting := by
      rw [hw]
      exact List.mem_cons_self
    have hserves := h.pulls p hp
    refine ⟨⟨h.heartbeats, fun q hq => ?_, fun _ => h.known (List.ne_nil_of_mem hp)⟩,
      fun _ => Or.inl ⟨.message m, ?_⟩⟩
    · have hq' : q = p.charged m.size now ∨ q ∈ rest := by
        dsimp only [first] at hq
        split at hq
        · exact Or.inr hq
        · exact List.mem_cons.1 hq
      rcases hq' with rfl | hq'
      · exact hserves.charged m.size
      · refine h.pulls q ?_
        rw [hw]
        exact List.mem_cons_of_mem _ hq'
    · -- the message is the first thing to be posted
      refine List.mem_append_left _ (List.mem_append_left _ ?_)
      unfold handed
      rw [WaitingPull.inbox_charged, hserves.inbox]
      exact List.mem_cons_self

theorem Beats.endNoWait (h : b.Beats inbox beat now) (dest : String) (since : Nat) :
    (b.endNoWait dest).Beats inbox beat now ∧
      (b.Tells inbox since → (b.endNoWait dest).Tells inbox since) := by
  rcases endNoWait_cases dest b with ⟨he, _⟩ | ⟨p, before, after, _, hw, _, he⟩ <;> rw [he]
  · exact ⟨h, id⟩
  · have hrest : ∀ q ∈ before ++ after, q ∈ b.waiting := fun q hq => by
      rw [hw]
      rcases List.mem_append.1 hq with hq | hq
      · exact List.mem_append_left _ hq
      · exact List.mem_append_right _ (List.mem_cons_of_mem _ hq)
    exact ⟨h.fewer rfl rfl hrest,
      fun ht => ht.fewer (fun f hf => List.mem_append_right _ hf) hrest⟩

/-- A chore is done. What the inbox hears of is still to be heard, unless it is posted now. -/
theorem Beats.work (h : b.Beats inbox beat now) (since : Nat) :
    (b.work now).1.Beats inbox beat now ∧
      (b.Tells inbox since →
        (b.work now).1.Tells inbox since ∨ ∃ f, (b.work now).2 = some (inbox, f)) := by
  have hpopped : ∀ (c : Chore) (rest : List Chore), b.agenda = c :: rest →
      (∀ f, c ≠ .post inbox f) → b.Tells inbox since →
        ({ b with agenda := rest } : State).Tells inbox since :=
    fun c rest ha hc ht => ht.fewer (fun f hf => by
      rw [ha] at hf
      exact (List.mem_cons.1 hf).resolve_left fun he => hc f he.symm) fun _ hp => hp
  have hrest : ∀ rest, ({ b with agenda := rest } : State).Beats inbox beat now :=
    fun rest => h.fewer rfl rfl fun _ hp => hp
  rcases work_cases now b with ⟨_, he⟩ | ⟨dest, f, rest, ha, he⟩ | ⟨rest, ha, he⟩ |
    ⟨dest, rest, ha, he⟩ <;> rw [he]
  · exact ⟨h, Or.inl⟩
  · refine ⟨hrest rest, fun ht => ?_⟩
    by_cases hd : dest = inbox
    · exact Or.inr ⟨f, by rw [hd]⟩
    · exact Or.inl (hpopped _ rest ha (fun g hg => hd (Chore.post.inj hg).1) ht)
  · obtain ⟨hb, ht⟩ := (hrest rest).handOut since
    exact ⟨hb, fun hold => Or.inl (ht (hpopped _ rest ha (fun f hf => by cases hf) hold))⟩
  · obtain ⟨hb, ht⟩ := (hrest rest).endNoWait dest since
    exact ⟨hb, fun hold => Or.inl (ht (hpopped _ rest ha (fun f hf => by cases hf) hold))⟩

/-! ## Timers -/

/-- A pull that expires or beats sends a frame; all others are left alone. -/
theorem Beats.fireTimers (h : b.Beats inbox beat now) (since : Nat) :
    (b.fireTimers now).Beats inbox beat now ∧
      (b.Tells inbox since → (b.fireTimers now).Tells inbox since) := by
  constructor
  · refine ⟨h.heartbeats, fun q hq => ?_, fun hn => ?_⟩
    · obtain ⟨p, hp, hq⟩ := List.mem_filterMap.1 hq
      exact (h.pulls p hp).due hq
    · obtain ⟨q, hq⟩ := List.exists_mem_of_ne_nil _ hn
      obtain ⟨p, hp, _⟩ := List.mem_filterMap.1 hq
      exact h.known (List.ne_nil_of_mem hp)
  · intro ht
    by_cases hsends : ∃ p ∈ b.waiting, (due now p).1 ≠ none
    · obtain ⟨p, hp, hn⟩ := hsends
      obtain ⟨f, hf⟩ := Option.ne_none_iff_exists'.1 hn
      refine Or.inl ⟨f, List.mem_append_left _ (List.mem_filterMap.2 ⟨p, hp, ?_⟩)⟩
      rw [hf, Option.map_some, (h.pulls p hp).inbox]
    · refine ht.fewer (fun f hf => List.mem_append_right _ hf) fun q hq => ?_
      obtain ⟨p, hp, hq⟩ := List.mem_filterMap.1 hq
      have hnone : (due now p).1 = none :=
        Classical.byContradiction fun hn => hsends ⟨p, hp, hn⟩
      rcases due_cases now p with ⟨he, _⟩ | ⟨t, he⟩ | he
      · rw [he] at hnone
        cases hnone
      · rw [he] at hnone
        cases hnone
      · rw [he] at hq
        cases hq
        exact hp

theorem le_deadline_foldl (ps : List WaitingPull) (t : Nat) (d : Option Nat)
    (h : (∃ u, d = some u ∧ u ≤ t) ∨ ∃ p ∈ ps, ∃ u, p.deadline = some u ∧ u ≤ t) :
    ∃ u, ps.foldl (fun d p => WaitingPull.earlier d p.deadline) d = some u ∧ u ≤ t := by
  induction ps generalizing d with
  | nil =>
    rcases h with h | ⟨p, hp, _⟩
    · exact h
    · cases hp
  | cons p ps ih =>
    refine ih _ ?_
    rcases h with ⟨u, rfl, hu⟩ | ⟨q, hq, u, hu, hle⟩
    · exact Or.inl (WaitingPull.exists_earlier_left rfl hu)
    · rcases List.mem_cons.1 hq with rfl | hq
      · exact Or.inl (WaitingPull.exists_earlier_right hu hle)
      · exact Or.inr ⟨q, hq, u, hu, hle⟩

/-- The broker looks at its timers no later than a pull beats. -/
theorem deadline_le {p : WaitingPull} (hp : p ∈ b.waiting) {t : Nat} (ht : p.beatsAt = some t) :
    ∃ u, b.deadline = some u ∧ u ≤ t :=
  le_deadline_foldl b.waiting t none
    (Or.inr ⟨p, hp, WaitingPull.exists_earlier_right ht (Nat.le_refl t)⟩)

end State

end DemandFlow.Broker
